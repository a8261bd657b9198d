/-
# What came over a connection

A session receives by the number of its descriptor, and the operating system
gives the bytes of the connection that holds the number now. After a hard error
of `recv` a session goes on receiving on a number that it closed, and reads what
another client sends. Without one, and if `accept` only uses numbers again that
are closed, the answers a session received are those that came over its own
connection (`readFrom_eq_receivedBy`).

Key definitions: `holder`, `readFrom`.
Key theorems: `isOpen_iff`, `readFrom_eq_receivedBy`.
-/
import RepoInit.Telnet.Descriptors
import RepoInit.Telnet.Isolation
import RepoInit.Telnet.Shutdown

namespace RepoInit
namespace Telnet

/-- The connection that holds a descriptor: the last one accepted on it, if it
was not closed since. -/
def holder (fd : ℕ) : List Event → Option ℕ
  | [] => none
  | .accept id fd' _ :: t => if fd' = fd then some id else holder fd t
  | .close _ fd' :: t => if fd' = fd then none else holder fd t
  | _ :: t => holder fd t

/-- What was read from a connection, oldest first: the answers of `recv` on its
descriptor while it held it, whichever session asked. -/
def readFrom (id : ℕ) : List Event → List Recv
  | [] => []
  | .recv _ fd answer :: t =>
    if holder fd t = some id then readFrom id t ++ [answer] else readFrom id t
  | _ :: t => readFrom id t

/-- An open descriptor has a holder. -/
theorem isOpen_iff (fd : ℕ) (t : List Event) : IsOpen fd t ↔ (holder fd t).isSome := by
  unfold IsOpen
  induction t with
  | nil => simp [closesSince, holder]
  | cons e t ih =>
    cases e with
    | accept id fd' kept => by_cases h : fd' = fd <;> simp [closesSince, holder, h, ih]
    | close id fd' => by_cases h : fd' = fd <;> simp [closesSince, holder, h, ih]
    | _ => exact ih

/-- Events that open and close nothing. -/
theorem holder_quiet {id fd : ℕ} {es : List Event} (h : ∀ e ∈ es, Quiet id fd e) (fd' : ℕ)
    (t : List Event) : holder fd' (es ++ t) = holder fd' t := by
  induction es with
  | nil => rfl
  | cons e es ih =>
    have ih := ih fun e' he => h e' (List.mem_cons_of_mem _ he)
    rcases h e List.mem_cons_self with (⟨data, r, rfl⟩ | ⟨l, ok, rfl⟩) | ⟨answer, rfl⟩ | rfl <;> exact ih

/-- Events that receive nothing. -/
theorem readFrom_of_no_recv {es : List Event} (h : ∀ i fd answer, .recv i fd answer ∉ es) (id : ℕ)
    (t : List Event) : readFrom id (es ++ t) = readFrom id t := by
  induction es with
  | nil => rfl
  | cons e es ih =>
    have ih := ih fun i fd answer hm => h i fd answer (List.mem_cons_of_mem _ hm)
    cases e with
    | recv i fd answer => exact absurd List.mem_cons_self (h i fd answer)
    | _ => exact ih

/-! ### Runs without hard errors -/

/-- Every session holds its descriptor, and receives over its own connection. -/
structure ReadsOwn (srv : TelnetServer) : Prop where
  holds : ∀ s ∈ srv.sessions, holder s.socket srv.world.trace = some s.id
  reads : ∀ id, readFrom id srv.world.trace = receivedBy id srv.world.trace

theorem ReadsOwn.accept {srv srv' : TelnetServer} {b : Bool} (ha : Accepts srv srv' b)
    (hposix : PosixAlloc srv'.world.trace) (h : ReadsOwn srv) : ReadsOwn srv' := by
  have hreceived := accepts_receivedBy ha
  obtain ⟨-, es, htrace, hno⟩ := ha.grows
  have hreads : ∀ id, readFrom id srv'.world.trace = receivedBy id srv'.world.trace := by
    intro id
    rw [hreceived, htrace, readFrom_of_no_recv hno]
    exact h.reads id
  -- a number that is given out is none of the sessions'
  have hfresh : ∀ {fd : ℕ}, ¬ IsOpen fd srv.world.trace → ∀ s ∈ srv.sessions, fd ≠ s.socket := by
    rintro fd hfd s hs rfl
    exact hfd ((isOpen_iff _ _).mpr (by rw [h.holds s hs]; rfl))
  refine ⟨?_, hreads⟩
  cases ha with
  | failed hs ht ha =>
    rw [hs, ht]
    exact h.holds
  | refused fd es hmax hsends hs ht ha =>
    have hfd : ¬ IsOpen fd srv.world.trace := by
      rw [ht] at hposix
      exact (hposix.of_suffix (List.suffix_append _ _)).1
    rw [hs, ht]
    intro s hm
    have hne := hfresh hfd s hm
    show (if fd = s.socket then none else holder s.socket (es ++ _)) = _
    rw [if_neg hne, holder_quiet (isWork_quiet hsends), holder, if_neg hne]
    exact h.holds s hm
  | kept s es hmax hid hsends hs ht ha =>
    have hfd : ¬ IsOpen s.socket srv.world.trace := by
      rw [ht] at hposix
      exact (hposix.of_suffix (List.suffix_append _ _)).1
    rw [hs, ht]
    intro s' hm
    rw [holder_quiet (isWork_quiet hsends), holder]
    rcases List.mem_append.mp hm with hm | hm
    · rw [if_neg (hfresh hfd s' hm)]
      exact h.holds s' hm
    · rw [List.mem_singleton.mp hm, if_pos rfl]

theorem ReadsOwn.turn {srv : TelnetServer} {done todo rest : List TelnetSession} {s : TelnetSession}
    {answer : Recv} {es closed : List Event} {stat : TelnetSessionStats} {p : ℕ × TelnetServer}
    (hs : srv.sessions = done ++ s :: todo)
    (ht : Turn done s todo srv answer es stat rest closed p)
    (hsoft : NoHardError p.2.world.trace) (howned : Owned srv) (h : ReadsOwn srv) : ReadsOwn p.2 := by
  have hmem : s ∈ srv.sessions := by simp [hs]
  have hwork : ∀ e ∈ es, IsWork s.id s.socket e := by
    rcases ht.events with ⟨hhard, -⟩ | ⟨-, hwork⟩
    · exact absurd hhard (hsoft s.id s.socket answer (by simp [ht.trace]))
    · exact hwork
  have hquiet : ∀ e ∈ es ++ [.recv s.id s.socket answer], Quiet s.id s.socket e := by
    intro e he
    rcases List.mem_append.mp he with he | he
    · exact Or.inl (hwork e he)
    · exact Or.inr (Or.inl ⟨answer, List.mem_singleton.mp he⟩)
  have hholder : ∀ r ∈ srv.sessions,
      holder r.socket (es ++ .recv s.id s.socket answer :: srv.world.trace) = some r.id := by
    intro r hr
    have := holder_quiet hquiet r.socket srv.world.trace
    rw [List.append_assoc] at this
    exact this.trans (h.holds r hr)
  constructor
  · intro r hr
    rw [ht.trace, List.append_assoc]
    rcases ht.outcome with ⟨s', -, -, rfl, rfl⟩ | ⟨rfl, rfl⟩
    · obtain ⟨r', hr', hid, hsocket⟩ := ht.left hs r hr
      rw [← hid, ← hsocket]
      exact hholder r' hr'
    · -- the session that went is no other's
      have hr' : r ∈ done ++ todo := by simpa [ht.sessions] using hr
      have hne := others_ne hs howned.sockets r hr'
      have hbefore : r ∈ srv.sessions := by
        rw [hs]
        rcases List.mem_append.mp hr' with hr' | hr'
        · exact List.mem_append_left _ hr'
        · exact List.mem_append_right _ (List.mem_cons_of_mem _ hr')
      show (if s.socket = r.socket then none else holder r.socket _) = _
      rw [if_neg hne.symm]
      exact hholder r hbefore
  · intro id
    have hno : ∀ i fd a, .recv i fd a ∉ closed ++ es := by
      intro i fd a hm
      rcases List.mem_append.mp hm with hm | hm
      · rcases ht.outcome with ⟨-, -, -, -, rfl⟩ | ⟨-, rfl⟩ <;> simp [closing] at hm
      · exact ht.events.no_recv i fd a hm
    have hrecv : readFrom id (.recv s.id s.socket answer :: srv.world.trace) =
        receivedBy id (.recv s.id s.socket answer :: srv.world.trace) := by
      simp only [readFrom, receivedBy, h.holds s hmem, Option.some.injEq, h.reads id]
    rw [ht.trace, readFrom_of_no_recv hno, receivedBy_append, receivedBy_of_no_recv hno,
      List.append_nil]
    exact hrecv

/-- **A session receives what came over its own connection**, in every state of
a run without hard errors. -/
theorem readFrom_eq_receivedBy (os : Os) (stats : Option TelnetStats) {srv : TelnetServer}
    (hr : Reached os { stats := stats } srv) (hposix : PosixAlloc srv.world.trace)
    (hsoft : NoHardError srv.world.trace) (id : ℕ) :
    readFrom id srv.world.trace = receivedBy id srv.world.trace := by
  have hkept : Owned srv ∧ ReadsOwn srv := by
    refine reached_rule os (P := fun srv => PosixAlloc srv.world.trace → NoHardError srv.world.trace →
      Owned srv ∧ ReadsOwn srv) ?_ ?_ ?_ ?_ hr hposix hsoft
    · intro done s todo srv answer es stat rest closed p hs ht ih hposix hsoft
      obtain ⟨howned, hreads⟩ := ih (hposix.of_suffix ht.suffix) (hsoft.of_suffix ht.suffix)
      exact ⟨howned.turn hs ht hsoft, hreads.turn hs ht hsoft howned⟩
    · intro srv srv' b ha ih hposix hsoft
      obtain ⟨howned, hreads⟩ := ih (hposix.of_suffix ha.suffix) (hsoft.of_suffix ha.suffix)
      exact ⟨howned.accept ha hposix, hreads.accept ha hposix⟩
    · intro srv st n ih hposix hsoft
      obtain ⟨howned, hreads⟩ := ih hposix hsoft
      exact ⟨howned.same st n, hreads.holds, hreads.reads⟩
    · exact fun _ _ => ⟨owned_start stats, by simp, fun id => rfl⟩
  exact hkept.2.reads id

end Telnet
end RepoInit
