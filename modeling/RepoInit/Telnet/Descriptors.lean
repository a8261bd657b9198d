/-
# Who owns a descriptor

After a hard error of `recv` a session closes its socket and stays in
`m_sessions`: the next tick receives on the closed number, which another client
may own by then (`not_ownsDescriptors_resetOs`). Without such an error every
descriptor has one owner: a session in `m_sessions` has an open descriptor that
it has not closed, and no two have the same (`Owned`), so that nothing is used
after its session closed it and nothing is closed twice
(`ownsDescriptors_of_reached`).

Key definitions: `closesSince`, `OwnsDescriptors`, `PosixAlloc`, `NoHardError`,
`Owned`.
Key theorems: `Owned.accept`, `Owned.turn`, `ownsDescriptors_of_reached`.
-/
import RepoInit.Telnet.Server

namespace RepoInit
namespace Telnet

/-! ### What a trace says about descriptors -/

/-- The session and the descriptor of a `recv`, a `send` or a `close`. -/
def Event.use : Event → Option (ℕ × ℕ)
  | .recv id fd _ => some (id, fd)
  | .send id fd _ _ => some (id, fd)
  | .close id fd => some (id, fd)
  | _ => none

/-- How often `fd` was closed since it was last accepted; `none` if it never
was. -/
def closesSince (fd : ℕ) : List Event → Option ℕ
  | [] => none
  | .accept _ fd' _ :: t => if fd' = fd then some 0 else closesSince fd t
  | .close _ fd' :: t => if fd' = fd then (closesSince fd t).map (· + 1) else closesSince fd t
  | _ :: t => closesSince fd t

/-- `fd` was accepted and is not closed. -/
def IsOpen (fd : ℕ) (trace : List Event) : Prop := closesSince fd trace = some 0

/-- No session uses a descriptor after it closed it itself. -/
def NoUseAfterClose (trace : List Event) : Prop :=
  trace.Pairwise fun e e' => ∀ id fd, e.use = some (id, fd) → e' ≠ .close id fd

/-- At every moment every accepted descriptor was closed at most once. -/
def ClosedOnce (trace : List Event) : Prop :=
  ∀ t, t <:+ trace → ∀ fd k, closesSince fd t = some k → k ≤ 1

structure OwnsDescriptors (srv : TelnetServer) : Prop where
  noUseAfterClose : NoUseAfterClose srv.world.trace
  closedOnce : ClosedOnce srv.world.trace
  nodup : (srv.sessions.map (·.socket)).Nodup

/-- `accept` always returned a number that was not open, perhaps one that was
closed. -/
def PosixAlloc : List Event → Prop
  | [] => True
  | .accept _ fd _ :: t => ¬ IsOpen fd t ∧ PosixAlloc t
  | _ :: t => PosixAlloc t

/-- No `recv` failed with an `errno` other than `EAGAIN`. -/
def NoHardError (trace : List Event) : Prop :=
  ∀ id fd answer, .recv id fd answer ∈ trace → ¬ answer.hard

theorem closedOnce_cons {e : Event} {t : List Event} :
    ClosedOnce (e :: t) ↔ (∀ fd k, closesSince fd (e :: t) = some k → k ≤ 1) ∧ ClosedOnce t := by
  unfold ClosedOnce
  constructor
  · exact fun h => ⟨h _ List.suffix_rfl, fun t' ht => h t' (ht.trans (List.suffix_cons e t))⟩
  · rintro ⟨h, h'⟩ t' ht
    rcases List.suffix_cons_iff.mp ht with rfl | ht
    · exact h
    · exact h' t' ht

theorem PosixAlloc.tail {e : Event} {t : List Event} (h : PosixAlloc (e :: t)) : PosixAlloc t := by
  cases e with
  | accept id fd kept => exact h.2
  | _ => exact h

theorem PosixAlloc.of_suffix {t t' : List Event} (h : PosixAlloc t') (ht : t <:+ t') :
    PosixAlloc t := by
  obtain ⟨es, rfl⟩ := ht
  induction es with
  | nil => exact h
  | cons e es ih => exact ih h.tail

theorem NoHardError.of_suffix {t t' : List Event} (h : NoHardError t') (ht : t <:+ t') :
    NoHardError t :=
  fun id fd answer ha => h id fd answer (ht.subset ha)

/-! ### Events that neither open nor close -/

/-- An event of the session `id` on `fd` between its accepting and its
closing. -/
def Quiet (id fd : ℕ) (e : Event) : Prop :=
  IsWork id fd e ∨ (∃ answer, e = .recv id fd answer) ∨ e = .shutdown id fd

/-- What a trace must say for a session to own its descriptor. -/
structure Owns (id fd : ℕ) (trace : List Event) : Prop where
  isOpen : IsOpen fd trace
  notClosed : ∀ fd', .close id fd' ∉ trace

/-- What two traces have in common if only quiet events lie between them. -/
structure SameOwners (t t' : List Event) : Prop where
  closes : ∀ fd, closesSince fd t' = closesSince fd t
  closed : ∀ id fd, Event.close id fd ∈ t' ↔ .close id fd ∈ t

theorem SameOwners.trans {t₁ t₂ t₃ : List Event} (h : SameOwners t₁ t₂) (h' : SameOwners t₂ t₃) :
    SameOwners t₁ t₃ :=
  ⟨fun fd => (h'.closes fd).trans (h.closes fd), fun id fd => (h'.closed id fd).trans (h.closed id fd)⟩

theorem SameOwners.owns {t t' : List Event} (h : SameOwners t t') {id fd : ℕ} (ho : Owns id fd t) :
    Owns id fd t' :=
  ⟨(h.closes fd).trans ho.isOpen, fun fd' hm => ho.notClosed fd' ((h.closed id fd').mp hm)⟩

section Quiet

variable {id fd : ℕ}

theorem Quiet.sameOwners {e : Event} (h : Quiet id fd e) (t : List Event) :
    SameOwners t (e :: t) := by
  rcases h with (⟨data, r, rfl⟩ | ⟨l, ok, rfl⟩) | ⟨answer, rfl⟩ | rfl <;>
    exact ⟨fun _ => rfl, by simp⟩

theorem Quiet.use {e : Event} (h : Quiet id fd e) {id' fd' : ℕ} (hu : e.use = some (id', fd')) :
    id' = id ∧ fd' = fd := by
  rcases h with (⟨data, r, rfl⟩ | ⟨l, ok, rfl⟩) | ⟨answer, rfl⟩ | rfl <;>
    simp_all [Event.use]

/-- Quiet events of a session that has not closed its descriptor. -/
theorem quiet_append {es t : List Event} (h : ∀ e ∈ es, Quiet id fd e) (hc : .close id fd ∉ t)
    (hu : NoUseAfterClose t) (ho : ClosedOnce t) :
    SameOwners t (es ++ t) ∧ NoUseAfterClose (es ++ t) ∧ ClosedOnce (es ++ t) := by
  induction es with
  | nil => exact ⟨⟨fun _ => rfl, fun _ _ => Iff.rfl⟩, hu, ho⟩
  | cons e es ih =>
    obtain ⟨hsame, hu', ho'⟩ := ih fun e' he => h e' (List.mem_cons_of_mem _ he)
    have he := h e List.mem_cons_self
    have hstep := he.sameOwners (es ++ t)
    refine ⟨hsame.trans hstep, List.pairwise_cons.mpr ⟨?_, hu'⟩, closedOnce_cons.mpr ⟨?_, ho'⟩⟩
    · rintro e' hm id' fd' huse rfl
      obtain ⟨rfl, rfl⟩ := he.use huse
      exact hc ((hsame.closed _ _).mp hm)
    · intro fd' k hk
      exact ho' _ List.suffix_rfl fd' k ((hstep.closes fd').symm.trans hk)

/-- An owner closes its descriptor. -/
theorem close_cons {t : List Event} (howns : Owns id fd t) (hu : NoUseAfterClose t)
    (ho : ClosedOnce t) :
    NoUseAfterClose (.close id fd :: t) ∧ ClosedOnce (.close id fd :: t) := by
  refine ⟨List.pairwise_cons.mpr ⟨?_, hu⟩, closedOnce_cons.mpr ⟨fun fd' k hk => ?_, ho⟩⟩
  · rintro e' hm id' fd' huse rfl
    simp only [Event.use, Option.some.injEq, Prod.mk.injEq] at huse
    obtain ⟨rfl, rfl⟩ := huse
    exact howns.notClosed _ hm
  · by_cases hfd : fd = fd'
    · subst hfd
      have hopen : closesSince fd t = some 0 := howns.isOpen
      simp only [closesSince, if_true, hopen, Option.map_some, Option.some.injEq] at hk
      omega
    · rw [closesSince, if_neg hfd] at hk
      exact ho _ List.suffix_rfl fd' k hk

/-- Another's closing does not matter to an owner. -/
theorem Owns.close_cons {t : List Event} {id' fd' : ℕ} (h : Owns id fd t) (hid : id' ≠ id)
    (hfd : fd' ≠ fd) : Owns id fd (.close id' fd' :: t) := by
  refine ⟨?_, fun f hm => ?_⟩
  · unfold IsOpen
    rw [closesSince, if_neg hfd]
    exact h.isOpen
  · rcases List.mem_cons.mp hm with hm | hm
    · injection hm with h1
      exact hid h1.symm
    · exact h.notClosed f hm

/-- A descriptor is accepted. -/
theorem accept_cons {t : List Event} (kept : Bool) (hu : NoUseAfterClose t) (ho : ClosedOnce t) :
    NoUseAfterClose (.accept id fd kept :: t) ∧ ClosedOnce (.accept id fd kept :: t) := by
  refine ⟨List.pairwise_cons.mpr ⟨?_, hu⟩, closedOnce_cons.mpr ⟨fun fd' k hk => ?_, ho⟩⟩
  · intro e' _ id' fd' huse
    simp [Event.use] at huse
  · by_cases hfd : fd = fd'
    · rw [closesSince, if_pos hfd, Option.some.injEq] at hk
      omega
    · rw [closesSince, if_neg hfd] at hk
      exact ho _ List.suffix_rfl fd' k hk

theorem Owns.accept_cons {t : List Event} {id' fd' : ℕ} (kept : Bool) (h : Owns id fd t)
    (hfd : fd' ≠ fd) : Owns id fd (.accept id' fd' kept :: t) := by
  refine ⟨?_, fun f hm => h.notClosed f (by simpa using hm)⟩
  unfold IsOpen
  rw [closesSince, if_neg hfd]
  exact h.isOpen

end Quiet

/-! ### The invariant -/

/-- Every session owns its descriptor, and no other session does. -/
structure Owned (srv : TelnetServer) : Prop where
  owns : ∀ s ∈ srv.sessions, Owns s.id s.socket srv.world.trace
  ids : (srv.sessions.map (·.id)).Nodup
  sockets : (srv.sessions.map (·.socket)).Nodup
  sessions_lt : ∀ s ∈ srv.sessions, s.id < srv.world.accepted
  closed_lt : ∀ id fd, .close id fd ∈ srv.world.trace → id < srv.world.accepted
  noUse : NoUseAfterClose srv.world.trace
  once : ClosedOnce srv.world.trace

theorem Owned.ownsDescriptors {srv : TelnetServer} (h : Owned srv) : OwnsDescriptors srv :=
  ⟨h.noUse, h.once, h.sockets⟩

theorem mem_closing_append {id fd id' fd' : ℕ} {t : List Event} :
    Event.close id' fd' ∈ closing id fd ++ t ↔ (id' = id ∧ fd' = fd) ∨ .close id' fd' ∈ t := by
  simp [closing]

/-- A descriptor is accepted, used quietly and left open. -/
theorem Owned.open_append {srv : TelnetServer} (h : Owned srv) {fd : ℕ} (kept : Bool)
    {es : List Event} (hes : ∀ e ∈ es, Quiet srv.world.accepted fd e) (hfd : ¬ IsOpen fd srv.world.trace) :
    let t := es ++ .accept srv.world.accepted fd kept :: srv.world.trace
    NoUseAfterClose t ∧ ClosedOnce t ∧ Owns srv.world.accepted fd t ∧
      (∀ s ∈ srv.sessions, s.socket ≠ fd ∧ Owns s.id s.socket t) ∧
      ∀ id fd', .close id fd' ∈ t → id < srv.world.accepted := by
  intro t
  have hfresh : ∀ fd', Event.close srv.world.accepted fd' ∉
      .accept srv.world.accepted fd kept :: srv.world.trace := by
    intro fd' hm
    exact absurd (h.closed_lt _ fd' (by simpa using hm)) (lt_irrefl _)
  obtain ⟨hu, ho⟩ := accept_cons kept h.noUse h.once
  obtain ⟨hsame, hu', ho'⟩ := quiet_append hes (hfresh fd) hu ho
  refine ⟨hu', ho', hsame.owns ⟨?_, hfresh⟩, fun s hs => ?_, fun id fd' hm => ?_⟩
  · unfold IsOpen
    rw [closesSince, if_pos rfl]
  · have hne : s.socket ≠ fd := by
      rintro rfl
      exact hfd (h.owns s hs).isOpen
    exact ⟨hne, hsame.owns ((h.owns s hs).accept_cons kept hne.symm)⟩
  · exact h.closed_lt id fd' (by simpa using (hsame.closed id fd').mp hm)

theorem isWork_quiet {id fd : ℕ} {es : List Event} (h : ∀ e ∈ es, IsSend id fd e) :
    ∀ e ∈ es, Quiet id fd e :=
  fun e he => Or.inl (Or.inl (h e he))

theorem Owned.accept {srv srv' : TelnetServer} {b : Bool} (ha : Accepts srv srv' b)
    (hposix : PosixAlloc srv'.world.trace) (h : Owned srv) : Owned srv' := by
  have hlt' := ha.sessions_lt h.sessions_lt
  have hids' := ha.nodup_ids h.sessions_lt h.ids
  cases ha with
  | failed hs ht ha =>
    refine ⟨?_, hids', ?_, hlt', ?_, ?_, ?_⟩
    · rw [hs, ht]
      exact h.owns
    · rw [hs]
      exact h.sockets
    · rw [ht, ha]
      exact h.closed_lt
    · rw [ht]
      exact h.noUse
    · rw [ht]
      exact h.once
  | refused fd es hmax hsends hs ht ha =>
    have hfd : ¬ IsOpen fd srv.world.trace := by
      rw [ht] at hposix
      exact (hposix.of_suffix (List.suffix_append _ _)).1
    -- the shutdown is quiet, the close is the owner's
    have hquiet : ∀ e ∈ .shutdown srv.world.accepted fd :: es, Quiet srv.world.accepted fd e := by
      intro e he
      rcases List.mem_cons.mp he with rfl | he
      · exact Or.inr (Or.inr rfl)
      · exact isWork_quiet hsends e he
    obtain ⟨hu, ho, howns, hothers, hlt⟩ := h.open_append false hquiet hfd
    obtain ⟨hu', ho'⟩ := close_cons howns hu ho
    refine ⟨?_, hids', ?_, hlt', ?_, ?_, ?_⟩
    · rw [hs, ht]
      intro s hm
      exact (hothers s hm).2.close_cons (h.sessions_lt s hm).ne' (hothers s hm).1.symm
    · rw [hs]
      exact h.sockets
    · rw [ht, ha, List.append_assoc]
      intro id fd' hm
      rcases mem_closing_append.mp hm with ⟨rfl, -⟩ | hm
      · exact Nat.lt_succ_self _
      · exact (hlt id fd' (List.mem_cons_of_mem _ hm)).trans (Nat.lt_succ_self _)
    · rw [ht]
      exact hu'
    · rw [ht]
      exact ho'
  | kept s es hmax hid hsends hs ht ha =>
    rw [hid] at hsends ht
    have hfd : ¬ IsOpen s.socket srv.world.trace := by
      rw [ht] at hposix
      exact (hposix.of_suffix (List.suffix_append _ _)).1
    obtain ⟨hu, ho, howns, hothers, hlt⟩ := h.open_append true (isWork_quiet hsends) hfd
    refine ⟨?_, hids', ?_, hlt', ?_, ?_, ?_⟩
    · rw [hs, ht]
      intro s' hm
      rcases List.mem_append.mp hm with hm | hm
      · exact (hothers s' hm).2
      · rw [List.mem_singleton.mp hm, hid]
        exact howns
    · rw [hs, List.map_append, List.map_singleton, List.nodup_append]
      refine ⟨h.sockets, List.nodup_singleton _, ?_⟩
      rintro i hi j hj rfl
      obtain ⟨s', hm, rfl⟩ := List.mem_map.mp hi
      exact (hothers s' hm).1 (List.mem_singleton.mp hj)
    · rw [ht, ha]
      exact fun id fd' hm => (hlt id fd' hm).trans (Nat.lt_succ_self _)
    · rw [ht]
      exact hu
    · rw [ht]
      exact ho

/-- A session is used quietly and stays. -/
theorem Owned.stay {srv srv' : TelnetServer} {s : TelnetSession} {es : List Event} (h : Owned srv)
    (hmem : s ∈ srv.sessions) (hquiet : ∀ e ∈ es, Quiet s.id s.socket e)
    (hids : srv'.sessions.map (·.id) = srv.sessions.map (·.id))
    (hsockets : srv'.sessions.map (·.socket) = srv.sessions.map (·.socket))
    (hleft : ∀ r ∈ srv'.sessions, ∃ r' ∈ srv.sessions, r'.id = r.id ∧ r'.socket = r.socket)
    (htrace : srv'.world.trace = es ++ srv.world.trace)
    (haccepted : srv'.world.accepted = srv.world.accepted) : Owned srv' := by
  obtain ⟨hsame, hu, ho⟩ := quiet_append hquiet ((h.owns s hmem).notClosed _) h.noUse h.once
  rw [← htrace] at hsame hu ho
  refine ⟨fun r hr => ?_, ?_, ?_, fun r hr => ?_, fun id fd hm => ?_, hu, ho⟩
  · obtain ⟨r', hr', hrid, hrsocket⟩ := hleft r hr
    rw [← hrid, ← hrsocket]
    exact hsame.owns (h.owns r' hr')
  · rw [hids]
    exact h.ids
  · rw [hsockets]
    exact h.sockets
  · obtain ⟨r', hr', hrid, -⟩ := hleft r hr
    rw [haccepted, ← hrid]
    exact h.sessions_lt r' hr'
  · rw [haccepted]
    exact h.closed_lt id fd ((hsame.closed id fd).mp hm)

/-- A session is used quietly, closed and goes. -/
theorem Owned.leave {srv srv' : TelnetServer} {s : TelnetSession} {es : List Event} (h : Owned srv)
    (hmem : s ∈ srv.sessions) (hquiet : ∀ e ∈ es, Quiet s.id s.socket e)
    (hsub : srv'.sessions.Sublist srv.sessions)
    (hother : ∀ r ∈ srv'.sessions, r.id ≠ s.id ∧ r.socket ≠ s.socket)
    (htrace : srv'.world.trace = .close s.id s.socket :: (es ++ srv.world.trace))
    (haccepted : srv'.world.accepted = srv.world.accepted) : Owned srv' := by
  have howns := h.owns s hmem
  obtain ⟨hsame, hu, ho⟩ := quiet_append hquiet (howns.notClosed _) h.noUse h.once
  obtain ⟨hu', ho'⟩ := close_cons (hsame.owns howns) hu ho
  rw [← htrace] at hu' ho'
  refine ⟨fun r hr => ?_, h.ids.sublist (hsub.map _), h.sockets.sublist (hsub.map _),
    fun r hr => ?_, fun id fd hm => ?_, hu', ho'⟩
  · rw [htrace]
    have hr' := hsame.owns (h.owns r (hsub.subset hr))
    exact hr'.close_cons (hother r hr).1.symm (hother r hr).2.symm
  · rw [haccepted]
    exact h.sessions_lt r (hsub.subset hr)
  · rw [haccepted]
    rw [htrace] at hm
    rcases List.mem_cons.mp hm with hm | hm
    · injection hm with hid
      rw [hid]
      exact h.sessions_lt s hmem
    · exact h.closed_lt id fd ((hsame.closed id fd).mp hm)

theorem Owned.turn {srv : TelnetServer} {done todo rest : List TelnetSession} {s : TelnetSession}
    {answer : Recv} {es closed : List Event} {stat : TelnetSessionStats} {p : ℕ × TelnetServer}
    (hs : srv.sessions = done ++ s :: todo)
    (ht : Turn done s todo srv answer es stat rest closed p)
    (hsoft : NoHardError p.2.world.trace) (h : Owned srv) : Owned p.2 := by
  have hmem : s ∈ srv.sessions := by simp [hs]
  have hanswer : ¬ answer.hard := hsoft s.id s.socket answer (by simp [ht.trace])
  have hwork : ∀ e ∈ es, IsWork s.id s.socket e := by
    rcases ht.events with ⟨hhard, -⟩ | ⟨-, hwork⟩
    · exact absurd hhard hanswer
    · exact hwork
  have hquiet : ∀ e ∈ es ++ [.recv s.id s.socket answer], Quiet s.id s.socket e := by
    intro e he
    rcases List.mem_append.mp he with he | he
    · exact Or.inl (hwork e he)
    · exact Or.inr (Or.inl ⟨answer, List.mem_singleton.mp he⟩)
  rcases ht.outcome with ⟨s', hid, hsocket, rfl, rfl⟩ | ⟨rfl, rfl⟩
  · have hmap : ∀ {α : Type} (f : TelnetSession → α), f s' = f s →
        p.2.sessions.map f = srv.sessions.map f := by
      intro α f hf
      simp [ht.sessions, hs, hf]
    exact h.stay hmem hquiet (hmap _ hid) (hmap _ hsocket) (ht.left hs) (by simp [ht.trace])
      ht.accepted
  · -- the session is closed and goes
    have hquiet' : ∀ e ∈ .shutdown s.id s.socket :: (es ++ [.recv s.id s.socket answer]),
        Quiet s.id s.socket e := by
      intro e he
      rcases List.mem_cons.mp he with rfl | he
      · exact Or.inr (Or.inr rfl)
      · exact hquiet e he
    have hsub : p.2.sessions.Sublist srv.sessions := by
      rw [ht.sessions, hs, List.append_nil]
      exact (List.sublist_cons_self s todo).append_left done
    have hother : ∀ r ∈ p.2.sessions, r.id ≠ s.id ∧ r.socket ≠ s.socket := by
      intro r hr
      have hr' : r ∈ done ++ todo := by simpa [ht.sessions] using hr
      exact ⟨others_ne hs h.ids r hr', others_ne hs h.sockets r hr'⟩
    exact h.leave hmem hquiet' hsub hother (by simp [ht.trace, closing]) ht.accepted

/-! ### Runs -/

/-- Sessions that own their descriptors close them all. -/
theorem closeClients_owned (os : Os) (sessions : List TelnetSession) (w : World)
    (howns : ∀ s ∈ sessions, Owns s.id s.socket w.trace) (hids : (sessions.map (·.id)).Nodup)
    (hsockets : (sessions.map (·.socket)).Nodup) (hu : NoUseAfterClose w.trace)
    (ho : ClosedOnce w.trace) :
    NoUseAfterClose (sessions.foldl (fun w s => (closeClient os ⟨s, w⟩).world) w).trace ∧
      ClosedOnce (sessions.foldl (fun w s => (closeClient os ⟨s, w⟩).world) w).trace := by
  induction sessions generalizing w with
  | nil => exact ⟨hu, ho⟩
  | cons s sessions ih =>
    rw [List.map_cons, List.nodup_cons] at hids hsockets
    have hs := howns s List.mem_cons_self
    have hquiet : ∀ e ∈ [Event.shutdown s.id s.socket], Quiet s.id s.socket e :=
      fun e he => Or.inr (Or.inr (List.mem_singleton.mp he))
    obtain ⟨hsame, hu', ho'⟩ := quiet_append hquiet (hs.notClosed _) hu ho
    obtain ⟨hu'', ho''⟩ := close_cons (hsame.owns hs) hu' ho'
    refine ih (closeClient os ⟨s, w⟩).world (fun r hr => ?_) hids.2 hsockets.2 hu'' ho''
    have hr' := hsame.owns (howns r (List.mem_cons_of_mem _ hr))
    refine hr'.close_cons ?_ ?_
    · exact fun heq => hids.1 (heq ▸ List.mem_map_of_mem hr)
    · exact fun heq => hsockets.1 (heq ▸ List.mem_map_of_mem hr)

theorem Owned.shutdown {srv : TelnetServer} (os : Os) (h : Owned srv) :
    OwnsDescriptors (srv.shutdown os) := by
  obtain ⟨hu, ho⟩ :=
    closeClients_owned os srv.sessions srv.world h.owns h.ids h.sockets h.noUse h.once
  exact ⟨hu, ho, List.nodup_nil⟩

theorem owned_start (stats : Option TelnetStats) : Owned { stats := stats } := by
  constructor
  · simp
  · simp
  · simp
  · simp
  · simp
  · exact List.Pairwise.nil
  · intro t ht fd k hk
    rw [List.suffix_nil.mp ht, closesSince] at hk
    cases hk

/-- Neither the statistics nor the clock matter. -/
theorem Owned.same {srv : TelnetServer} (h : Owned srv) (st : Option TelnetStats) (n : ℕ) :
    Owned { srv with stats := st, world := { srv.world with n := n } } :=
  ⟨h.owns, h.ids, h.sockets, h.sessions_lt, h.closed_lt, h.noUse, h.once⟩

/-- **Without a hard error of `recv` every descriptor is owned.** In every
state of a run, and after the shutdown that ends it there. -/
theorem ownsDescriptors_of_reached (os : Os) (stats : Option TelnetStats) (srv : TelnetServer)
    (hr : Reached os { stats := stats } srv) (hposix : PosixAlloc srv.world.trace)
    (hsoft : NoHardError srv.world.trace) :
    OwnsDescriptors srv ∧ OwnsDescriptors (srv.shutdown os) := by
  have howned : Owned srv := by
    refine reached_rule os
      (P := fun srv => PosixAlloc srv.world.trace → NoHardError srv.world.trace → Owned srv)
      ?_ ?_ ?_ ?_ hr hposix hsoft
    · intro done s todo srv answer es stat rest closed p hs ht ih hposix hsoft
      exact (ih (hposix.of_suffix ht.suffix) (hsoft.of_suffix ht.suffix)).turn hs ht hsoft
    · intro srv srv' b ha ih hposix hsoft
      exact (ih (hposix.of_suffix ha.suffix) (hsoft.of_suffix ha.suffix)).accept ha hposix
    · exact fun srv st n ih hposix hsoft => (ih hposix hsoft).same st n
    · exact fun _ _ => owned_start stats
  exact ⟨howned.ownsDescriptors, howned.shutdown os⟩

/-- Every tick a client connects, is given descriptor 5, sends nothing and
times out. -/
def idleOs : Os :=
  { (default : Os) with
    select := fun _ => true, accept := fun _ => some 5, recv := fun _ => .fail EAGAIN,
    systemClock := fun n => 200000000000 * n }

theorem idleOs_trace :
    (ticks idleOs [default, default] {}).world.trace =
      [.close 1 5, .shutdown 1 5, .recv 1 5 (.fail EAGAIN), .send 1 5 [0xff, 0xfb, 0x03] 0,
       .send 1 5 [0xff, 0xfe, 0x01] 0, .send 1 5 [0xff, 0xfb, 0x01] 0, .accept 1 5 true,
       .close 0 5, .shutdown 0 5, .recv 0 5 (.fail EAGAIN), .send 0 5 [0xff, 0xfb, 0x03] 0,
       .send 0 5 [0xff, 0xfe, 0x01] 0, .send 0 5 [0xff, 0xfb, 0x01] 0, .accept 0 5 true] := by
  decide +kernel

/-- A descriptor that is used again has one owner at a time. -/
theorem ownsDescriptors_idleOs :
    OwnsDescriptors (ticks idleOs [default, default] {}) ∧
      OwnsDescriptors ((ticks idleOs [default, default] {}).shutdown idleOs) := by
  refine ownsDescriptors_of_reached idleOs none _ (.ticks _) ?_ ?_
  · rw [idleOs_trace]
    simp [PosixAlloc, IsOpen, closesSince]
  · rw [idleOs_trace]
    intro id fd answer hm
    obtain rfl : answer = .fail EAGAIN := by
      simp only [List.mem_cons, Event.recv.injEq, reduceCtorEq, false_or, List.not_mem_nil,
        or_false] at hm
      rcases hm with ⟨-, -, h⟩ | ⟨-, -, h⟩ <;> exact h
    exact fun h => h rfl

def ECONNRESET : ℕ := 104

/-- Every tick a client connects, is given descriptor 5 and resets. -/
def resetOs : Os :=
  { (default : Os) with
    select := fun _ => true, accept := fun _ => some 5, recv := fun _ => .fail ECONNRESET }

/-- The trace of two ticks: in the second, session 0 receives on descriptor 5,
which it closed and session 1 owns, and both close it. -/
theorem resetOs_trace :
    (ticks resetOs [default, default] {}).world.trace =
      [.close 1 5, .recv 1 5 (.fail ECONNRESET), .close 0 5, .recv 0 5 (.fail ECONNRESET),
       .send 1 5 [0xff, 0xfb, 0x03] 0, .send 1 5 [0xff, 0xfe, 0x01] 0, .send 1 5 [0xff, 0xfb, 0x01] 0,
       .accept 1 5 true, .close 0 5, .recv 0 5 (.fail ECONNRESET),
       .send 0 5 [0xff, 0xfb, 0x03] 0, .send 0 5 [0xff, 0xfe, 0x01] 0, .send 0 5 [0xff, 0xfb, 0x01] 0,
       .accept 0 5 true] := by
  decide +kernel

/-- With hard errors of `recv` descriptors are not owned. -/
theorem not_ownsDescriptors_resetOs :
    Reached resetOs {} (ticks resetOs [default, default] {}) ∧
      PosixAlloc (ticks resetOs [default, default] {}).world.trace ∧
      ¬ NoUseAfterClose (ticks resetOs [default, default] {}).world.trace ∧
      ¬ ClosedOnce (ticks resetOs [default, default] {}).world.trace ∧
      ¬ ((ticks resetOs [default, default] {}).sessions.map (·.socket)).Nodup := by
  rw [resetOs_trace]
  refine ⟨.ticks _, ?_, fun h => ?_, fun h => ?_, by decide +kernel⟩
  · simp [PosixAlloc, IsOpen, closesSince]
  · simp [NoUseAfterClose, Event.use] at h
  · have := h _ List.suffix_rfl 5 2 (by simp [closesSince])
    omega

end Telnet
end RepoInit
