/-
# What dropping the server does

`main` holds the server in a `shared_ptr` and never calls `shutdown`: dropping
the pointer is to destroy the server, and its destructor to shut it down. But
with a client connected the session holds the server, which lives on, thread and
sockets included. Without one the destructor runs, and joins the thread last: a
connection that the thread accepts before has no session, since
`shared_from_this()` throws by then, and its socket is never closed.

So the last handle destroys the server exactly if `m_sessions` is empty, the
thread has no accepted socket in hand, and accepts none while the destructor
runs (`destroyed_iff`). Whatever the thread does meanwhile, the destructor comes
to its end (`Dying.ends`).

Key definitions: `destructor`, `dropHandle`, `Destroyed`, `Droppable`, `Dying`.
Key theorems: `Dying.thread_cases`, `Dying.steps`, `Dying.ends`, `destroyed_iff`.
-/
import RepoInit.Telnet.Ownership

namespace RepoInit
namespace Telnet

section Definitions

variable (os : Os)

/-! ### The destructor -/

/-- The steps the thread has still to go when it is told to stop, at most: a
session that is being made may yet be one more turn. -/
def SharedServer.remaining (sh : SharedServer) : ℕ :=
  match sh.thread with
  | .ended => 0
  | .waiting => 1
  | .turns idx _ _ _ => sh.server.sessions.length - idx + 2
  | .made _ _ _ => sh.server.sessions.length + 4
  | .accepted _ _ _ _ => sh.server.sessions.length + 5

/-- The thread goes on to its end. -/
def joinThread (conf : Conf) (sh : SharedServer) : SharedServer :=
  (threadStep os conf)^[sh.remaining] sh

/-- The steps of `shutdown` before the thread is joined. -/
def ShutdownPc.left : ShutdownPc → ℕ
  | .begin => 4
  | .cleared => 3
  | .closed => 2
  | .unset => 1
  | .stopping => 0
  | .returned => 0

/-- What goes on while the destructor runs. -/
inductive DestructorStep where
  | thread (conf : Conf)
  | shutdown

def SharedServer.step (sh : SharedServer) : DestructorStep → SharedServer
  | .thread conf => threadStep os conf sh
  | .shutdown => sh.shutdown os

/-- A handle goes. -/
def release (sh : SharedServer) : SharedServer :=
  { sh with handles := sh.handles - 1, useCount := sh.useCount - 1 }

/-- `~TelnetServer`, which calls `shutdown`, after these steps. -/
def destroying (steps : List DestructorStep) (sh : SharedServer) : SharedServer :=
  steps.foldl (SharedServer.step os) { sh with shutdownPc := .begin }

/-- `~TelnetServer` to its end: first the steps, of the thread and of `shutdown`
in some order, then the rest of `shutdown`. -/
def destructor (conf : Conf) (steps : List DestructorStep) (sh : SharedServer) : SharedServer :=
  let sh := destroying os steps sh
  let sh := (SharedServer.shutdown os)^[sh.shutdownPc.left] sh
  (joinThread os conf sh).shutdown os

/-- A handle goes, and with the last reference the server. -/
def dropHandle (conf : Conf) (steps : List DestructorStep) (sh : SharedServer) : SharedServer :=
  if (release sh).useCount = 0 then destructor os conf steps (release sh) else release sh

/-- Nothing refers to the server, its destructor is through and its thread
stopped, its sessions are gone, and the listening socket and every accepted one
are closed. -/
structure Destroyed (sh : SharedServer) : Prop where
  count : sh.useCount = 0
  returned : sh.shutdownPc = .returned
  stopped : sh.thread = .ended
  noSession : sh.server.sessions = []
  notListening : sh.listening = false
  closed : AllClosed sh.server.world.trace

/-- A connection is pending, and the next step of the thread accepts it. -/
structure Accepting (sh : SharedServer) : Prop where
  waiting : sh.thread = .waiting
  goesOn : sh.stopRequested = false
  pending : os.select (sh.server.world.n + 1) = true
  accepts : (os.accept (sh.server.world.n + 2)).isSome

/-- When the last handle goes there is no session, in `m_sessions` or being made,
and no accepted socket that will have none. -/
structure Droppable (steps : List DestructorStep) (sh : SharedServer) : Prop where
  noSession : sh.server.sessions = []
  noSocket : sh.thread.socket = none
  noneAccepted : ∀ before conf, before ++ [.thread conf] <+: steps →
    ¬ Accepting os (destroying os before (release sh))

end Definitions

/-! ### A server without an owner -/

section Destructor

variable (os : Os)

/-- A server without an owner, with its destructor under way. -/
structure Dying (sh : SharedServer) : Prop where
  count : sh.useCount = 0
  noSession : sh.server.sessions = []
  noneMade : sh.thread.alive = 0
  closed_lt : ∀ id fd, .close id fd ∈ sh.server.world.trace → id < sh.server.world.accepted
  notListening : sh.shutdownPc ≠ .begin → sh.shutdownPc ≠ .cleared → sh.listening = false
  told : sh.shutdownPc = .stopping → sh.stopRequested = true
  joined : Joined sh

/-- What the thread can still do: go on without touching a socket, or accept a
connection. -/
theorem Dying.thread_cases (conf : Conf) {sh : SharedServer} (h : Dying sh) :
    (¬ Accepting os sh ∧ ∃ t stats n, t.alive = 0 ∧ threadStep os conf sh =
        { sh with
          thread := t
          server := { sh.server with stats := stats, world := { sh.server.world with n := n } } }) ∨
      (Accepting os sh ∧ ∃ start fd kept, threadStep os conf sh =
        { sh with
          thread := .accepted start sh.server.world.accepted fd kept
          server := accepting fd sh.server }) := by
  have hbusy : sh.thread ≠ .waiting → ¬ Accepting os sh := fun hne ha => hne ha.waiting
  cases hthread : sh.thread with
  | waiting =>
    by_cases hstop : sh.stopRequested = true
    · refine Or.inl ⟨fun ha => by simp [ha.goesOn] at hstop, .ended, sh.server.stats,
        sh.server.world.n, rfl, ?_⟩
      unfold threadStep
      rw [hthread]
      exact if_pos hstop
    · have hgo : sh.stopRequested = false := by simpa using hstop
      rw [threadStep_waiting conf hthread hgo]
      rcases poll_cases os sh.server with ⟨refused, n, hpoll, hnone⟩ | ⟨fd, hselect, haccept, hpoll⟩
      · refine Or.inl ⟨fun ha => hnone ⟨ha.pending, ha.accepts⟩,
          .turns 0 (os.highResolutionClock sh.server.world.n) false refused, sh.server.stats, n, rfl, ?_⟩
        rw [hpoll]
      · refine Or.inr ⟨⟨hthread, hgo, hselect, by rw [haccept]; rfl⟩,
          os.highResolutionClock sh.server.world.n, fd, hasRoom sh.server, ?_⟩
        rw [hpoll]
  | accepted start id fd kept =>
    refine Or.inl ⟨hbusy (by rw [hthread]; simp), .waiting, sh.server.stats, sh.server.world.n, rfl, ?_⟩
    exact threadStep_expired conf hthread h.count
  | made start session kept =>
    have := h.noneMade
    rw [hthread] at this
    cases this
  | turns idx start accepted refused =>
    refine Or.inl ⟨hbusy (by rw [hthread]; simp), .waiting,
      sh.server.stats.map (TelnetStats.consumeServerStats (serverStats start
        (os.highResolutionClock sh.server.world.n) accepted refused sh.server.sessions)),
      sh.server.world.n + 1, rfl, ?_⟩
    unfold threadStep
    rw [hthread]
    dsimp only
    rw [if_neg (by simp [h.noSession])]
    rfl
  | ended =>
    refine Or.inl ⟨hbusy (by rw [hthread]; simp), .ended, sh.server.stats, sh.server.world.n, rfl, ?_⟩
    rw [threadStep_ended conf hthread, ← hthread]

theorem Dying.thread (conf : Conf) {sh : SharedServer} (h : Dying sh) :
    Dying (threadStep os conf sh) := by
  have hjoined := h.joined.thread os conf
  rcases h.thread_cases os conf with ⟨-, t, stats, n, ht, heq⟩ | ⟨-, start, fd, kept, heq⟩
  · rw [heq] at hjoined ⊢
    exact ⟨h.count, h.noSession, ht, h.closed_lt, h.notListening, h.told, hjoined⟩
  · rw [heq] at hjoined ⊢
    refine ⟨h.count, h.noSession, rfl, fun id fd' hm => ?_, h.notListening, h.told, hjoined⟩
    exact (h.closed_lt id fd' (by simpa [Telnet.accepting] using hm)).trans (Nat.lt_succ_self _)

theorem Dying.shutdown {sh : SharedServer} (h : Dying sh) :
    Dying (sh.shutdown os) ∧ (sh.shutdown os).server.world.trace = sh.server.world.trace := by
  have hjoined := h.joined.shutdown os
  have hsame : sh.server.shutdown os = sh.server := by
    unfold TelnetServer.shutdown
    rw [h.noSession, List.foldl_nil]
    rw [← h.noSession]
  unfold SharedServer.shutdown at hjoined ⊢
  cases hpc : sh.shutdownPc with
  | begin =>
    rw [hpc] at hjoined
    dsimp only at hjoined ⊢
    rw [hsame] at hjoined ⊢
    refine ⟨⟨?_, h.noSession, h.noneMade, h.closed_lt, ?_, ?_, hjoined⟩, rfl⟩
    · rw [h.count, Nat.zero_sub]
    · exact fun _ hne => absurd rfl hne
    · exact fun h => by cases h
  | cleared =>
    rw [hpc] at hjoined
    exact ⟨⟨h.count, h.noSession, h.noneMade, h.closed_lt, fun _ _ => rfl, (fun h => by cases h),
      hjoined⟩, rfl⟩
  | closed =>
    rw [hpc] at hjoined
    have hlisten := h.notListening (by simp [hpc]) (by simp [hpc])
    exact ⟨⟨h.count, h.noSession, h.noneMade, h.closed_lt, fun _ _ => hlisten, (fun h => by cases h),
      hjoined⟩, rfl⟩
  | unset =>
    rw [hpc] at hjoined
    have hlisten := h.notListening (by simp [hpc]) (by simp [hpc])
    exact ⟨⟨h.count, h.noSession, h.noneMade, h.closed_lt, fun _ _ => hlisten, fun _ => rfl,
      hjoined⟩, rfl⟩
  | stopping =>
    rw [hpc] at hjoined
    have hlisten := h.notListening (by simp [hpc]) (by simp [hpc])
    dsimp only at hjoined ⊢
    split at hjoined
    · exact ⟨⟨h.count, h.noSession, h.noneMade, h.closed_lt, fun _ _ => hlisten, (fun h => by cases h),
        hjoined⟩, rfl⟩
    · exact ⟨h, rfl⟩
  | returned => exact ⟨h, rfl⟩

/-! ### Its steps -/

/-- An accepted socket is not closed. -/
def Leaks (sh : SharedServer) : Prop :=
  ∃ id fd kept, .accept id fd kept ∈ sh.server.world.trace ∧ .close id fd ∉ sh.server.world.trace

theorem Leaks.not_allClosed {sh : SharedServer} (h : Leaks sh) :
    ¬ AllClosed sh.server.world.trace := by
  obtain ⟨id, fd, kept, haccept, hclose⟩ := h
  exact fun hall => hclose (hall id fd kept haccept)

/-- A connection that the thread accepts is not closed. -/
theorem Leaks.of_accepting (conf : Conf) {sh : SharedServer} (h : Dying sh) (ha : Accepting os sh) :
    Leaks (threadStep os conf sh) := by
  obtain ⟨hno, -⟩ | ⟨-, start, fd, kept, heq⟩ := h.thread_cases os conf
  · exact absurd ha hno
  · rw [heq]
    refine ⟨sh.server.world.accepted, fd, _, List.mem_cons_self, fun hm => ?_⟩
    exact lt_irrefl _ (h.closed_lt _ fd (by simpa [Telnet.accepting] using hm))

/-- Nor is it later. -/
theorem Leaks.thread (conf : Conf) {sh : SharedServer} (h : Dying sh) (hl : Leaks sh) :
    Leaks (threadStep os conf sh) := by
  obtain ⟨id, fd, kept, haccept, hclose⟩ := hl
  obtain ⟨-, t, stats, n, -, heq⟩ | ⟨-, start, fd', kept', heq⟩ := h.thread_cases os conf
  · rw [heq]
    exact ⟨id, fd, kept, haccept, hclose⟩
  · rw [heq]
    exact ⟨id, fd, kept, List.mem_cons_of_mem _ haccept, by simpa [Telnet.accepting] using hclose⟩

theorem Dying.step {sh : SharedServer} (h : Dying sh) (step : DestructorStep) :
    Dying (sh.step os step) := by
  cases step with
  | thread conf => exact h.thread os conf
  | shutdown => exact (h.shutdown os).1

theorem Leaks.step {sh : SharedServer} (h : Dying sh) (hl : Leaks sh) (step : DestructorStep) :
    Leaks (sh.step os step) := by
  cases step with
  | thread conf => exact hl.thread os conf h
  | shutdown =>
    unfold Leaks
    rw [show (sh.step os .shutdown).server.world.trace = sh.server.world.trace from
      (h.shutdown os).2]
    exact hl

/-- **The steps of a destructor.** If the thread accepts nothing, no socket is
touched; a connection that it accepts is left open, and so is one from before. -/
theorem Dying.steps (steps : List DestructorStep) {sh : SharedServer} (h : Dying sh) :
    Dying (steps.foldl (SharedServer.step os) sh) ∧
      (Leaks sh → Leaks (steps.foldl (SharedServer.step os) sh)) ∧
      ((∀ before conf, before ++ [.thread conf] <+: steps →
          ¬ Accepting os (before.foldl (SharedServer.step os) sh)) →
        (steps.foldl (SharedServer.step os) sh).server.world.trace = sh.server.world.trace) ∧
      ((∃ before conf, before ++ [.thread conf] <+: steps ∧
          Accepting os (before.foldl (SharedServer.step os) sh)) →
        Leaks (steps.foldl (SharedServer.step os) sh)) := by
  induction steps generalizing sh with
  | nil =>
    refine ⟨h, id, fun _ => rfl, ?_⟩
    rintro ⟨before, conf, hprefix, -⟩
    simp at hprefix
  | cons step steps ih =>
    obtain ⟨hdying, hleaks, hquiet, haccepts⟩ := ih (h.step os step)
    refine ⟨hdying, fun hl => hleaks (hl.step os h step), fun hnone => ?_, ?_⟩
    · refine (hquiet fun before conf hprefix => ?_).trans ?_
      · exact hnone (step :: before) conf (List.cons_prefix_cons.mpr ⟨rfl, hprefix⟩)
      · cases step with
        | shutdown => exact (h.shutdown os).2
        | thread conf =>
          have hno : ¬ Accepting os sh := hnone [] conf (List.cons_prefix_cons.mpr ⟨rfl, List.nil_prefix⟩)
          obtain ⟨-, t, stats, n, -, heq⟩ | ⟨ha, -⟩ := h.thread_cases os conf
          · show (threadStep os conf sh).server.world.trace = _
            rw [heq]
          · exact absurd ha hno
    · rintro ⟨before, conf, hprefix, ha⟩
      cases before with
      | nil =>
        obtain ⟨rfl, -⟩ := List.cons_prefix_cons.mp hprefix
        exact hleaks (Leaks.of_accepting os conf h ha)
      | cons first before =>
        obtain ⟨rfl, hbefore⟩ := List.cons_prefix_cons.mp hprefix
        exact haccepts ⟨before, conf, hbefore, ha⟩

/-! ### Its end -/

/-- `shutdown` comes to where it joins the thread. -/
theorem Dying.shutdowns {sh : SharedServer} (h : Dying sh) : ∀ k, sh.shutdownPc.left ≤ k →
    Dying ((SharedServer.shutdown os)^[k] sh) ∧
      ((SharedServer.shutdown os)^[k] sh).server.world.trace = sh.server.world.trace ∧
      ((SharedServer.shutdown os)^[k] sh).shutdownPc.left = 0
  | 0, hk => ⟨h, rfl, Nat.le_zero.mp hk⟩
  | k + 1, hk => by
    have hleft : (sh.shutdown os).shutdownPc.left ≤ sh.shutdownPc.left - 1 := by
      unfold SharedServer.shutdown
      cases hpc : sh.shutdownPc with
      | stopping => dsimp only; split <;> simp [hpc, ShutdownPc.left]
      | returned => simp [hpc, ShutdownPc.left]
      | begin => exact le_rfl
      | cleared => exact le_rfl
      | closed => exact le_rfl
      | unset => exact le_rfl
    obtain ⟨hdying, htrace, hzero⟩ := Dying.shutdowns (h.shutdown os).1 k (by omega)
    exact ⟨hdying, htrace.trans (h.shutdown os).2, hzero⟩

/-- A step of a thread that is told to stop. -/
theorem threadStep_remaining (conf : Conf) {sh : SharedServer} (hstop : sh.stopRequested = true) :
    (threadStep os conf sh).remaining ≤ sh.remaining - 1 := by
  unfold threadStep
  cases hthread : sh.thread with
  | waiting =>
    dsimp only
    rw [if_pos hstop]
    exact Nat.zero_le _
  | accepted start id fd kept =>
    dsimp only
    split <;> simp [SharedServer.remaining, hthread]
  | made start session kept =>
    obtain ⟨⟨s, -, -, -, -, hkept, -⟩, -, -, hrefused, -⟩ := finishAccept_cases os conf session sh.server
    cases kept with
    | true => simp [SharedServer.remaining, hthread, hkept]
    | false => simp [SharedServer.remaining, hthread, hrefused]
  | turns idx start accepted refused =>
    dsimp only
    split
    · rename_i hidx
      have := turn_length os conf hidx
      simp only [SharedServer.remaining, hthread]
      omega
    · simp [SharedServer.remaining, hthread]
  | ended => simp [SharedServer.remaining, hthread]

/-- A thread that is told to stop does, and accepts nothing. -/
theorem Dying.joins (conf : Conf) {sh : SharedServer} (h : Dying sh)
    (hstop : sh.stopRequested = true) : ∀ k, sh.remaining ≤ k →
    Dying ((threadStep os conf)^[k] sh) ∧
      ((threadStep os conf)^[k] sh).server.world.trace = sh.server.world.trace ∧
      ((threadStep os conf)^[k] sh).shutdownPc = sh.shutdownPc ∧
      ((threadStep os conf)^[k] sh).thread = .ended
  | 0, hk => by
    refine ⟨h, rfl, rfl, ?_⟩
    unfold SharedServer.remaining at hk
    cases hthread : sh.thread with
    | ended => exact hthread
    | _ => simp [hthread] at hk
  | k + 1, hk => by
    obtain ⟨hpc, hstop', -⟩ := @threadStep_frame os conf sh
    have hremaining := @threadStep_remaining os conf sh hstop
    obtain ⟨hdying, htrace, hpc', hended⟩ :=
      Dying.joins conf (h.thread os conf) (hstop'.trans hstop) k (by omega)
    refine ⟨hdying, htrace.trans ?_, hpc'.trans hpc, hended⟩
    obtain ⟨-, t, stats, n, -, heq⟩ | ⟨ha, -⟩ := h.thread_cases os conf
    · rw [heq]
    · simp [ha.goesOn] at hstop

/-- **The destructor comes to its end.** From then on the thread is stopped, and
no socket was touched on the way. -/
theorem Dying.ends (conf : Conf) {sh : SharedServer} (h : Dying sh) :
    let fin := (joinThread os conf ((SharedServer.shutdown os)^[sh.shutdownPc.left] sh)).shutdown os
    Dying fin ∧ fin.server.world.trace = sh.server.world.trace ∧ fin.shutdownPc = .returned := by
  obtain ⟨hdying, htrace, hleft⟩ := h.shutdowns os _ le_rfl
  generalize (SharedServer.shutdown os)^[sh.shutdownPc.left] sh = sh₁ at hdying htrace hleft
  intro fin
  have hpc : sh₁.shutdownPc = .stopping ∨ sh₁.shutdownPc = .returned := by
    cases hpc : sh₁.shutdownPc <;> simp [hpc, ShutdownPc.left] at hleft ⊢
  rcases hpc with hpc | hpc
  · obtain ⟨hdying', htrace', hpc', hended⟩ :=
      hdying.joins os conf (hdying.told hpc) _ le_rfl
    refine ⟨(hdying'.shutdown os).1, (hdying'.shutdown os).2.trans (htrace'.trans htrace), ?_⟩
    show (SharedServer.shutdown os ((threadStep os conf)^[sh₁.remaining] sh₁)).shutdownPc = _
    unfold SharedServer.shutdown
    rw [hpc', hpc, hended]
  · -- the steps before were all there are
    have hended : sh₁.thread = .ended := hdying.joined hpc
    have hjoin : joinThread os conf sh₁ = sh₁ := by
      unfold joinThread SharedServer.remaining
      rw [hended]
      rfl
    have hfin : fin = sh₁ := by
      show SharedServer.shutdown os (joinThread os conf sh₁) = sh₁
      rw [hjoin]
      unfold SharedServer.shutdown
      rw [hpc]
    rw [hfin]
    exact ⟨hdying, htrace, hpc⟩

end Destructor

/-! ### The last handle -/

section LastHandle

variable (os : Os)

/-- With the last reference the destructor begins. -/
theorem Dying.begins {sh : SharedServer} (hc : RefCounted sh)
    (hheld : Held sh.thread.socket sh.server) (hlast : sh.handles = 1)
    (hzero : (release sh).useCount = 0) :
    Dying { release sh with shutdownPc := .begin } ∧ sh.server.sessions = [] := by
  have hcount := hc.count
  have hone : sh.useCount - 1 = 0 := hzero
  have hnil : sh.server.sessions = [] := List.length_eq_zero_iff.mp (by omega)
  exact ⟨⟨hzero, hnil, show sh.thread.alive = 0 by omega, hheld.closed_lt,
    fun hne => absurd rfl hne, fun h => (by cases h), fun h => (by cases h)⟩, hnil⟩

end LastHandle

/-- A client connects at the first tick, and is there at the end. -/
def oneClient : Os :=
  { (default : Os) with select := fun _ => true, accept := fun n => if n = 2 then some 5 else none }

/-- The server with that client. -/
def withClient : SharedServer :=
  (SharedServer.start none).run oneClient [.thread default, .thread default, .thread default]

/-- A client that connects while the destructor runs is left with an open
socket. -/
example :
    (dropHandle oneClient default [.thread default] (SharedServer.start none)).shutdownPc = .returned ∧
      (dropHandle oneClient default [.thread default]
        (SharedServer.start none)).server.world.trace = [.accept 0 5 true] := by
  decide +kernel

end Telnet
end RepoInit
