/-
# `shutdown` and the server thread

`shutdown` closes the sessions, forgets them and closes the listening socket
while the server thread is still ticking; only then it stops the thread. Between
its steps a tick can come across a session that is closed already, a listening
socket that is closed, or a connection that is accepted after the sessions were
forgotten and is never closed (`lateClient_not_cleanShutdown`). The shutdown
is clean exactly if no tick falls where it can and nothing is left in
`m_sessions` when the listening socket is closed (`cleanShutdown_iff`).

Key definitions: `Process`, `shutdownStep`, `CleanShutdown`, `Undisturbed`.
Key theorems: `update_updates`, `Standing.shutdownStep`, `Standing.tick`,
`cleanShutdown_iff`.
-/
import RepoInit.Lib.Prefixes
import RepoInit.Telnet.Accounting

namespace RepoInit
namespace Telnet

def INVALID_SOCKET : ℤ := -1

/-! ### The steps -/

/-- Where `shutdown` stands. -/
inductive Pc where
  /-- In the loop over the sessions, with `k` of them closed; `closing 0` is
  before its first step. -/
  | closing (k : ℕ)
  /-- `m_sessions` is cleared. -/
  | cleared
  /-- The listening socket is closed. -/
  | closed
  /-- `m_listenSocket` is `INVALID_SOCKET`. -/
  | unset
  /-- The thread is stopped and joined. -/
  | returned
  deriving DecidableEq, Repr

/-- The server, the members `shutdown` takes apart, and where it stands. -/
structure Process where
  server : TelnetServer
  listenSocket : ℤ
  /-- Is the listening socket open? -/
  listenOpen : Bool := true
  initialised : Bool := true
  pc : Pc := .closing 0
  /-- The sessions `shutdown` closed. -/
  closedIds : List ℕ := []

/-- After `initialise`, with the listening socket `fd`. -/
def Process.start (fd : ℕ) (stats : Option TelnetStats) : Process :=
  { server := { stats := stats }, listenSocket := fd }

/-- The next step of `shutdown`. Its loop goes over the positions of
`m_sessions`; C++ leaves it undefined what the loop does if the vector changes
under it. Stopping the thread and joining it is one step, since whole ticks are
all that can come between. -/
def shutdownStep (os : Os) (p : Process) : Process :=
  match p.pc with
  | .closing k =>
    match p.server.sessions[k]? with
    | some tSession =>
      let c := closeClient os ⟨tSession, p.server.world⟩
      { p with
        server := { p.server with sessions := p.server.sessions.set k c.session, world := c.world }
        pc := .closing (k + 1)
        closedIds := tSession.id :: p.closedIds }
    | none => { p with server := { p.server with sessions := [] }, pc := .cleared }
  | .cleared => { p with listenOpen := false, pc := .closed }
  | .closed => { p with listenSocket := INVALID_SOCKET, initialised := false, pc := .unset }
  | .unset => { p with pc := .returned }
  | .returned => p

/-- A tick of the server thread or a step of `shutdown`. -/
inductive Action where
  | tick (conf : Conf)
  | shutdown

/-- There is no tick once the thread is joined. -/
def act (os : Os) (p : Process) : Action → Process
  | .tick conf =>
    if p.pc = .returned then p else { p with server := TelnetServer.update os conf p.server }
  | .shutdown => shutdownStep os p

def interleave (os : Os) (p : Process) (actions : List Action) : Process :=
  actions.foldl (act os) p

/-! ### A clean shutdown -/

/-- Between the two worlds the session was updated. -/
def Updates (id : ℕ) (w w' : World) : Prop :=
  ∃ es, w'.trace = es ++ w.trace ∧ ∃ fd answer, .recv id fd answer ∈ es

/-- A tick can use the listening socket. -/
def Listening (p : Process) : Prop :=
  p.pc ≠ .returned → p.listenSocket ≠ INVALID_SOCKET ∧ p.listenOpen = true

/-- Every accepted socket is closed. -/
def AllClosed (trace : List Event) : Prop :=
  ∀ id fd kept, .accept id fd kept ∈ trace → .close id fd ∈ trace

/-- Every tick finds the listening socket open and updates no session that
`shutdown` closed, and in the end all sessions are closed and forgotten. -/
structure CleanShutdown (os : Os) (start : Process) (actions : List Action) : Prop where
  listens : ∀ before conf, before ++ [.tick conf] <+: actions →
    Listening (interleave os start before)
  spares : ∀ before conf, before ++ [.tick conf] <+: actions →
    ∀ id ∈ (interleave os start before).closedIds,
      ¬ Updates id (interleave os start before).server.world
        (interleave os start (before ++ [.tick conf])).server.world
  leaves : ∀ before, before <+: actions → (interleave os start before).pc = .returned →
    (interleave os start before).server.sessions = [] ∧
      AllClosed (interleave os start before).server.world.trace

/-- Where a tick does no harm: before `shutdown` closed anything, or when it has
cleared `m_sessions` and not yet closed the listening socket. -/
def MayTick (pc : Pc) : Prop := pc = .closing 0 ∨ pc = .cleared ∨ pc = .returned

/-- No tick falls where it does harm and, if `shutdown` returns, nothing was in
`m_sessions` when it closed the listening socket. -/
structure Undisturbed (os : Os) (start : Process) (actions : List Action) : Prop where
  ticks : ∀ before conf, before ++ [.tick conf] <+: actions →
    MayTick (interleave os start before).pc
  pending : (interleave os start actions).pc = .returned →
    ∀ before, before ++ [.shutdown] <+: actions → (interleave os start before).pc = .cleared →
      (interleave os start before).server.sessions = []

/-! ### A tick -/

theorem not_mem_sends {id fd : ℕ} {es : List Event} (h : ∀ e ∈ es, IsSend id fd e) :
    (∀ i f k, .accept i f k ∉ es) ∧ ∀ i f a, .recv i f a ∉ es := by
  refine ⟨fun i f k hm => ?_, fun i f a hm => ?_⟩
  · obtain ⟨data, r, he⟩ := h _ hm
    cases he
  · obtain ⟨data, r, he⟩ := h _ hm
    cases he

/-- Accepting leaves the sessions there and receives nothing. -/
theorem Accepts.grows {srv srv' : TelnetServer} {b : Bool} (h : Accepts srv srv' b) :
    srv.sessions ⊆ srv'.sessions ∧
      ∃ es, srv'.world.trace = es ++ srv.world.trace ∧ ∀ i f a, .recv i f a ∉ es := by
  cases h with
  | failed hs ht ha =>
    rw [hs, ht]
    exact ⟨List.Subset.refl _, [], rfl, by simp⟩
  | refused fd es hmax hes hs ht ha =>
    rw [hs, ht]
    refine ⟨List.Subset.refl _, closing srv.world.accepted fd ++ es ++
      [.accept srv.world.accepted fd false], by simp, fun i f a => ?_⟩
    simpa [closing] using (not_mem_sends hes).2 i f a
  | kept s es hmax hid hes hs ht ha =>
    rw [hs, ht]
    refine ⟨List.subset_append_left _ _, es ++ [.accept s.id s.socket true], by simp, fun i f a => ?_⟩
    simpa using (not_mem_sends hes).2 i f a

/-- What a turn at `s` does: it receives for `s`, which stays or is closed. -/
theorem Turn.grows {done todo rest : List TelnetSession} {s : TelnetSession} {srv : TelnetServer}
    {answer : Recv} {es closed : List Event} {stat : TelnetSessionStats} {p : ℕ × TelnetServer}
    (h : Turn done s todo srv answer es stat rest closed p) :
    ∃ es', p.2.world.trace = es' ++ srv.world.trace ∧ .recv s.id s.socket answer ∈ es' ∧
      (∀ i f k, .accept i f k ∉ es') ∧ (∀ i f a, .recv i f a ∈ es' → i = s.id) ∧
      ((∃ s', s'.id = s.id ∧ s'.socket = s.socket ∧ rest = [s']) ∨
        (rest = [] ∧ .close s.id s.socket ∈ es')) := by
  have hes : (∀ i f k, .accept i f k ∉ es) ∧ ∀ i f a, .recv i f a ∉ es := by
    rcases h.events with ⟨-, rfl⟩ | ⟨-, hwork⟩
    · simp
    · refine ⟨fun i f k hm => ?_, fun i f a hm => ?_⟩
      · rcases hwork _ hm with ⟨data, r, he⟩ | ⟨l, ok, he⟩ <;> cases he
      · rcases hwork _ hm with ⟨data, r, he⟩ | ⟨l, ok, he⟩ <;> cases he
  refine ⟨closed ++ es ++ [.recv s.id s.socket answer], by simp [h.trace], by simp, ?_, ?_, ?_⟩
  · rcases h.outcome with ⟨s', -, -, -, rfl⟩ | ⟨-, rfl⟩ <;> simpa [closing] using hes.1
  · rcases h.outcome with ⟨s', -, -, -, rfl⟩ | ⟨-, rfl⟩ <;>
    · intro i f a hm
      simp [closing, hes.2] at hm
      exact hm.1
  · rcases h.outcome with ⟨s', hid, hsocket, hrest, -⟩ | ⟨hrest, rfl⟩
    · exact .inl ⟨s', hid, hsocket, hrest⟩
    · exact .inr ⟨hrest, by simp [closing]⟩

section Tick

variable (os : Os) (conf : Conf)

/-- The trace only grows. -/
theorem updateSessions_trace (idx : ℕ) (srv : TelnetServer) :
    srv.world.trace <:+ (updateSessions os conf idx srv).world.trace := by
  refine updateSessions_rule os conf (P := fun srv' => srv.world.trace <:+ srv'.world.trace) ?_ idx
    List.suffix_rfl
  intro done s todo srv' answer es stat rest closed p _ ht h
  exact h.trans ht.suffix

/-- The loop updates every session that is before it. -/
theorem updateSessions_updates (idx : ℕ) (srv : TelnetServer) :
    ∀ s ∈ srv.sessions.drop idx, Updates s.id srv.world (updateSessions os conf idx srv).world := by
  induction idx, srv using updateSessions.induct os conf with
  | case1 idx srv hidx ih =>
    intro s hs
    obtain ⟨done, s₀, todo, hsplit, rfl⟩ := split_at hidx
    obtain ⟨answer, es, stat, rest, closed, ht⟩ := turn_spec os conf hsplit
    obtain ⟨first, hfirst, hrecv, -⟩ := ht.grows
    rw [updateSessions, if_pos hidx]
    rw [hsplit, List.drop_left, List.mem_cons] at hs
    rcases hs with rfl | hs
    · obtain ⟨after, hafter⟩ := updateSessions_trace os conf
        (turn os conf done.length srv).1 (turn os conf done.length srv).2
      refine ⟨after ++ first, ?_, s.socket, answer, List.mem_append_right _ hrecv⟩
      rw [List.append_assoc, ← hfirst]
      exact hafter.symm
    · have htodo : s ∈ (turn os conf done.length srv).2.sessions.drop
          (turn os conf done.length srv).1 := by
        rw [ht.sessions, ht.index, ← List.length_append, List.drop_left]
        exact hs
      obtain ⟨after, hafter, fd, answer', hmem⟩ := ih s htodo
      refine ⟨after ++ first, ?_, fd, answer', List.mem_append_left _ hmem⟩
      rw [List.append_assoc, ← hfirst]
      exact hafter
  | case2 idx srv hidx =>
    intro s hs
    rw [List.drop_eq_nil_of_le (Nat.le_of_not_lt hidx)] at hs
    simp at hs

/-- **A tick updates every session there is.** -/
theorem update_updates {srv : TelnetServer} {s : TelnetSession} (hs : s ∈ srv.sessions) :
    Updates s.id srv.world (TelnetServer.update os conf srv).world := by
  obtain ⟨hkeeps, first, hfirst, -⟩ := (startTick_spec os conf srv).1.grows
  obtain ⟨es, htrace, fd, answer, hrecv⟩ := updateSessions_updates os conf 0 _ s (hkeeps hs)
  refine ⟨es ++ first, ?_, fd, answer, List.mem_append_left _ hrecv⟩
  rw [List.append_assoc, ← hfirst]
  exact htrace

end Tick

/-! ### What ticks and the steps of `shutdown` keep -/

/-- The sessions are told apart by their numbers, each accepted socket is closed
or that of a session, and no session is one of `ids`. -/
structure Spared (ids : List ℕ) (srv : TelnetServer) : Prop where
  sessions_lt : ∀ s ∈ srv.sessions, s.id < srv.world.accepted
  ids_lt : ∀ id ∈ ids, id < srv.world.accepted
  others : ∀ s ∈ srv.sessions, s.id ∉ ids
  covered : ∀ id fd kept, .accept id fd kept ∈ srv.world.trace →
    .close id fd ∈ srv.world.trace ∨ ∃ s ∈ srv.sessions, s.id = id ∧ s.socket = fd

theorem Spared.accept {ids : List ℕ} {srv srv' : TelnetServer} {b : Bool} (h : Spared ids srv)
    (ha : Accepts srv srv' b) : Spared ids srv' := by
  have hlt := ha.sessions_lt h.sessions_lt
  cases ha with
  | failed hs ht ha =>
    refine ⟨hlt, ?_, ?_, ?_⟩
    · rw [ha]
      exact h.ids_lt
    · rw [hs]
      exact h.others
    · rw [hs, ht]
      exact h.covered
  | refused fd es hmax hes hs ht ha =>
    refine ⟨hlt, ?_, ?_, ?_⟩
    · intro id hid
      have := h.ids_lt id hid
      omega
    · rw [hs]
      exact h.others
    · intro id fd' kept hm
      rw [ht] at hm ⊢
      rw [hs]
      simp only [closing, List.mem_append, List.mem_cons, List.not_mem_nil, or_false] at hm ⊢
      rcases hm with (hm | hm) | hm | hm
      · simp at hm
      · exact absurd hm ((not_mem_sends hes).1 _ _ _)
      · simp only [Event.accept.injEq] at hm
        obtain ⟨rfl, rfl, -⟩ := hm
        exact .inl (.inl (.inl (.inl rfl)))
      · rcases h.covered id fd' kept hm with hc | hc
        · exact .inl (.inr (.inr hc))
        · exact .inr hc
  | kept s es hmax hid hes hs ht ha =>
    refine ⟨hlt, ?_, ?_, ?_⟩
    · intro id hi
      have := h.ids_lt id hi
      omega
    · intro s' hm
      rw [hs, List.mem_append, List.mem_singleton] at hm
      rcases hm with hm | rfl
      · exact h.others s' hm
      · intro hi
        have := h.ids_lt _ hi
        omega
    · intro id fd kept hm
      rw [ht] at hm ⊢
      rw [hs]
      simp only [List.mem_append, List.mem_cons] at hm ⊢
      rcases hm with hm | hm | hm
      · exact absurd hm ((not_mem_sends hes).1 _ _ _)
      · simp only [Event.accept.injEq] at hm
        obtain ⟨rfl, rfl, -⟩ := hm
        exact .inr ⟨s, .inr (.inl rfl), rfl, rfl⟩
      · rcases h.covered id fd kept hm with hc | ⟨s', hs', hc⟩
        · exact .inl (.inr (.inr hc))
        · exact .inr ⟨s', .inl hs', hc⟩

/-- What was closed and what is open, after a turn. -/
theorem Spared.turn {ids : List ℕ} : TurnsKeep (Spared ids) := by
  intro done s todo srv answer es stat rest closed p hs ht h
  obtain ⟨es', htrace, -, haccept, -, hrest⟩ := ht.grows
  refine ⟨ht.sessions_lt hs h.sessions_lt, ?_, ?_, ?_⟩
  · rw [ht.accepted]
    exact h.ids_lt
  · intro s' hm
    obtain ⟨s'', hs'', hid, -⟩ := ht.left hs s' hm
    rw [← hid]
    exact h.others s'' hs''
  · intro id fd kept hm
    rw [htrace] at hm ⊢
    have hbefore := (List.mem_append.mp hm).resolve_left (haccept id fd kept)
    rcases h.covered id fd kept hbefore with hc | ⟨s', hs', hid, hsocket⟩
    · exact .inl (List.mem_append_right _ hc)
    · rw [hs, List.mem_append, List.mem_cons] at hs'
      rw [ht.sessions]
      rcases hs' with hs' | rfl | hs'
      · exact .inr ⟨s', by simp [hs'], hid, hsocket⟩
      · rcases hrest with ⟨s₁, hid', hsocket', rfl⟩ | ⟨rfl, hclose⟩
        · exact .inr ⟨s₁, by simp, hid'.trans hid, hsocket'.trans hsocket⟩
        · rw [← hid, ← hsocket]
          exact .inl (List.mem_append_left _ hclose)
      · exact .inr ⟨s', by simp [hs'], hid, hsocket⟩

/-- Since the trace was `t`, none of the sessions was updated. -/
def NotUpdated (ids : List ℕ) (t : List Event) (srv : TelnetServer) : Prop :=
  ∃ es, srv.world.trace = es ++ t ∧ ∀ id ∈ ids, ∀ fd answer, .recv id fd answer ∉ es

/-- **A tick spares the sessions that are not in `m_sessions`.** -/
theorem Spared.update (os : Os) (conf : Conf) {ids : List ℕ} {srv : TelnetServer}
    (h : Spared ids srv) : Spared ids (TelnetServer.update os conf srv) ∧
      NotUpdated ids srv.world.trace (TelnetServer.update os conf srv) := by
  refine update_rule os (P := fun srv' => Spared ids srv' ∧ NotUpdated ids srv.world.trace srv')
    ?_ ?_ ?_ conf ⟨h, [], rfl, by simp⟩
  · rintro done s todo srv' answer es stat rest closed p hs ht ⟨hspared, before, hbefore, hnot⟩
    obtain ⟨es', htrace, -, -, hrecv, -⟩ := ht.grows
    refine ⟨Spared.turn _ _ _ _ _ _ _ _ _ _ hs ht hspared, es' ++ before, ?_, ?_⟩
    · rw [htrace, hbefore, List.append_assoc]
    · intro id hid fd a hm
      rcases List.mem_append.mp hm with hm | hm
      · have hsid : s.id ∉ ids := hspared.others s (by simp [hs])
        exact hsid (hrecv id fd a hm ▸ hid)
      · exact hnot id hid fd a hm
  · rintro srv₁ srv₂ b ha ⟨hspared, before, hbefore, hnot⟩
    obtain ⟨-, es, htrace, hrecv⟩ := ha.grows
    refine ⟨hspared.accept ha, es ++ before, ?_, ?_⟩
    · rw [htrace, hbefore, List.append_assoc]
    · intro id hid fd a hm
      rcases List.mem_append.mp hm with hm | hm
      · exact hrecv id fd a hm
      · exact hnot id hid fd a hm
  · rintro srv' st n ⟨hspared, hnot⟩
    exact ⟨⟨hspared.sessions_lt, hspared.ids_lt, hspared.others, hspared.covered⟩, hnot⟩

/-- What holds where `shutdown` stands, if no tick fell where it does harm. -/
inductive Phase (p : Process) : Pc → Prop
  | closing (k : ℕ) (hk : k ≤ p.server.sessions.length)
      (hids : p.closedIds = ((p.server.sessions.take k).map (·.id)).reverse)
      (hclosed : ∀ s ∈ p.server.sessions.take k, .close s.id s.socket ∈ p.server.world.trace)
      (hlisten : p.listenSocket ≠ INVALID_SOCKET ∧ p.listenOpen = true) : Phase p (.closing k)
  | cleared (hothers : ∀ s ∈ p.server.sessions, s.id ∉ p.closedIds)
      (hlisten : p.listenSocket ≠ INVALID_SOCKET ∧ p.listenOpen = true) : Phase p .cleared
  | closed (hclosed : p.listenOpen = false) : Phase p .closed
  | unset (hclosed : p.listenOpen = false) : Phase p .unset
  | returned : Phase p .returned

structure Standing (p : Process) : Prop where
  spared : Spared [] p.server
  closedIds_lt : ∀ id ∈ p.closedIds, id < p.server.world.accepted
  phase : Phase p p.pc

theorem Spared.weaken {ids : List ℕ} {srv : TelnetServer} (h : Spared ids srv) : Spared [] srv :=
  ⟨h.sessions_lt, by simp, by simp, h.covered⟩

theorem standing_start (fd : ℕ) (stats : Option TelnetStats) : Standing (.start fd stats) where
  spared := ⟨by simp [Process.start], by simp, by simp, by simp [Process.start]⟩
  closedIds_lt := by simp [Process.start]
  phase := by
    refine .closing 0 (Nat.zero_le _) rfl (by simp) ⟨?_, rfl⟩
    show (fd : ℤ) ≠ -1
    omega

section Steps

variable (os : Os) {p : Process}

/-- A step of the loop closes the session at its position. -/
theorem shutdownStep_close {done todo : List TelnetSession} {s : TelnetSession}
    (hpc : p.pc = .closing done.length) (hs : p.server.sessions = done ++ s :: todo) :
    shutdownStep os p = { p with
      server := { p.server with
        sessions := done ++ (closeClient os ⟨s, p.server.world⟩).session :: todo
        world := (closeClient os ⟨s, p.server.world⟩).world }
      pc := .closing (done.length + 1)
      closedIds := s.id :: p.closedIds } := by
  have hget : p.server.sessions[done.length]? = some s := by simp [hs]
  rw [shutdownStep, hpc]
  dsimp only
  rw [hget]
  simp [hs]

/-- Behind the last session the loop ends and `m_sessions` is cleared. -/
theorem shutdownStep_clear {k : ℕ} (hpc : p.pc = .closing k) (hk : p.server.sessions.length ≤ k) :
    shutdownStep os p =
      { p with server := { p.server with sessions := [] }, pc := .cleared } := by
  rw [shutdownStep, hpc]
  dsimp only
  rw [List.getElem?_eq_none hk]

theorem Standing.close (h : Standing p) {done todo : List TelnetSession} {s : TelnetSession}
    (hpc : p.pc = .closing done.length) (hs : p.server.sessions = done ++ s :: todo) :
    Standing (Telnet.shutdownStep os p) := by
  obtain ⟨s', w, hid, hsocket, haccepted, htrace, hstep⟩ : ∃ s' w, s'.id = s.id ∧
      s'.socket = s.socket ∧ w.accepted = p.server.world.accepted ∧
      w.trace = closing s.id s.socket ++ p.server.world.trace ∧
      Telnet.shutdownStep os p = { p with
        server := { p.server with sessions := done ++ s' :: todo, world := w }
        pc := .closing (done.length + 1)
        closedIds := s.id :: p.closedIds } :=
    ⟨_, _, rfl, rfl, rfl, rfl, shutdownStep_close os hpc hs⟩
  have hphase := h.phase
  rw [hpc] at hphase
  cases hphase with
  | closing _ hk hids hclosed hlisten =>
    rw [hs, List.take_left] at hids hclosed
    have hbefore : ∀ {x : TelnetSession}, x ∈ done ∨ x = s ∨ x ∈ todo → x ∈ p.server.sessions := by
      intro x hx
      rw [hs]
      simpa using hx
    have htake : (done ++ s' :: todo).take (done.length + 1) = done ++ [s'] := by
      simp [List.take_append]
    rw [hstep]
    refine ⟨⟨?_, by simp, by simp, ?_⟩, ?_, .closing _ (by simp) ?_ ?_ hlisten⟩
    · intro x hx
      simp only [List.mem_append, List.mem_cons] at hx
      show x.id < w.accepted
      rw [haccepted]
      rcases hx with hx | rfl | hx
      · exact h.spared.sessions_lt x (hbefore (.inl hx))
      · rw [hid]
        exact h.spared.sessions_lt s (hbefore (.inr (.inl rfl)))
      · exact h.spared.sessions_lt x (hbefore (.inr (.inr hx)))
    · intro id fd kept hm
      dsimp only at hm ⊢
      rw [htrace] at hm ⊢
      have hold : .accept id fd kept ∈ p.server.world.trace := by simpa [closing] using hm
      rcases h.spared.covered id fd kept hold with hc | ⟨x, hx, hxid, hxsocket⟩
      · exact .inl (List.mem_append_right _ hc)
      · rw [hs, List.mem_append, List.mem_cons] at hx
        rcases hx with hx | rfl | hx
        · exact .inr ⟨x, by simp [hx], hxid, hxsocket⟩
        · exact .inr ⟨s', by simp, hid.trans hxid, hsocket.trans hxsocket⟩
        · exact .inr ⟨x, by simp [hx], hxid, hxsocket⟩
    · intro id hm
      show id < w.accepted
      rw [haccepted]
      rcases List.mem_cons.mp hm with rfl | hm
      · exact h.spared.sessions_lt s (hbefore (.inr (.inl rfl)))
      · exact h.closedIds_lt id hm
    · show s.id :: p.closedIds = _
      rw [htake, hids]
      simp [hid]
    · intro x hx
      dsimp only at hx ⊢
      rw [htake, List.mem_append, List.mem_singleton] at hx
      rw [htrace]
      rcases hx with hx | rfl
      · exact List.mem_append_right _ (hclosed x hx)
      · rw [hid, hsocket]
        simp [closing]

/-- **What a step of `shutdown` keeps.** -/
theorem Standing.shutdownStep (h : Standing p) : Standing (Telnet.shutdownStep os p) := by
  have hphase := h.phase
  cases hpc : p.pc with
  | closing k =>
    rw [hpc] at hphase
    cases hphase with
    | closing _ _ hids hclosed hlisten =>
      by_cases hk : k < p.server.sessions.length
      · obtain ⟨done, s, todo, hs, rfl⟩ := split_at hk
        exact h.close os hpc hs
      · have hall : p.server.sessions.take k = p.server.sessions :=
          List.take_of_length_le (Nat.le_of_not_lt hk)
        rw [hall] at hclosed
        rw [shutdownStep_clear os hpc (Nat.le_of_not_lt hk)]
        refine ⟨⟨by simp, by simp, by simp, ?_⟩, h.closedIds_lt, .cleared (by simp) hlisten⟩
        intro id fd kept hm
        rcases h.spared.covered id fd kept hm with hc | ⟨s, hs, rfl, rfl⟩
        · exact .inl hc
        · exact .inl (hclosed s hs)
  | cleared =>
    unfold Telnet.shutdownStep
    rw [hpc]
    exact ⟨h.spared, h.closedIds_lt, .closed rfl⟩
  | closed =>
    rw [hpc] at hphase
    cases hphase with
    | closed hclosed =>
      unfold Telnet.shutdownStep
      rw [hpc]
      exact ⟨h.spared, h.closedIds_lt, .unset hclosed⟩
  | unset =>
    unfold Telnet.shutdownStep
    rw [hpc]
    exact ⟨h.spared, h.closedIds_lt, .returned⟩
  | returned =>
    unfold Telnet.shutdownStep
    rw [hpc]
    exact h

/-- **What a tick keeps** where it does no harm. -/
theorem Standing.tick (h : Standing p) (conf : Conf) (hpc : MayTick p.pc) :
    Standing (act os p (.tick conf)) ∧
      NotUpdated p.closedIds p.server.world.trace (act os p (.tick conf)).server := by
  have hphase := h.phase
  rcases hpc with hpc | hpc | hpc
  · rw [hpc] at hphase
    cases hphase with
    | closing _ hk hids hclosed hlisten =>
      -- nothing is closed yet
      have hnone : p.closedIds = [] := by simpa using hids
      obtain ⟨hspared, hnot⟩ := h.spared.update os conf
      rw [act, if_neg (by simp [hpc]), hnone]
      refine ⟨⟨hspared, by simp, ?_⟩, hnot⟩
      show Phase _ p.pc
      rw [hpc]
      exact .closing 0 (Nat.zero_le _) rfl (by simp) hlisten
  · rw [hpc] at hphase
    cases hphase with
    | cleared hothers hlisten =>
      have hids : Spared p.closedIds p.server :=
        ⟨h.spared.sessions_lt, h.closedIds_lt, hothers, h.spared.covered⟩
      obtain ⟨hspared, hnot⟩ := hids.update os conf
      rw [act, if_neg (by simp [hpc])]
      refine ⟨⟨hspared.weaken, hspared.ids_lt, ?_⟩, hnot⟩
      show Phase _ p.pc
      rw [hpc]
      exact .cleared hspared.others hlisten
  · rw [act, if_pos hpc]
    exact ⟨h, [], rfl, by simp⟩

end Steps

/-! ### Without a tick in between -/

section Alone

variable (os : Os)

/-- The steps alone, one after the other. -/
def steps (n : ℕ) (p : Process) : Process := (shutdownStep os)^[n] p

theorem steps_closing (todo : List TelnetSession) {p : Process} {done : List TelnetSession}
    (hpc : p.pc = .closing done.length) (hs : p.server.sessions = done ++ todo) :
    (steps os (todo.length + 1) p).pc = .cleared ∧
      (steps os (todo.length + 1) p).server = { p.server with
        sessions := []
        world := todo.foldl (fun w session => (closeClient os ⟨session, w⟩).world)
          p.server.world } := by
  induction todo generalizing p done with
  | nil =>
    have hclear := shutdownStep_clear os hpc (by simp [hs])
    show (shutdownStep os p).pc = _ ∧ (shutdownStep os p).server = _
    rw [hclear]
    exact ⟨rfl, rfl⟩
  | cons s todo ih =>
    have hstep := shutdownStep_close os hpc hs
    have hnext := @ih (shutdownStep os p)
      (done ++ [(closeClient os ⟨s, p.server.world⟩).session]) (by simp [hstep]) (by simp [hstep])
    rw [hstep] at hnext
    show (steps os (todo.length + 1) (shutdownStep os p)).pc = _ ∧
      (steps os (todo.length + 1) (shutdownStep os p)).server = _
    rw [hstep]
    exact hnext

/-- **The steps alone are `TelnetServer.shutdown`.** -/
theorem steps_eq_shutdown {p : Process} (hpc : p.pc = .closing 0) :
    (steps os (p.server.sessions.length + 4) p).pc = .returned ∧
      (steps os (p.server.sessions.length + 4) p).server = TelnetServer.shutdown os p.server := by
  obtain ⟨hcleared, hserver⟩ := @steps_closing os p.server.sessions p [] hpc rfl
  have hsplit : steps os (p.server.sessions.length + 4) p =
      steps os 3 (steps os (p.server.sessions.length + 1) p) := by
    rw [steps, steps, steps, ← Function.iterate_add_apply]
    congr 1
    omega
  rw [hsplit]
  set q := steps os (p.server.sessions.length + 1) p with hq
  have hthree : (steps os 3 q).pc = .returned ∧ (steps os 3 q).server = q.server := by
    show (shutdownStep os (shutdownStep os (shutdownStep os q))).pc = _ ∧
      (shutdownStep os (shutdownStep os (shutdownStep os q))).server = _
    rw [shutdownStep.eq_def os q, hcleared]
    exact ⟨rfl, rfl⟩
  exact ⟨hthree.1, hthree.2.trans hserver⟩

end Alone

/-! ### Interleavings -/

section Interleave

variable (os : Os) {start : Process} {actions : List Action}

theorem interleave_snoc (start : Process) (before : List Action) (a : Action) :
    interleave os start (before ++ [a]) = act os (interleave os start before) a := by
  simp [interleave]

theorem act_tick_pc (p : Process) (conf : Conf) : (act os p (.tick conf)).pc = p.pc := by
  unfold act
  dsimp only
  split <;> rfl

/-- Everything holds that should as long as ticks do no harm. -/
theorem standing_of_mayTick (hstart : Standing start)
    (h : ∀ before conf, before ++ [.tick conf] <+: actions →
      MayTick (interleave os start before).pc) :
    ∀ before, before <+: actions → Standing (interleave os start before) := by
  refine Prefixes.prefix_induction hstart fun before a hb hbefore => ?_
  rw [interleave_snoc]
  cases a with
  | tick conf => exact (hbefore.tick os conf (h before conf hb)).1
  | shutdown => exact hbefore.shutdownStep os

/-- `shutdown` has closed the listening socket. -/
def Pc.IsPast (pc : Pc) : Prop := pc = .closed ∨ pc = .unset ∨ pc = .returned

/-- Once the listening socket is closed, what is in `m_sessions` stays there. -/
theorem sessions_past {before rest : List Action}
    (h : ∀ b conf, b ++ [.tick conf] <+: before ++ .shutdown :: rest →
      MayTick (interleave os start b).pc) (hpc : (interleave os start before).pc = .cleared) :
    (interleave os start (before ++ .shutdown :: rest)).pc.IsPast ∧
      (interleave os start (before ++ .shutdown :: rest)).server.sessions =
        (interleave os start before).server.sessions := by
  induction rest using List.reverseRecOn with
  | nil =>
    rw [interleave_snoc, act, shutdownStep, hpc]
    exact ⟨.inl rfl, rfl⟩
  | append_singleton rest a ih =>
    rw [← List.cons_append, ← List.append_assoc] at h ⊢
    obtain ⟨hpast, hsessions⟩ := ih fun b conf hb => h b conf (hb.trans (List.prefix_append _ _))
    rw [interleave_snoc, ← hsessions]
    cases a with
    | tick conf =>
      have hmay := h _ conf (List.prefix_refl _)
      rcases hpast with hp | hp | hp
      · rw [hp] at hmay
        simp [MayTick] at hmay
      · rw [hp] at hmay
        simp [MayTick] at hmay
      · rw [act, if_pos hp]
        exact ⟨.inr (.inr hp), rfl⟩
    | shutdown =>
      rw [act, shutdownStep]
      rcases hpast with hp | hp | hp <;> rw [hp]
      · exact ⟨.inr (.inl rfl), rfl⟩
      · exact ⟨.inr (.inr rfl), rfl⟩
      · exact ⟨.inr (.inr hp), rfl⟩

/-- There is a step at which the listening socket is closed. -/
theorem exists_closing (hstart : start.pc = .closing 0)
    (h : (interleave os start actions).pc.IsPast) :
    ∃ before rest, actions = before ++ .shutdown :: rest ∧
      (interleave os start before).pc = .cleared := by
  induction actions using List.reverseRecOn with
  | nil =>
    have hpc : (interleave os start []).pc = .closing 0 := hstart
    rw [hpc] at h
    simp [Pc.IsPast] at h
  | append_singleton actions a ih =>
    have hearlier : (interleave os start actions).pc.IsPast →
        ∃ before rest, actions ++ [a] = before ++ .shutdown :: rest ∧
          (interleave os start before).pc = .cleared := by
      intro hp
      obtain ⟨before, rest, rfl, hpc⟩ := ih hp
      exact ⟨before, rest ++ [a], by simp, hpc⟩
    rw [interleave_snoc] at h
    cases a with
    | tick conf =>
      rw [act_tick_pc] at h
      exact hearlier h
    | shutdown =>
      cases hpc : (interleave os start actions).pc with
      | closing k =>
        rw [act, shutdownStep, hpc] at h
        dsimp only at h
        split at h <;> simp [Pc.IsPast] at h
      | cleared => exact ⟨actions, [], rfl, hpc⟩
      | closed => exact hearlier (.inl hpc)
      | unset => exact hearlier (.inr (.inl hpc))
      | returned => exact hearlier (.inr (.inr hpc))

theorem interleave_returned {p : Process} (h : p.pc = .returned) (rest : List Action) :
    interleave os p rest = p := by
  induction rest with
  | nil => rfl
  | cons a rest ih =>
    have ha : act os p a = p := by
      cases a with
      | tick conf => rw [act, if_pos h]
      | shutdown => rw [act, shutdownStep, h]
    show interleave os (act os p a) rest = p
    rw [ha, ih]

/-- A tick that finds the listening socket open and spares what `shutdown`
closed falls where it may. -/
theorem Standing.mayTick {p : Process} (h : Standing p) (conf : Conf) (hlistens : Listening p)
    (hspares : ∀ id ∈ p.closedIds,
      ¬ Updates id p.server.world (act os p (.tick conf)).server.world) : MayTick p.pc := by
  have hphase := h.phase
  cases hpc : p.pc with
  | closing k =>
    rw [hpc] at hphase
    cases hphase with
    | closing _ hk hids hclosed hlisten =>
      cases k with
      | zero => exact .inl rfl
      | succ k =>
        -- the first session is closed and still there
        have hpos : 0 < p.server.sessions.length := by omega
        obtain ⟨s, sessions, hs⟩ := List.exists_cons_of_length_pos hpos
        have hid : s.id ∈ p.closedIds := by
          rw [hids, hs]
          simp
        refine absurd ?_ (hspares s.id hid)
        rw [act, if_neg (by simp [hpc])]
        exact update_updates os conf (by simp [hs])
  | cleared => exact .inr (.inl rfl)
  | closed =>
    rw [hpc] at hphase
    cases hphase with
    | closed hclosed =>
      have hopen := (hlistens (by simp [hpc])).2
      rw [hclosed] at hopen
      simp at hopen
  | unset =>
    rw [hpc] at hphase
    cases hphase with
    | unset hclosed =>
      have hopen := (hlistens (by simp [hpc])).2
      rw [hclosed] at hopen
      simp at hopen
  | returned => exact .inr (.inr rfl)

/-- A tick of a clean shutdown falls where it may, or it comes across what
`shutdown` has closed. -/
theorem CleanShutdown.mayTick (h : CleanShutdown os start actions) {before : List Action}
    {conf : Conf} (hbefore : before ++ [.tick conf] <+: actions)
    (hstanding : Standing (interleave os start before)) :
    MayTick (interleave os start before).pc := by
  refine hstanding.mayTick os conf (h.listens before conf hbefore) fun id hid => ?_
  rw [← interleave_snoc]
  exact h.spares before conf hbefore id hid

theorem CleanShutdown.standing (hstart : Standing start) (h : CleanShutdown os start actions) :
    ∀ before, before <+: actions → Standing (interleave os start before) := by
  refine Prefixes.prefix_induction hstart fun before a hb hbefore => ?_
  rw [interleave_snoc]
  cases a with
  | tick conf => exact (hbefore.tick os conf (h.mayTick os hb hbefore)).1
  | shutdown => exact hbefore.shutdownStep os

/-- Where ticks do no harm, they find the listening socket open. -/
theorem Standing.listening {p : Process} (h : Standing p) (hmay : MayTick p.pc) : Listening p := by
  intro hne
  have hphase := h.phase
  rcases hmay with hpc | hpc | hpc
  · rw [hpc] at hphase
    cases hphase with
    | closing _ hk hids hclosed hlisten => exact hlisten
  · rw [hpc] at hphase
    cases hphase with
    | cleared hothers hlisten => exact hlisten
  · exact absurd hpc hne

/-- A shutdown that returns has left nothing, if nothing was there when it
closed the listening socket. -/
theorem Undisturbed.leaves (hstart : Standing start) (hpc : start.pc = .closing 0)
    (h : Undisturbed os start actions) {before : List Action} (hbefore : before <+: actions)
    (hreturned : (interleave os start before).pc = .returned) :
    (interleave os start before).server.sessions = [] ∧
      AllClosed (interleave os start before).server.world.trace := by
  obtain ⟨b, rest, rfl, hcleared⟩ := exists_closing os hpc (.inr (.inr hreturned))
  obtain ⟨after, rfl⟩ := hbefore
  have hmay : ∀ b' conf, b' ++ [.tick conf] <+: b ++ .shutdown :: rest →
      MayTick (interleave os start b').pc :=
    fun b' conf hb => h.ticks b' conf (hb.trans (List.prefix_append _ _))
  have hend : (interleave os start (b ++ .shutdown :: rest ++ after)).pc = .returned := by
    rw [interleave, List.foldl_append]
    exact (congrArg Process.pc (interleave_returned os hreturned after)).trans hreturned
  have hnone := h.pending hend b ⟨rest ++ after, by simp⟩ hcleared
  have hsessions := (sessions_past os hmay hcleared).2.trans hnone
  refine ⟨hsessions, fun id fd kept hm => ?_⟩
  rcases (standing_of_mayTick os hstart hmay _ List.prefix_rfl).spared.covered id fd kept hm with hc | ⟨s, hs, -⟩
  · exact hc
  · rw [hsessions] at hs
    simp at hs

/-- **The shutdown is clean** exactly if no tick falls between the first closing
of a session and the clearing of `m_sessions`, none behind the closing of the
listening socket, and no session is in `m_sessions` at that closing. -/
theorem cleanShutdown_iff (os : Os) (fd : ℕ) (stats : Option TelnetStats) (actions : List Action) :
    CleanShutdown os (.start fd stats) actions ↔ Undisturbed os (.start fd stats) actions := by
  have hstart := standing_start fd stats
  constructor
  · intro h
    have hmay : ∀ before conf, before ++ [.tick conf] <+: actions →
        MayTick (interleave os (.start fd stats) before).pc := fun before conf hbefore =>
      h.mayTick os hbefore
        (h.standing os hstart before ((List.prefix_append before [.tick conf]).trans hbefore))
    refine ⟨hmay, ?_⟩
    rintro hreturned before ⟨rest, rfl⟩ hpc
    rw [List.append_assoc, List.singleton_append] at hmay hreturned h
    rw [← (sessions_past os hmay hpc).2]
    exact (h.leaves _ (List.prefix_refl _) hreturned).1
  · intro h
    have hstanding : ∀ before conf, before ++ [.tick conf] <+: actions →
        Standing (interleave os (.start fd stats) before) := fun before conf hbefore =>
      standing_of_mayTick os hstart h.ticks before
        ((List.prefix_append before [.tick conf]).trans hbefore)
    refine ⟨?_, ?_, ?_⟩
    · intro before conf hbefore
      exact (hstanding before conf hbefore).listening (h.ticks before conf hbefore)
    · rintro before conf hbefore id hid ⟨es, htrace, fd', answer, hrecv⟩
      obtain ⟨-, es', htrace', hnot⟩ :=
        (hstanding before conf hbefore).tick os conf (h.ticks before conf hbefore)
      rw [interleave_snoc, htrace', List.append_cancel_right_eq] at htrace
      exact hnot id hid fd' answer (htrace ▸ hrecv)
    · exact fun before hbefore => h.leaves os hstart rfl hbefore

end Interleave

/-- A client waits, is given descriptor 5 and sends nothing. -/
def lateClientOs : Os :=
  { (default : Os) with
    select := fun _ => true, accept := fun _ => some 5, recv := fun _ => .fail EAGAIN }

/-- A tick accepts a client between the clearing of `m_sessions` and the closing
of the listening socket: `shutdown` returns, and the client's socket is open. -/
theorem lateClient_not_cleanShutdown : ¬ CleanShutdown lateClientOs (.start 3 none)
    [.shutdown, .tick default, .shutdown, .shutdown, .shutdown] := by
  intro h
  have hleft : (interleave lateClientOs (.start 3 none)
      [.shutdown, .tick default, .shutdown, .shutdown, .shutdown]).pc = .returned ∧
        (interleave lateClientOs (.start 3 none)
          [.shutdown, .tick default, .shutdown, .shutdown, .shutdown]).server.sessions.length = 1 := by
    decide +kernel
  have hnone := (h.leaves _ (List.prefix_refl _) hleft.1).1
  rw [hnone] at hleft
  simp at hleft

end Telnet
end RepoInit
