/-
# `TelnetServer`

The server of `TelnetServer.cpp` with its statistics: a tick accepts at most
one connection and then updates the sessions in turn, erasing those that timed
out while it goes (`updateSessions`). `acceptConnection_spec` and `turn_spec`
say once what accepting and one turn of the loop can do; a run is described by
them alone.

Key definitions: `TelnetStats`, `TelnetServer.update`, `ticks`, `Reached`.
Key theorems: `acceptConnection_spec`, `turn_spec`, `update_rule`, `reached_rule`.
-/
import Mathlib.Data.List.Induction
import Mathlib.Data.List.Nodup
import RepoInit.BaseServerStats
import RepoInit.Telnet.Effects

namespace RepoInit
namespace Telnet

/-- Maximum number of concurrent sessions. -/
def MAX_AVAILABLE_SESSION : ℕ := 5

/-! ### Statistics -/

structure TelnetServerStats where
  processingTimeStart : ℤ := 0
  processingTimeEnd : ℤ := 0
  activeConnectionCtr : ℕ := 0
  acceptedConnectionCtr : ℕ := 0
  refusedConnectionCtr : ℕ := 0

structure TelnetStats where
  base : BaseServerStats := {}
  activeConnection : ℕ := 0
  refusedConnection : ℕ := 0
  totalConnection : ℕ := 0
  totalUploadBytes : ℕ := 0
  totalDownloadBytes : ℕ := 0
  sessionDuration : List ℤ := []
  maxSessionDuration : ℤ := 0
  minSessionDuration : ℤ := INT_MAX

/-- The duration of a closed session is observed, in whole seconds. -/
def TelnetStats.observeDuration (sessionTime : ℤ) (st : TelnetStats) : TelnetStats :=
  { st with
    sessionDuration := sessionTime :: st.sessionDuration
    minSessionDuration :=
      if sessionTime < st.minSessionDuration then sessionTime else st.minSessionDuration
    maxSessionDuration :=
      if sessionTime > st.maxSessionDuration then sessionTime else st.maxSessionDuration }

/-- `consumeStats(const TelnetSessionStats &, bool)`. -/
def TelnetStats.consumeStats (stat : TelnetSessionStats) (sessionClosed : Bool)
    (st : TelnetStats) : TelnetStats :=
  let st := { st with
    base := st.base.consumeBaseStats stat.successCmdCtr stat.failCmdCtr 0
    totalUploadBytes := st.totalUploadBytes + stat.uploadBytes
    totalDownloadBytes := st.totalDownloadBytes + stat.downloadBytes }
  if sessionClosed then
    st.observeDuration (Int.tdiv (stat.disconnectTime - stat.connectTime) 1000000000)
  else st

/-- `consumeStats(const TelnetServerStats &)`. -/
def TelnetStats.consumeServerStats (stat : TelnetServerStats) (st : TelnetStats) : TelnetStats :=
  let st := { st with
    activeConnection := stat.activeConnectionCtr
    refusedConnection := st.refusedConnection + stat.refusedConnectionCtr
    totalConnection := st.totalConnection + stat.acceptedConnectionCtr }
  if stat.activeConnectionCtr > 0 then
    { st with
      base := st.base.consumeBaseStats 0 0 (stat.processingTimeEnd - stat.processingTimeStart) }
  else st

/-! ### The server -/

structure TelnetServer where
  sessions : List TelnetSession := []
  /-- `none` without a prometheus registry. -/
  stats : Option TelnetStats := none
  world : World := {}

section Server

variable (os : Os) (conf : Conf)

/-- A connection is accepted; beyond the limit it is told so and closed.
Whether it is kept. -/
def acceptConnection (srv : TelnetServer) : Bool × TelnetServer :=
  match os.accept srv.world.n with
  | none => (false, { srv with world := srv.world.next })
  | some clientSocket =>
    let kept := decide (srv.sessions.length < MAX_AVAILABLE_SESSION)
    let id := srv.world.accepted
    let w := { srv.world.next.record (.accept id clientSocket kept) with accepted := id + 1 }
    let c := initialise os conf ⟨{ id := id, socket := clientSocket }, w⟩
    if srv.sessions.length ≥ MAX_AVAILABLE_SESSION then
      let c := sendLine os conf
        (str "Too many active connections. Please try again later. \r\nClosing...") c
      (false, { srv with world := (closeClient os c).world })
    else (true, { srv with sessions := srv.sessions ++ [c.session], world := c.world })

/-- One turn of the loop: the session at `idx` is updated, its statistics are
consumed, and if it timed out it is closed and erased. The index of the next
turn. -/
def turn (idx : ℕ) (srv : TelnetServer) : ℕ × TelnetServer :=
  match srv.sessions[idx]? with
  | none => (idx, srv)
  | some session =>
    let c := TelnetSession.update os conf (os.recv srv.world.n) ⟨session, srv.world.next⟩
    let (timeout, c) := checkTimeout os c
    if timeout then
      let c := closeClient os c
      (idx,
        { sessions := srv.sessions.eraseIdx idx
          stats := srv.stats.map (TelnetStats.consumeStats c.session.stats true)
          world := c.world })
    else
      (idx + 1,
        { sessions := srv.sessions.set idx c.session
          stats := srv.stats.map (TelnetStats.consumeStats c.session.stats false)
          world := c.world })

theorem turn_length {idx : ℕ} {srv : TelnetServer} (h : idx < srv.sessions.length) :
    (turn os conf idx srv).2.sessions.length - (turn os conf idx srv).1 <
      srv.sessions.length - idx := by
  unfold turn
  rw [List.getElem?_eq_getElem h]
  dsimp only
  split
  · simp only [List.length_eraseIdx_of_lt h]
    omega
  · simp only [List.length_set]
    omega

/-- The loop over the sessions in flight. -/
def updateSessions (idx : ℕ) (srv : TelnetServer) : TelnetServer :=
  if idx < srv.sessions.length then
    updateSessions (turn os conf idx srv).1 (turn os conf idx srv).2
  else srv
termination_by srv.sessions.length - idx
decreasing_by exact turn_length os conf ‹_›

/-- A pending connection is accepted: whether one was kept, whether one was
refused. -/
def pollConnection (srv : TelnetServer) : (Bool × Bool) × TelnetServer :=
  let pending := os.select srv.world.n
  let srv := { srv with world := srv.world.next }
  if pending then
    let (accepted, srv) := acceptConnection os conf srv
    ((accepted, !accepted), srv)
  else ((false, false), srv)

/-- What `update` tells the statistics about itself. -/
def serverStats (start stop : ℤ) (accepted refused : Bool) (sessions : List TelnetSession) :
    TelnetServerStats where
  processingTimeStart := start
  processingTimeEnd := stop
  activeConnectionCtr := sessions.length
  acceptedConnectionCtr := accepted.toNat
  refusedConnectionCtr := refused.toNat

/-- The first half of `update`: the time is taken and a connection accepted. -/
def startTick (srv : TelnetServer) : (Bool × Bool) × TelnetServer :=
  pollConnection os conf { srv with world := srv.world.next }

def TelnetServer.update (srv : TelnetServer) : TelnetServer :=
  let start := os.highResolutionClock srv.world.n
  let ((accepted, refused), srv) := startTick os conf srv
  let srv := updateSessions os conf 0 srv
  let stop := os.highResolutionClock srv.world.n
  { sessions := srv.sessions
    stats := srv.stats.map
      (TelnetStats.consumeServerStats (serverStats start stop accepted refused srv.sessions))
    world := srv.world.next }

/-- The sessions are closed and forgotten. -/
def TelnetServer.shutdown (srv : TelnetServer) : TelnetServer :=
  { srv with
    sessions := []
    world := srv.sessions.foldl (fun w session => (closeClient os ⟨session, w⟩).world) srv.world }

end Server

/-- One tick for each entry, under the prompt and the callbacks of the time. -/
def ticks (os : Os) (confs : List Conf) (srv : TelnetServer) : TelnetServer :=
  confs.foldl (fun srv conf => TelnetServer.update os conf srv) srv

/-- The server after `initialise`, with statistics. -/
def initialised : TelnetServer := { stats := some {} }

/-- The states a run goes through: between ticks, and within a tick after any
number of turns of its loop. -/
inductive Reached (os : Os) (start : TelnetServer) : TelnetServer → Prop
  | ticks (confs : List Conf) : Reached os start (ticks os confs start)
  | turns (confs : List Conf) (conf : Conf) (k : ℕ) :
      Reached os start ((fun p => turn os conf p.1 p.2)^[k]
        (0, (startTick os conf (Telnet.ticks os confs start)).2)).2

/-! ### What accepting does -/

/-- `c'` is `c` after the events `es`, sends of its session. -/
structure SentBy (es : List Event) (c c' : Conn) : Prop where
  sends : ∀ e ∈ es, IsSend c.session.id c.session.socket e
  trace : c'.world.trace = es ++ c.world.trace
  accepted : c'.world.accepted = c.world.accepted
  id : c'.session.id = c.session.id
  socket : c'.session.socket = c.session.socket

theorem SentBy.trans {es es' : List Event} {c₁ c₂ c₃ : Conn} (h : SentBy es c₁ c₂)
    (h' : SentBy es' c₂ c₃) : SentBy (es' ++ es) c₁ c₃ where
  sends := by
    intro e he
    rcases List.mem_append.mp he with he | he
    · have := h'.sends e he
      rwa [h.id, h.socket] at this
    · exact h.sends e he
  trace := by rw [h'.trace, h.trace, List.append_assoc]
  accepted := h'.accepted.trans h.accepted
  id := h'.id.trans h.id
  socket := h'.socket.trans h.socket

theorem Acted.sentBy {c c' : Conn} (h : Acted c c') : ∃ es, SentBy es c c' := by
  have hacted := h
  obtain ⟨es, hs, -, n, l, hw⟩ := hacted
  exact ⟨es, hs, by rw [hw], by rw [hw], h.id, h.socket⟩

theorem initialise_sentBy (os : Os) (conf : Conf) (c : Conn) :
    ∃ es, SentBy es c (initialise os conf c) := by
  obtain ⟨es, h⟩ := (initialise_acted os conf c).sentBy
  exact ⟨es, h.sends, h.trace, h.accepted, h.id, h.socket⟩

/-- The events of `closeClient`, newest first. -/
def closing (id fd : ℕ) : List Event := [.close id fd, .shutdown id fd]

theorem closeClient_trace (os : Os) (c : Conn) :
    (closeClient os c).world.trace = closing c.session.id c.session.socket ++ c.world.trace := rfl

/-- What accepting a connection can do to the server; `true` if one was kept. -/
inductive Accepts (srv srv' : TelnetServer) : Bool → Prop
  /-- `accept` gave no socket. -/
  | failed (hs : srv'.sessions = srv.sessions) (ht : srv'.world.trace = srv.world.trace)
      (ha : srv'.world.accepted = srv.world.accepted) : Accepts srv srv' false
  | refused (fd : ℕ) (es : List Event) (hmax : MAX_AVAILABLE_SESSION ≤ srv.sessions.length)
      (hsends : ∀ e ∈ es, IsSend srv.world.accepted fd e) (hs : srv'.sessions = srv.sessions)
      (ht : srv'.world.trace = closing srv.world.accepted fd ++ es ++
        .accept srv.world.accepted fd false :: srv.world.trace)
      (ha : srv'.world.accepted = srv.world.accepted + 1) : Accepts srv srv' false
  | kept (s : TelnetSession) (es : List Event) (hmax : srv.sessions.length < MAX_AVAILABLE_SESSION)
      (hid : s.id = srv.world.accepted) (hsends : ∀ e ∈ es, IsSend s.id s.socket e)
      (hs : srv'.sessions = srv.sessions ++ [s])
      (ht : srv'.world.trace = es ++ .accept s.id s.socket true :: srv.world.trace)
      (ha : srv'.world.accepted = srv.world.accepted + 1) : Accepts srv srv' true

theorem Accepts.later {srv srv' : TelnetServer} {n : ℕ} {b : Bool}
    (h : Accepts { srv with world := { srv.world with n := n } } srv' b) : Accepts srv srv' b := by
  cases h with
  | failed hs ht ha => exact .failed hs ht ha
  | refused fd es hmax hsends hs ht ha => exact .refused fd es hmax hsends hs ht ha
  | kept s es hmax hid hsends hs ht ha => exact .kept s es hmax hid hsends hs ht ha

theorem acceptConnection_stats (os : Os) (conf : Conf) (srv : TelnetServer) :
    (acceptConnection os conf srv).2.stats = srv.stats := by
  unfold acceptConnection
  split
  · rfl
  · dsimp only
    split <;> rfl

theorem acceptConnection_spec (os : Os) (conf : Conf) (srv : TelnetServer) :
    Accepts srv (acceptConnection os conf srv).2 (acceptConnection os conf srv).1 := by
  unfold acceptConnection
  split
  · exact .failed rfl rfl rfl
  · rename_i clientSocket _
    dsimp only
    set c₀ : Conn := ⟨{ id := srv.world.accepted, socket := clientSocket },
      { srv.world.next.record (.accept srv.world.accepted clientSocket
          (decide (srv.sessions.length < MAX_AVAILABLE_SESSION))) with
        accepted := srv.world.accepted + 1 }⟩ with hc₀
    obtain ⟨es, h⟩ := initialise_sentBy os conf c₀
    split
    · rename_i hmax
      obtain ⟨es', h'⟩ := (sendLine_acted os conf
        (str "Too many active connections. Please try again later. \r\nClosing...")
        (initialise os conf c₀)).sentBy
      have hall := h.trans h'
      refine .refused clientSocket (es' ++ es) hmax hall.sends rfl ?_ hall.accepted
      rw [closeClient_trace, hall.trace, hall.id, hall.socket]
      simp [hc₀, World.record, World.next, Nat.not_lt.mpr hmax]
    · rename_i hmax
      have hlt : srv.sessions.length < MAX_AVAILABLE_SESSION := by omega
      refine .kept (initialise os conf c₀).session es hlt h.id ?_ rfl ?_ h.accepted
      · rw [h.id, h.socket]
        exact h.sends
      · rw [h.trace, h.id, h.socket]
        simp [hc₀, World.record, World.next, hlt]

/-! ### What one turn does -/

/-- The statistics of an update with these events. -/
structure Counted (answer : Recv) (es : List Event) (stat : TelnetSessionStats) : Prop where
  upload : stat.uploadBytes = total Event.sent es
  download : stat.downloadBytes = answer.size
  success : stat.successCmdCtr = total (Event.answered true) es
  fail : stat.failCmdCtr = total (Event.answered false) es

/-- A turn at the session `s`, between `done` and `todo`: an update with the
answer and the events, of which `stat` is told the statistics, and then the
session stays or is closed and goes. -/
structure Turn (done : List TelnetSession) (s : TelnetSession) (todo : List TelnetSession)
    (srv : TelnetServer) (answer : Recv) (es : List Event) (stat : TelnetSessionStats)
    (rest : List TelnetSession) (closed : List Event) (p : ℕ × TelnetServer) : Prop where
  events : UpdateEvents answer s.id s.socket es
  counted : Counted answer es stat
  outcome : (∃ s', s'.id = s.id ∧ s'.socket = s.socket ∧ rest = [s'] ∧ closed = []) ∨
    (rest = [] ∧ closed = closing s.id s.socket)
  index : p.1 = done.length + rest.length
  sessions : p.2.sessions = done ++ rest ++ todo
  stats : p.2.stats = srv.stats.map (TelnetStats.consumeStats stat rest.isEmpty)
  trace : p.2.world.trace = closed ++ es ++ .recv s.id s.socket answer :: srv.world.trace
  accepted : p.2.world.accepted = srv.world.accepted

theorem turn_spec (os : Os) (conf : Conf) {srv : TelnetServer} {done todo : List TelnetSession}
    {s : TelnetSession} (hs : srv.sessions = done ++ s :: todo) :
    ∃ answer es stat rest closed,
      Turn done s todo srv answer es stat rest closed (turn os conf done.length srv) := by
  have hget : srv.sessions[done.length]? = some s := by simp [hs]
  obtain ⟨es, h⟩ := update_updated os conf (os.recv srv.world.n) ⟨s, srv.world.next⟩
  refine ⟨os.recv srv.world.n, es, ?_⟩
  unfold turn
  rw [hget]
  dsimp only [checkTimeout]
  set c := TelnetSession.update os conf (os.recv srv.world.n) ⟨s, srv.world.next⟩ with hc
  have htrace : c.world.trace =
      es ++ .recv s.id s.socket (os.recv srv.world.n) :: srv.world.trace := h.trace
  split
  · refine ⟨_, [], closing s.id s.socket, h.events, ?_, Or.inr ⟨rfl, rfl⟩, rfl, ?_, rfl, ?_,
      h.accepted⟩
    · constructor <;> simp [closeClient, h.stats]
    · simp [hs, List.eraseIdx_append_of_length_le]
    · rw [closeClient_trace, h.id, h.socket]
      show _ ++ c.world.trace = _
      rw [htrace, List.append_assoc]
  · refine ⟨_, [c.session], [], h.events, ?_, Or.inl ⟨c.session, h.id, h.socket, rfl, rfl⟩, rfl, ?_,
      rfl, htrace, h.accepted⟩
    · constructor <;> simp [h.stats]
    · simp [hs]

/-- The trace only grows. -/
theorem Accepts.suffix {srv srv' : TelnetServer} {b : Bool} (h : Accepts srv srv' b) :
    srv.world.trace <:+ srv'.world.trace := by
  cases h with
  | failed hs ht ha => rw [ht]
  | refused fd es hmax hsends hs ht ha =>
    rw [ht]
    exact (List.suffix_cons _ _).trans (List.suffix_append _ _)
  | kept s es hmax hid hsends hs ht ha =>
    rw [ht]
    exact (List.suffix_cons _ _).trans (List.suffix_append _ _)

/-- A new session has a new number. -/
theorem Accepts.sessions_lt {srv srv' : TelnetServer} {b : Bool} (h : Accepts srv srv' b)
    (hlt : ∀ s ∈ srv.sessions, s.id < srv.world.accepted) :
    ∀ s ∈ srv'.sessions, s.id < srv'.world.accepted := by
  cases h with
  | failed hs ht ha =>
    rw [hs, ha]
    exact hlt
  | refused fd es hmax hsends hs ht ha =>
    rw [hs, ha]
    exact fun s hm => (hlt s hm).trans (Nat.lt_succ_self _)
  | kept s es hmax hid hsends hs ht ha =>
    rw [hs, ha]
    intro s' hm
    rcases List.mem_append.mp hm with hm | hm
    · exact (hlt s' hm).trans (Nat.lt_succ_self _)
    · rw [List.mem_singleton.mp hm, hid]
      exact Nat.lt_succ_self _

/-- So numbers tell sessions apart. -/
theorem Accepts.nodup_ids {srv srv' : TelnetServer} {b : Bool} (h : Accepts srv srv' b)
    (hlt : ∀ s ∈ srv.sessions, s.id < srv.world.accepted)
    (hids : (srv.sessions.map (·.id)).Nodup) : (srv'.sessions.map (·.id)).Nodup := by
  cases h with
  | failed hs ht ha =>
    rw [hs]
    exact hids
  | refused fd es hmax hsends hs ht ha =>
    rw [hs]
    exact hids
  | kept s es hmax hid hsends hs ht ha =>
    rw [hs, List.map_append, List.map_singleton, List.nodup_append]
    refine ⟨hids, List.nodup_singleton _, ?_⟩
    rintro i hi j hj rfl
    obtain ⟨s', hm, rfl⟩ := List.mem_map.mp hi
    have := hlt s' hm
    rw [List.mem_singleton.mp hj, hid] at this
    exact lt_irrefl _ this

/-- What tells sessions apart tells one from those before and behind it. -/
theorem others_ne {sessions done todo : List TelnetSession} {s : TelnetSession}
    {f : TelnetSession → ℕ} (hs : sessions = done ++ s :: todo) (h : (sessions.map f).Nodup) :
    ∀ r ∈ done ++ todo, f r ≠ f s := by
  rw [hs, List.map_append, List.map_cons, List.nodup_middle, List.nodup_cons,
    ← List.map_append] at h
  intro r hr heq
  exact h.1 (heq ▸ List.mem_map_of_mem hr)

section TurnFacts

variable {done todo rest : List TelnetSession} {s : TelnetSession} {srv : TelnetServer}
  {answer : Recv} {es closed : List Event} {stat : TelnetSessionStats} {p : ℕ × TelnetServer}

theorem Turn.suffix (h : Turn done s todo srv answer es stat rest closed p) :
    srv.world.trace <:+ p.2.world.trace := by
  rw [h.trace]
  exact (List.suffix_cons _ _).trans (List.suffix_append _ _)

/-- The sessions after a turn are sessions from before it. -/
theorem Turn.left (h : Turn done s todo srv answer es stat rest closed p)
    (hs : srv.sessions = done ++ s :: todo) :
    ∀ s' ∈ p.2.sessions, ∃ s'' ∈ srv.sessions, s''.id = s'.id ∧ s''.socket = s'.socket := by
  intro s' hm
  simp only [h.sessions, List.mem_append] at hm
  rw [hs]
  rcases hm with (hm | hm) | hm
  · exact ⟨s', by simp [hm], rfl, rfl⟩
  · rcases h.outcome with ⟨s₁, hid, hsocket, rfl, -⟩ | ⟨rfl, -⟩
    · rw [List.mem_singleton.mp hm]
      exact ⟨s, by simp, hid.symm, hsocket.symm⟩
    · simp at hm
  · exact ⟨s', by simp [hm], rfl, rfl⟩

theorem Turn.sessions_lt (h : Turn done s todo srv answer es stat rest closed p)
    (hs : srv.sessions = done ++ s :: todo) (hlt : ∀ s ∈ srv.sessions, s.id < srv.world.accepted) :
    ∀ s' ∈ p.2.sessions, s'.id < p.2.world.accepted := by
  intro s' hm
  obtain ⟨s'', hm', hid, -⟩ := h.left hs s' hm
  rw [h.accepted, ← hid]
  exact hlt s'' hm'

theorem Turn.nodup_ids (h : Turn done s todo srv answer es stat rest closed p)
    (hs : srv.sessions = done ++ s :: todo) (hids : (srv.sessions.map (·.id)).Nodup) :
    (p.2.sessions.map (·.id)).Nodup := by
  rw [hs] at hids
  rw [h.sessions]
  rcases h.outcome with ⟨s', hid, -, rfl, -⟩ | ⟨rfl, -⟩
  · simpa [hid] using hids
  · rw [List.append_nil]
    exact hids.sublist (((List.sublist_cons_self s todo).append_left done).map _)

end TurnFacts

theorem startTick_spec (os : Os) (conf : Conf) (srv : TelnetServer) :
    Accepts srv (startTick os conf srv).2 (startTick os conf srv).1.1 ∧
      (startTick os conf srv).2.stats = srv.stats := by
  unfold startTick pollConnection
  dsimp only
  split
  · exact ⟨(acceptConnection_spec os conf _).later, acceptConnection_stats os conf _⟩
  · exact ⟨.failed rfl rfl rfl, rfl⟩

/-! ### Rules for runs -/

/-- The session at an index, and those before and behind it. -/
theorem split_at {idx : ℕ} {sessions : List TelnetSession} (h : idx < sessions.length) :
    ∃ done s todo, sessions = done ++ s :: todo ∧ idx = done.length := by
  refine ⟨sessions.take idx, sessions[idx], sessions.drop (idx + 1), ?_, ?_⟩
  · rw [← List.drop_eq_getElem_cons h, List.take_append_drop]
  · rw [List.length_take, Nat.min_eq_left h.le]

/-- What every turn preserves. -/
def TurnsKeep (P : TelnetServer → Prop) : Prop :=
  ∀ done s todo srv answer es stat rest closed p, srv.sessions = done ++ s :: todo →
    Turn done s todo srv answer es stat rest closed p → P srv → P p.2

/-- A loop past its last session stays there. -/
theorem turn_past (os : Os) (conf : Conf) {idx : ℕ} {srv : TelnetServer}
    (h : srv.sessions.length ≤ idx) : turn os conf idx srv = (idx, srv) := by
  unfold turn
  rw [List.getElem?_eq_none h]

theorem turn_rule (os : Os) (conf : Conf) {P : TelnetServer → Prop} (hturn : TurnsKeep P)
    (idx : ℕ) {srv : TelnetServer} (h : P srv) : P (turn os conf idx srv).2 := by
  by_cases hidx : idx < srv.sessions.length
  · obtain ⟨done, s, todo, hs, rfl⟩ := split_at hidx
    obtain ⟨answer, es, stat, rest, closed, ht⟩ := turn_spec os conf hs
    exact hturn _ _ _ _ _ _ _ _ _ _ hs ht h
  · rw [turn_past os conf (Nat.le_of_not_lt hidx)]
    exact h

/-- What every turn of the loop preserves, the loop preserves. -/
theorem updateSessions_rule (os : Os) (conf : Conf) {P : TelnetServer → Prop}
    (hturn : TurnsKeep P) (idx : ℕ) {srv : TelnetServer} (h : P srv) :
    P (updateSessions os conf idx srv) := by
  induction idx, srv using updateSessions.induct os conf with
  | case1 idx srv hidx ih =>
    rw [updateSessions, if_pos hidx]
    exact ih (turn_rule os conf hturn idx h)
  | case2 idx srv hidx =>
    rw [updateSessions, if_neg hidx]
    exact h

section Rules

variable (os : Os) {P : TelnetServer → Prop} (hturn : TurnsKeep P)
  (haccept : ∀ srv srv' b, Accepts srv srv' b → P srv → P srv')
  (hsame : ∀ srv st n, P srv → P { srv with stats := st, world := { srv.world with n := n } })

include hturn haccept hsame

/-- What accepting and turns preserve and neither the statistics nor the clock
change, a tick preserves. -/
theorem update_rule (conf : Conf) {srv : TelnetServer} (h : P srv) :
    P (TelnetServer.update os conf srv) := by
  have hfirst := haccept _ _ _ (startTick_spec os conf srv).1 h
  exact hsame _ _ _ (updateSessions_rule os conf hturn 0 hfirst)

/-- The same for a run. -/
theorem reached_rule {start srv : TelnetServer} (h : P start) (hr : Reached os start srv) :
    P srv := by
  have hticks : ∀ confs, P (ticks os confs start) := by
    intro confs
    induction confs using List.reverseRecOn with
    | nil => exact h
    | append_singleton confs conf ih =>
      simp only [ticks, List.foldl_append, List.foldl_cons, List.foldl_nil]
      exact update_rule os hturn haccept hsame conf ih
  cases hr with
  | ticks confs => exact hticks confs
  | turns confs conf k =>
    have hfirst := haccept _ _ _ (startTick_spec os conf _).1 (hticks confs)
    induction k with
    | zero => exact hfirst
    | succ k ih =>
      rw [Function.iterate_succ_apply']
      exact turn_rule os conf hturn _ ih

end Rules

end Telnet
end RepoInit
