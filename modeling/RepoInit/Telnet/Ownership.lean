/-
# Who owns the server

Every `TelnetSession` holds a `shared_ptr` to the server, and the server holds
the sessions. A tick of the server thread is cut into the steps between which
another thread can tell the difference: accepting a connection, making its
session, which stores `shared_from_this()`, admitting it to `m_sessions`, and
each turn of the loop. The steps of a tick are `update` (`threadStep_update`).

In every state reached the strong count is the handles outside and the sessions
alive, and every accepted socket is closed, that of a session, or the one that
`acceptConnection` has in hand (`run_kept`).

Key definitions: `SharedServer`, `threadStep`, `SharedServer.shutdown`,
`SharedServer.act`, `RefCounted`, `Held`.
Key theorems: `threadStep_update`, `RefCounted.act`, `Held.act`, `run_kept`.
-/
import RepoInit.Telnet.Descriptors
import RepoInit.Telnet.Shutdown

namespace RepoInit
namespace Telnet

/-! ### The steps -/

/-- Where the server thread stands. -/
inductive ThreadPc where
  /-- Between two calls of `update`. -/
  | waiting
  /-- In `acceptConnection`, with a socket that has no session yet; `kept` if
  there is room for one. -/
  | accepted (start : ℤ) (id clientSocket : ℕ) (kept : Bool)
  /-- In `acceptConnection`, with a session that is not in `m_sessions`: not
  yet, or only made to send the error. -/
  | made (start : ℤ) (session : TelnetSession) (kept : Bool)
  /-- In the loop over the sessions, with what `update` has noted so far. -/
  | turns (idx : ℕ) (start : ℤ) (accepted refused : Bool)
  /-- `threadFunc` has returned. -/
  | ended

/-- Where `shutdown` stands. -/
inductive ShutdownPc where
  /-- It is not called, or before its first step. -/
  | begin
  /-- The sessions are closed and `m_sessions` is cleared. -/
  | cleared
  /-- The listening socket is closed. -/
  | closed
  /-- `m_initialised` is `false`. -/
  | unset
  /-- The thread was told to stop and is being joined. -/
  | stopping
  | returned
  deriving DecidableEq, Repr

/-- A server that is owned by `shared_ptr`s. -/
structure SharedServer where
  server : TelnetServer
  /-- The `shared_ptr`s that are no member of a session. -/
  handles : ℕ := 1
  /-- The strong count. -/
  useCount : ℕ := 1
  /-- Is the listening socket open? -/
  listening : Bool := true
  initialised : Bool := true
  thread : ThreadPc := .waiting
  /-- What the stop token of the thread tells. -/
  stopRequested : Bool := false
  shutdownPc : ShutdownPc := .begin

/-- `make_shared` and `initialise`. -/
def SharedServer.start (stats : Option TelnetStats) : SharedServer := { server := { stats := stats } }

/-- Is there room for another session? -/
def hasRoom (srv : TelnetServer) : Bool := decide (srv.sessions.length < MAX_AVAILABLE_SESSION)

section Steps

variable (os : Os)

/-- `update` up to the socket of a pending connection. -/
def poll (srv : TelnetServer) : ThreadPc × TelnetServer :=
  let start := os.highResolutionClock srv.world.n
  let w := srv.world.next
  if os.select w.n then
    match os.accept w.next.n with
    | none => (.turns 0 start false true, { srv with world := w.next.next })
    | some clientSocket =>
      let kept := hasRoom srv
      let w := { w.next.next.record (.accept w.accepted clientSocket kept) with
        accepted := w.accepted + 1 }
      (.accepted start srv.world.accepted clientSocket kept, { srv with world := w })
  else (.turns 0 start false false, { srv with world := w.next })

/-- `acceptConnection` from its session on: it goes into `m_sessions`, or is told
that there are too many and closed. -/
def finishAccept (conf : Conf) (session : TelnetSession) (kept : Bool) (srv : TelnetServer) :
    TelnetServer :=
  let c := initialise os conf ⟨session, srv.world⟩
  if kept then { srv with sessions := srv.sessions ++ [c.session], world := c.world }
  else
    let c := sendLine os conf
      (str "Too many active connections. Please try again later. \r\nClosing...") c
    { srv with world := (closeClient os c).world }

/-- The server thread goes on: a session that is made stores
`shared_from_this()`, and a session that is refused or erased goes and gives it
back. -/
def threadStep (conf : Conf) (sh : SharedServer) : SharedServer :=
  match sh.thread with
  | .waiting =>
    if sh.stopRequested then { sh with thread := .ended }
    else
      let (thread, srv) := poll os sh.server
      { sh with server := srv, thread := thread }
  | .accepted start id clientSocket kept =>
    -- without an owner `shared_from_this()` throws, and `threadFunc` gives the tick up
    if sh.useCount = 0 then { sh with thread := .waiting }
    else
      { sh with
        useCount := sh.useCount + 1
        thread := .made start { id := id, socket := clientSocket } kept }
  | .made start session kept =>
    { sh with
      server := finishAccept os conf session kept sh.server
      useCount := if kept then sh.useCount else sh.useCount - 1
      thread := .turns 0 start kept !kept }
  | .turns idx start accepted refused =>
    if idx < sh.server.sessions.length then
      let (idx, srv) := turn os conf idx sh.server
      let erased := sh.server.sessions.length - srv.sessions.length
      { sh with
        server := srv
        useCount := sh.useCount - erased
        thread := .turns idx start accepted refused }
    else
      let stop := os.highResolutionClock sh.server.world.n
      { sh with
        server := { sh.server with
          stats := sh.server.stats.map (TelnetStats.consumeServerStats
            (serverStats start stop accepted refused sh.server.sessions))
          world := sh.server.world.next }
        thread := .waiting }
  | .ended => sh

/-- The next step of `shutdown`. Closing the sessions and forgetting them is one
step: C++ leaves it undefined what the loop does if `m_sessions` changes under
it. -/
def SharedServer.shutdown (sh : SharedServer) : SharedServer :=
  match sh.shutdownPc with
  | .begin =>
    { sh with
      server := sh.server.shutdown os
      useCount := sh.useCount - sh.server.sessions.length
      shutdownPc := .cleared }
  | .cleared => { sh with listening := false, shutdownPc := .closed }
  | .closed => { sh with initialised := false, shutdownPc := .unset }
  | .unset => { sh with stopRequested := true, shutdownPc := .stopping }
  | .stopping =>
    -- `~jthread` waits for `threadFunc`
    match sh.thread with
    | .ended => { sh with shutdownPc := .returned }
    | _ => sh
  | .returned => sh

/-- What the thread and the holders of handles do. -/
inductive SharedAct where
  | thread (conf : Conf)
  /-- Another handle. -/
  | copy
  /-- A handle goes that is not the last one. -/
  | drop
  /-- `shutdown`, called through a handle, goes on. -/
  | shutdown
  /-- It is called again. -/
  | call
  /-- `initialise`, which does nothing for a server that is initialised. -/
  | initialise

def SharedServer.act (sh : SharedServer) : SharedAct → SharedServer
  | .thread conf => threadStep os conf sh
  | .copy => { sh with handles := sh.handles + 1, useCount := sh.useCount + 1 }
  | .drop =>
    if 1 < sh.handles then { sh with handles := sh.handles - 1, useCount := sh.useCount - 1 } else sh
  | .shutdown => sh.shutdown os
  | .call => if sh.shutdownPc = .returned then { sh with shutdownPc := .begin } else sh
  | .initialise =>
    if sh.initialised ∨ sh.shutdownPc ≠ .returned then sh
    else
      { sh with
        initialised := true
        listening := true
        thread := .waiting
        stopRequested := false
        shutdownPc := .begin }

def SharedServer.run (sh : SharedServer) (acts : List SharedAct) : SharedServer :=
  acts.foldl (SharedServer.act os) sh

/-- The connection and the socket that `acceptConnection` has in hand. -/
def ThreadPc.socket : ThreadPc → Option (ℕ × ℕ)
  | .accepted _ id clientSocket _ => some (id, clientSocket)
  | .made _ session _ => some (session.id, session.socket)
  | _ => none

/-! ### The steps of a tick are `update` -/

/-- The server after `poll` if it accepts `clientSocket`. -/
def accepting (clientSocket : ℕ) (srv : TelnetServer) : TelnetServer :=
  { srv with world := { srv.world with
      n := srv.world.n + 3
      accepted := srv.world.accepted + 1
      trace := .accept srv.world.accepted clientSocket (hasRoom srv) :: srv.world.trace } }

/-- What `poll` does: no connection is accepted, or one is. -/
theorem poll_cases (srv : TelnetServer) :
    (∃ refused n, poll os srv = (.turns 0 (os.highResolutionClock srv.world.n) false refused,
        { srv with world := { srv.world with n := n } }) ∧
      ¬ (os.select (srv.world.n + 1) = true ∧ (os.accept (srv.world.n + 2)).isSome)) ∨
    ∃ clientSocket, os.select (srv.world.n + 1) = true ∧
      os.accept (srv.world.n + 2) = some clientSocket ∧
      poll os srv = (.accepted (os.highResolutionClock srv.world.n) srv.world.accepted clientSocket
        (hasRoom srv), accepting clientSocket srv) := by
  unfold poll World.next
  dsimp only
  by_cases hselect : os.select (srv.world.n + 1) = true
  · rw [if_pos hselect]
    cases haccept : os.accept (srv.world.n + 1 + 1) with
    | none => exact Or.inl ⟨true, _, rfl, by simp⟩
    | some clientSocket => exact Or.inr ⟨clientSocket, hselect, rfl, rfl⟩
  · rw [if_neg hselect]
    exact Or.inl ⟨false, _, rfl, fun h => hselect h.1⟩

/-- A connection that is accepted is admitted. -/
theorem acceptConnection_finishAccept (conf : Conf) (srv : TelnetServer) {clientSocket : ℕ}
    (haccept : os.accept srv.world.n = some clientSocket) :
    acceptConnection os conf srv = (hasRoom srv,
      finishAccept os conf { id := srv.world.accepted, socket := clientSocket } (hasRoom srv)
        { srv with world := { srv.world with
          n := srv.world.n + 1
          accepted := srv.world.accepted + 1
          trace := .accept srv.world.accepted clientSocket (hasRoom srv) :: srv.world.trace } }) := by
  unfold acceptConnection
  rw [haccept]
  unfold hasRoom finishAccept
  dsimp only
  by_cases hroom : srv.sessions.length < MAX_AVAILABLE_SESSION
  · rw [if_neg (Nat.not_le.mpr hroom), decide_eq_true hroom]
    rfl
  · rw [if_pos (Nat.not_lt.mp hroom), decide_eq_false hroom]
    rfl

/-- The first half of `update` is to poll and, if that accepts a connection, to
admit it. -/
theorem startTick_poll (conf : Conf) (srv : TelnetServer) :
    (∃ accepted refused, (poll os srv).1 =
        .turns 0 (os.highResolutionClock srv.world.n) accepted refused ∧
      startTick os conf srv = ((accepted, refused), (poll os srv).2)) ∨
    ∃ id clientSocket kept, (poll os srv).1 =
        .accepted (os.highResolutionClock srv.world.n) id clientSocket kept ∧
      startTick os conf srv = ((kept, !kept),
        finishAccept os conf { id := id, socket := clientSocket } kept (poll os srv).2) := by
  unfold startTick pollConnection poll World.next
  dsimp only
  by_cases hselect : os.select (srv.world.n + 1) = true
  · rw [if_pos hselect, if_pos hselect]
    cases haccept : os.accept (srv.world.n + 1 + 1) with
    | none =>
      unfold acceptConnection
      dsimp only
      rw [haccept]
      exact Or.inl ⟨false, true, rfl, rfl⟩
    | some clientSocket =>
      refine Or.inr ⟨srv.world.accepted, clientSocket, hasRoom srv, rfl, ?_⟩
      rw [acceptConnection_finishAccept os conf _ haccept]
      rfl
  · rw [if_neg hselect, if_neg hselect]
    exact Or.inl ⟨false, false, rfl, rfl⟩

/-- The loop from a turn on, with the statistics at its end. -/
theorem threadStep_turns (conf : Conf) (start : ℤ) (accepted refused : Bool) (idx : ℕ)
    (srv : TelnetServer) : ∀ sh : SharedServer, sh.server = srv →
      sh.thread = .turns idx start accepted refused →
      ∃ k, ((threadStep os conf)^[k] sh).thread = .waiting ∧
        ((threadStep os conf)^[k] sh).server =
          { updateSessions os conf idx srv with
            stats := (updateSessions os conf idx srv).stats.map (TelnetStats.consumeServerStats
              (serverStats start
                (os.highResolutionClock (updateSessions os conf idx srv).world.n) accepted refused
                (updateSessions os conf idx srv).sessions))
            world := (updateSessions os conf idx srv).world.next } := by
  induction idx, srv using updateSessions.induct os conf with
  | case1 idx srv hidx ih =>
    rintro sh rfl hpc
    have hstep : (threadStep os conf sh).server = (turn os conf idx sh.server).2 ∧
        (threadStep os conf sh).thread =
          .turns (turn os conf idx sh.server).1 start accepted refused := by
      unfold threadStep
      rw [hpc]
      dsimp only
      rw [if_pos hidx]
      exact ⟨rfl, rfl⟩
    obtain ⟨k, hwaiting, hserver⟩ := ih (threadStep os conf sh) hstep.1 hstep.2
    refine ⟨k + 1, hwaiting, ?_⟩
    rw [updateSessions, if_pos hidx]
    exact hserver
  | case2 idx srv hidx =>
    rintro sh rfl hpc
    refine ⟨1, ?_⟩
    show (threadStep os conf sh).thread = _ ∧ (threadStep os conf sh).server = _
    unfold threadStep
    rw [hpc, updateSessions, if_neg hidx]
    dsimp only
    rw [if_neg hidx]
    exact ⟨rfl, rfl⟩

section Stepwise

variable {os}

theorem threadStep_waiting (conf : Conf) {sh : SharedServer} (hthread : sh.thread = .waiting)
    (hgo : sh.stopRequested = false) :
    threadStep os conf sh =
      { sh with server := (poll os sh.server).2, thread := (poll os sh.server).1 } := by
  unfold threadStep
  rw [hthread]
  dsimp only
  rw [hgo]
  rfl

theorem threadStep_accepted (conf : Conf) {sh : SharedServer} {start : ℤ} {id clientSocket : ℕ}
    {kept : Bool} (hthread : sh.thread = .accepted start id clientSocket kept)
    (hcount : sh.useCount ≠ 0) :
    threadStep os conf sh = { sh with
      useCount := sh.useCount + 1
      thread := .made start { id := id, socket := clientSocket } kept } := by
  unfold threadStep
  rw [hthread]
  exact if_neg hcount

/-- `shared_from_this()` throws. -/
theorem threadStep_expired (conf : Conf) {sh : SharedServer} {start : ℤ} {id clientSocket : ℕ}
    {kept : Bool} (hthread : sh.thread = .accepted start id clientSocket kept)
    (hcount : sh.useCount = 0) : threadStep os conf sh = { sh with thread := .waiting } := by
  unfold threadStep
  rw [hthread]
  exact if_pos hcount

theorem threadStep_made (conf : Conf) {sh : SharedServer} {start : ℤ} {session : TelnetSession}
    {kept : Bool} (hthread : sh.thread = .made start session kept) :
    threadStep os conf sh = { sh with
      server := finishAccept os conf session kept sh.server
      useCount := if kept then sh.useCount else sh.useCount - 1
      thread := .turns 0 start kept !kept } := by
  unfold threadStep
  rw [hthread]

theorem threadStep_ended (conf : Conf) {sh : SharedServer} (hthread : sh.thread = .ended) :
    threadStep os conf sh = sh := by
  unfold threadStep
  rw [hthread]

/-- The thread leaves alone what `shutdown` and the holders of handles change. -/
theorem threadStep_frame (conf : Conf) (sh : SharedServer) :
    (threadStep os conf sh).shutdownPc = sh.shutdownPc ∧
      (threadStep os conf sh).stopRequested = sh.stopRequested ∧
      (threadStep os conf sh).listening = sh.listening := by
  unfold threadStep
  split
  · split <;> exact ⟨rfl, rfl, rfl⟩
  · split <;> exact ⟨rfl, rfl, rfl⟩
  · exact ⟨rfl, rfl, rfl⟩
  · split <;> exact ⟨rfl, rfl, rfl⟩
  · exact ⟨rfl, rfl, rfl⟩

end Stepwise

/-- **The steps of a tick are a call of `update`**, while the server has an
owner. -/
theorem threadStep_update (conf : Conf) {sh : SharedServer} (hthread : sh.thread = .waiting)
    (hgo : sh.stopRequested = false) (hcount : sh.useCount ≠ 0) :
    ∃ k, ((threadStep os conf)^[k] sh).thread = .waiting ∧
      ((threadStep os conf)^[k] sh).server = TelnetServer.update os conf sh.server := by
  set start := os.highResolutionClock sh.server.world.n with hstart
  -- from the loop on, wherever it is entered from
  have hturns : ∀ sh' : SharedServer, sh'.server = (startTick os conf sh.server).2 →
      sh'.thread = .turns 0 start (startTick os conf sh.server).1.1
        (startTick os conf sh.server).1.2 →
      ∃ k, ((threadStep os conf)^[k] sh').thread = .waiting ∧
        ((threadStep os conf)^[k] sh').server = TelnetServer.update os conf sh.server :=
    fun sh' hserver hthread' => threadStep_turns os conf start _ _ 0 _ sh' hserver hthread'
  have hfirst := @threadStep_waiting os conf sh hthread hgo
  rcases startTick_poll os conf sh.server with
    ⟨accepted, refused, hpoll, htick⟩ | ⟨id, clientSocket, kept, hpoll, htick⟩
  · obtain ⟨k, hk⟩ := hturns (threadStep os conf sh) (by rw [hfirst, htick])
      (by rw [hfirst, htick, hpoll])
    exact ⟨k + 1, hk⟩
  · -- the session is made and admitted before the loop
    have hsecond := @threadStep_accepted os conf (threadStep os conf sh) start id clientSocket kept
      (by rw [hfirst, hpoll]) (by rw [hfirst]; exact hcount)
    have hthird := @threadStep_made os conf (threadStep os conf (threadStep os conf sh)) start
      { id := id, socket := clientSocket } kept (by rw [hsecond])
    obtain ⟨k, hk⟩ := hturns (threadStep os conf (threadStep os conf (threadStep os conf sh)))
      (by rw [hthird, hsecond, hfirst, htick]) (by rw [hthird, htick])
    exact ⟨k + 3, hk⟩

end Steps

/-! ### What the steps keep -/

/-- The session that is alive and not in `m_sessions`. -/
def ThreadPc.alive : ThreadPc → ℕ
  | .made _ _ _ => 1
  | _ => 0

/-- The strong count is the handles and the sessions alive; there is always a
handle. -/
structure RefCounted (sh : SharedServer) : Prop where
  count : sh.useCount = sh.handles + sh.server.sessions.length + sh.thread.alive
  held : 1 ≤ sh.handles

/-- Every accepted socket is closed, or that of a session or of the connection
in hand, which is none of the sessions' and open. -/
structure Held (socket : Option (ℕ × ℕ)) (srv : TelnetServer) : Prop where
  sessions_lt : ∀ s ∈ srv.sessions, s.id < srv.world.accepted
  closed_lt : ∀ id fd, .close id fd ∈ srv.world.trace → id < srv.world.accepted
  covered : ∀ id fd kept, .accept id fd kept ∈ srv.world.trace →
    .close id fd ∈ srv.world.trace ∨ (∃ s ∈ srv.sessions, s.id = id ∧ s.socket = fd) ∨
      socket = some (id, fd)
  inHand : ∀ id fd, socket = some (id, fd) → id < srv.world.accepted ∧
    (∃ kept, .accept id fd kept ∈ srv.world.trace) ∧ (∀ fd', .close id fd' ∉ srv.world.trace) ∧
      ∀ s ∈ srv.sessions, s.id ≠ id

/-- `shutdown` does not return before the thread has ended. -/
def Joined (sh : SharedServer) : Prop := sh.shutdownPc = .returned → sh.thread = .ended

section Kept

variable (os : Os)

/-- What admitting a session does: it is kept, or closed. -/
theorem finishAccept_cases (conf : Conf) (session : TelnetSession) (srv : TelnetServer) :
    (∃ s es, s.id = session.id ∧ s.socket = session.socket ∧
        (∀ e ∈ es, IsSend session.id session.socket e) ∧
        (finishAccept os conf session true srv).sessions = srv.sessions ++ [s] ∧
        (finishAccept os conf session true srv).world.trace = es ++ srv.world.trace ∧
        (finishAccept os conf session true srv).world.accepted = srv.world.accepted) ∧
      ∃ es, (∀ e ∈ es, IsSend session.id session.socket e) ∧
        (finishAccept os conf session false srv).sessions = srv.sessions ∧
        (finishAccept os conf session false srv).world.trace =
          closing session.id session.socket ++ es ++ srv.world.trace ∧
        (finishAccept os conf session false srv).world.accepted = srv.world.accepted := by
  obtain ⟨es, h⟩ := initialise_sentBy os conf ⟨session, srv.world⟩
  refine ⟨⟨_, es, h.id, h.socket, h.sends, rfl, h.trace, h.accepted⟩, ?_⟩
  obtain ⟨es', h'⟩ := (sendLine_acted os conf
    (str "Too many active connections. Please try again later. \r\nClosing...")
    (initialise os conf ⟨session, srv.world⟩)).sentBy
  have hall := h.trans h'
  refine ⟨es' ++ es, hall.sends, rfl, ?_, hall.accepted⟩
  show (closeClient os _).world.trace = _
  rw [closeClient_trace, hall.trace, hall.id, hall.socket]
  exact (List.append_assoc _ _ _).symm

omit os in
theorem not_close_sends {id fd : ℕ} {es : List Event} (h : ∀ e ∈ es, IsSend id fd e) (i f : ℕ) :
    .close i f ∉ es := by
  intro hm
  obtain ⟨data, r, he⟩ := h _ hm
  cases he

theorem RefCounted.thread (conf : Conf) {sh : SharedServer} (h : RefCounted sh) :
    RefCounted (threadStep os conf sh) := by
  obtain ⟨hcount, hheld⟩ := h
  unfold threadStep
  cases hthread : sh.thread with
  | waiting =>
    rw [hthread] at hcount
    dsimp only [ThreadPc.alive] at hcount ⊢
    split
    · exact ⟨hcount, hheld⟩
    · rcases poll_cases os sh.server with ⟨refused, n, hpoll, -⟩ | ⟨fd, -, -, hpoll⟩ <;>
      · rw [hpoll]
        exact ⟨hcount, hheld⟩
  | accepted start id fd kept =>
    rw [hthread] at hcount
    dsimp only [ThreadPc.alive] at hcount ⊢
    split
    · exact ⟨hcount, hheld⟩
    · refine ⟨?_, hheld⟩
      show sh.useCount + 1 = sh.handles + sh.server.sessions.length + 1
      omega
  | made start session kept =>
    rw [hthread] at hcount
    dsimp only [ThreadPc.alive] at hcount ⊢
    refine ⟨?_, hheld⟩
    obtain ⟨⟨s, -, -, -, -, hkept, -⟩, -, -, hrefused, -⟩ := finishAccept_cases os conf session sh.server
    cases kept with
    | true =>
      show sh.useCount = sh.handles + (finishAccept os conf session true sh.server).sessions.length + 0
      rw [hkept, List.length_append, List.length_singleton]
      omega
    | false =>
      show sh.useCount - 1 = sh.handles + (finishAccept os conf session false sh.server).sessions.length + 0
      rw [hrefused]
      omega
  | turns idx start accepted refused =>
    rw [hthread] at hcount
    dsimp only [ThreadPc.alive] at hcount ⊢
    split
    · rename_i hidx
      obtain ⟨done, s, todo, hs, rfl⟩ := split_at hidx
      obtain ⟨answer, es, stat, rest, closed, ht⟩ := turn_spec os conf hs
      refine ⟨?_, hheld⟩
      have hrest : rest.length ≤ 1 := by
        rcases ht.outcome with ⟨s', -, -, rfl, -⟩ | ⟨rfl, -⟩ <;> simp
      have hbefore : sh.server.sessions.length = done.length + (todo.length + 1) := by
        rw [hs, List.length_append, List.length_cons]
      have hafter : (turn os conf done.length sh.server).2.sessions.length =
          done.length + rest.length + todo.length := by
        rw [ht.sessions, List.length_append, List.length_append]
      show sh.useCount - (sh.server.sessions.length -
          (turn os conf done.length sh.server).2.sessions.length) =
        sh.handles + (turn os conf done.length sh.server).2.sessions.length + 0
      omega
    · exact ⟨hcount, hheld⟩
  | ended => exact ⟨hcount, hheld⟩

theorem RefCounted.shutdown {sh : SharedServer} (h : RefCounted sh) : RefCounted (sh.shutdown os) := by
  obtain ⟨hcount, hheld⟩ := h
  unfold SharedServer.shutdown
  cases sh.shutdownPc with
  | begin =>
    refine ⟨?_, hheld⟩
    show sh.useCount - sh.server.sessions.length = sh.handles + 0 + sh.thread.alive
    omega
  | stopping => dsimp only; split <;> exact ⟨hcount, hheld⟩
  | cleared => exact ⟨hcount, hheld⟩
  | closed => exact ⟨hcount, hheld⟩
  | unset => exact ⟨hcount, hheld⟩
  | returned => exact ⟨hcount, hheld⟩

/-! ### Every accepted socket has an owner -/

omit os in
theorem held_start (stats : Option TelnetStats) :
    Held (SharedServer.start stats).thread.socket (SharedServer.start stats).server := by
  constructor
  · simp [SharedServer.start]
  · simp [SharedServer.start]
  · simp [SharedServer.start]
  · simp [SharedServer.start, ThreadPc.socket]

omit os in
/-- A connection is accepted. -/
theorem Held.accepting {srv : TelnetServer} (h : Held none srv) (fd : ℕ) :
    Held (some (srv.world.accepted, fd)) (accepting fd srv) := by
  obtain ⟨hlt, hclosed, hcovered, -⟩ := h
  constructor
  · exact fun s hs => (hlt s hs).trans (Nat.lt_succ_self _)
  · intro id fd' hm
    exact (hclosed id fd' (by simpa [Telnet.accepting] using hm)).trans (Nat.lt_succ_self _)
  · intro id fd' kept hm
    simp only [Telnet.accepting, List.mem_cons, Event.accept.injEq] at hm ⊢
    rcases hm with ⟨rfl, rfl, -⟩ | hm
    · exact Or.inr (Or.inr rfl)
    · rcases hcovered id fd' kept hm with hc | hc | hc
      · exact Or.inl (Or.inr hc)
      · exact Or.inr (Or.inl hc)
      · cases hc
  · rintro id fd' ⟨⟩
    refine ⟨Nat.lt_succ_self _, ⟨_, List.mem_cons_self⟩, fun fd' hm => ?_, fun s hs => (hlt s hs).ne⟩
    exact lt_irrefl _ (hclosed _ fd' (by simpa [Telnet.accepting] using hm))

/-- The session in hand goes into `m_sessions`, or is closed. -/
theorem Held.finishAccept (conf : Conf) {session : TelnetSession} {srv : TelnetServer}
    (h : Held (some (session.id, session.socket)) srv) (kept : Bool) :
    Held none (finishAccept os conf session kept srv) := by
  obtain ⟨hlt, hclosed, hcovered, hhand⟩ := h
  obtain ⟨hid, -, -, -⟩ := hhand _ _ rfl
  obtain ⟨⟨s, es, hsid, hsfd, hes, hsessions, htrace, haccepted⟩,
    es', hes', hsessions', htrace', haccepted'⟩ := finishAccept_cases os conf session srv
  cases kept with
  | true =>
    refine ⟨?_, ?_, ?_, by simp⟩
    · rw [hsessions, haccepted]
      intro s' hm
      rcases List.mem_append.mp hm with hm | hm
      · exact hlt s' hm
      · rw [List.mem_singleton.mp hm, hsid]
        exact hid
    · rw [htrace, haccepted]
      intro id fd hm
      exact hclosed id fd ((List.mem_append.mp hm).resolve_left (not_close_sends hes id fd))
    · rw [htrace, hsessions]
      intro id fd kept hm
      have hbefore := (List.mem_append.mp hm).resolve_left ((not_mem_sends hes).1 id fd kept)
      rcases hcovered id fd kept hbefore with hc | ⟨s', hs', hc⟩ | hc
      · exact Or.inl (List.mem_append_right _ hc)
      · exact Or.inr (Or.inl ⟨s', List.mem_append_left _ hs', hc⟩)
      · cases hc
        exact Or.inr (Or.inl ⟨s, by simp, hsid, hsfd⟩)
  | false =>
    refine ⟨?_, ?_, ?_, by simp⟩
    · rw [hsessions', haccepted']
      exact hlt
    · rw [htrace', haccepted']
      intro id fd hm
      rw [List.append_assoc, mem_closing_append] at hm
      rcases hm with ⟨rfl, rfl⟩ | hm
      · exact hid
      · exact hclosed id fd ((List.mem_append.mp hm).resolve_left (not_close_sends hes' id fd))
    · rw [htrace', hsessions']
      intro id fd kept hm
      rw [List.append_assoc, mem_closing_append]
      have hbefore : .accept id fd kept ∈ srv.world.trace := by
        simpa [closing, (not_mem_sends hes').1 id fd kept] using hm
      rcases hcovered id fd kept hbefore with hc | hc | hc
      · exact Or.inl (Or.inr (List.mem_append_right _ hc))
      · exact Or.inr (Or.inl hc)
      · cases hc
        exact Or.inl (Or.inl ⟨rfl, rfl⟩)


/-- What a turn closes is its session. -/
theorem Turn.closes {done todo rest : List TelnetSession} {s : TelnetSession} {srv : TelnetServer}
    {answer : Recv} {es closed : List Event} {stat : TelnetSessionStats} {p : ℕ × TelnetServer}
    (h : Turn done s todo srv answer es stat rest closed p) {id fd : ℕ}
    (hm : .close id fd ∈ p.2.world.trace) : id = s.id ∨ .close id fd ∈ srv.world.trace := by
  rw [h.trace, List.append_assoc, List.mem_append, List.mem_append, List.mem_cons] at hm
  rcases hm with hm | hm | hm | hm
  · rcases h.outcome with ⟨s', -, -, -, rfl⟩ | ⟨-, rfl⟩
    · simp at hm
    · exact Or.inl (by simpa [closing] using hm : id = s.id ∧ fd = s.socket).1
  · rcases h.events with ⟨-, rfl⟩ | ⟨-, hwork⟩
    · simp only [List.mem_singleton, Event.close.injEq] at hm
      exact Or.inl hm.1
    · rcases hwork _ hm with ⟨data, r, he⟩ | ⟨l, ok, he⟩ <;> cases he
  · cases hm
  · exact Or.inr hm

/-- What a turn does to the sockets. -/
theorem Held.turn : TurnsKeep (Held none) := by
  intro done s todo srv answer es stat rest closed p hs ht h
  obtain ⟨hlt, hclosed, hcovered, -⟩ := h
  obtain ⟨es', htrace, -, haccept, -, hrest⟩ := ht.grows
  refine ⟨ht.sessions_lt hs hlt, ?_, ?_, by simp⟩
  · intro id fd hm
    rw [ht.accepted]
    rcases ht.closes hm with rfl | hm
    · exact hlt s (by simp [hs])
    · exact hclosed id fd hm
  · intro id fd kept hm
    rw [htrace] at hm ⊢
    have hbefore := (List.mem_append.mp hm).resolve_left (haccept id fd kept)
    rcases hcovered id fd kept hbefore with hc | ⟨s', hs', hid, hsocket⟩ | hc
    · exact Or.inl (List.mem_append_right _ hc)
    · rw [hs, List.mem_append, List.mem_cons] at hs'
      rw [ht.sessions]
      rcases hs' with hs' | rfl | hs'
      · exact Or.inr (Or.inl ⟨s', by simp [hs'], hid, hsocket⟩)
      · rcases hrest with ⟨s₁, hid', hsocket', rfl⟩ | ⟨rfl, hclose⟩
        · exact Or.inr (Or.inl ⟨s₁, by simp, hid'.trans hid, hsocket'.trans hsocket⟩)
        · rw [← hid, ← hsocket]
          exact Or.inl (List.mem_append_left _ hclose)
      · exact Or.inr (Or.inl ⟨s', by simp [hs'], hid, hsocket⟩)
    · cases hc

/-- Closing all sessions closes their sockets, and records nothing else. -/
theorem mem_closeClients (sessions : List TelnetSession) (w : World) (e : Event) :
    e ∈ (sessions.foldl (fun w s => (closeClient os ⟨s, w⟩).world) w).trace ↔
      (∃ s ∈ sessions, e ∈ closing s.id s.socket) ∨ e ∈ w.trace := by
  induction sessions generalizing w with
  | nil => simp
  | cons s sessions ih =>
    rw [List.foldl_cons, ih, closeClient_trace, List.mem_append]
    simp only [List.exists_mem_cons_iff]
    rw [or_left_comm, or_assoc]

theorem closeClients_accepted (sessions : List TelnetSession) (w : World) :
    (sessions.foldl (fun w s => (closeClient os ⟨s, w⟩).world) w).accepted = w.accepted := by
  induction sessions generalizing w with
  | nil => rfl
  | cons s sessions ih => exact ih _

/-- `shutdown` closes and forgets the sessions, and leaves the connection in hand
alone. -/
theorem Held.shutdown {socket : Option (ℕ × ℕ)} {srv : TelnetServer} (h : Held socket srv) :
    Held socket (srv.shutdown os) := by
  obtain ⟨hlt, hclosed, hcovered, hhand⟩ := h
  have haccepted : (srv.shutdown os).world.accepted = srv.world.accepted :=
    closeClients_accepted os srv.sessions srv.world
  have htrace : ∀ e, e ∈ (srv.shutdown os).world.trace ↔
      (∃ s ∈ srv.sessions, e ∈ closing s.id s.socket) ∨ e ∈ srv.world.trace :=
    mem_closeClients os srv.sessions srv.world
  have hclose : ∀ id fd, .close id fd ∈ (srv.shutdown os).world.trace →
      (∃ s ∈ srv.sessions, s.id = id) ∨ .close id fd ∈ srv.world.trace := by
    intro id fd hm
    rcases (htrace _).mp hm with ⟨s, hs, he⟩ | hm
    · simp only [closing, List.mem_cons, Event.close.injEq, reduceCtorEq, List.not_mem_nil,
        or_false] at he
      exact Or.inl ⟨s, hs, he.1.symm⟩
    · exact Or.inr hm
  constructor
  · exact fun s hs => absurd hs List.not_mem_nil
  · intro id fd hm
    rw [haccepted]
    rcases hclose id fd hm with ⟨s, hs, rfl⟩ | hm
    · exact hlt s hs
    · exact hclosed id fd hm
  · intro id fd kept hm
    have hbefore : .accept id fd kept ∈ srv.world.trace := by
      rcases (htrace _).mp hm with ⟨s, -, he⟩ | hm
      · simp [closing] at he
      · exact hm
    rcases hcovered id fd kept hbefore with hc | ⟨s, hs, rfl, rfl⟩ | hc
    · exact Or.inl ((htrace _).mpr (Or.inr hc))
    · exact Or.inl ((htrace _).mpr (Or.inl ⟨s, hs, List.mem_cons_self⟩))
    · exact Or.inr (Or.inr hc)
  · intro id fd hsocket
    obtain ⟨hid, ⟨kept, haccept⟩, hnot, hne⟩ := hhand id fd hsocket
    refine ⟨haccepted ▸ hid, ⟨kept, (htrace _).mpr (Or.inr haccept)⟩, fun fd' hm => ?_,
      fun s hs => absurd hs List.not_mem_nil⟩
    rcases hclose id fd' hm with ⟨s, hs, heq⟩ | hm
    · exact hne s hs heq
    · exact hnot fd' hm

theorem Held.thread (conf : Conf) {sh : SharedServer} (h : Held sh.thread.socket sh.server)
    (hcount : sh.useCount ≠ 0) :
    Held (threadStep os conf sh).thread.socket (threadStep os conf sh).server := by
  cases hthread : sh.thread with
  | waiting =>
    rw [hthread] at h
    unfold threadStep
    rw [hthread]
    dsimp only
    split
    · exact h
    · rcases poll_cases os sh.server with ⟨refused, n, hpoll, -⟩ | ⟨fd, -, -, hpoll⟩
      · rw [hpoll]
        exact ⟨h.sessions_lt, h.closed_lt, h.covered, h.inHand⟩
      · rw [hpoll]
        exact h.accepting fd
  | accepted start id fd kept =>
    rw [hthread] at h
    rw [threadStep_accepted conf hthread hcount]
    exact h
  | made start session kept =>
    rw [hthread] at h
    rw [threadStep_made conf hthread]
    exact h.finishAccept os conf kept
  | turns idx start accepted refused =>
    rw [hthread] at h
    unfold threadStep
    rw [hthread]
    dsimp only
    split
    · exact turn_rule os conf Held.turn idx h
    · exact ⟨h.sessions_lt, h.closed_lt, h.covered, h.inHand⟩
  | ended =>
    unfold threadStep
    rw [hthread]
    rw [hthread] at h
    dsimp only
    rw [hthread]
    exact h

theorem Joined.thread (conf : Conf) {sh : SharedServer} (h : Joined sh) :
    Joined (threadStep os conf sh) := by
  intro hreturned
  have hended := h ((threadStep_frame conf sh).1.symm.trans hreturned)
  rw [threadStep_ended conf hended]
  exact hended

theorem Joined.shutdown {sh : SharedServer} (h : Joined sh) : Joined (sh.shutdown os) := by
  unfold SharedServer.shutdown
  cases hpc : sh.shutdownPc with
  | stopping =>
    dsimp only
    split
    · rename_i hended
      exact fun _ => hended
    · exact h
  | returned => exact h
  | begin => exact fun h => by cases h
  | cleared => exact fun h => by cases h
  | closed => exact fun h => by cases h
  | unset => exact fun h => by cases h

/-- The thread that `initialise` starts is the only one. -/
theorem Joined.act {sh : SharedServer} (h : Joined sh) (a : SharedAct) : Joined (sh.act os a) := by
  cases a with
  | thread conf => exact Joined.thread os conf h
  | copy => exact h
  | drop =>
    dsimp only [SharedServer.act]
    split <;> exact h
  | shutdown => exact Joined.shutdown os h
  | call =>
    dsimp only [SharedServer.act]
    split
    · exact fun h => by cases h
    · exact h
  | initialise =>
    dsimp only [SharedServer.act]
    split
    · exact h
    · exact fun h => by cases h

/-- The strong count is what it should be after every step. -/
theorem RefCounted.act {sh : SharedServer} (h : RefCounted sh) (hj : Joined sh) (a : SharedAct) :
    RefCounted (sh.act os a) := by
  obtain ⟨hcount, hheld⟩ := h
  cases a with
  | thread conf => exact RefCounted.thread os conf ⟨hcount, hheld⟩
  | copy =>
    refine ⟨?_, Nat.le_succ_of_le hheld⟩
    show sh.useCount + 1 = sh.handles + 1 + sh.server.sessions.length + sh.thread.alive
    omega
  | drop =>
    dsimp only [SharedServer.act]
    split
    · rename_i hlt
      refine ⟨?_, Nat.le_sub_one_of_lt hlt⟩
      show sh.useCount - 1 = sh.handles - 1 + sh.server.sessions.length + sh.thread.alive
      omega
    · exact ⟨hcount, hheld⟩
  | shutdown => exact RefCounted.shutdown os ⟨hcount, hheld⟩
  | call =>
    dsimp only [SharedServer.act]
    split <;> exact ⟨hcount, hheld⟩
  | initialise =>
    dsimp only [SharedServer.act]
    split
    · exact ⟨hcount, hheld⟩
    · rename_i hidle
      have hended := hj (not_not.mp (not_or.mp hidle).2)
      rw [hended] at hcount
      exact ⟨hcount, hheld⟩

theorem Held.act {sh : SharedServer} (h : Held sh.thread.socket sh.server) (hc : RefCounted sh)
    (hj : Joined sh) (a : SharedAct) : Held (sh.act os a).thread.socket (sh.act os a).server := by
  cases a with
  | thread conf =>
    refine h.thread os conf ?_
    have := hc.count
    have := hc.held
    omega
  | copy => exact h
  | drop =>
    dsimp only [SharedServer.act]
    split <;> exact h
  | shutdown =>
    dsimp only [SharedServer.act]
    unfold SharedServer.shutdown
    cases sh.shutdownPc with
    | begin => exact h.shutdown os
    | stopping => dsimp only; split <;> exact h
    | cleared => exact h
    | closed => exact h
    | unset => exact h
    | returned => exact h
  | call =>
    dsimp only [SharedServer.act]
    split <;> exact h
  | initialise =>
    dsimp only [SharedServer.act]
    split
    · exact h
    · rename_i hidle
      have hended := hj (not_not.mp (not_or.mp hidle).2)
      rw [hended] at h
      exact h

/-- **In every state reached** the strong count is the handles and the sessions
alive, and every accepted socket is closed or held. -/
theorem run_kept (stats : Option TelnetStats) (acts : List SharedAct) :
    RefCounted ((SharedServer.start stats).run os acts) ∧
      Held ((SharedServer.start stats).run os acts).thread.socket
        ((SharedServer.start stats).run os acts).server := by
  suffices h : ∀ sh : SharedServer, RefCounted sh → Held sh.thread.socket sh.server → Joined sh →
      RefCounted (sh.run os acts) ∧ Held (sh.run os acts).thread.socket (sh.run os acts).server from
    h (SharedServer.start stats) ⟨rfl, le_rfl⟩ (held_start stats) (fun h => by cases h)
  induction acts with
  | nil => exact fun sh hc hh _ => ⟨hc, hh⟩
  | cons a acts ih =>
    exact fun sh hc hh hj => ih (sh.act os a) (hc.act os hj a) (hh.act os hc hj a) (hj.act os a)

end Kept

end Telnet
end RepoInit
