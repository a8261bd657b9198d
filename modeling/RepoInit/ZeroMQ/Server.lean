/-
# `ZeroMQServer`

The server of `ZeroMQServer.cpp` on a REP socket. `Net` answers what cppzmq is
asked, by the number of answers given before, and `World` keeps the socket's
phase: after a receive it refuses further receives until a reply of at least
one part was sent. A successful `send_multipart` leaves the sent messages
empty. `update` is repeated by `threadFunc`, which swallows what it throws
(`rounds`), and `update_round` says once what a round can do.

Key definitions: `Net`, `World`, `handle`, `ZeroMQServer.update`, `rounds`,
`Round`.
Key theorem: `update_round`.
-/
import Mathlib.Algebra.GroupWithZero.Nat
import Mathlib.Data.List.Induction
import RepoInit.BaseServerStats
import RepoInit.Lib.Prefixes

namespace RepoInit
namespace ZeroMQ

/-! ### The socket -/

/-- What `recv_multipart` gives when it may receive: a request, which has at
least one part, nothing within the timeout, or an exception. -/
inductive Recv where
  | parts (first : Str) (rest : List Str)
  | timeout
  | error
  deriving DecidableEq, Repr

/-- What `send_multipart` does with at least one part. -/
inductive Send where
  | sent
  | timeout
  | error
  deriving DecidableEq, Repr

structure Net where
  recv : ℕ → Recv
  send : ℕ → Send
  highResolutionClock : ℕ → ℤ

/-- Nothing comes, everything is sent and no time passes. -/
instance : Inhabited Net :=
  ⟨{ recv := fun _ => .timeout, send := fun _ => .sent, highResolutionClock := fun _ => 0 }⟩

/-- What the server did. -/
inductive Event where
  | recv (answer : Recv)
  /-- A receive was refused since a reply is due (`EFSM`). -/
  | refused
  /-- The message callback was called. -/
  | call (recvMsgs : List Str)
  /-- A reply went to `send_multipart`. -/
  | send (replyMsgs : List Str) (answer : Send)
  deriving DecidableEq, Repr

structure World where
  /-- Answers used so far. -/
  n : ℕ := 0
  /-- A request was received and no reply sent yet. -/
  mustReply : Bool := false
  /-- What happened, oldest first. -/
  trace : List Event := []
  /-- spdlog's global level. -/
  level : Level := .info

def World.next (w : World) : World := { w with n := w.n + 1 }

def World.record (w : World) (e : Event) : World := { w with trace := w.trace ++ [e] }

section Socket

variable (net : Net)

/-- `recvMessages` of an active socket; `none` if it throws. -/
def recvMessages (w : World) : Option (List Str) × World :=
  if w.mustReply then (none, w.record .refused)
  else
    let answer := net.recv w.n
    let w := w.next.record (.recv answer)
    match answer with
    | .parts first rest => (some (first :: rest), { w with mustReply := true })
    | .timeout => (some [], w)
    | .error => (none, w)

/-- `sendMessages` of an active socket: the number of parts sent and what is
left of the messages; `none` if it throws. -/
def sendMessages (msg : List Str) (w : World) : Option (ℕ × List Str) × World :=
  if msg = [] then (some (0, []), w.record (.send [] .sent))
  else
    let answer := net.send w.n
    let w := w.next.record (.send msg answer)
    match answer with
    | .sent => (some (msg.length, msg.map fun _ => []), { w with mustReply := false })
    | .timeout => (some (0, msg), w)
    | .error => (none, w)

end Socket

/-! ### Statistics -/

structure ZeroMQServerStats where
  processingTimeStart : ℤ := 0
  processingTimeEnd : ℤ := 0
  isSuccessful : Bool := false

structure ZeroMQStats where
  base : BaseServerStats := {}
  succeededCommandParts : ℕ := 0
  failedCommandParts : ℕ := 0
  totalCommandParts : ℕ := 0
  totalUploadBytes : ℕ := 0
  totalDownloadBytes : ℕ := 0

/-- The body of the loop over the received parts. -/
def ZeroMQStats.consumePart (isSuccessful : Bool) (st : ZeroMQStats) (entry : Str) : ZeroMQStats :=
  let st := { st with
    totalCommandParts := st.totalCommandParts + 1
    totalDownloadBytes := st.totalDownloadBytes + entry.length }
  if isSuccessful then { st with succeededCommandParts := st.succeededCommandParts + 1 }
  else { st with failedCommandParts := st.failedCommandParts + 1 }

/-- The body of the loop over the reply's parts. -/
def ZeroMQStats.consumeReply (st : ZeroMQStats) (entry : Str) : ZeroMQStats :=
  { st with totalUploadBytes := st.totalUploadBytes + entry.length }

def ZeroMQStats.consumeStats (recvMsgs sendMsgs : List Str) (serverStats : ZeroMQServerStats)
    (st : ZeroMQStats) : ZeroMQStats :=
  let st := { st with
    base := st.base.consumeBaseStats serverStats.isSuccessful.toNat (!serverStats.isSuccessful).toNat
      (serverStats.processingTimeEnd - serverStats.processingTimeStart) }
  let st := recvMsgs.foldl (ZeroMQStats.consumePart serverStats.isSuccessful) st
  sendMsgs.foldl ZeroMQStats.consumeReply st

/-- The bytes of the parts of a message. -/
def bytesOf (msgs : List Str) : ℕ := (msgs.map (·.length)).sum

theorem bytesOf_cons (entry : Str) (msgs : List Str) :
    bytesOf (entry :: msgs) = entry.length + bytesOf msgs := rfl

section Consume

variable (ok : Bool) (msgs : List Str) (st : ZeroMQStats)

/-- The loop over the received parts. -/
theorem foldl_consumePart :
    msgs.foldl (ZeroMQStats.consumePart ok) st = { st with
      succeededCommandParts := st.succeededCommandParts + (if ok then msgs.length else 0)
      failedCommandParts := st.failedCommandParts + (if ok then 0 else msgs.length)
      totalCommandParts := st.totalCommandParts + msgs.length
      totalDownloadBytes := st.totalDownloadBytes + bytesOf msgs } := by
  induction msgs generalizing st with
  | nil => simp [bytesOf]
  | cons entry msgs ih =>
    rw [List.foldl_cons, ih, bytesOf_cons]
    cases ok <;> simp [ZeroMQStats.consumePart] <;> omega

/-- The loop over the reply's parts. -/
theorem foldl_consumeReply :
    msgs.foldl ZeroMQStats.consumeReply st = { st with
      totalUploadBytes := st.totalUploadBytes + bytesOf msgs } := by
  induction msgs generalizing st with
  | nil => simp [bytesOf]
  | cons entry msgs ih =>
    rw [List.foldl_cons, ih, bytesOf_cons]
    simp [ZeroMQStats.consumeReply, Nat.add_assoc]

end Consume

/-- What a handled request adds to the metrics. -/
theorem consumeStats_eq (recvMsgs sendMsgs : List Str) (serverStats : ZeroMQServerStats)
    (st : ZeroMQStats) :
    st.consumeStats recvMsgs sendMsgs serverStats =
      { base := st.base.consumeBaseStats serverStats.isSuccessful.toNat
          (!serverStats.isSuccessful).toNat
          (serverStats.processingTimeEnd - serverStats.processingTimeStart)
        succeededCommandParts := st.succeededCommandParts +
          (if serverStats.isSuccessful then recvMsgs.length else 0)
        failedCommandParts := st.failedCommandParts +
          (if serverStats.isSuccessful then 0 else recvMsgs.length)
        totalCommandParts := st.totalCommandParts + recvMsgs.length
        totalUploadBytes := st.totalUploadBytes + bytesOf sendMsgs
        totalDownloadBytes := st.totalDownloadBytes + bytesOf recvMsgs } := by
  unfold ZeroMQStats.consumeStats
  dsimp only
  rw [foldl_consumePart, foldl_consumeReply]

/-! ### The server -/

/-- What a message callback does: the level it sets, and the reply and the
return value; none if it throws or reads beyond a message. -/
structure Answer where
  level : Level
  reply : Option (List Str × Bool)

abbrev Callback := World → List Str → Answer

def ZMQ_EVENT_HANDSHAKE_FAILED_NO_DETAIL : ℕ := 0x0800
def ZMQ_EVENT_HANDSHAKE_SUCCEEDED : ℕ := 0x1000

/-- The bytes of an `int` that is not negative. -/
def intBytes (n : ℕ) : Str :=
  [UInt8.ofNat n, UInt8.ofNat (n / 2 ^ 8), UInt8.ofNat (n / 2 ^ 16), UInt8.ofNat (n / 2 ^ 24)]

/-- The reply to a request whose first part is no id. -/
def malformedReply : List Str := [intBytes ZMQ_EVENT_HANDSHAKE_FAILED_NO_DETAIL, []]

structure ZeroMQServer where
  /-- `none` without a prometheus registry. -/
  stats : Option ZeroMQStats := none
  world : World := {}

/-- The reply to a request and whether it was successful; `none` if the
callback does not return. -/
def handle (messageCallback : Option Callback) (first : Str) (rest : List Str) (w : World) :
    Option (List Str × Bool) × World :=
  if first.length ≠ 4 then (some (malformedReply, false), w)
  else
    match messageCallback with
    | none => (some ([], false), w)
    | some callback =>
      let answer := callback w (first :: rest)
      (answer.reply, { w.record (.call (first :: rest)) with level := answer.level })

/-- How `update` ends: no request came, one was handled, or it threw. -/
inductive Outcome where
  | idle | handled | threw
  deriving DecidableEq, Repr

def ZeroMQServer.update (net : Net) (messageCallback : Option Callback) (srv : ZeroMQServer) :
    Outcome × ZeroMQServer :=
  match recvMessages net srv.world with
  | (none, w) => (.threw, { srv with world := w })
  | (some [], w) => (.idle, { srv with world := w })
  | (some (first :: rest), w) =>
    let start := net.highResolutionClock w.n
    match handle messageCallback first rest w.next with
    | (none, w) => (.threw, { srv with world := w })
    | (some (replyMsgs, isSuccessful), w) =>
      match sendMessages net replyMsgs w with
      | (none, w) => (.threw, { srv with world := w })
      | (some (_, replyMsgs), w) =>
        let stop := net.highResolutionClock w.n
        (.handled,
          { stats := srv.stats.map (ZeroMQStats.consumeStats (first :: rest) replyMsgs
              { processingTimeStart := start, processingTimeEnd := stop,
                isSuccessful := isSuccessful })
            world := w.next })

/-- The loop of `threadFunc`: one `update` for each entry, under the callback
of the time, and what it throws is swallowed. -/
def rounds (net : Net) (callbacks : List (Option Callback)) (srv : ZeroMQServer) : ZeroMQServer :=
  callbacks.foldl (fun srv messageCallback => (srv.update net messageCallback).2) srv

theorem rounds_append_singleton (net : Net) (cbs : List (Option Callback))
    (messageCallback : Option Callback) (start : ZeroMQServer) :
    rounds net (cbs ++ [messageCallback]) start =
      ((rounds net cbs start).update net messageCallback).2 := by
  simp [rounds]

/-- `P` holds of every round of a run, of its callback and the server it
finds. -/
def EveryRound (net : Net) (P : Option Callback → ZeroMQServer → Prop)
    (callbacks : List (Option Callback)) (start : ZeroMQServer) : Prop :=
  ∀ cbs messageCallback, cbs ++ [messageCallback] <+: callbacks →
    P messageCallback (rounds net cbs start)

theorem everyRound_nil (net : Net) (P : Option Callback → ZeroMQServer → Prop)
    (start : ZeroMQServer) : EveryRound net P [] start :=
  Prefixes.forall_step_nil

theorem everyRound_append_singleton {net : Net} {P : Option Callback → ZeroMQServer → Prop}
    {callbacks : List (Option Callback)} {messageCallback : Option Callback} {start : ZeroMQServer} :
    EveryRound net P (callbacks ++ [messageCallback]) start ↔
      EveryRound net P callbacks start ∧ P messageCallback (rounds net callbacks start) :=
  Prefixes.forall_step_append

/-- The server after its construction, with statistics. -/
def initialised : ZeroMQServer := { stats := some {} }

/-! ### What a round does -/

/-- A request arrives in this round. -/
def Arrives (net : Net) (srv : ZeroMQServer) (first : Str) (rest : List Str) : Prop :=
  srv.world.mustReply = false ∧ net.recv srv.world.n = .parts first rest

theorem Arrives.unique {net : Net} {srv : ZeroMQServer} {first first' : Str} {rest rest' : List Str}
    (h : Arrives net srv first rest) (h' : Arrives net srv first' rest') :
    first' = first ∧ rest' = rest := by
  have heq := h'.2.symm.trans h.2
  rwa [Recv.parts.injEq] at heq

/-- The world in which a request is handled. -/
def requestWorld (srv : ZeroMQServer) (first : Str) (rest : List Str) : World :=
  { srv.world with
    n := srv.world.n + 2, mustReply := true,
    trace := srv.world.trace ++ [.recv (.parts first rest)] }

/-- The reply that is made to a request that arrives. -/
def replyTo (messageCallback : Option Callback) (srv : ZeroMQServer) (first : Str)
    (rest : List Str) : Option (List Str × Bool) :=
  (handle messageCallback first rest (requestWorld srv first rest)).1

/-- The callback is called with a request whose first part is an id. -/
def callEvents (messageCallback : Option Callback) (first : Str) (rest : List Str) : List Event :=
  if first.length = 4 ∧ messageCallback.isSome then [.call (first :: rest)] else []

/-- The level after a request was handled. -/
def levelAfter (messageCallback : Option Callback) (srv : ZeroMQServer) (first : Str)
    (rest : List Str) : Level :=
  (handle messageCallback first rest (requestWorld srv first rest)).2.level

/-- What is left of the reply after `send_multipart`. -/
def leftOf (replyMsgs : List Str) : Send → List Str
  | .sent => replyMsgs.map fun _ => []
  | _ => replyMsgs

/-- What a round can do. -/
inductive Round (net : Net) (messageCallback : Option Callback) (srv : ZeroMQServer) :
    Outcome → ZeroMQServer → Prop
  /-- A reply is due. -/
  | refused {srv' : ZeroMQServer} (hdue : srv.world.mustReply = true)
      (htrace : srv'.world.trace = srv.world.trace ++ [.refused])
      (hdue' : srv'.world.mustReply = true) (hlevel : srv'.world.level = srv.world.level)
      (hstats : srv'.stats = srv.stats) : Round net messageCallback srv .threw srv'
  /-- No request came. -/
  | nothing {srv' : ZeroMQServer} (o : Outcome) (answer : Recv) (ho : o ≠ .handled)
      (hdue : srv.world.mustReply = false) (hanswer : net.recv srv.world.n = answer)
      (hparts : ∀ first rest, answer ≠ .parts first rest)
      (htrace : srv'.world.trace = srv.world.trace ++ [.recv answer])
      (hdue' : srv'.world.mustReply = false) (hlevel : srv'.world.level = srv.world.level)
      (hstats : srv'.stats = srv.stats) : Round net messageCallback srv o srv'
  /-- The callback did not return. -/
  | dropped {srv' : ZeroMQServer} (first : Str) (rest : List Str)
      (harrives : Arrives net srv first rest) (hreply : replyTo messageCallback srv first rest = none)
      (htrace : srv'.world.trace = srv.world.trace ++
        .recv (.parts first rest) :: callEvents messageCallback first rest)
      (hdue' : srv'.world.mustReply = true)
      (hlevel : srv'.world.level = levelAfter messageCallback srv first rest)
      (hstats : srv'.stats = srv.stats) : Round net messageCallback srv .threw srv'
  /-- `send_multipart` threw. -/
  | failed {srv' : ZeroMQServer} (first : Str) (rest : List Str) (replyMsgs : List Str) (ok : Bool)
      (harrives : Arrives net srv first rest)
      (hreply : replyTo messageCallback srv first rest = some (replyMsgs, ok)) (hne : replyMsgs ≠ [])
      (hsend : net.send (srv.world.n + 2) = .error)
      (htrace : srv'.world.trace = srv.world.trace ++
        .recv (.parts first rest) :: callEvents messageCallback first rest ++ [.send replyMsgs .error])
      (hdue' : srv'.world.mustReply = true)
      (hlevel : srv'.world.level = levelAfter messageCallback srv first rest)
      (hstats : srv'.stats = srv.stats) : Round net messageCallback srv .threw srv'
  | handled {srv' : ZeroMQServer} (first : Str) (rest : List Str) (replyMsgs : List Str) (ok : Bool)
      (answer : Send) (serverStats : ZeroMQServerStats) (harrives : Arrives net srv first rest)
      (hreply : replyTo messageCallback srv first rest = some (replyMsgs, ok))
      (hempty : replyMsgs = [] → answer = .sent)
      (hsend : replyMsgs ≠ [] → net.send (srv.world.n + 2) = answer) (hanswer : answer ≠ .error)
      (htrace : srv'.world.trace = srv.world.trace ++
        .recv (.parts first rest) :: callEvents messageCallback first rest ++ [.send replyMsgs answer])
      (hdue' : srv'.world.mustReply = decide (replyMsgs = [] ∨ answer = .timeout))
      (hlevel : srv'.world.level = levelAfter messageCallback srv first rest)
      (hok : serverStats.isSuccessful = ok)
      (hstats : srv'.stats = srv.stats.map
        (ZeroMQStats.consumeStats (first :: rest) (leftOf replyMsgs answer) serverStats)) :
      Round net messageCallback srv .handled srv'

theorem handle_world (messageCallback : Option Callback) (first : Str) (rest : List Str) (w : World) :
    (handle messageCallback first rest w).2.trace =
        w.trace ++ callEvents messageCallback first rest ∧
      (handle messageCallback first rest w).2.mustReply = w.mustReply ∧
      (handle messageCallback first rest w).2.n = w.n := by
  unfold handle callEvents
  by_cases h : first.length = 4
  · cases messageCallback <;> simp [h, World.record]
  · simp [h]

theorem update_spec (net : Net) (messageCallback : Option Callback) (srv : ZeroMQServer) :
    Round net messageCallback srv (srv.update net messageCallback).1
      (srv.update net messageCallback).2 := by
  by_cases hdue : srv.world.mustReply = true
  · simp only [ZeroMQServer.update, recvMessages, hdue, if_true]
    exact .refused hdue rfl hdue rfl rfl
  · rw [Bool.not_eq_true] at hdue
    cases hrecv : net.recv srv.world.n with
    | timeout =>
      simp only [ZeroMQServer.update, recvMessages, hdue, hrecv, Bool.false_eq_true, if_false]
      exact .nothing _ _ (by simp) hdue hrecv (by simp) rfl hdue rfl rfl
    | error =>
      simp only [ZeroMQServer.update, recvMessages, hdue, hrecv, Bool.false_eq_true, if_false]
      exact .nothing _ _ (by simp) hdue hrecv (by simp) rfl hdue rfl rfl
    | parts first rest =>
      obtain ⟨htrace, hdue', hn⟩ :=
        handle_world messageCallback first rest (requestWorld srv first rest)
      have hw : (World.next { (World.record srv.world.next (.recv (.parts first rest))) with
          mustReply := true }) = requestWorld srv first rest := rfl
      simp only [ZeroMQServer.update, recvMessages, hdue, hrecv, Bool.false_eq_true, if_false, hw]
      have hreply : replyTo messageCallback srv first rest =
          (handle messageCallback first rest (requestWorld srv first rest)).1 := rfl
      have hlevel : levelAfter messageCallback srv first rest =
          (handle messageCallback first rest (requestWorld srv first rest)).2.level := rfl
      rcases hh : handle messageCallback first rest (requestWorld srv first rest) with ⟨r, w⟩
      rw [hh] at htrace hdue' hn hreply hlevel
      cases r with
      | none =>
        refine .dropped first rest ⟨hdue, hrecv⟩ hreply ?_ hdue' hlevel.symm rfl
        simpa [requestWorld] using htrace
      | some r =>
        obtain ⟨replyMsgs, ok⟩ := r
        have hwtrace : w.trace = srv.world.trace ++
            .recv (.parts first rest) :: callEvents messageCallback first rest := by
          simpa [requestWorld] using htrace
        by_cases hnil : replyMsgs = []
        · subst hnil
          simp only [sendMessages, if_true]
          refine .handled first rest [] ok .sent _ ⟨hdue, hrecv⟩ hreply (fun _ => rfl)
            (fun h => absurd rfl h) (by simp) ?_ ?_ hlevel.symm rfl rfl
          · simp [World.record, World.next, hwtrace]
          · simpa [World.record, World.next, requestWorld] using hdue'
        · have hn : w.n = srv.world.n + 2 := hn
          cases hsend : net.send w.n with
          | sent =>
            simp only [sendMessages, hnil, if_false, hsend]
            refine .handled first rest replyMsgs ok .sent _ ⟨hdue, hrecv⟩ hreply (fun _ => rfl)
              (fun _ => hn ▸ hsend) (by simp) ?_ ?_ hlevel.symm rfl rfl
            · simp [World.record, World.next, hwtrace]
            · simp [World.record, World.next, hnil]
          | timeout =>
            simp only [sendMessages, hnil, if_false, hsend]
            refine .handled first rest replyMsgs ok .timeout _ ⟨hdue, hrecv⟩ hreply
              (fun h => absurd h hnil) (fun _ => hn ▸ hsend) (by simp) ?_ ?_ hlevel.symm rfl rfl
            · simp [World.record, World.next, hwtrace]
            · simpa [World.record, World.next, requestWorld] using hdue'
          | error =>
            simp only [sendMessages, hnil, if_false, hsend]
            refine .failed first rest replyMsgs ok ⟨hdue, hrecv⟩ hreply hnil (hn ▸ hsend) ?_ ?_
              hlevel.symm rfl
            · simp [World.record, World.next, hwtrace]
            · simpa [World.record, World.next, requestWorld] using hdue'

/-- **One round.** `update_spec`, with names for what `update` gives. -/
theorem update_round (net : Net) (messageCallback : Option Callback) (srv : ZeroMQServer) :
    ∃ o srv', srv.update net messageCallback = (o, srv') ∧ Round net messageCallback srv o srv' :=
  ⟨_, _, rfl, update_spec net messageCallback srv⟩

end ZeroMQ
end RepoInit
