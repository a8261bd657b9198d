/-
# Bandwidth

`update` hands the reply to `send_multipart` and then to the statistics. A
successful send leaves the parts empty, so a reply that was sent is counted as
nothing, and one that was not is counted in full: the counters are right
exactly if no handled request is replied to with any byte
(`accounted_iff`), which the program's callback always does.

Key definitions: `receivedBytes`, `sentBytes`, `Accounted`, `NoReplyBytes`, `RoundAccounts`.
Key theorems: `Tally.unhandled`, `Tally.handled`, `accounted_iff`.
-/
import RepoInit.ZeroMQ.Requests

namespace RepoInit
namespace ZeroMQ

/-! ### Bytes on the wire -/

/-- The bytes of the requests received. -/
def receivedBytes : List Event → ℕ
  | [] => 0
  | .recv (.parts first rest) :: t => bytesOf (first :: rest) + receivedBytes t
  | _ :: t => receivedBytes t

/-- The bytes of the replies actually sent. -/
def sentBytes : List Event → ℕ
  | [] => 0
  | .send replyMsgs .sent :: t => bytesOf replyMsgs + sentBytes t
  | _ :: t => sentBytes t

theorem receivedBytes_append (t es : List Event) :
    receivedBytes (t ++ es) = receivedBytes t + receivedBytes es := by
  induction t with
  | nil => simp [receivedBytes]
  | cons e t ih =>
    match e with
    | .recv (.parts first rest) => simp [receivedBytes, ih, Nat.add_assoc]
    | .recv .timeout | .recv .error | .refused | .call _ | .send _ _ => exact ih

theorem sentBytes_append (t es : List Event) :
    sentBytes (t ++ es) = sentBytes t + sentBytes es := by
  induction t with
  | nil => simp [sentBytes]
  | cons e t ih =>
    match e with
    | .send replyMsgs .sent => simp [sentBytes, ih, Nat.add_assoc]
    | .recv _ | .refused | .call _ | .send _ .timeout | .send _ .error => exact ih

theorem sentBytes_recv (answer : Recv) (t : List Event) :
    sentBytes (.recv answer :: t) = sentBytes t := rfl

theorem bytes_callEvents (messageCallback : Option Callback) (first : Str) (rest : List Str) :
    receivedBytes (callEvents messageCallback first rest) = 0 ∧
      sentBytes (callEvents messageCallback first rest) = 0 := by
  unfold callEvents
  split <;> exact ⟨rfl, rfl⟩

theorem bytesOf_map_nil (msgs : List Str) : bytesOf (msgs.map fun _ => []) = 0 := by
  induction msgs with
  | nil => rfl
  | cons entry msgs ih => rw [List.map_cons, bytesOf_cons, ih, List.length_nil]

/-! ### The accounts -/

/-- The bandwidth counters are what went over the wire. -/
def Accounted (srv : ZeroMQServer) : Prop :=
  ∃ st, srv.stats = some st ∧ st.totalDownloadBytes = receivedBytes srv.world.trace ∧
    st.totalUploadBytes = sentBytes srv.world.trace

/-- The request has an id, and what the callback replies to it has no bytes. -/
def NoReplyBytes (messageCallback : Option Callback) (srv : ZeroMQServer) (first : Str)
    (rest : List Str) : Prop :=
  first.length = 4 ∧ ∀ callback, messageCallback = some callback → ∀ replyMsgs ok,
    (callback (requestWorld srv first rest) (first :: rest)).reply = some (replyMsgs, ok) →
      bytesOf replyMsgs = 0

theorem noReplyBytes_iff {messageCallback : Option Callback} {srv : ZeroMQServer} {first : Str}
    {rest replyMsgs : List Str} {ok : Bool}
    (h : replyTo messageCallback srv first rest = some (replyMsgs, ok)) :
    NoReplyBytes messageCallback srv first rest ↔ bytesOf replyMsgs = 0 := by
  unfold NoReplyBytes
  unfold replyTo handle at h
  by_cases hid : first.length = 4
  · cases messageCallback with
    | none =>
      simp only [hid, ne_eq, not_true_eq_false, if_false, Option.some.injEq, Prod.mk.injEq] at h
      simp [hid, ← h.1, bytesOf]
    | some callback =>
      simp only [hid, ne_eq, not_true_eq_false, if_false] at h
      constructor
      · exact fun hall => hall.2 callback rfl replyMsgs ok h
      · rintro hzero
        refine ⟨hid, fun callback' hcb replyMsgs' ok' h' => ?_⟩
        obtain rfl := Option.some.inj hcb
        rw [h, Option.some.injEq, Prod.mk.injEq] at h'
        rw [← h'.1]
        exact hzero
  · simp only [hid, ne_eq, not_false_eq_true, if_true, Option.some.injEq, Prod.mk.injEq] at h
    simp only [hid, false_and, false_iff, ← h.1]
    decide

/-- What the metrics know between rounds: all that was received, unless a
request is not answered yet. -/
structure Tally (srv : ZeroMQServer) (st : ZeroMQStats) : Prop where
  stats : srv.stats = some st
  download : srv.world.mustReply = false → st.totalDownloadBytes = receivedBytes srv.world.trace

/-- If the round handles a request, it replies to it without a byte. -/
def RepliesNoBytes (net : Net) (messageCallback : Option Callback) (srv : ZeroMQServer)
    (o : Outcome) : Prop :=
  o = .handled → ∀ first rest, Arrives net srv first rest →
    NoReplyBytes messageCallback srv first rest

/-- A round with this outcome: if the sent bytes were right before it, the
counters are right after a handled request exactly if the reply has no bytes, and
then the sent bytes are right after it. -/
structure RoundAccounts (net : Net) (messageCallback : Option Callback) (srv : ZeroMQServer)
    (st : ZeroMQStats) (o : Outcome) (srv' : ZeroMQServer) (st' : ZeroMQStats) : Prop where
  tally : Tally srv' st'
  accounted : st.totalUploadBytes = sentBytes srv.world.trace →
    ((o = .handled → Accounted srv') ↔ RepliesNoBytes net messageCallback srv o)
  upload : st.totalUploadBytes = sentBytes srv.world.trace →
    RepliesNoBytes net messageCallback srv o → st'.totalUploadBytes = sentBytes srv'.world.trace

section Round

variable (net : Net) (messageCallback : Option Callback) {srv srv' : ZeroMQServer} {st : ZeroMQStats}
  (h : Tally srv st)

include h

/-- A round that handles nothing sends nothing. -/
theorem Tally.unhandled {o : Outcome} {es : List Event} (ho : o ≠ .handled)
    (hstats : srv'.stats = srv.stats) (htrace : srv'.world.trace = srv.world.trace ++ es)
    (hsent : sentBytes es = 0)
    (hdue : srv'.world.mustReply = false → srv.world.mustReply = false ∧ receivedBytes es = 0) :
    RoundAccounts net messageCallback srv st o srv' st where
  tally := by
    refine ⟨hstats.trans h.stats, fun hd => ?_⟩
    obtain ⟨hd', hrecv⟩ := hdue hd
    rw [htrace, receivedBytes_append, hrecv, Nat.add_zero]
    exact h.download hd'
  accounted _ := iff_of_true (fun hh => absurd hh ho) fun hh => absurd hh ho
  upload hup _ := by
    rw [htrace, sentBytes_append, hsent, Nat.add_zero]
    exact hup

omit h in
/-- The bytes of a request and of its reply. -/
theorem bytes_handled (t : List Event) (first : Str) (rest replyMsgs : List Str) (answer : Send) :
    receivedBytes (t ++ .recv (.parts first rest) :: callEvents messageCallback first rest ++
        [.send replyMsgs answer]) = receivedBytes t + bytesOf (first :: rest) ∧
      sentBytes (t ++ .recv (.parts first rest) :: callEvents messageCallback first rest ++
        [.send replyMsgs answer]) = sentBytes t + sentBytes [.send replyMsgs answer] := by
  obtain ⟨hrecv, hsent⟩ := bytes_callEvents messageCallback first rest
  constructor
  · rw [List.append_assoc, receivedBytes_append, List.cons_append, receivedBytes,
      receivedBytes_append, hrecv]
    rfl
  · rw [List.append_assoc, sentBytes_append, List.cons_append, sentBytes_recv, sentBytes_append,
      hsent, Nat.zero_add]

/-- What is left of a reply after a send is counted: nothing of one that was
sent, and all of one that was not. -/
theorem Tally.handled {first : Str} {rest replyMsgs : List Str} {ok : Bool} {answer : Send}
    {serverStats : ZeroMQServerStats} (harrives : Arrives net srv first rest)
    (hreply : replyTo messageCallback srv first rest = some (replyMsgs, ok))
    (hanswer : answer ≠ .error)
    (htrace : srv'.world.trace = srv.world.trace ++
      .recv (.parts first rest) :: callEvents messageCallback first rest ++ [.send replyMsgs answer])
    (hstats : srv'.stats = srv.stats.map
      (ZeroMQStats.consumeStats (first :: rest) (leftOf replyMsgs answer) serverStats)) :
    RoundAccounts net messageCallback srv st .handled srv'
      (st.consumeStats (first :: rest) (leftOf replyMsgs answer) serverStats) := by
  set st' := st.consumeStats (first :: rest) (leftOf replyMsgs answer) serverStats with hst'
  obtain ⟨hrecv, hsent⟩ :=
    bytes_handled messageCallback srv.world.trace first rest replyMsgs answer
  rw [← htrace] at hrecv hsent
  have hstats' : srv'.stats = some st' := by
    rw [hstats, h.stats]
    rfl
  have hdownload : st'.totalDownloadBytes = receivedBytes srv'.world.trace := by
    rw [hst', consumeStats_eq, hrecv, ← h.download harrives.1]
  have hsilent : RepliesNoBytes net messageCallback srv .handled ↔ bytesOf replyMsgs = 0 := by
    rw [← noReplyBytes_iff hreply]
    constructor
    · exact fun hall => hall rfl first rest harrives
    · intro hno _ first' rest' harrives'
      obtain ⟨rfl, rfl⟩ := harrives.unique harrives'
      exact hno
  have hupload : st.totalUploadBytes = sentBytes srv.world.trace →
      (st'.totalUploadBytes = sentBytes srv'.world.trace ↔ bytesOf replyMsgs = 0) := by
    intro hup
    rw [hst', consumeStats_eq, hsent, ← hup]
    cases answer with
    | sent =>
      simp only [leftOf, bytesOf_map_nil, sentBytes]
      omega
    | timeout =>
      simp only [leftOf, sentBytes]
      omega
    | error => exact absurd rfl hanswer
  refine ⟨⟨hstats', fun _ => hdownload⟩, fun hup => ?_, fun hup hno => ?_⟩
  · rw [hsilent, ← hupload hup]
    constructor
    · intro hacc
      obtain ⟨st'', hst'', -, hup'⟩ := hacc rfl
      rw [hstats', Option.some.injEq] at hst''
      rw [hst'']
      exact hup'
    · exact fun hup' _ => ⟨st', hstats', hdownload, hup'⟩
  · exact (hupload hup).mpr (hsilent.mp hno)

/-- **One round.** -/
theorem accounted_round :
    ∃ st', RoundAccounts net messageCallback srv st (srv.update net messageCallback).1
      (srv.update net messageCallback).2 st' := by
  obtain ⟨o, srv', hupdate, hround⟩ := update_round net messageCallback srv
  rw [hupdate]
  cases hround with
  | refused hdue htrace hdue' hlevel hstats =>
    refine ⟨st, h.unhandled net messageCallback (by simp) hstats htrace rfl fun hd => ?_⟩
    simp [hdue'] at hd
  | nothing o answer ho hdue hanswer hparts htrace hdue' hlevel hstats =>
    refine ⟨st, h.unhandled net messageCallback ho hstats htrace rfl fun _ => ⟨hdue, ?_⟩⟩
    cases answer with
    | parts first rest => exact absurd rfl (hparts first rest)
    | _ => rfl
  | dropped first rest harrives hreply htrace hdue' hlevel hstats =>
    refine ⟨st, h.unhandled net messageCallback (by simp) hstats htrace ?_ fun hd => ?_⟩
    · exact (bytes_callEvents messageCallback first rest).2
    · simp [hdue'] at hd
  | failed first rest replyMsgs ok harrives hreply hne hsend htrace hdue' hlevel hstats =>
    rw [List.append_assoc] at htrace
    refine ⟨st, h.unhandled net messageCallback (by simp) hstats htrace ?_ fun hd => ?_⟩
    · rw [List.cons_append, sentBytes_recv, sentBytes_append, (bytes_callEvents _ _ _).2]
      rfl
    · simp [hdue'] at hd
  | handled first rest replyMsgs ok answer serverStats harrives hreply hempty hsend hanswer htrace
      hdue' hlevel hok hstats =>
    exact ⟨_, h.handled net messageCallback harrives hreply hanswer htrace hstats⟩

end Round

/-- **The bandwidth counters are right exactly if replies have no bytes.** In a
run with statistics they are right after every handled request if and only if
every handled request has an id and gets a reply without a byte. -/
theorem accounted_iff (net : Net) (callbacks : List (Option Callback)) :
    EveryRound net (fun messageCallback srv => (srv.update net messageCallback).1 = .handled →
        Accounted (srv.update net messageCallback).2) callbacks initialised ↔
      EveryRound net (fun messageCallback srv => (srv.update net messageCallback).1 = .handled →
        ∀ first rest, Arrives net srv first rest →
          NoReplyBytes messageCallback srv first rest) callbacks initialised := by
  suffices hrun : ∃ st, Tally (rounds net callbacks initialised) st ∧
      (EveryRound net (fun messageCallback srv => (srv.update net messageCallback).1 = .handled →
          Accounted (srv.update net messageCallback).2) callbacks initialised ↔
        EveryRound net (fun messageCallback srv => (srv.update net messageCallback).1 = .handled →
          ∀ first rest, Arrives net srv first rest →
            NoReplyBytes messageCallback srv first rest) callbacks initialised) ∧
      (EveryRound net (fun messageCallback srv => (srv.update net messageCallback).1 = .handled →
          ∀ first rest, Arrives net srv first rest →
            NoReplyBytes messageCallback srv first rest) callbacks initialised →
        st.totalUploadBytes = sentBytes (rounds net callbacks initialised).world.trace) by
    obtain ⟨-, -, h, -⟩ := hrun
    exact h
  induction callbacks using List.reverseRecOn with
  | nil =>
    exact ⟨{}, ⟨rfl, fun _ => rfl⟩, iff_of_true (everyRound_nil _ _ _) (everyRound_nil _ _ _),
      fun _ => rfl⟩
  | append_singleton callbacks messageCallback ih =>
    obtain ⟨st, htally, hiff, hup⟩ := ih
    obtain ⟨st', hround⟩ := accounted_round net messageCallback htally
    rw [rounds_append_singleton, everyRound_append_singleton, everyRound_append_singleton, hiff]
    refine ⟨st', hround.tally, and_congr_right fun hno => hround.accounted (hup hno), ?_⟩
    exact fun hno => hround.upload (hup hno.1) hno.2

/-- The eight bytes of the answer to `PING` are sent and not counted. -/
theorem not_accounted_ping :
    (initialised.update pingNet (some (zeroMQServerMessageCallback ⟨false, []⟩ []))).1 = .handled ∧
      (rounds pingNet [some (zeroMQServerMessageCallback ⟨false, []⟩ [])] initialised).stats.map
        (·.totalUploadBytes) = some 0 ∧
      sentBytes (rounds pingNet [some (zeroMQServerMessageCallback ⟨false, []⟩ [])]
        initialised).world.trace = 8 := by
  decide +kernel

end ZeroMQ
end RepoInit
