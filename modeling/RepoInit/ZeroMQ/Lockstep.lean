/-
# Request and reply in lockstep

Without a callback, or with one that does not return or leaves the reply empty,
a well-formed request is not answered: zero parts are sent, which sends
nothing, and the socket refuses every later receive (`update_wedged`). A run is
in lockstep exactly if every request it receives is answered
(`lockstep_iff_answered`).

Key definitions: `Lockstep`, `Answers`, `EveryRequest`.
Key theorems: `lockstep_round`, `lockstep_iff_answered`, `update_wedged`.
-/
import RepoInit.ZeroMQ.Requests

namespace RepoInit
namespace ZeroMQ

/-! ### Lockstep -/

/-- How many replies of at least one part were sent before the next receive is
attempted; `counts` says which answers of `send_multipart` count. -/
def repliesBefore (counts : Send → Bool) : List Event → ℕ
  | .call _ :: t => repliesBefore counts t
  | .send replyMsgs answer :: t =>
    (if replyMsgs ≠ [] ∧ counts answer then 1 else 0) + repliesBefore counts t
  | _ => 0

/-- Every request received is followed by exactly one reply before the next
receive is attempted. -/
def Lockstep (counts : Send → Bool) : List Event → Prop
  | [] => True
  | .recv (.parts _ _) :: t => repliesBefore counts t = 1 ∧ Lockstep counts t
  | _ :: t => Lockstep counts t

/-- A receive is attempted. -/
def Event.Receives : Event → Prop
  | .recv _ => True
  | .refused => True
  | _ => False

section Append

variable (counts : Send → Bool)

theorem repliesBefore_append {a : Event} (ha : a.Receives) (t es : List Event) :
    repliesBefore counts (t ++ a :: es) = repliesBefore counts t := by
  induction t with
  | nil => cases a <;> first | rfl | cases ha
  | cons e t ih => cases e <;> simp [repliesBefore, ih]

/-- A round is a receive and what follows it. -/
theorem lockstep_append {a : Event} (ha : a.Receives) (t es : List Event) :
    Lockstep counts (t ++ a :: es) ↔ Lockstep counts t ∧ Lockstep counts (a :: es) := by
  induction t with
  | nil => simp [Lockstep]
  | cons e t ih =>
    cases e with
    | recv answer =>
      cases answer with
      | parts first rest =>
        simp only [List.cons_append, Lockstep, repliesBefore_append counts ha, ih, and_assoc]
      | _ => exact ih
    | _ => exact ih

end Append

/-! ### Answered requests -/

/-- The request is answered: its first part is no id, or the callback is set,
returns and leaves a reply of at least one part. -/
def Answers (messageCallback : Option Callback) (srv : ZeroMQServer) (first : Str)
    (rest : List Str) : Prop :=
  first.length ≠ 4 ∨ ∃ callback, messageCallback = some callback ∧ ∃ replyMsgs ok,
    (callback (requestWorld srv first rest) (first :: rest)).reply = some (replyMsgs, ok) ∧
      replyMsgs ≠ []

theorem answers_iff (messageCallback : Option Callback) (srv : ZeroMQServer) (first : Str)
    (rest : List Str) :
    Answers messageCallback srv first rest ↔
      ∃ replyMsgs ok, replyTo messageCallback srv first rest = some (replyMsgs, ok) ∧
        replyMsgs ≠ [] := by
  unfold Answers replyTo handle
  by_cases h : first.length = 4
  · cases messageCallback <;> simp [h]
  · simp [h, malformedReply]

/-- `P` holds of every request a run receives, with the callback of its round
and the server it finds. -/
def EveryRequest (net : Net) (P : Option Callback → ZeroMQServer → Str → List Str → Prop) :
    List (Option Callback) → ZeroMQServer → Prop :=
  EveryRound net fun messageCallback srv =>
    ∀ first rest, Arrives net srv first rest → P messageCallback srv first rest

/-! ### Rounds and runs -/

theorem repliesBefore_callEvents (counts : Send → Bool) (messageCallback : Option Callback)
    (first : Str) (rest : List Str) (es : List Event) :
    repliesBefore counts (callEvents messageCallback first rest ++ es) =
      repliesBefore counts es := by
  unfold callEvents
  split <;> rfl

theorem lockstep_callEvents (counts : Send → Bool) (messageCallback : Option Callback)
    (first : Str) (rest : List Str) (es : List Event) :
    Lockstep counts (callEvents messageCallback first rest ++ es) ↔ Lockstep counts es := by
  unfold callEvents
  split <;> rfl

/-- A request and what the callback and `send_multipart` did with it. -/
theorem lockstep_request (counts : Send → Bool) (messageCallback : Option Callback)
    (first : Str) (rest : List Str) (replyMsgs : List Str) (answer : Send) :
    Lockstep counts (.recv (.parts first rest) ::
        (callEvents messageCallback first rest ++ [.send replyMsgs answer])) ↔
      replyMsgs ≠ [] ∧ counts answer = true := by
  rw [Lockstep, repliesBefore_callEvents, lockstep_callEvents]
  by_cases h : replyMsgs ≠ [] ∧ counts answer = true
  · simp [repliesBefore, Lockstep, h]
  · simp only [repliesBefore, h, Lockstep]
    simp

/-- The request that a round receives is answered, and the answer goes out, if
the reply to it has a part and `send_multipart` counts. -/
theorem answers_of_reply (counts : Send → Bool) {net : Net} {messageCallback : Option Callback}
    {srv : ZeroMQServer} {first : Str} {rest replyMsgs : List Str} {ok : Bool} {answer : Send}
    (harrives : Arrives net srv first rest)
    (hreply : replyTo messageCallback srv first rest = some (replyMsgs, ok))
    (hsend : replyMsgs ≠ [] → net.send (srv.world.n + 2) = answer) :
    (replyMsgs ≠ [] ∧ counts answer = true) ↔ ∀ first rest, Arrives net srv first rest →
      Answers messageCallback srv first rest ∧ counts (net.send (srv.world.n + 2)) = true := by
  constructor
  · rintro ⟨hne, hcounts⟩ first' rest' harrives'
    obtain ⟨rfl, rfl⟩ := harrives.unique harrives'
    refine ⟨(answers_iff _ _ _ _).mpr ⟨replyMsgs, ok, hreply, hne⟩, ?_⟩
    rw [hsend hne]
    exact hcounts
  · intro hall
    obtain ⟨hanswers, hcounts⟩ := hall first rest harrives
    obtain ⟨replyMsgs', ok', hreply', hne⟩ := (answers_iff _ _ _ _).mp hanswers
    have heq : replyMsgs' = replyMsgs := by
      rw [hreply, Option.some.injEq, Prod.mk.injEq] at hreply'
      exact hreply'.1.symm
    subst heq
    exact ⟨hne, hsend hne ▸ hcounts⟩

/-- **One round** keeps lockstep exactly if it answers the request it receives
and the answer goes out. -/
theorem lockstep_round (counts : Send → Bool) (net : Net) (messageCallback : Option Callback)
    (srv : ZeroMQServer) :
    Lockstep counts (srv.update net messageCallback).2.world.trace ↔
      Lockstep counts srv.world.trace ∧ ∀ first rest, Arrives net srv first rest →
        Answers messageCallback srv first rest ∧ counts (net.send (srv.world.n + 2)) = true := by
  obtain ⟨o, srv', hupdate, hround⟩ := update_round net messageCallback srv
  rw [hupdate]
  cases hround with
  | refused hdue htrace hdue' hlevel hstats =>
    rw [htrace, lockstep_append counts (a := .refused) trivial]
    refine and_congr_right fun _ => iff_of_true trivial ?_
    intro first rest harrives
    rw [harrives.1] at hdue
    cases hdue
  | nothing o answer ho hdue hanswer hparts htrace hdue' hlevel hstats =>
    rw [htrace, lockstep_append counts (a := .recv _) trivial]
    refine and_congr_right fun _ => iff_of_true ?_ ?_
    · cases answer with
      | parts first rest => exact absurd rfl (hparts first rest)
      | _ => trivial
    · intro first rest harrives
      exact absurd (hanswer.symm.trans harrives.2) (hparts first rest)
  | dropped first rest harrives hreply htrace hdue' hlevel hstats =>
    rw [htrace, lockstep_append counts (a := .recv _) trivial]
    refine and_congr_right fun _ => iff_of_false ?_ ?_
    · have hzero := repliesBefore_callEvents counts messageCallback first rest []
      rw [List.append_nil] at hzero
      rw [Lockstep, hzero]
      simp [repliesBefore]
    · intro hall
      obtain ⟨replyMsgs, ok, hreply', -⟩ := (answers_iff _ _ _ _).mp (hall first rest harrives).1
      rw [hreply] at hreply'
      cases hreply'
  | failed first rest replyMsgs ok harrives hreply hne hsend htrace hdue' hlevel hstats =>
    rw [htrace, List.append_assoc, List.cons_append, lockstep_append counts (a := .recv _) trivial,
      lockstep_request, answers_of_reply counts harrives hreply fun _ => hsend]
  | handled first rest replyMsgs ok answer _ harrives hreply hempty hsend hanswer htrace hdue' hlevel
      hok hstats =>
    rw [htrace, List.append_assoc, List.cons_append, lockstep_append counts (a := .recv _) trivial,
      lockstep_request, answers_of_reply counts harrives hreply hsend]

theorem lockstep_rounds (counts : Send → Bool) (net : Net) (callbacks : List (Option Callback))
    (stats : Option ZeroMQStats) :
    Lockstep counts (rounds net callbacks { stats := stats }).world.trace ↔
      EveryRequest net (fun messageCallback srv first rest =>
        Answers messageCallback srv first rest ∧ counts (net.send (srv.world.n + 2)) = true)
        callbacks { stats := stats } := by
  induction callbacks using List.reverseRecOn with
  | nil => exact iff_of_true trivial (everyRound_nil _ _ _)
  | append_singleton callbacks messageCallback ih =>
    rw [rounds_append_singleton, lockstep_round, ih, EveryRequest, everyRound_append_singleton]

/-- **A run is in lockstep exactly if it answers every request.** The first
part counts every reply that goes to `send_multipart`, the second only those
that it sends. -/
theorem lockstep_iff_answered (net : Net) (callbacks : List (Option Callback))
    (stats : Option ZeroMQStats) :
    (Lockstep (fun _ => true) (rounds net callbacks { stats := stats }).world.trace ↔
      EveryRequest net Answers callbacks { stats := stats }) ∧
    (Lockstep (· == .sent) (rounds net callbacks { stats := stats }).world.trace ↔
      EveryRequest net (fun messageCallback srv first rest =>
        Answers messageCallback srv first rest ∧ net.send (srv.world.n + 2) = .sent)
        callbacks { stats := stats }) := by
  constructor
  · rw [lockstep_rounds]
    simp
  · rw [lockstep_rounds]
    simp [EveryRequest]

/-! ### The wedged socket -/

/-- **While a reply is due every receive is refused**, and the reply stays due. -/
theorem update_wedged {net : Net} {messageCallback : Option Callback} {srv : ZeroMQServer}
    (h : srv.world.mustReply = true) :
    srv.update net messageCallback = (.threw, { srv with world := srv.world.record .refused }) := by
  simp [ZeroMQServer.update, recvMessages, h]

/-- A server without a callback does not answer, and cannot receive again. -/
theorem not_lockstep_pingNet :
    (rounds pingNet [none, none] {}).world.trace =
        [.recv (.parts (str "PING") []), .send [] .sent, .refused] ∧
      ¬ Lockstep (fun _ => true) (rounds pingNet [none, none] {}).world.trace := by
  have htrace : (rounds pingNet [none, none] {}).world.trace =
      [.recv (.parts (str "PING") []), .send [] .sent, .refused] := by
    decide +kernel
  refine ⟨htrace, ?_⟩
  rw [htrace]
  simp [Lockstep, repliesBefore]

end ZeroMQ
end RepoInit
