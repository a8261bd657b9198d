/-
# The requests of the program

`ZeroMQServerMessageCallback` and what `update` makes of a request with it: the
id is read only from a first part of four bytes, the reply is the status and a
body, the status says whether the request is one of the four (`Granted`), and
the counters say what the status says (`requests_graded`).

Key definitions: `readU32`, `zeroMQServerMessageCallback`, `Granted`.
Key theorems: `answer_granted`, `requests_graded`.
-/
import RepoInit.ZeroMQ.Server

namespace RepoInit
namespace ZeroMQ

/-! ### Ids -/

/-- The `uint32_t` at the beginning of a message, on a little-endian host;
`none` if the message is shorter. -/
def readU32 : Str → Option ℕ
  | b₀ :: b₁ :: b₂ :: b₃ :: _ =>
    some (b₀.toNat + b₁.toNat * 2 ^ 8 + b₂.toNat * 2 ^ 16 + b₃.toNat * 2 ^ 24)
  | _ => none

def LOG_LEVEL_ID : ℕ :=
  'L'.toNat ||| 'O'.toNat <<< 8 ||| 'G'.toNat <<< 16 ||| 'L'.toNat <<< 24
def VERSION_INFO_ID : ℕ :=
  'V'.toNat ||| 'E'.toNat <<< 8 ||| 'R'.toNat <<< 16 ||| 'I'.toNat <<< 24
def PING_PONG_ID : ℕ :=
  'P'.toNat ||| 'I'.toNat <<< 8 ||| 'N'.toNat <<< 16 ||| 'G'.toNat <<< 24
def STATUS_CHECK_ID : ℕ :=
  'S'.toNat ||| 'C'.toNat <<< 8 ||| 'H'.toNat <<< 16 ||| 'K'.toNat <<< 24

/-! ### The callback -/

/-- The level a two-part `LOGL` request selects. -/
def changeLevel (build : Build) (receivedMsg : Str) (level : Level) : Level :=
  let level := if receivedMsg = str "v" then .info else level
  let level := if receivedMsg = str "vv" then .debug else level
  let level := if receivedMsg = str "vvv" then .trace else level
  if receivedMsg = str "r" then build.defaultLevel else level

/-- The services as a JSON object. The last comma, or the opening brace of no
services, becomes the closing brace. -/
def statusBody (vCheckFlag : CheckFlags) : Str :=
  let oss := str "\x7b" ++ (vCheckFlag.map fun service =>
    str "\"" ++ service.1 ++ str "\":" ++ (if service.2 then str "1," else str "0,")).flatten
  oss.dropLast ++ str "\x7d"

/-- What the switch does: the level, the status and the body of the reply. -/
def switchId (build : Build) (vCheckFlag : CheckFlags) (level : Level) (id : ℕ)
    (recvMsgs : List Str) : Level × ℕ × Str :=
  if id = LOG_LEVEL_ID then
    match recvMsgs with
    | [_, receivedMsg] =>
      (changeLevel build receivedMsg level, ZMQ_EVENT_HANDSHAKE_SUCCEEDED, [])
    | _ => (level, ZMQ_EVENT_HANDSHAKE_FAILED_NO_DETAIL, [])
  else if id = VERSION_INFO_ID then
    if recvMsgs.length ≠ 1 then (level, ZMQ_EVENT_HANDSHAKE_FAILED_NO_DETAIL, [])
    else (level, ZMQ_EVENT_HANDSHAKE_SUCCEEDED, build.projectFullVersionString)
  else if id = PING_PONG_ID then
    if recvMsgs.length ≠ 1 then (level, ZMQ_EVENT_HANDSHAKE_FAILED_NO_DETAIL, [])
    else (level, ZMQ_EVENT_HANDSHAKE_SUCCEEDED, str "PONG")
  else if id = STATUS_CHECK_ID then
    if recvMsgs.length ≠ 1 then (level, ZMQ_EVENT_HANDSHAKE_FAILED_NO_DETAIL, [])
    else (level, ZMQ_EVENT_HANDSHAKE_SUCCEEDED, statusBody vCheckFlag)
  else (level, ZMQ_EVENT_HANDSHAKE_FAILED_NO_DETAIL, [])

/-- `ZeroMQServerMessageCallback`. -/
def zeroMQServerMessageCallback (build : Build) (vCheckFlag : CheckFlags) : Callback :=
  fun w recvMsgs =>
    match recvMsgs.head?.bind readU32 with
    | none => { level := w.level, reply := none }
    | some id =>
      let (level, reply, replyBody) := switchId build vCheckFlag w.level id recvMsgs
      { level := level
        reply := some ([intBytes reply, replyBody], reply == ZMQ_EVENT_HANDSHAKE_SUCCEEDED) }

/-! ### What sets the level -/

/-- The level a two-part `LOGL` request asks for, if it knows it. -/
def levelOf (build : Build) (receivedMsg : Str) : Option Level :=
  if receivedMsg = str "r" then some build.defaultLevel
  else if receivedMsg = str "vvv" then some .trace
  else if receivedMsg = str "vv" then some .debug
  else if receivedMsg = str "v" then some .info
  else none

/-- The level the parts of a request set, if they set one. -/
def levelSet (build : Build) : List Str → Option Level
  | [id, receivedMsg] =>
    if readU32 id = some LOG_LEVEL_ID then levelOf build receivedMsg else none
  | _ => none

theorem changeLevel_eq (build : Build) (receivedMsg : Str) (level : Level) :
    changeLevel build receivedMsg level = (levelOf build receivedMsg).getD level := by
  unfold changeLevel levelOf
  split_ifs <;> rfl

theorem switchId_level (build : Build) (vCheckFlag : CheckFlags) (level : Level) (id : ℕ)
    (recvMsgs : List Str) : (switchId build vCheckFlag level id recvMsgs).1 =
      if id = LOG_LEVEL_ID then
        match recvMsgs with
        | [_, receivedMsg] => (levelOf build receivedMsg).getD level
        | _ => level
      else level := by
  unfold switchId
  by_cases hlog : id = LOG_LEVEL_ID
  · rw [if_pos hlog, if_pos hlog]
    split
    · exact changeLevel_eq build _ level
    · rfl
  · rw [if_neg hlog, if_neg hlog]
    split_ifs <;> rfl

/-- The callback sets that level whatever it was, or leaves it. -/
theorem callback_level (build : Build) (vCheckFlag : CheckFlags) (w : World) (recvMsgs : List Str) :
    (zeroMQServerMessageCallback build vCheckFlag w recvMsgs).level =
      (levelSet build recvMsgs).getD w.level := by
  unfold zeroMQServerMessageCallback
  match recvMsgs with
  | [] => rfl
  | first :: rest =>
    cases hid : readU32 first with
    | none =>
      have hsets : levelSet build (first :: rest) = none := by
        unfold levelSet
        split
        · rename_i heq
          obtain ⟨rfl, -⟩ := List.cons.inj heq
          simp [hid]
        · rfl
      simp [hid, hsets]
    | some id =>
      simp only [List.head?_cons, Option.bind_some, hid, switchId_level]
      match rest with
      | [] => simp [levelSet]
      | [receivedMsg] => by_cases hlog : id = LOG_LEVEL_ID <;> simp [levelSet, hid, hlog]
      | _ :: _ :: _ => simp [levelSet]

/-! ### What is granted -/

/-- The requests that succeed. -/
def Granted (first : Str) (rest : List Str) : Prop :=
  (first = str "LOGL" ∧ rest.length = 1) ∨
    ((first = str "VERI" ∨ first = str "PING" ∨ first = str "SCHK") ∧ rest = [])

theorem readU32_eq {first : Str} (h : first.length = 4) (t : Str) (ht : t.length = 4) :
    readU32 first = readU32 t ↔ first = t := by
  match first, h, t, ht with
  | [b₀, b₁, b₂, b₃], _, [c₀, c₁, c₂, c₃], _ =>
    have := b₀.toNat_lt
    have := b₁.toNat_lt
    have := b₂.toNat_lt
    have := b₃.toNat_lt
    have := c₀.toNat_lt
    have := c₁.toNat_lt
    have := c₂.toNat_lt
    have := c₃.toNat_lt
    simp only [readU32, Option.some.injEq, List.cons.injEq, and_true, ← UInt8.toNat_inj]
    omega

instance (first : Str) (rest : List Str) : Decidable (Granted first rest) :=
  inferInstanceAs (Decidable (_ ∨ _))

theorem Granted.length {first : Str} {rest : List Str} (h : Granted first rest) :
    first.length = 4 := by
  rcases h with ⟨rfl, -⟩ | ⟨rfl | rfl | rfl, -⟩ <;> rfl

theorem readU32_isSome {first : Str} (h : first.length = 4) : (readU32 first).isSome := by
  match first, h with
  | [_, _, _, _], _ => rfl

/-- The id tells the four texts apart. -/
theorem id_eq_iff {first : Str} {id : ℕ} (h : first.length = 4) (hid : readU32 first = some id) :
    (id = LOG_LEVEL_ID ↔ first = str "LOGL") ∧ (id = VERSION_INFO_ID ↔ first = str "VERI") ∧
      (id = PING_PONG_ID ↔ first = str "PING") ∧ (id = STATUS_CHECK_ID ↔ first = str "SCHK") := by
  have hiff : ∀ (t : Str) (k : ℕ), t.length = 4 → readU32 t = some k → (id = k ↔ first = t) := by
    intro t k ht hk
    rw [← readU32_eq h t ht, hid, hk, Option.some.injEq]
  exact ⟨hiff _ _ rfl rfl, hiff _ _ rfl rfl, hiff _ _ rfl rfl, hiff _ _ rfl rfl⟩

section Switch

variable (build : Build) (vCheckFlag : CheckFlags)

/-- The switch succeeds on the granted requests, and only a two-part `LOGL`
reaches the level. -/
theorem switchId_granted (level : Level) {first : Str} (rest : List Str) {id : ℕ}
    (h : first.length = 4) (hid : readU32 first = some id) :
    (switchId build vCheckFlag level id (first :: rest)).2.1 =
        (if Granted first rest then ZMQ_EVENT_HANDSHAKE_SUCCEEDED
          else ZMQ_EVENT_HANDSHAKE_FAILED_NO_DETAIL) ∧
      ((switchId build vCheckFlag level id (first :: rest)).1 ≠ level →
        first = str "LOGL" ∧ rest.length = 1) := by
  obtain ⟨hlog, hversion, hping, hstatus⟩ := id_eq_iff h hid
  unfold switchId
  by_cases h1 : first = str "LOGL"
  · rw [if_pos (hlog.mpr h1)]
    subst h1
    match rest with
    | [] =>
      have hg : ¬ Granted (str "LOGL") [] := by decide
      exact ⟨by rw [if_neg hg], fun hne => absurd rfl hne⟩
    | [receivedMsg] =>
      have hg : Granted (str "LOGL") [receivedMsg] := Or.inl ⟨rfl, rfl⟩
      exact ⟨by rw [if_pos hg], fun _ => ⟨rfl, rfl⟩⟩
    | part :: part' :: parts =>
      have hg : ¬ Granted (str "LOGL") (part :: part' :: parts) := by simp [Granted]
      exact ⟨by rw [if_neg hg], fun hne => absurd rfl hne⟩
  · rw [if_neg (mt hlog.mp h1)]
    -- the other requests have one part and leave the level
    have hgranted : Granted first rest ↔
        (first = str "VERI" ∨ first = str "PING" ∨ first = str "SCHK") ∧ rest = [] :=
      ⟨fun hg => hg.resolve_left fun hl => h1 hl.1, Or.inr⟩
    have hlen : (first :: rest).length ≠ 1 ↔ rest ≠ [] := by simp
    simp only [hgranted, hlen, hversion, hping, hstatus]
    by_cases hrest : rest = []
    · split_ifs <;> simp_all
    · split_ifs <;> simp_all

/-- The answer to a request whose first part is an id. -/
theorem answer_granted (w : World) {first : Str} {rest : List Str} (h : first.length = 4) :
    (∃ body, (zeroMQServerMessageCallback build vCheckFlag w (first :: rest)).reply =
      some ([intBytes (if Granted first rest then ZMQ_EVENT_HANDSHAKE_SUCCEEDED
        else ZMQ_EVENT_HANDSHAKE_FAILED_NO_DETAIL), body], decide (Granted first rest))) ∧
      ((zeroMQServerMessageCallback build vCheckFlag w (first :: rest)).level ≠ w.level →
        first = str "LOGL" ∧ rest.length = 1) := by
  obtain ⟨id, hid⟩ := Option.isSome_iff_exists.mp (readU32_isSome h)
  obtain ⟨hstatus, hlevel⟩ := switchId_granted build vCheckFlag w.level rest h hid
  have hread : (first :: rest).head?.bind readU32 = some id := hid
  unfold zeroMQServerMessageCallback
  rw [hread]
  dsimp only
  rw [hstatus]
  refine ⟨⟨(switchId build vCheckFlag w.level id (first :: rest)).2.2, ?_⟩, hlevel⟩
  by_cases hg : Granted first rest
  · simp [hg]
  · simp only [hg, if_false, decide_false]
    rfl

end Switch

/-! ### The grammar and its accounting -/

/-- What a request is told in `status`, and what it does to the server. -/
structure Graded (first : Str) (rest : List Str) (status : Str) (srv srv' : ZeroMQServer) :
    Prop where
  /-- The callback, which reads the id, is called only with four bytes. -/
  reply : ∃ body, srv'.world.trace = srv.world.trace ++ .recv (.parts first rest) ::
    (if first.length = 4 then [.call (first :: rest)] else []) ++ [.send [status, body] .sent]
  inBounds : first.length = 4 → (readU32 first).isSome
  size : status.length = 4
  granted : status = intBytes ZMQ_EVENT_HANDSHAKE_SUCCEEDED ↔ Granted first rest
  level : srv'.world.level ≠ srv.world.level → first = str "LOGL" ∧ rest.length = 1
  counters : ∀ st, srv.stats = some st → ∃ st', srv'.stats = some st' ∧
    if status = intBytes ZMQ_EVENT_HANDSHAKE_SUCCEEDED then
      st'.base.succeededCommand = st.base.succeededCommand + 1 ∧
        st'.succeededCommandParts = st.succeededCommandParts + (first :: rest).length ∧
        st'.base.failedCommand = st.base.failedCommand ∧
        st'.failedCommandParts = st.failedCommandParts
    else
      st'.base.failedCommand = st.base.failedCommand + 1 ∧
        st'.failedCommandParts = st.failedCommandParts + (first :: rest).length ∧
        st'.base.succeededCommand = st.base.succeededCommand ∧
        st'.succeededCommandParts = st.succeededCommandParts

/-- Totals are the sums of the two outcomes. -/
def ZeroMQStats.Balanced (st : ZeroMQStats) : Prop :=
  st.base.Balanced ∧ st.totalCommandParts = st.succeededCommandParts + st.failedCommandParts

theorem ZeroMQStats.Balanced.consumeStats {st : ZeroMQStats} (h : st.Balanced)
    (recvMsgs sendMsgs : List Str) (serverStats : ZeroMQServerStats) :
    (st.consumeStats recvMsgs sendMsgs serverStats).Balanced := by
  obtain ⟨hbase, hparts⟩ := h
  rw [consumeStats_eq]
  refine ⟨hbase.consumeBaseStats _ _ _, ?_⟩
  cases serverStats.isSuccessful <;> simp <;> omega

/-- The metrics stay balanced in every run, under every callback. -/
theorem rounds_balanced (net : Net) (callbacks : List (Option Callback)) :
    ∃ st, (rounds net callbacks initialised).stats = some st ∧ st.Balanced := by
  induction callbacks using List.reverseRecOn with
  | nil => exact ⟨{}, rfl, rfl, rfl⟩
  | append_singleton callbacks messageCallback ih =>
    obtain ⟨st, hst, hbal⟩ := ih
    obtain ⟨o, srv', hupdate, hround⟩ :=
      update_round net messageCallback (rounds net callbacks initialised)
    rw [rounds_append_singleton, hupdate]
    cases hround with
    | refused hdue htrace hdue' hlevel hstats => exact ⟨st, hstats.trans hst, hbal⟩
    | nothing o answer ho hdue hanswer hparts htrace hdue' hlevel hstats =>
      exact ⟨st, hstats.trans hst, hbal⟩
    | dropped first rest harrives hreply htrace hdue' hlevel hstats =>
      exact ⟨st, hstats.trans hst, hbal⟩
    | failed first rest replyMsgs ok harrives hreply hne hsend htrace hdue' hlevel hstats =>
      exact ⟨st, hstats.trans hst, hbal⟩
    | handled first rest replyMsgs ok answer _ harrives hreply hempty hsend hanswer htrace hdue'
        hlevel hok hstats =>
      rw [hst] at hstats
      exact ⟨_, hstats, hbal.consumeStats _ _ _⟩

/-- The reply to a request with the program's callback. -/
theorem replyTo_granted (build : Build) (vCheckFlag : CheckFlags) (srv : ZeroMQServer)
    (first : Str) (rest : List Str) :
    (∃ body, replyTo (some (zeroMQServerMessageCallback build vCheckFlag)) srv first rest =
      some ([intBytes (if Granted first rest then ZMQ_EVENT_HANDSHAKE_SUCCEEDED
        else ZMQ_EVENT_HANDSHAKE_FAILED_NO_DETAIL), body], decide (Granted first rest))) ∧
      (levelAfter (some (zeroMQServerMessageCallback build vCheckFlag)) srv first rest ≠
        srv.world.level → first = str "LOGL" ∧ rest.length = 1) := by
  unfold replyTo levelAfter handle
  by_cases h : first.length = 4
  · simp only [h, ne_eq, not_true_eq_false, if_false]
    exact answer_granted build vCheckFlag (requestWorld srv first rest) h
  · have hg : ¬ Granted first rest := fun hg => h hg.length
    simp only [h, ne_eq, not_false_eq_true, if_true, hg, if_false, decide_false]
    exact ⟨⟨[], rfl⟩, fun hne => absurd rfl hne⟩

theorem update_graded (build : Build) (vCheckFlag : CheckFlags) {net : Net} {srv : ZeroMQServer}
    {first : Str} {rest : List Str} (harrives : Arrives net srv first rest)
    (hsent : net.send (srv.world.n + 2) = .sent) :
    ∃ status, Graded first rest status srv
      (srv.update net (some (zeroMQServerMessageCallback build vCheckFlag))).2 := by
  obtain ⟨⟨body, hreply⟩, hlevel⟩ := replyTo_granted build vCheckFlag srv first rest
  refine ⟨intBytes (if Granted first rest then ZMQ_EVENT_HANDSHAKE_SUCCEEDED
    else ZMQ_EVENT_HANDSHAKE_FAILED_NO_DETAIL), ?_⟩
  have hstatus : intBytes (if Granted first rest then ZMQ_EVENT_HANDSHAKE_SUCCEEDED
      else ZMQ_EVENT_HANDSHAKE_FAILED_NO_DETAIL) = intBytes ZMQ_EVENT_HANDSHAKE_SUCCEEDED ↔
        Granted first rest := by
    by_cases hg : Granted first rest
    · simp [hg]
    · simp only [hg, if_false, iff_false]
      decide
  obtain ⟨o, srv', hupdate, hround⟩ :=
    update_round net (some (zeroMQServerMessageCallback build vCheckFlag)) srv
  rw [hupdate]
  cases hround with
  | refused hdue =>
    rw [harrives.1] at hdue
    cases hdue
  | nothing o answer ho hdue hanswer hparts =>
    exact absurd (hanswer.symm.trans harrives.2) (hparts first rest)
  | dropped first' rest' harrives' hreply' =>
    obtain ⟨rfl, rfl⟩ := harrives'.unique harrives
    rw [hreply] at hreply'
    cases hreply'
  | failed first' rest' replyMsgs ok harrives' hreply' hne hsend =>
    rw [hsent] at hsend
    cases hsend
  | handled first' rest' replyMsgs ok answer serverStats harrives' hreply' hempty hsend hanswer htrace
      hdue' hlevel' hok hstats =>
    obtain ⟨rfl, rfl⟩ := harrives'.unique harrives
    rw [hreply, Option.some.injEq, Prod.mk.injEq] at hreply'
    obtain ⟨rfl, rfl⟩ := hreply'
    obtain rfl : answer = .sent := (hsend (by simp)).symm.trans hsent
    refine ⟨⟨body, ?_⟩, readU32_isSome, rfl, hstatus, ?_, fun st hst => ?_⟩
    · rw [htrace]
      simp [callEvents]
    · rw [hlevel']
      exact hlevel
    · rw [hst] at hstats
      refine ⟨_, hstats, ?_⟩
      rw [consumeStats_eq, hok]
      by_cases hg : Granted first rest
      · simp [hg]
      · have hne : ¬ intBytes ZMQ_EVENT_HANDSHAKE_FAILED_NO_DETAIL =
            intBytes ZMQ_EVENT_HANDSHAKE_SUCCEEDED := by decide
        simp [hg, hne]

/-- **The request grammar and its accounting.** Every request that
`ZeroMQServer::update` handles with the program's callback and a successful
send is graded, and the totals of every run are the sums of the outcomes. -/
theorem requests_graded (build : Build) (vCheckFlag : CheckFlags) (net : Net) :
    (∀ srv first rest, Arrives net srv first rest → net.send (srv.world.n + 2) = .sent →
      ∃ status, Graded first rest status srv
        (srv.update net (some (zeroMQServerMessageCallback build vCheckFlag))).2) ∧
    ∀ callbacks, ∃ st, (rounds net callbacks initialised).stats = some st ∧
      st.base.totalCommand = st.base.succeededCommand + st.base.failedCommand ∧
      st.totalCommandParts = st.succeededCommandParts + st.failedCommandParts :=
  ⟨fun _ _ _ harrives hsent => update_graded build vCheckFlag harrives hsent,
    fun callbacks => rounds_balanced net callbacks⟩

/-- A client sends `PING` whenever it may. -/
def pingNet : Net := { (default : Net) with recv := fun _ => .parts (str "PING") [] }

theorem requests_graded_ping :
    ∃ status, Graded (str "PING") [] status initialised
      (initialised.update pingNet (some (zeroMQServerMessageCallback ⟨false, []⟩ []))).2 :=
  (requests_graded ⟨false, []⟩ [] pingNet).1 initialised (str "PING") [] ⟨rfl, rfl⟩ rfl

end ZeroMQ
end RepoInit
