/-
# `loki_api_sink`

The sink buffers the messages of five levels in five buckets and sends what is
buffered as one request per flush. The buckets are found by number and named in
the constructor; a message ends up in the one of its own level (`sink_it_eq`),
and of each level the requests and the buffer together hold exactly the
messages that came, once and in order (`run_exactlyOnce`).

A request is recorded with its body and with the buckets the body was written
from.

Key definitions: `sink_it_`, `flush_`, `run`, `ExactlyOnce`.
Key theorems: `sink_it_eq`, `flush_body`, `run_exactlyOnce`.
-/
import Mathlib.Data.List.Induction
import Mathlib.Data.Nat.Digits.Defs
import RepoInit.Basic

namespace RepoInit
namespace Loki

/-! ### Data -/

/-- The number of a level in spdlog's enumeration. -/
def levelNumber : Level → ℕ
  | .trace => 0
  | .debug => 1
  | .info => 2
  | .warn => 3
  | .err => 4
  | .critical => 5
  | .off => 6

/-- `details::log_msg`: the time is the count of its clock's ticks. -/
structure LogMsg where
  level : Level
  time : ℤ
  payload : Str

/-- `logInfo_t`: a level and the logs, a time stamp and a payload each. -/
structure LogInfo where
  level : Str
  logs : List (Str × Str) := []

/-- A request handed to the HTTP client, and the buckets it was written from. -/
structure Request where
  index : Str
  payload : Str
  streams : List LogInfo

structure LokiSink where
  lokiAvailable : Bool := false
  basicInformation : Str := []
  internalLogBuffer : List LogInfo := []
  /-- What was sent, oldest first. -/
  requests : List Request := []

/-- The constructor; `basicInformation` is what it finds out about the build and
the machine. -/
def lokiApiSink (lokiAddress basicInformation : Str) : LokiSink :=
  if lokiAddress = [] then {}
  else
    { lokiAvailable := true
      basicInformation := basicInformation
      internalLogBuffer :=
        [{ level := str "debug" }, { level := str "info" }, { level := str "warn" },
         { level := str "error" }, { level := str "critical" }] }

/-- `std::to_string` of a natural number. -/
def natToString (n : ℕ) : Str :=
  if n = 0 then [0x30] else (Nat.digits 10 n).reverse.map fun d => UInt8.ofNat (0x30 + d)

/-- `std::to_string`. -/
def to_string (t : ℤ) : Str :=
  if t < 0 then 0x2D :: natToString t.natAbs else natToString t.natAbs

/-! ### `sink_it_` -/

/-- The entry a message leaves in its bucket. -/
def LogMsg.entry (msg : LogMsg) : Str × Str := (to_string msg.time, msg.payload)

def LogInfo.push (log : Str × Str) (info : LogInfo) : LogInfo :=
  { info with logs := info.logs ++ [log] }

/-- Is the level between `debug` and `critical`? -/
def LogMsg.isPushed (msg : LogMsg) : Bool := 1 ≤ levelNumber msg.level && levelNumber msg.level ≤ 5

/-- `none` if the index is not one of a bucket, which C++ leaves undefined. -/
def sink_it_ (msg : LogMsg) (sink : LokiSink) : Option LokiSink :=
  if sink.lokiAvailable && msg.isPushed then
    if levelNumber msg.level - 1 < sink.internalLogBuffer.length then
      some { sink with
        internalLogBuffer :=
          sink.internalLogBuffer.modify (levelNumber msg.level - 1) (LogInfo.push msg.entry) }
    else none
  else some sink

/-! ### `flush_` -/

/-- One turn of the inner loop; the flag says whether a log was written before. -/
def writeLog (acc : Bool × Str) (subentry : Str × Str) : Bool × Str :=
  (true, acc.2 ++ (if acc.1 then str "," else []) ++
    (str "[\"" ++ subentry.1 ++ str "\",\"" ++ subentry.2 ++ str "\"]"))

/-- One turn of the outer loop, without the clearing. -/
def writeEntry (basicInformation : Str) (acc : Bool × Str) (entry : LogInfo) : Bool × Str :=
  if entry.logs.isEmpty then acc
  else
    let stream := acc.2 ++ (if acc.1 then str "," else []) ++
      (str "\x7b\"stream\":\x7b" ++ (basicInformation ++ str "\"level\":\"") ++ entry.level ++
        str "\"\x7d,\"values\":[")
    (true, (entry.logs.foldl writeLog (false, stream)).2 ++ str "]\x7d")

/-- The text the loops write, and whether they wrote an entry. -/
def writeBody (basicInformation : Str) (buffer : List LogInfo) : Bool × Str :=
  let acc := buffer.foldl (writeEntry basicInformation) (false, str "\x7b\"streams\":[")
  (acc.1, acc.2 ++ str "]\x7d")

/-- The buckets that are written. -/
def written (buffer : List LogInfo) : List LogInfo := buffer.filter fun info => !info.logs.isEmpty

/-- The reply of the server is not looked at. -/
def flush_ (sink : LokiSink) : LokiSink :=
  let (flag, body) := writeBody sink.basicInformation sink.internalLogBuffer
  { sink with
    internalLogBuffer := sink.internalLogBuffer.map fun entry =>
      if entry.logs.isEmpty then entry else { entry with logs := [] }
    requests :=
      if flag then
        sink.requests ++ [⟨str "/loki/api/v1/push", body, written sink.internalLogBuffer⟩]
      else sink.requests }

/-! ### Runs -/

/-- A call under the mutex of the base sink. -/
inductive Call where
  | sink_it_ (msg : LogMsg)
  | flush_

def call (sink : LokiSink) : Call → Option LokiSink
  | .sink_it_ msg => Loki.sink_it_ msg sink
  | .flush_ => some (Loki.flush_ sink)

/-- The calls one after the other; `none` once an index was not one of a
bucket. -/
def run (calls : List Call) (sink : LokiSink) : Option LokiSink := calls.foldlM call sink

/-! ### The text of a body -/

/-- What is written for a log. -/
def logText (log : Str × Str) : Str :=
  str "[\"" ++ log.1 ++ str "\",\"" ++ log.2 ++ str "\"]"

/-- What is written for a bucket. -/
def streamText (basicInformation : Str) (info : LogInfo) : Str :=
  str "\x7b\"stream\":\x7b" ++ (basicInformation ++ str "\"level\":\"") ++ info.level ++
    str "\"\x7d,\"values\":[" ++ (str ",").intercalate (info.logs.map logText) ++ str "]\x7d"

def bodyText (basicInformation : Str) (streams : List LogInfo) : Str :=
  str "\x7b\"streams\":[" ++ (str ",").intercalate (streams.map (streamText basicInformation)) ++
    str "]\x7d"

/-- A loop that writes a comma before every item but the first. -/
theorem foldl_comma {α : Type} (text : α → Str) (step : Bool × Str → α → Bool × Str)
    (hstep : ∀ acc a, step acc a = (true, acc.2 ++ (if acc.1 then str "," else []) ++ text a)) :
    ∀ (as : List α) (acc : Bool × Str), as.foldl step acc =
      (acc.1 || !as.isEmpty,
        acc.2 ++ (if acc.1 && !as.isEmpty then str "," else []) ++ (str ",").intercalate (as.map text))
  | [], acc => by simp
  | [a], acc => by
    rw [List.foldl_cons, List.foldl_nil, hstep]
    simp
  | a :: b :: as, acc => by
    rw [List.foldl_cons, foldl_comma text step hstep (b :: as), hstep]
    simp [List.intercalate]

theorem writeEntry_of_empty (basicInformation : Str) (acc : Bool × Str) {entry : LogInfo}
    (h : entry.logs.isEmpty = true) : writeEntry basicInformation acc entry = acc := by
  rw [writeEntry, if_pos h]

theorem writeEntry_of_logs (basicInformation : Str) (acc : Bool × Str) {entry : LogInfo}
    (h : entry.logs.isEmpty = false) : writeEntry basicInformation acc entry =
      (true, acc.2 ++ (if acc.1 then str "," else []) ++ streamText basicInformation entry) := by
  rw [writeEntry, if_neg (by simp [h])]
  dsimp only
  rw [foldl_comma logText writeLog fun _ _ => rfl]
  simp [streamText]

theorem written_cons (entry : LogInfo) (buffer : List LogInfo) :
    written (entry :: buffer) =
      if entry.logs.isEmpty then written buffer else entry :: written buffer := by
  rw [written, List.filter_cons]
  cases entry.logs.isEmpty <;> rfl

theorem foldl_writeEntry (basicInformation : Str) (buffer : List LogInfo) (acc : Bool × Str) :
    buffer.foldl (writeEntry basicInformation) acc =
      (written buffer).foldl (fun acc entry => (true, acc.2 ++ (if acc.1 then str "," else []) ++
        streamText basicInformation entry)) acc := by
  induction buffer generalizing acc with
  | nil => rfl
  | cons entry buffer ih =>
    rw [List.foldl_cons, ih, written_cons]
    cases h : entry.logs.isEmpty with
    | true => rw [writeEntry_of_empty _ _ h, if_pos rfl]
    | false => rw [writeEntry_of_logs _ _ h]; rfl

/-- **The body** is the text of the buckets that hold something, and it is sent
if there are any. -/
theorem flush_body (basicInformation : Str) (buffer : List LogInfo) :
    writeBody basicInformation buffer =
      (!(written buffer).isEmpty, bodyText basicInformation (written buffer)) := by
  rw [writeBody, foldl_writeEntry, foldl_comma (streamText basicInformation) _ fun _ _ => rfl]
  simp [bodyText]

/-! ### Buckets -/

/-- The names the constructor gives the buckets, and the levels they are for. -/
def bucketLevels : List (Str × Level) :=
  [(str "debug", .debug), (str "info", .info), (str "warn", .warn), (str "error", .err),
   (str "critical", .critical)]

/-- The five buckets with these logs. -/
def buckets (logs : Level → List (Str × Str)) : List LogInfo :=
  bucketLevels.map fun b => ⟨b.1, logs b.2⟩

/-- The logs in the buckets of this name. -/
def logsAt (name : Str) (infos : List LogInfo) : List (Str × Str) :=
  (infos.filter (·.level = name)).flatMap (·.logs)

theorem logsAt_append (name : Str) (infos infos' : List LogInfo) :
    logsAt name (infos ++ infos') = logsAt name infos ++ logsAt name infos' := by
  simp [logsAt]

theorem logsAt_written (name : Str) (infos : List LogInfo) :
    logsAt name (written infos) = logsAt name infos := by
  induction infos with
  | nil => rfl
  | cons info infos ih =>
    have hcons : ∀ infos', logsAt name (info :: infos') =
        (if info.level = name then info.logs else []) ++ logsAt name infos' := by
      intro infos'
      by_cases h : info.level = name <;> simp [logsAt, h]
    rw [hcons, ← ih, written_cons]
    cases h : info.logs with
    | nil => simp
    | cons log logs => simp [hcons, h]

theorem logsAt_buckets (logs : Level → List (Str × Str)) {b : Str × Level}
    (hb : b ∈ bucketLevels) : logsAt b.1 (buckets logs) = logs b.2 := by
  have hfilter : (buckets logs).filter (·.level = b.1) = [⟨b.1, logs b.2⟩] := by
    have hone : bucketLevels.filter (fun b' => b'.1 = b.1) = [b] := by
      revert b
      decide
    rw [buckets, List.filter_map]
    show (bucketLevels.filter fun b' => b'.1 = b.1).map _ = _
    rw [hone]
    rfl
  rw [logsAt, hfilter]
  simp

/-- Does a bucket belong to the level? -/
theorem isPushed_iff (msg : LogMsg) :
    msg.isPushed = true ↔ ∃ b ∈ bucketLevels, b.2 = msg.level := by
  obtain ⟨level, time, payload⟩ := msg
  cases level <;> simp [LogMsg.isPushed, levelNumber, bucketLevels]

/-- **A message goes to the bucket of its level**, and its index is one of a
bucket. -/
theorem sink_it_eq (msg : LogMsg) {sink : LokiSink} (hloki : sink.lokiAvailable = true)
    {logs : Level → List (Str × Str)} (h : sink.internalLogBuffer = buckets logs) :
    sink_it_ msg sink = some { sink with
      internalLogBuffer := buckets fun level =>
        logs level ++ if level = msg.level then [msg.entry] else [] } := by
  obtain ⟨lokiAvailable, basicInformation, internalLogBuffer, requests⟩ := sink
  subst hloki h
  obtain ⟨level, time, payload⟩ := msg
  cases level <;>
    simp [sink_it_, LogMsg.isPushed, levelNumber, buckets, bucketLevels, LogInfo.push, List.modify]

/-- After a flush the buckets are empty. -/
theorem flush_buckets {sink : LokiSink} {logs : Level → List (Str × Str)}
    (h : sink.internalLogBuffer = buckets logs) :
    (flush_ sink).internalLogBuffer = buckets fun _ => [] := by
  unfold flush_
  simp only [h, buckets, List.map_map]
  apply List.map_congr_left
  intro b _
  cases hb : logs b.2 <;> simp [hb]

/-! ### Exactly once -/

/-- The entries of the messages of a level, in the order of their arrival. -/
def logsOf (level : Level) (calls : List Call) : List (Str × Str) :=
  calls.filterMap fun
    | .sink_it_ msg => if msg.level = level then some msg.entry else none
    | .flush_ => none

/-- The messages since the last flush. -/
def sinceFlush (calls : List Call) : List LogMsg :=
  calls.foldl (fun msgs c => match c with
    | .sink_it_ msg => msgs ++ [msg]
    | .flush_ => []) []

/-- The entries of the messages of a level. -/
def entriesAt (msgs : List LogMsg) (level : Level) : List (Str × Str) :=
  (msgs.filter (·.level = level)).map LogMsg.entry

/-- The requests that were sent and then the buffer hold, in the buckets of each
level, the messages of that level, and nothing else; a request holds something,
and its body is the text of its buckets. -/
structure ExactlyOnce (basicInformation : Str) (calls : List Call) (sink : LokiSink) : Prop where
  once : ∀ b ∈ bucketLevels,
    logsAt b.1 (sink.requests.flatMap (·.streams)) ++ logsAt b.1 sink.internalLogBuffer =
      logsOf b.2 calls
  named : ∀ info ∈ sink.requests.flatMap (·.streams) ++ sink.internalLogBuffer,
    info.level ∈ bucketLevels.map (·.1)
  bodies : ∀ request ∈ sink.requests,
    request.payload = bodyText basicInformation request.streams ∧ request.streams ≠ []

/-- What a run keeps. -/
structure Kept (basicInformation : Str) (calls : List Call) (sink : LokiSink) : Prop where
  available : sink.lokiAvailable = true
  information : sink.basicInformation = basicInformation
  buffer : sink.internalLogBuffer = buckets (entriesAt (sinceFlush calls))
  exactlyOnce : ExactlyOnce basicInformation calls sink

theorem mem_buckets {logs : Level → List (Str × Str)} {info : LogInfo} (h : info ∈ buckets logs) :
    info.level ∈ bucketLevels.map (·.1) := by
  obtain ⟨b, hb, rfl⟩ := List.mem_map.mp h
  exact List.mem_map_of_mem hb

theorem logsOf_append (level : Level) (calls : List Call) (c : Call) :
    logsOf level (calls ++ [c]) = logsOf level calls ++ logsOf level [c] := by
  simp [logsOf]

section Step

variable {basicInformation : Str} {calls : List Call} {sink : LokiSink}

theorem Kept.sink_it_ (h : Kept basicInformation calls sink) (msg : LogMsg) :
    ∃ sink', Loki.sink_it_ msg sink = some sink' ∧
      Kept basicInformation (calls ++ [.sink_it_ msg]) sink' := by
  have hlogs : entriesAt (sinceFlush (calls ++ [.sink_it_ msg])) = fun level =>
      entriesAt (sinceFlush calls) level ++ if level = msg.level then [msg.entry] else [] := by
    funext level
    by_cases hlevel : msg.level = level
    · simp [entriesAt, sinceFlush, hlevel]
    · simp [entriesAt, sinceFlush, hlevel, Ne.symm hlevel]
  refine ⟨_, sink_it_eq msg h.available h.buffer, h.available, h.information, ?_, ?_, ?_,
    h.exactlyOnce.bodies⟩
  · rw [hlogs]
  · intro b hb
    have honce := h.exactlyOnce.once b hb
    rw [h.buffer, logsAt_buckets _ hb] at honce
    rw [logsAt_buckets _ hb, logsOf_append, ← honce, List.append_assoc]
    by_cases hlevel : msg.level = b.2
    · simp [logsOf, hlevel]
    · simp [logsOf, hlevel, Ne.symm hlevel]
  · intro info hinfo
    rcases List.mem_append.mp hinfo with hinfo | hinfo
    · exact h.exactlyOnce.named info (List.mem_append_left _ hinfo)
    · dsimp only at hinfo
      exact mem_buckets hinfo

theorem flush_requests (sink : LokiSink) : (flush_ sink).requests =
    if (written sink.internalLogBuffer).isEmpty then sink.requests
    else sink.requests ++ [⟨str "/loki/api/v1/push",
      bodyText sink.basicInformation (written sink.internalLogBuffer),
      written sink.internalLogBuffer⟩] := by
  unfold flush_
  rw [flush_body]
  cases (written sink.internalLogBuffer).isEmpty <;> rfl

theorem flush_streams (sink : LokiSink) : (flush_ sink).requests.flatMap (·.streams) =
    sink.requests.flatMap (·.streams) ++ written sink.internalLogBuffer := by
  rw [flush_requests]
  by_cases h : (written sink.internalLogBuffer).isEmpty = true
  · rw [if_pos h, List.isEmpty_iff.mp h, List.append_nil]
  · rw [if_neg h]
    simp

theorem Kept.flush_ (h : Kept basicInformation calls sink) :
    Kept basicInformation (calls ++ [.flush_]) (Loki.flush_ sink) := by
  have hnone : sinceFlush (calls ++ [.flush_]) = [] := by
    rw [sinceFlush, List.foldl_append]
    rfl
  refine ⟨h.available, h.information, ?_, ?_, ?_, ?_⟩
  · rw [flush_buckets h.buffer, hnone]
    rfl
  · intro b hb
    rw [flush_streams, flush_buckets h.buffer, logsAt_buckets _ hb, logsAt_append, logsAt_written,
      h.exactlyOnce.once b hb, logsOf_append]
    simp [logsOf]
  · intro info hinfo
    rw [flush_streams, flush_buckets h.buffer, List.append_assoc] at hinfo
    rcases List.mem_append.mp hinfo with hinfo | hinfo
    · exact h.exactlyOnce.named info (List.mem_append_left _ hinfo)
    · rcases List.mem_append.mp hinfo with hinfo | hinfo
      · exact h.exactlyOnce.named info (List.mem_append_right _ (List.mem_of_mem_filter hinfo))
      · exact mem_buckets hinfo
  · intro request hrequest
    rw [flush_requests] at hrequest
    split at hrequest
    · exact h.exactlyOnce.bodies request hrequest
    · rename_i hne
      rcases List.mem_append.mp hrequest with hrequest | hrequest
      · exact h.exactlyOnce.bodies request hrequest
      · obtain rfl := List.mem_singleton.mp hrequest
        refine ⟨by rw [h.information], ?_⟩
        intro hnil
        exact hne (List.isEmpty_iff.mpr hnil)

/-- A flush with nothing buffered sends nothing. -/
theorem flush_of_nothing (h : ∀ info ∈ sink.internalLogBuffer, info.logs = []) :
    (flush_ sink).requests = sink.requests := by
  have hnone : written sink.internalLogBuffer = [] := by
    rw [written, List.filter_eq_nil_iff]
    intro info hinfo
    simp [h info hinfo]
  rw [flush_requests, hnone]
  rfl

end Step

theorem kept_lokiApiSink {lokiAddress : Str} (haddress : lokiAddress ≠ []) (basicInformation : Str) :
    Kept basicInformation [] (lokiApiSink lokiAddress basicInformation) := by
  have hbuffer : (lokiApiSink lokiAddress basicInformation).internalLogBuffer =
      buckets fun _ => [] := by
    rw [lokiApiSink, if_neg haddress]
    rfl
  have hrequests : (lokiApiSink lokiAddress basicInformation).requests = [] := by
    rw [lokiApiSink, if_neg haddress]
  refine ⟨?_, ?_, hbuffer, ?_, ?_, ?_⟩
  · rw [lokiApiSink, if_neg haddress]
  · rw [lokiApiSink, if_neg haddress]
  · intro b hb
    rw [hbuffer, hrequests, logsAt_buckets _ hb]
    rfl
  · intro info hinfo
    rw [hrequests, hbuffer] at hinfo
    exact @mem_buckets (fun _ => []) _ hinfo
  · simp [hrequests]

theorem run_kept {basicInformation : Str} {sink₀ : LokiSink} (h₀ : Kept basicInformation [] sink₀)
    (calls : List Call) : ∃ sink, run calls sink₀ = some sink ∧ Kept basicInformation calls sink := by
  induction calls using List.reverseRecOn with
  | nil => exact ⟨sink₀, rfl, h₀⟩
  | append_singleton calls c ih =>
    obtain ⟨sink, hrun, hkept⟩ := ih
    have happend : run (calls ++ [c]) sink₀ = call sink c := by
      rw [run, List.foldlM_append, ← run, hrun]
      simp [List.foldlM_cons]
    rw [happend]
    cases c with
    | sink_it_ msg => exact hkept.sink_it_ msg
    | flush_ => exact ⟨_, rfl, hkept.flush_⟩

/-- **Batching is exactly-once.** With an address, after any calls no index was
out of range, the messages of each level are in the requests and then in the
buffer, once and in order, and a flush with nothing buffered sends nothing. -/
theorem run_exactlyOnce {lokiAddress : Str} (haddress : lokiAddress ≠ []) (basicInformation : Str)
    (calls : List Call) :
    ∃ sink, run calls (lokiApiSink lokiAddress basicInformation) = some sink ∧
      ExactlyOnce basicInformation calls sink ∧
      ((∀ info ∈ sink.internalLogBuffer, info.logs = []) →
        (flush_ sink).requests = sink.requests) := by
  obtain ⟨sink, hrun, hkept⟩ := run_kept (kept_lokiApiSink haddress basicInformation) calls
  exact ⟨sink, hrun, hkept.exactlyOnce, flush_of_nothing⟩

/-- Two messages and a flush between them. -/
theorem run_exactlyOnce_two :
    ∃ sink, run [.sink_it_ ⟨.warn, 1, str "a"⟩, .flush_, .sink_it_ ⟨.trace, 2, str "b"⟩]
        (lokiApiSink (str "http://localhost") []) = some sink ∧
      logsAt (str "warn") (sink.requests.flatMap (·.streams)) ++
        logsAt (str "warn") sink.internalLogBuffer = [(str "1", str "a")] := by
  have haddress : str "http://localhost" ≠ [] := by decide
  obtain ⟨sink, hrun, hkept, -⟩ := run_exactlyOnce haddress []
    [.sink_it_ ⟨.warn, 1, str "a"⟩, .flush_, .sink_it_ ⟨.trace, 2, str "b"⟩]
  refine ⟨sink, hrun, (hkept.once (str "warn", .warn) (by decide)).trans ?_⟩
  decide

end Loki
end RepoInit
