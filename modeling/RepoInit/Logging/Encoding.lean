/-
# The body of a push request is JSON

`flush_` writes the body of a push request by hand and puts the payloads between
quotes as they are. The body is a JSON document of what was buffered exactly if
no payload holds a quote, a backslash or a control character
(`body_isDocument_iff`): it is read off piece by piece, and the first payload
that needs an escape is read as something else.

Key definitions: `Member`, `bodyValue`, `buffered`.
Key theorems: `reads_stream`, `decode_bodyText_iff`, `body_isDocument_iff`.
-/
import RepoInit.Lib.Json
import RepoInit.Logging.Loki

namespace RepoInit
namespace Loki

open Json

/-! ### What a body stands for -/

/-- A string member of `_basicInformation`: what is between the quotes, and the
texts it stands for. -/
structure Member where
  rawKey : Str
  rawValue : Str
  key : Str
  value : Str
  key_literal : Literal rawKey key
  value_literal : Literal rawValue value
  utf8 : IsUtf8 rawKey ∧ IsUtf8 rawValue

/-- A member as the constructor writes it, with a comma behind it. -/
def Member.text (m : Member) : Str :=
  str "\"" ++ m.rawKey ++ str "\":\"" ++ m.rawValue ++ str "\","

def informationText (members : List Member) : Str := members.flatMap Member.text

def logValue (log : Str × Str) : Value := .array [.string log.1, .string log.2]

/-- The labels of a stream. -/
def labels (members : List Member) (level : Str) : List (Str × Value) :=
  members.map (fun m => (m.key, .string m.value)) ++ [(str "level", .string level)]

def streamValue (members : List Member) (info : LogInfo) : Value :=
  .object [(str "stream", .object (labels members info.level)),
    (str "values", .array (info.logs.map logValue))]

def bodyValue (members : List Member) (streams : List LogInfo) : Value :=
  .object [(str "streams", .array (streams.map (streamValue members)))]

/-! ### The pieces of the text -/

theorem str_comma : str "," = [comma] := by decide

theorem logText_eq (log : Str × Str) : logText log =
    openBracket :: ((quote :: log.1 ++ [quote]) ++
      comma :: ((quote :: log.2 ++ [quote]) ++ [closeBracket])) := by
  have h₁ : str "[\"" = [openBracket, quote] := by decide
  have h₂ : str "\",\"" = [quote, comma, quote] := by decide
  have h₃ : str "\"]" = [quote, closeBracket] := by decide
  simp [logText, h₁, h₂, h₃]

theorem memberText_eq (m : Member) : m.text =
    quote :: m.rawKey ++ [quote, colon] ++ ((quote :: m.rawValue ++ [quote]) ++ [comma]) := by
  have h₁ : str "\"" = [quote] := by decide
  have h₂ : str "\":\"" = [quote, colon, quote] := by decide
  have h₃ : str "\"," = [quote, comma] := by decide
  simp [Member.text, h₁, h₂, h₃]

/-- The labels of a stream with the closing brace. -/
def labelsText (basicInformation level : Str) : Str :=
  basicInformation ++ (quote :: str "level" ++ [quote, colon] ++
    ((quote :: level ++ [quote]) ++ [closeBrace]))

theorem streamText_eq (basicInformation : Str) (info : LogInfo) :
    streamText basicInformation info = openBrace :: (quote :: str "stream" ++ [quote, colon] ++
      (openBrace :: labelsText basicInformation info.level ++
        comma :: (quote :: str "values" ++ [quote, colon] ++
          (openBracket :: ([comma].intercalate (info.logs.map logText) ++ [closeBracket]) ++
            [closeBrace])))) := by
  have h₁ : str "\x7b\"stream\":\x7b" =
      openBrace :: quote :: (str "stream" ++ [quote, colon, openBrace]) := by decide
  have h₂ : str "\"level\":\"" = quote :: (str "level" ++ [quote, colon, quote]) := by decide
  have h₃ : str "\"\x7d,\"values\":[" =
      [quote, closeBrace, comma, quote] ++ str "values" ++ [quote, colon, openBracket] := by decide
  have h₄ : str "]\x7d" = [closeBracket, closeBrace] := by decide
  simp [streamText, labelsText, h₁, h₂, h₃, h₄, str_comma]

theorem bodyText_eq (basicInformation : Str) (streams : List LogInfo) :
    bodyText basicInformation streams = openBrace :: (quote :: str "streams" ++ [quote, colon] ++
      (openBracket :: ([comma].intercalate (streams.map (streamText basicInformation)) ++
        [closeBracket]) ++ [closeBrace])) := by
  have h₁ : str "\x7b\"streams\":[" =
      openBrace :: quote :: (str "streams" ++ [quote, colon, openBracket]) := by decide
  have h₂ : str "]\x7d" = [closeBracket, closeBrace] := by decide
  simp [bodyText, h₁, h₂, str_comma]

/-! ### Reading it -/

section Reading

variable {n : ℕ} {rest : Str}

/-- A log is read as itself exactly if its payload is plain. -/
theorem reads_log {log : Str × Str} (htime : Plain log.1) (hn : (logText log).length ≤ n)
    (hrest : Safe rest) : Reads (value n) (logText log) (logValue log) rest (Plain log.2) := by
  rw [logText_eq] at hn ⊢
  obtain ⟨n, rfl⟩ : ∃ m, n = m + 4 := ⟨n - 4, by simp at hn; omega⟩
  have hpayload := reads_elements
    (reads_string_iff n log.2 (hrest.cons (c := closeBracket) (by decide)))
    (reads_more_close (by decide) (by decide) rest)
  have hall := reads_elements (reads_string (n + 1) htime.literal _)
    (reads_more_comma closeBracket _ hpayload)
  have harray := reads_array (c := quote) (by simp) (by decide) (by decide) hall
  simp only [true_and, and_true] at harray
  exact harray

theorem labelsText_head (members : List Member) (level : Str) :
    (labelsText (informationText members) level).head? = some quote := by
  cases members with
  | nil => simp [labelsText, informationText]
  | cons m members => simp [labelsText, informationText, memberText_eq]

theorem reads_labels (members : List Member) {level : Str} (hlevel : Plain level) (rest : Str) :
    ∀ n, (labelsText (informationText members) level).length ≤ n →
      Reads (Json.members n) (labelsText (informationText members) level) (labels members level) rest
        True := by
  induction members with
  | nil =>
    intro n hn
    obtain ⟨n, rfl⟩ : ∃ m, n = m + 2 := ⟨n - 2, by simp [labelsText] at hn; omega⟩
    have hkey : Plain (str "level") := by decide +kernel
    have hlast := reads_members hkey.literal (reads_string n hlevel.literal _)
      (reads_more_close (by decide) (by decide) rest)
    simp only [true_and] at hlast
    exact hlast
  | cons m members ih =>
    intro n hn
    have htext : labelsText (informationText (m :: members)) level =
        quote :: m.rawKey ++ [quote, colon] ++ ((quote :: m.rawValue ++ [quote]) ++
          comma :: labelsText (informationText members) level) := by
      simp [labelsText, informationText, memberText_eq]
    rw [htext] at hn ⊢
    obtain ⟨n, rfl⟩ : ∃ m, n = m + 2 := ⟨n - 2, by simp at hn; omega⟩
    have hmore := ih (n + 1) (by simp at hn; omega)
    have hall := reads_members m.key_literal (reads_string n m.value_literal _)
      (reads_more_comma closeBrace _ hmore)
    simp only [true_and] at hall
    exact hall

theorem logText_head (log : Str × Str) : (logText log).head? = some openBracket := by
  rw [logText_eq]
  rfl

theorem logText_safe (log : Str × Str) (s : Str) : Safe (logText log ++ s) := by
  rw [logText_eq]
  exact (safe_quote _).cons (by decide)

/-- Two members that are all of an object. -/
theorem reads_two {t₁ t₂ : Str} {v₁ v₂ : Value} {ok₁ ok₂ : Prop} (k₁ k₂ : Str) (h₁ : Plain k₁)
    (h₂ : Plain k₂) (hv₁ : ∀ rest, Reads (value (n + 1)) t₁ v₁ rest ok₁)
    (hv₂ : Reads (value n) t₂ v₂ (closeBrace :: rest) ok₂) :
    Reads (value (n + 3)) (openBrace :: (quote :: k₁ ++ [quote, colon] ++ (t₁ ++ comma ::
      (quote :: k₂ ++ [quote, colon] ++ (t₂ ++ [closeBrace]))))) (.object [(k₁, v₁), (k₂, v₂)]) rest
      (ok₁ ∧ ok₂) := by
  have hlast := reads_members h₂.literal hv₂ (reads_more_close (by decide) (by decide) rest)
  have hall := reads_members h₁.literal (hv₁ _) (reads_more_comma closeBrace (k₁, v₁) hlast)
  simp only [and_true] at hall
  exact reads_object rfl hall

/-- A stream is read as itself exactly if its payloads are plain. -/
theorem reads_stream (members : List Member) {info : LogInfo} (hlevel : Plain info.level)
    (htimes : ∀ log ∈ info.logs, Plain log.1)
    (hn : (streamText (informationText members) info).length ≤ n) (hrest : Safe rest) :
    Reads (value n) (streamText (informationText members) info) (streamValue members info) rest
      (∀ log ∈ info.logs, Plain log.2) := by
  rw [streamText_eq] at hn ⊢
  simp only [List.length_cons, List.length_append, List.length_nil] at hn
  obtain ⟨n, rfl⟩ : ∃ m, n = m + 4 := ⟨n - 4, by omega⟩
  have hvalues := reads_array_join logText logValue (fun log => Plain log.2) logText_head
    (by decide) (by decide) logText_safe (hrest.cons (c := closeBrace) (by decide)) info.logs n
    (fun log hlog n rest hn hrest => reads_log (htimes log hlog) hn hrest) (by omega)
  have hstream := fun rest => reads_object (labelsText_head members info.level)
    (reads_labels members hlevel rest (n + 1) (by omega))
  have hall := reads_two (str "stream") (str "values") (by decide +kernel) (by decide +kernel)
    hstream hvalues
  simp only [true_and] at hall
  exact hall

theorem streamText_head (basicInformation : Str) (info : LogInfo) :
    (streamText basicInformation info).head? = some openBrace := by
  rw [streamText_eq]
  rfl

theorem streamText_safe (basicInformation : Str) (info : LogInfo) (s : Str) :
    Safe (streamText basicInformation info ++ s) := by
  rw [streamText_eq]
  exact (safe_quote _).cons (by decide)

/-- **A body is read as what it was written from** exactly if the payloads are
plain. -/
theorem decode_bodyText_iff (members : List Member) {streams : List LogInfo}
    (hlevels : ∀ info ∈ streams, Plain info.level)
    (htimes : ∀ info ∈ streams, ∀ log ∈ info.logs, Plain log.1) :
    decode (bodyText (informationText members) streams) = some (bodyValue members streams) ↔
      ∀ info ∈ streams, ∀ log ∈ info.logs, Plain log.2 := by
  have hkey : Plain (str "streams") := by decide +kernel
  have hrest : Safe [closeBrace] := safe_nil.cons (by decide)
  set n := (bodyText (informationText members) streams).length with hn
  have hlen : ([comma].intercalate
      (streams.map (streamText (informationText members)))).length + 1 ≤ n := by
    rw [hn, bodyText_eq]
    simp
    omega
  have harray := reads_array_join (streamText (informationText members)) (streamValue members)
    (fun info => ∀ log ∈ info.logs, Plain log.2) (streamText_head (informationText members))
    (by decide) (by decide) (streamText_safe _) hrest streams n
    (fun info hinfo n rest hn hrest =>
      reads_stream members (hlevels info hinfo) (htimes info hinfo) hn hrest) hlen
  have hall := reads_members hkey.literal harray (reads_more_close (by decide) (by decide) [])
  have hbody := reads_object rfl hall
  simp only [and_true] at hbody
  refine decode_iff (n := n + 3) (by omega) ?_
  rw [bodyText_eq]
  exact hbody

end Reading

/-! ### The other pieces -/

theorem natToString_digits (n : ℕ) : ∀ c ∈ natToString n, 0x30 ≤ c ∧ c ≤ 0x39 := by
  intro c hc
  unfold natToString at hc
  split_ifs at hc with hn
  · obtain rfl := List.mem_singleton.mp hc
    decide
  · obtain ⟨d, hd, rfl⟩ := List.mem_map.mp hc
    have hlt : d < 10 := Nat.digits_lt_base (by omega) (List.mem_reverse.mp hd)
    have hall : ∀ d < 10, 0x30 ≤ UInt8.ofNat (0x30 + d) ∧ UInt8.ofNat (0x30 + d) ≤ 0x39 := by
      decide
    exact hall d hlt

theorem to_string_digits (t : ℤ) : ∀ c ∈ to_string t, c = 0x2D ∨ 0x30 ≤ c ∧ c ≤ 0x39 := by
  intro c hc
  unfold to_string at hc
  split_ifs at hc
  · rcases List.mem_cons.mp hc with rfl | hc
    · exact .inl rfl
    · exact .inr (natToString_digits _ c hc)
  · exact .inr (natToString_digits _ c hc)

theorem to_string_plain (t : ℤ) : Plain (to_string t) := by
  intro c hc
  rcases to_string_digits t c hc with rfl | ⟨hlow, hhigh⟩
  · decide
  · refine ⟨?_, ?_, fun h => ?_⟩
    · rintro rfl
      exact absurd hlow (by decide)
    · rintro rfl
      exact absurd hhigh (by decide)
    · exact absurd (UInt8.lt_of_le_of_lt hlow h) (by decide)

theorem to_string_utf8 (t : ℤ) : IsUtf8 (to_string t) := by
  apply isUtf8_ascii
  intro c hc
  rcases to_string_digits t c hc with rfl | ⟨-, hhigh⟩
  · decide
  · exact UInt8.lt_of_le_of_lt hhigh (by decide)

/-- The bytes of a literal are UTF-8. -/
theorem str_utf8 (s : String) : IsUtf8 (str s) := isUtf8_toByteArray s

theorem informationText_utf8 (members : List Member) : IsUtf8 (informationText members) := by
  induction members with
  | nil => exact isUtf8_nil
  | cons m members ih =>
    have hquote : IsUtf8 (str "\"") := str_utf8 _
    have hcolon : IsUtf8 (str "\":\"") := str_utf8 _
    have hcomma : IsUtf8 (str "\",") := str_utf8 _
    have hm : IsUtf8 m.text :=
      (((hquote.append m.utf8.1).append hcolon).append m.utf8.2).append hcomma
    exact hm.append ih

theorem logText_utf8 {log : Str × Str} (htime : IsUtf8 log.1) (hpayload : IsUtf8 log.2) :
    IsUtf8 (logText log) := by
  have hopen : IsUtf8 (str "[\"") := str_utf8 _
  have hcomma : IsUtf8 (str "\",\"") := str_utf8 _
  have hclose : IsUtf8 (str "\"]") := str_utf8 _
  exact (((hopen.append htime).append hcomma).append hpayload).append hclose

theorem streamText_utf8 {basicInformation : Str} (hinformation : IsUtf8 basicInformation)
    {info : LogInfo} (hlevel : IsUtf8 info.level) (hlogs : ∀ log ∈ info.logs, IsUtf8 (logText log)) :
    IsUtf8 (streamText basicInformation info) := by
  have hopen : IsUtf8 (str "\x7b\"stream\":\x7b") := str_utf8 _
  have hkey : IsUtf8 (str "\"level\":\"") := str_utf8 _
  have hvalues : IsUtf8 (str "\"\x7d,\"values\":[") := str_utf8 _
  have hclose : IsUtf8 (str "]\x7d") := str_utf8 _
  have hall : IsUtf8 ((str ",").intercalate (info.logs.map logText)) := by
    refine isUtf8_intercalate (str_utf8 _) _ fun t ht => ?_
    obtain ⟨log, hlog, rfl⟩ := List.mem_map.mp ht
    exact hlogs log hlog
  exact ((((hopen.append (hinformation.append hkey)).append hlevel).append hvalues).append
    hall).append hclose

theorem bodyText_utf8 {basicInformation : Str} {streams : List LogInfo}
    (hstreams : ∀ info ∈ streams, IsUtf8 (streamText basicInformation info)) :
    IsUtf8 (bodyText basicInformation streams) := by
  have hopen : IsUtf8 (str "\x7b\"streams\":[") := str_utf8 _
  have hclose : IsUtf8 (str "]\x7d") := str_utf8 _
  have hall : IsUtf8 ((str ",").intercalate (streams.map (streamText basicInformation))) := by
    refine isUtf8_intercalate (str_utf8 _) _ fun t ht => ?_
    obtain ⟨info, hinfo, rfl⟩ := List.mem_map.mp ht
    exact hstreams info hinfo
  exact (hopen.append hall).append hclose

/-! ### The body of a flush -/

/-- What is buffered: a bucket for each level that has a message, with the time
stamps and payloads of its messages. -/
def buffered (msgs : List LogMsg) : List LogInfo := written (buckets (entriesAt msgs))

theorem mem_entriesAt {msgs : List LogMsg} {level : Level} {log : Str × Str} :
    log ∈ entriesAt msgs level ↔ ∃ msg ∈ msgs, msg.level = level ∧ msg.entry = log := by
  simp [entriesAt, and_assoc]

theorem mem_buffered {msgs : List LogMsg} {info : LogInfo} (h : info ∈ buffered msgs) :
    ∃ b ∈ bucketLevels, info = ⟨b.1, entriesAt msgs b.2⟩ := by
  obtain ⟨b, hb, rfl⟩ := List.mem_map.mp (List.mem_of_mem_filter h)
  exact ⟨b, hb, rfl⟩

/-- The payloads that are buffered are those of the messages of the five
levels. -/
theorem buffered_forall {msgs : List LogMsg} {p : Str → Prop} :
    (∀ info ∈ buffered msgs, ∀ log ∈ info.logs, p log.2) ↔
      ∀ msg ∈ msgs, msg.isPushed = true → p msg.payload := by
  constructor
  · intro h msg hmsg hpushed
    obtain ⟨b, hb, hlevel⟩ := (isPushed_iff msg).mp hpushed
    have hlog : msg.entry ∈ entriesAt msgs b.2 := mem_entriesAt.mpr ⟨msg, hmsg, hlevel.symm, rfl⟩
    have hinfo : (⟨b.1, entriesAt msgs b.2⟩ : LogInfo) ∈ buffered msgs := by
      refine List.mem_filter.mpr ⟨List.mem_map.mpr ⟨b, hb, rfl⟩, ?_⟩
      simpa using List.ne_nil_of_mem hlog
    exact h _ hinfo _ hlog
  · intro h info hinfo log hlog
    obtain ⟨b, hb, rfl⟩ := mem_buffered hinfo
    obtain ⟨msg, hmsg, hlevel, rfl⟩ := mem_entriesAt.mp hlog
    exact h msg hmsg ((isPushed_iff msg).mpr ⟨b, hb, hlevel.symm⟩)

theorem buffered_time {msgs : List LogMsg} {info : LogInfo} (hinfo : info ∈ buffered msgs)
    {log : Str × Str} (hlog : log ∈ info.logs) : ∃ t, log.1 = to_string t := by
  obtain ⟨b, hb, rfl⟩ := mem_buffered hinfo
  obtain ⟨msg, -, -, rfl⟩ := mem_entriesAt.mp hlog
  exact ⟨msg.time, rfl⟩

theorem bucketLevels_plain : ∀ b ∈ bucketLevels, Plain b.1 := by decide +kernel

theorem bucketLevels_utf8 : ∀ b ∈ bucketLevels, IsUtf8 b.1 := by
  intro b hb
  simp only [bucketLevels, List.mem_cons, List.not_mem_nil, or_false] at hb
  rcases hb with rfl | rfl | rfl | rfl | rfl <;> exact str_utf8 _

/-- **The body of a flush** is a JSON document of the messages since the last
flush exactly if no payload among them holds a quote, a backslash or a control
character. -/
theorem body_isDocument_iff {lokiAddress : Str} (haddress : lokiAddress ≠ [])
    (members : List Member) (calls : List Call)
    (hutf8 : ∀ msg ∈ sinceFlush calls, IsUtf8 msg.payload) :
    ∃ sink, run calls (lokiApiSink lokiAddress (informationText members)) = some sink ∧
      (IsDocument (writeBody sink.basicInformation sink.internalLogBuffer).2
          (bodyValue members (buffered (sinceFlush calls))) ↔
        ∀ msg ∈ sinceFlush calls, msg.isPushed = true → Plain msg.payload) := by
  obtain ⟨sink, hrun, hkept⟩ :=
    run_kept (kept_lokiApiSink haddress (informationText members)) calls
  refine ⟨sink, hrun, ?_⟩
  rw [flush_body, hkept.information, hkept.buffer, ← buffered]
  have hlevels : ∀ info ∈ buffered (sinceFlush calls), Plain info.level ∧ IsUtf8 info.level := by
    intro info hinfo
    obtain ⟨b, hb, rfl⟩ := mem_buffered hinfo
    exact ⟨bucketLevels_plain b hb, bucketLevels_utf8 b hb⟩
  have hdecode := decode_bodyText_iff members (fun info hinfo => (hlevels info hinfo).1)
    fun info hinfo log hlog => by
      obtain ⟨t, ht⟩ := buffered_time hinfo hlog
      rw [ht]
      exact to_string_plain t
  have hpayloads := buffered_forall.mpr fun msg hmsg _ => hutf8 msg hmsg
  have hbody : IsUtf8 (bodyText (informationText members) (buffered (sinceFlush calls))) := by
    refine bodyText_utf8 fun info hinfo => ?_
    refine streamText_utf8 (informationText_utf8 members)
      (hlevels info hinfo).2 fun log hlog => ?_
    obtain ⟨t, ht⟩ := buffered_time hinfo hlog
    exact logText_utf8 (ht ▸ to_string_utf8 t) (hpayloads info hinfo log hlog)
  calc IsDocument (bodyText (informationText members) (buffered (sinceFlush calls)))
        (bodyValue members (buffered (sinceFlush calls)))
      ↔ ∀ info ∈ buffered (sinceFlush calls), ∀ log ∈ info.logs, Plain log.2 :=
        ⟨fun h => hdecode.mp h.2, fun h => ⟨hbody, hdecode.mpr h⟩⟩
    _ ↔ _ := buffered_forall

/-- A member and a payload that are written as they are. -/
theorem body_isDocument_hello :
    ∃ sink, run [.sink_it_ ⟨.info, 1, str "a"⟩, .flush_, .sink_it_ ⟨.err, 2, str "hello"⟩]
        (lokiApiSink (str "http://localhost") (str "\"os\":\"linux\",")) = some sink ∧
      IsDocument (writeBody sink.basicInformation sink.internalLogBuffer).2
        (.object [(str "streams", .array [.object [
          (str "stream", .object [(str "os", .string (str "linux")),
            (str "level", .string (str "error"))]),
          (str "values", .array [.array [.string (str "2"), .string (str "hello")]])]])]) := by
  have hos : Plain (str "os") := by decide +kernel
  have hlinux : Plain (str "linux") := by decide +kernel
  have hutf8 : IsUtf8 (str "os") ∧ IsUtf8 (str "linux") :=
    ⟨str_utf8 _, str_utf8 _⟩
  have haddress : str "http://localhost" ≠ [] := by decide +kernel
  obtain ⟨sink, hrun, hiff⟩ := body_isDocument_iff haddress
    [⟨_, _, _, _, hos.literal, hlinux.literal, hutf8⟩]
    [.sink_it_ ⟨.info, 1, str "a"⟩, .flush_, .sink_it_ ⟨.err, 2, str "hello"⟩]
    (by
      intro msg hmsg
      obtain rfl := List.mem_singleton.mp hmsg
      exact str_utf8 _)
  refine ⟨sink, hrun, hiff.mpr ?_⟩
  intro msg hmsg _
  obtain rfl := List.mem_singleton.mp hmsg
  decide +kernel

/-- A payload with a quote gives a body that is no JSON. -/
theorem quotedPayload_not_isDocument :
    IsUtf8 (str "say \"hi\"") ∧
      ∃ sink, run [.sink_it_ ⟨.info, 1, str "say \"hi\""⟩]
          (lokiApiSink (str "http://localhost") []) = some sink ∧
        ∀ v, ¬ IsDocument (writeBody sink.basicInformation sink.internalLogBuffer).2 v := by
  refine ⟨str_utf8 _, _, rfl, fun v h => ?_⟩
  have hnone : (decode (writeBody [] [⟨str "debug", []⟩, ⟨str "info", [(str "1", str "say \"hi\"")]⟩,
      ⟨str "warn", []⟩, ⟨str "error", []⟩, ⟨str "critical", []⟩]).2).isNone = true := by
    decide +kernel
  have hbody := Option.isNone_iff_eq_none.mp hnone
  exact absurd (h.2.symm.trans hbody) (by simp)

end Loki
end RepoInit
