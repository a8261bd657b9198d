/-
# The deltas of `ProcessMetrics::getDiskIO`

Each call looks up the bytes read and the bytes written, reading the file anew,
and returns what has come since the last call that found both. A call that does
not find both returns (0, 0) or throws before it touches the baselines
(`getDiskIo_none`), so nothing is lost: the deltas add up, modulo 2^64, to the
latest reading (`diskIO_conserved`).

Key definitions: `stoull`, `IsNumber`, `getDiskIo`, `reading`, `results`.
Key theorems: `stoull_eq_ok_iff`, `getDiskIo_some`, `getDiskIo_none`, `diskIO_conserved`.
-/
import Mathlib.Data.UInt
import RepoInit.FindFromFile

namespace RepoInit
namespace ProcessMetrics

/-! ### `std::stoull` -/

/-- What `std::stoull` throws. -/
inductive StdException where
  | invalidArgument
  | outOfRange
  deriving DecidableEq, Repr

def isspace (c : Byte) : Bool := c = 0x20 || (0x09 ≤ c && c ≤ 0x0D)

def isdigit (c : Byte) : Bool := 0x30 ≤ c && c ≤ 0x39

def digitsValue (digits : Str) : ℕ := digits.foldl (fun n d => 10 * n + (d.toNat - 0x30)) 0

/-- White space, a sign and digits; what follows is not looked at. The negative
of a number is its negative modulo 2^64. -/
def stoull (s : Str) : Except StdException UInt64 :=
  let s := s.dropWhile isspace
  let negative := s.head? = some 0x2D
  let s := if s.head? = some 0x2D ∨ s.head? = some 0x2B then s.tail else s
  let digits := s.takeWhile isdigit
  if digits = [] then .error .invalidArgument
  else if 2 ^ 64 ≤ digitsValue digits then .error .outOfRange
  else .ok (if negative then -UInt64.ofNat (digitsValue digits) else UInt64.ofNat (digitsValue digits))

/-- The text is white space, a sign or none, digits, and what does not go on with a
digit. -/
structure IsNumber (s sign digits : Str) : Prop where
  split : ∃ spaces rest, s = spaces ++ (sign ++ (digits ++ rest)) ∧
    (∀ c ∈ spaces, isspace c = true) ∧ rest.takeWhile isdigit = []
  isSign : sign = [] ∨ sign = [0x2D] ∨ sign = [0x2B]
  isDigits : ∀ c ∈ digits, isdigit c = true
  ne_nil : digits ≠ []

theorem isdigit_toNat {c : Byte} (h : isdigit c = true) : 0x30 ≤ c.toNat ∧ c.toNat ≤ 0x39 := by
  simpa [isdigit, UInt8.le_iff_toNat_le] using h

/-- A digit is neither white space nor a sign. -/
theorem isdigit_ne {c : Byte} (h : isdigit c = true) :
    isspace c = false ∧ c ≠ 0x2D ∧ c ≠ 0x2B := by
  obtain ⟨hlow, hhigh⟩ := isdigit_toNat h
  refine ⟨?_, ?_, ?_⟩
  · rw [Bool.eq_false_iff]
    intro hspace
    simp only [isspace, Bool.or_eq_true, decide_eq_true_eq, Bool.and_eq_true,
      UInt8.le_iff_toNat_le] at hspace
    rcases hspace with rfl | ⟨-, hle⟩
    · simp at hlow
    · simp at hle
      omega
  · rintro rfl
    simp at hlow
  · rintro rfl
    simp at hlow

/-- What `stoull` does with a number. -/
theorem stoull_of_isNumber {s sign digits : Str} (h : IsNumber s sign digits) :
    stoull s = if 2 ^ 64 ≤ digitsValue digits then .error .outOfRange
      else .ok (if sign = [0x2D] then -UInt64.ofNat (digitsValue digits)
        else UInt64.ofNat (digitsValue digits)) := by
  obtain ⟨⟨spaces, rest, rfl, hspaces, hrest⟩, hsign, hdigits, hne⟩ := h
  have htake : (digits ++ rest).takeWhile isdigit = digits := by
    rw [List.takeWhile_append_of_pos hdigits, hrest, List.append_nil]
  have hhead : (digits ++ rest).dropWhile isspace = digits ++ rest ∧
      (digits ++ rest).head? ≠ some 0x2D ∧ (digits ++ rest).head? ≠ some 0x2B := by
    obtain ⟨d, ds, rfl⟩ := List.exists_cons_of_ne_nil hne
    obtain ⟨hspace, hminus, hplus⟩ := isdigit_ne (hdigits d List.mem_cons_self)
    exact ⟨List.dropWhile_cons_of_neg (by simp [hspace]), by simpa using hminus,
      by simpa using hplus⟩
  generalize digits ++ rest = t at htake hhead
  unfold stoull
  rw [List.dropWhile_append_of_pos hspaces]
  rcases hsign with rfl | rfl | rfl
  · simp [hhead, htake, hne]
  · simp [List.dropWhile_cons_of_neg (show ¬ isspace 0x2D = true by decide), htake, hne]
  · simp [List.dropWhile_cons_of_neg (show ¬ isspace 0x2B = true by decide), htake, hne]

/-- What comes after the white space and the sign. -/
theorem isNumber_of_takeWhile {s sign t : Str} (hs : s.dropWhile isspace = sign ++ t)
    (hsign : sign = [] ∨ sign = [0x2D] ∨ sign = [0x2B]) (hne : t.takeWhile isdigit ≠ []) :
    IsNumber s sign (t.takeWhile isdigit) := by
  refine ⟨⟨s.takeWhile isspace, t.dropWhile isdigit, ?_, ?_, ?_⟩, hsign, ?_, hne⟩
  · rw [List.takeWhile_append_dropWhile, ← hs, List.takeWhile_append_dropWhile]
  · exact fun c hc => List.mem_takeWhile_imp hc
  · cases hrest : t.dropWhile isdigit with
    | nil => rfl
    | cons c rest =>
      have hnot := List.head_dropWhile_not isdigit (l := t) (by simp [hrest])
      simp only [hrest, List.head_cons] at hnot
      rw [List.takeWhile_cons_of_neg (by simp [hnot])]
  · exact fun c hc => List.mem_takeWhile_imp hc

/-- Everything else is an invalid argument. -/
theorem exists_isNumber {s : Str} (h : stoull s ≠ .error .invalidArgument) :
    ∃ sign digits, IsNumber s sign digits := by
  unfold stoull at h
  generalize hs : s.dropWhile isspace = s₁ at h
  cases s₁ with
  | nil => simp at h
  | cons c t =>
    by_cases hminus : c = 0x2D
    · subst hminus
      refine ⟨_, _, @isNumber_of_takeWhile s [0x2D] t hs (.inr (.inl rfl)) ?_⟩
      intro hnil
      simp [hnil] at h
    · by_cases hplus : c = 0x2B
      · subst hplus
        refine ⟨_, _, @isNumber_of_takeWhile s [0x2B] t hs (.inr (.inr rfl)) ?_⟩
        intro hnil
        simp [hnil] at h
      · refine ⟨_, _, @isNumber_of_takeWhile s [] (c :: t) hs (.inl rfl) ?_⟩
        intro hnil
        simp [hminus, hplus, hnil] at h

/-- **What `stoull` takes.** It returns a number exactly for white space, a sign and
digits whose value fits into 64 bits, and anything may follow. -/
theorem stoull_eq_ok_iff (s : Str) (v : UInt64) : stoull s = .ok v ↔
    ∃ sign digits, IsNumber s sign digits ∧ digitsValue digits < 2 ^ 64 ∧
      v = if sign = [0x2D] then -UInt64.ofNat (digitsValue digits)
        else UInt64.ofNat (digitsValue digits) := by
  constructor
  · intro h
    obtain ⟨sign, digits, hnumber⟩ := exists_isNumber (s := s) (by rw [h]; nofun)
    rw [stoull_of_isNumber hnumber] at h
    split at h
    · cases h
    · exact ⟨sign, digits, hnumber, by omega, (Except.ok.inj h).symm⟩
  · rintro ⟨sign, digits, hnumber, hlt, rfl⟩
    rw [stoull_of_isNumber hnumber, if_neg (by omega)]

/-! ### `getDiskIO` -/

/-- `_oldReadBytes` and `_oldWriteBytes`. -/
structure DiskBaseline where
  oldReadBytes : UInt64 := 0
  oldWriteBytes : UInt64 := 0
  deriving DecidableEq, Repr

/-- `/proc/self/io` at the two lookups; `none` if it cannot be opened. -/
structure Files where
  first : Option Str
  second : Option Str

/-- What a call returns or throws, and the baselines afterwards. -/
def getDiskIo (files : Files) (st : DiskBaseline) :
    Except StdException (UInt64 × UInt64) × DiskBaseline :=
  let buffer := (findFromFile files.first { text := str "read_bytes" } []).2
  match (if buffer = [] then .ok 0 else stoull buffer) with
  | .error e => (.error e, st)
  | .ok readBytes =>
    if buffer = [] then (.ok (0, 0), st)
    else
      let buffer := (findFromFile files.second { text := str "write_bytes" } []).2
      match (if buffer = [] then .ok 0 else stoull buffer) with
      | .error e => (.error e, st)
      | .ok writeBytes =>
        if buffer = [] then (.ok (0, 0), st)
        else
          (.ok (readBytes - st.oldReadBytes, writeBytes - st.oldWriteBytes), ⟨readBytes, writeBytes⟩)

/-! ### One call -/

/-- The number a lookup gives: the last word of the first line with the text. -/
def lookup (file : Option Str) (text : Str) : Option UInt64 :=
  match firstWord file { text := text } with
  | none => none
  | some word => if word = [] then none else (stoull word).toOption

/-- Both values, if a call obtains both. -/
def reading (files : Files) : Option (UInt64 × UInt64) :=
  match lookup files.first (str "read_bytes"), lookup files.second (str "write_bytes") with
  | some readBytes, some writeBytes => some (readBytes, writeBytes)
  | _, _ => none

/-- What the code does with one lookup. -/
theorem lookup_cases (file : Option Str) (text : Str) :
    ((findFromFile file { text := text } []).2 = [] ∧ lookup file text = none) ∨
      ((findFromFile file { text := text } []).2 ≠ [] ∧
        ((∃ e, stoull (findFromFile file { text := text } []).2 = .error e ∧
            lookup file text = none) ∨
          ∃ v, stoull (findFromFile file { text := text } []).2 = .ok v ∧
            lookup file text = some v)) := by
  rw [findFromFile_word, lookup]
  cases firstWord file { text := text } with
  | none => exact .inl ⟨rfl, rfl⟩
  | some word =>
    simp only [Option.getD_some]
    by_cases hword : word = []
    · exact .inl ⟨hword, if_pos hword⟩
    · refine .inr ⟨hword, ?_⟩
      rw [if_neg hword]
      cases stoull word with
      | error e => exact .inl ⟨e, rfl, rfl⟩
      | ok v => exact .inr ⟨v, rfl, rfl⟩

theorem getDiskIo_some {files : Files} {readBytes writeBytes : UInt64}
    (h : reading files = some (readBytes, writeBytes)) (st : DiskBaseline) :
    getDiskIo files st =
      (.ok (readBytes - st.oldReadBytes, writeBytes - st.oldWriteBytes), ⟨readBytes, writeBytes⟩) := by
  unfold reading at h
  unfold getDiskIo
  rcases lookup_cases files.first (str "read_bytes") with ⟨-, h₁⟩ | ⟨hne₁, ⟨e, -, h₁⟩ | ⟨r, hr, h₁⟩⟩
  · simp [h₁] at h
  · simp [h₁] at h
  · rcases lookup_cases files.second (str "write_bytes") with
      ⟨-, h₂⟩ | ⟨hne₂, ⟨e, -, h₂⟩ | ⟨w, hw, h₂⟩⟩
    · simp [h₁, h₂] at h
    · simp [h₁, h₂] at h
    · simp only [h₁, h₂, Option.some.injEq, Prod.mk.injEq] at h
      simp [hne₁, hr, hne₂, hw, h.1, h.2]

/-- A call that does not obtain both values returns (0, 0) or throws, and leaves
the baselines. -/
theorem getDiskIo_none {files : Files} (h : reading files = none) (st : DiskBaseline) :
    ((getDiskIo files st).1 = .ok (0, 0) ∨ ∃ e, (getDiskIo files st).1 = .error e) ∧
      (getDiskIo files st).2 = st := by
  unfold reading at h
  unfold getDiskIo
  rcases lookup_cases files.first (str "read_bytes") with ⟨he₁, -⟩ | ⟨hne₁, ⟨e, hr, -⟩ | ⟨r, hr, h₁⟩⟩
  · simp [he₁]
  · simp [hne₁, hr]
  · rcases lookup_cases files.second (str "write_bytes") with
      ⟨he₂, -⟩ | ⟨hne₂, ⟨e, hw, -⟩ | ⟨w, hw, h₂⟩⟩
    · simp [hne₁, hr, he₂]
    · simp [hne₁, hr, hne₂, hw]
    · simp [h₁, h₂] at h

/-! ### Runs -/

/-- The baselines after calls with these files. -/
def baselinesAfter (calls : List Files) (st : DiskBaseline) : DiskBaseline :=
  calls.foldl (fun st files => (getDiskIo files st).2) st

/-- What the calls return or throw. -/
def results : List Files → DiskBaseline → List (Except StdException (UInt64 × UInt64))
  | [], _ => []
  | files :: calls, st => (getDiskIo files st).1 :: results calls (getDiskIo files st).2

/-- The deltas that were returned. -/
def deltas (calls : List Files) (st : DiskBaseline) : List (UInt64 × UInt64) :=
  (results calls st).filterMap Except.toOption

/-- The latest reading of the calls that obtained both values. -/
def latest (calls : List Files) : Option (UInt64 × UInt64) := (calls.filterMap reading).getLast?

theorem deltas_cons (files : Files) (calls : List Files) (st : DiskBaseline) :
    deltas (files :: calls) st =
      (getDiskIo files st).1.toOption.toList ++ deltas calls (getDiskIo files st).2 := by
  unfold deltas
  rw [results, List.filterMap_cons]
  cases (getDiskIo files st).1 <;> rfl

/-- The baselines are the latest reading. -/
theorem baselinesAfter_latest (calls : List Files) (st : DiskBaseline) :
    baselinesAfter calls st =
      match latest calls with
      | some (readBytes, writeBytes) => ⟨readBytes, writeBytes⟩
      | none => st := by
  induction calls using List.reverseRecOn with
  | nil => rfl
  | append_singleton calls files ih =>
    have hstep : baselinesAfter (calls ++ [files]) st = (getDiskIo files (baselinesAfter calls st)).2 := by
      simp [baselinesAfter]
    have hlatest : latest (calls ++ [files]) = (reading files).or (latest calls) := by
      unfold latest
      cases hr : reading files <;> simp [List.filterMap_append, hr]
    rw [hstep, hlatest]
    cases hr : reading files with
    | none => rw [(getDiskIo_none hr _).2, ih, Option.none_or]
    | some r => rw [getDiskIo_some hr, Option.some_or]

theorem add_delta (a r s : UInt64) : a + (r - a + s) = r + s := by
  calc a + (r - a + s) = r - a + a + s := by ac_rfl
    _ = r + s := by rw [UInt64.sub_add_cancel]

/-- What the baselines were and the deltas add up to what the baselines are. -/
theorem sum_deltas (calls : List Files) (st : DiskBaseline) :
    st.oldReadBytes + ((deltas calls st).map Prod.fst).sum = (baselinesAfter calls st).oldReadBytes ∧
      st.oldWriteBytes + ((deltas calls st).map Prod.snd).sum = (baselinesAfter calls st).oldWriteBytes := by
  induction calls generalizing st with
  | nil => simp [deltas, results, baselinesAfter]
  | cons files calls ih =>
    have hrun : baselinesAfter (files :: calls) st = baselinesAfter calls (getDiskIo files st).2 := rfl
    obtain ⟨hread, hwrite⟩ := ih (getDiskIo files st).2
    rw [deltas_cons, hrun, ← hread, ← hwrite, List.map_append, List.map_append, List.sum_append,
      List.sum_append]
    cases hr : reading files with
    | none =>
      obtain ⟨hresult, hst⟩ := getDiskIo_none hr st
      rw [hst]
      rcases hresult with h0 | ⟨e, he⟩
      · simp [h0, Except.toOption]
      · simp [he, Except.toOption]
    | some r =>
      rw [getDiskIo_some hr]
      simp [Except.toOption, add_delta]

/-- **Nothing is lost.** A call that does not obtain both values changes nothing,
and the deltas of a run add up to its latest reading. -/
theorem diskIO_conserved (calls : List Files) :
    (∀ files st, reading files = none →
      ((getDiskIo files st).1 = .ok (0, 0) ∨ ∃ e, (getDiskIo files st).1 = .error e) ∧
        (getDiskIo files st).2 = st) ∧
      ((deltas calls {}).map Prod.fst).sum = ((latest calls).map Prod.fst).getD 0 ∧
      ((deltas calls {}).map Prod.snd).sum = ((latest calls).map Prod.snd).getD 0 := by
  refine ⟨fun files st h => getDiskIo_none h st, ?_⟩
  obtain ⟨hread, hwrite⟩ := sum_deltas calls {}
  have hlatest := baselinesAfter_latest calls {}
  rw [hlatest] at hread hwrite
  cases hl : latest calls with
  | none => simpa [hl] using And.intro hread hwrite
  | some r => simpa [hl] using And.intro hread hwrite

theorem diskIO_conserved_two :
    ((getDiskIo ⟨none, none⟩ ⟨40, 7⟩).1 = .ok (0, 0) ∨
        ∃ e, (getDiskIo ⟨none, none⟩ ⟨40, 7⟩).1 = .error e) ∧
      (getDiskIo ⟨none, none⟩ ⟨40, 7⟩).2 = ⟨40, 7⟩ ∧
      ((deltas [⟨some (str "read_bytes: 40"), some (str "write_bytes: 7")⟩, ⟨none, none⟩] {}).map
        Prod.fst).sum = 40 := by
  obtain ⟨hnone, hread, -⟩ := diskIO_conserved
    [⟨some (str "read_bytes: 40"), some (str "write_bytes: 7")⟩, ⟨none, none⟩]
  obtain ⟨hresult, hst⟩ := hnone ⟨none, none⟩ ⟨40, 7⟩ rfl
  refine ⟨hresult, hst, hread.trans ?_⟩
  decide +kernel

/-- The second call throws, the third finds no `write_bytes`. -/
example : results
    [⟨some (str "read_bytes: 40\n"), some (str "write_bytes: 7\n")⟩,
      ⟨some (str "read_bytes: many\n"), none⟩,
      ⟨some (str "read_bytes: 50\n"), some (str "rchar: 1\n")⟩,
      ⟨some (str "read_bytes: 60\n"), some (str "write_bytes: 9\n")⟩] {} =
    [.ok (40, 7), .error .invalidArgument, .ok (0, 0), .ok (20, 2)] := by decide +kernel

end ProcessMetrics
end RepoInit
