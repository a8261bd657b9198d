/-
# Writing JSON texts

A writer for JSON values without white space. In a string the quote, the
backslash and the bytes below 0x20 are escaped and all other bytes are copied,
so every string of bytes is read back as it was (`literal_escaped`), and so is an
object of strings and digits (`decode_encode_object`).

Key definitions: `Json.escapeByte`, `Json.encode`, `Json.strings`, `Json.ReadBack`.
Key theorems: `Json.literal_escaped`, `Json.decode_encode_object`.
-/
import RepoInit.Lib.Json

namespace Json

/-! ### The writer -/

def hexDigit (n : ℕ) : UInt8 := if n < 10 then UInt8.ofNat (0x30 + n) else UInt8.ofNat (0x41 + n - 10)

/-- The letter behind the backslash of a short escape. -/
def shortEscape (c : UInt8) : Option UInt8 :=
  List.lookup c [(quote, quote), (backslash, backslash), (0x08, 0x62), (0x0C, 0x66), (0x0A, 0x6E),
    (0x0D, 0x72), (0x09, 0x74)]

def escapeByte (c : UInt8) : Text :=
  match shortEscape c with
  | some letter => [backslash, letter]
  | none =>
    if c < 0x20 then
      [backslash, 0x75, 0x30, 0x30, hexDigit (c.toNat / 16), hexDigit (c.toNat % 16)]
    else [c]

def escaped (text : Text) : Text := text.flatMap escapeByte

def literal (text : Text) : Text := quote :: escaped text ++ [quote]

mutual

def encode : Value → Text
  | .null => [0x6E, 0x75, 0x6C, 0x6C]
  | .bool true => [0x74, 0x72, 0x75, 0x65]
  | .bool false => [0x66, 0x61, 0x6C, 0x73, 0x65]
  | .number text => text
  | .string text => literal text
  | .array vs => openBracket :: encodeElements vs
  | .object ms => openBrace :: encodeMembers ms

/-- Elements and the closing bracket. -/
def encodeElements : List Value → Text
  | [] => [closeBracket]
  | [v] => encode v ++ [closeBracket]
  | v :: vs => encode v ++ comma :: encodeElements vs

/-- Members and the closing brace. -/
def encodeMembers : List (Text × Value) → Text
  | [] => [closeBrace]
  | [(k, v)] => literal k ++ colon :: (encode v ++ [closeBrace])
  | (k, v) :: ms => literal k ++ colon :: (encode v ++ comma :: encodeMembers ms)

end

/-- An object of strings. -/
def strings (ms : List (Text × Text)) : Value := .object (ms.map fun m => (m.1, .string m.2))

/-! ### Reading strings back -/

theorem hexVal_hexDigit : ∀ n < 16, hexVal (hexDigit n) = some n := by decide +kernel

theorem simpleEscape_shortEscape {c letter : UInt8} (h : shortEscape c = some letter) :
    letter ≠ 0x75 ∧ simpleEscape letter = some c := by
  have hall : ∀ n < 256, (shortEscape (UInt8.ofNat n)).all fun letter =>
      letter ≠ 0x75 ∧ simpleEscape letter = some (UInt8.ofNat n) := by decide +kernel
  have hc := hall c.toNat c.toNat_lt
  rw [UInt8.ofNat_toNat, h] at hc
  simpa using hc

/-- What needs no escape. -/
theorem shortEscape_none {c : UInt8} (h : shortEscape c = none) : c ≠ quote ∧ c ≠ backslash := by
  constructor <;>
  · rintro rfl
    revert h
    decide

theorem hex4_low {c : UInt8} (h : c < 0x20) (t : Text) :
    hex4 (0x30 :: 0x30 :: hexDigit (c.toNat / 16) :: hexDigit (c.toNat % 16) :: t) =
      some (c.toNat, t) := by
  have hlt : c.toNat < 32 := UInt8.lt_iff_toNat_lt.mp h
  have hzero : hexVal 0x30 = some 0 := by decide
  have hhigh := hexVal_hexDigit (c.toNat / 16) (by omega)
  have hlow := hexVal_hexDigit (c.toNat % 16) (by omega)
  unfold hex4
  dsimp only
  rw [hzero, hhigh, hlow]
  simp only [Option.some.injEq, Prod.mk.injEq, and_true]
  omega

theorem unicodeEscape_low {c : UInt8} (h : c < 0x20) (t : Text) :
    unicodeEscape (0x30 :: 0x30 :: hexDigit (c.toNat / 16) :: hexDigit (c.toNat % 16) :: t) =
      some ([c], t) := by
  have hlt : c.toNat < 32 := UInt8.lt_iff_toNat_lt.mp h
  have hascii : utf8 c.toNat = [c] := utf8_ascii (UInt8.lt_iff_toNat_lt.mpr (by
    show c.toNat < 128
    omega))
  unfold unicodeEscape
  rw [hex4_low h]
  dsimp only
  rw [if_neg (by omega), if_neg (by omega), hascii]

/-- An escaped byte is read as itself. -/
theorem stringBody_escapeByte (c : UInt8) (t : Text) :
    stringBody (escapeByte c ++ t) = (stringBody t).map fun p => (c :: p.1, p.2) := by
  unfold escapeByte
  cases hshort : shortEscape c with
  | some letter =>
    obtain ⟨hu, hletter⟩ := simpleEscape_shortEscape hshort
    have hescape : escape (letter :: t) = some ([c], t) := by
      rw [escape, if_neg hu, hletter]
      rfl
    show stringBody (backslash :: letter :: t) = _
    rw [stringBody_backslash, hescape]
    rfl
  | none =>
    obtain ⟨hq, hb⟩ := shortEscape_none hshort
    by_cases hlow : c < 0x20
    · simp only [if_pos hlow]
      have hescape : escape (0x75 :: 0x30 :: 0x30 :: hexDigit (c.toNat / 16) ::
          hexDigit (c.toNat % 16) :: t) = some ([c], t) := by
        rw [escape, if_pos rfl]
        exact unicodeEscape_low hlow t
      show stringBody (backslash :: 0x75 :: 0x30 :: 0x30 :: hexDigit (c.toNat / 16) ::
        hexDigit (c.toNat % 16) :: t) = _
      rw [stringBody_backslash, hescape]
      rfl
    · simp only [if_neg hlow]
      rw [List.singleton_append, stringBody_cons _ hq hb, if_neg hlow]

/-- **Every string of bytes is read back.** -/
theorem literal_escaped (text : Text) : Literal (escaped text) text := by
  intro t
  induction text with
  | nil => exact stringBody_quote t
  | cons c text ih =>
    have hcons : escaped (c :: text) ++ quote :: t = escapeByte c ++ (escaped text ++ quote :: t) := by
      simp [escaped]
    rw [hcons, stringBody_escapeByte, ih]
    rfl

/-- A plain text is written as it is. -/
theorem escaped_plain {text : Text} (h : Plain text) : escaped text = text := by
  induction text with
  | nil => rfl
  | cons c text ih =>
    obtain ⟨hq, hb, hlow⟩ := h c List.mem_cons_self
    have hshort : shortEscape c = none := by
      cases hs : shortEscape c with
      | none => rfl
      | some letter =>
        -- the other short escapes are of bytes below 0x20
        have hall : ∀ n < 256, (shortEscape (UInt8.ofNat n)).isSome →
            UInt8.ofNat n = quote ∨ UInt8.ofNat n = backslash ∨ UInt8.ofNat n < 0x20 := by
          decide +kernel
        have hc := hall c.toNat c.toNat_lt
        rw [UInt8.ofNat_toNat, hs] at hc
        rcases hc rfl with h | h | h
        · exact absurd h hq
        · exact absurd h hb
        · exact absurd h hlow
    have hbyte : escapeByte c = [c] := by
      unfold escapeByte
      rw [hshort]
      exact if_neg hlow
    rw [escaped, List.flatMap_cons, hbyte]
    exact congrArg (c :: ·) (ih fun c' hc' => h c' (List.mem_cons_of_mem _ hc'))

/-! ### Objects -/

/-- The value is read back in front of what can follow a member. -/
def ReadBack (v : Value) : Prop :=
  ∀ n ts, ts.head? = some comma ∨ ts.head? = some closeBrace →
    Reads (value (n + 1)) (encode v) v ts True

theorem readBack_string (text : Text) : ReadBack (.string text) := fun n ts _ => by
  rw [encode]
  exact reads_string n (literal_escaped text) ts

theorem readBack_digit {d : UInt8} (hd : isDigit d = true) : ReadBack (.number [d]) := by
  intro n ts hts r
  obtain ⟨c, ts, rfl⟩ : ∃ c ts', ts = c :: ts' := by
    cases ts with
    | nil => simp at hts
    | cons c ts => exact ⟨c, ts, rfl⟩
  have hc : isNumberByte c = false := by
    rcases hts with h | h <;>
    · obtain rfl := Option.some.inj h
      decide
  have hall : ∀ k < 256, isDigit (UInt8.ofNat k) = true →
      isWs (UInt8.ofNat k) = false ∧ UInt8.ofNat k ≠ quote ∧ UInt8.ofNat k ≠ openBracket ∧
        UInt8.ofNat k ≠ openBrace ∧ isNumberByte (UInt8.ofNat k) = true ∧
        isNumber [UInt8.ofNat k] = true ∧ UInt8.ofNat k ≠ 0x74 ∧ UInt8.ofNat k ≠ 0x66 ∧
        UInt8.ofNat k ≠ 0x6E := by decide +kernel
  have hd' := hall d.toNat d.toNat_lt
  rw [UInt8.ofNat_toNat] at hd'
  obtain ⟨hws, hq, hb, ho, hnb, hnum, ht, hf, hn⟩ := hd' hd
  have hword : ∀ (a : UInt8) (w : Text) (v : Value), d ≠ a →
      word (a :: w) v (d :: c :: ts) = none := fun a w v hne => by
    rw [word, if_neg]
    rw [List.cons_prefix_cons]
    exact fun h => hne h.1.symm
  have hscalar : scalar (d :: c :: ts) = some (.number [d], c :: ts) := by
    rw [scalar, hword _ _ _ ht, hword _ _ _ hf, hword _ _ _ hn]
    simp [number, hnb, hc, hnum]
  rw [encode, List.singleton_append, value, skipWs_cons hws]
  simp only [if_neg hq, if_neg hb, if_neg ho, hscalar]
  simp [eq_comm]

/-- One member or more. -/
theorem reads_encodeMembers (rest : Text) : ∀ (ms : List (Text × Value)) (n : ℕ), ms ≠ [] →
    (∀ m ∈ ms, ReadBack m.2) → ms.length + 1 ≤ n →
    Reads (members n) (encodeMembers ms) ms rest True
  | [], _, h, _, _ => absurd rfl h
  | [(k, v)], n, _, hread, hn => by
    obtain ⟨n, rfl⟩ : ∃ m, n = m + 2 := ⟨n - 2, by simp at hn; omega⟩
    have hlast := reads_members (literal_escaped k)
      (hread (k, v) List.mem_cons_self n ([closeBrace] ++ rest) (.inr rfl))
      (reads_more_close (by decide) (by decide) rest)
    simpa [encodeMembers, literal] using hlast
  | (k, v) :: m :: ms, n, _, hread, hn => by
    obtain ⟨n, rfl⟩ : ∃ m, n = m + 2 := ⟨n - 2, by simp at hn; omega⟩
    have hmore := reads_encodeMembers rest (m :: ms) (n + 1) (by simp)
      (fun m' hm' => hread m' (List.mem_cons_of_mem _ hm')) (by simpa using hn)
    have hall := reads_members (literal_escaped k)
      (hread (k, v) List.mem_cons_self n _ (.inl rfl))
      (reads_more_comma closeBrace (k, v) hmore)
    simpa [encodeMembers, literal] using hall

theorem reads_object_nil (n : ℕ) (rest : Text) :
    Reads (value (n + 1)) [openBrace, closeBrace] (.object []) rest True := by
  intro r
  have hempty : value (n + 1) ([openBrace, closeBrace] ++ rest) = some (.object [], rest) := by
    rw [List.cons_append, List.singleton_append, value, skipWs_cons (by decide)]
    show bracketed closeBrace .object (members n) (closeBrace :: rest) = _
    rw [bracketed, skipWs_cons (by decide)]
    rfl
  rw [hempty]
  simp [eq_comm]

/-- **An object of strings and digits is read back.** -/
theorem decode_encode_object {ms : List (Text × Value)} (hread : ∀ m ∈ ms, ReadBack m.2) :
    decode (encode (.object ms)) = some (.object ms) := by
  by_cases hne : ms = []
  · subst hne
    exact (decode_iff (n := 2) (by decide) (reads_object_nil 1 [])).mpr trivial
  · have hmembers := reads_encodeMembers [] ms
      ((encode (.object ms)).length + ms.length + 1) hne hread (by omega)
    have hhead : (encodeMembers ms).head? = some quote := by
      rcases ms with _ | ⟨⟨k, v⟩, _ | ⟨m, ms⟩⟩
      · exact absurd rfl hne
      · simp [encodeMembers, literal]
      · simp [encodeMembers, literal]
    have hobject : encode (.object ms) = openBrace :: encodeMembers ms := by rw [encode]
    rw [hobject] at hmembers ⊢
    exact (decode_iff (by omega) (reads_object hhead hmembers)).mpr trivial

theorem decode_encode_strings (ms : List (Text × Text)) :
    decode (encode (strings ms)) = some (strings ms) := by
  apply decode_encode_object
  intro m hm
  obtain ⟨⟨k, text⟩, -, rfl⟩ := List.mem_map.mp hm
  exact readBack_string text

end Json
