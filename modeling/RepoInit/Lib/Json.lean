/-
# JSON texts

A decoder for JSON texts of UTF-8 bytes, with white space, escapes and numbers
as the grammar has them. Objects keep their members in order, and a number its
text. The fuel of `value` is spent one for each value, element and member, so
that of `decode` is never short (`decode_eq_some_iff`).

`Reads f t v rest ok` says when `f` reads `v` off `t` and stops in front of
`rest`. Texts that are put together from pieces are read piece by piece. What
stands between two quotes is read as itself exactly if it is plain
(`stringBody_iff`), as long as no backslash comes before the next quote
(`Safe`).

Key definitions: `Json.stringBody`, `Json.value`, `Json.decode`, `Json.Plain`,
`Json.Safe`, `Json.Reads`.
Key theorems: `Json.stringBody_iff`, `Json.reads_array_join`,
`Json.decode_eq_some_iff`, `Json.decode_iff`.
-/
import Mathlib.Data.List.Basic
import Mathlib.Tactic.Common

namespace Json

abbrev Text := List UInt8

inductive Value where
  | null
  | bool (b : Bool)
  | number (text : Text)
  | string (text : Text)
  | array (elements : List Value)
  | object (members : List (Text × Value))

def quote : UInt8 := 0x22
def backslash : UInt8 := 0x5C
def comma : UInt8 := 0x2C
def colon : UInt8 := 0x3A
def openBracket : UInt8 := 0x5B
def closeBracket : UInt8 := 0x5D
def openBrace : UInt8 := 0x7B
def closeBrace : UInt8 := 0x7D

def isWs (c : UInt8) : Bool := c = 0x20 || c = 0x09 || c = 0x0A || c = 0x0D

def skipWs (s : Text) : Text := s.dropWhile isWs

/-! ### Strings -/

def hexVal (c : UInt8) : Option ℕ :=
  if 0x30 ≤ c ∧ c ≤ 0x39 then some (c.toNat - 0x30)
  else if 0x41 ≤ c ∧ c ≤ 0x46 then some (c.toNat - 0x41 + 10)
  else if 0x61 ≤ c ∧ c ≤ 0x66 then some (c.toNat - 0x61 + 10)
  else none

def hex4 : Text → Option (ℕ × Text)
  | a :: b :: c :: d :: s =>
    match hexVal a, hexVal b, hexVal c, hexVal d with
    | some a, some b, some c, some d => some (((a * 16 + b) * 16 + c) * 16 + d, s)
    | _, _, _, _ => none
  | _ => none

def utf8 (n : ℕ) : Text := String.utf8EncodeChar (Char.ofNat n)

/-- The second half of a surrogate pair. -/
def lowSurrogate : Text → Option (ℕ × Text)
  | b :: u :: s =>
    if b = backslash ∧ u = 0x75 then
      match hex4 s with
      | some (l, s) => if 0xDC00 ≤ l ∧ l < 0xE000 then some (l, s) else none
      | none => none
    else none
  | _ => none

/-- What follows the `u` of an escape. Half a surrogate pair is no character. -/
def unicodeEscape (s : Text) : Option (Text × Text) :=
  match hex4 s with
  | none => none
  | some (h, s) =>
    if 0xD800 ≤ h ∧ h < 0xDC00 then
      (lowSurrogate s).map fun (l, s) => (utf8 (0x10000 + (h - 0xD800) * 0x400 + (l - 0xDC00)), s)
    else if 0xDC00 ≤ h ∧ h < 0xE000 then none
    else some (utf8 h, s)

/-- The escapes of one letter. -/
def simpleEscape (c : UInt8) : Option UInt8 :=
  List.lookup c [(0x22, 0x22), (0x5C, 0x5C), (0x2F, 0x2F), (0x62, 0x08), (0x66, 0x0C), (0x6E, 0x0A),
    (0x72, 0x0D), (0x74, 0x09)]

/-- What follows a backslash: the bytes it stands for, and the rest. -/
def escape : Text → Option (Text × Text)
  | [] => none
  | c :: s => if c = 0x75 then unicodeEscape s else (simpleEscape c).map fun e => ([e], s)

theorem hex4_length {s r : Text} {n : ℕ} (h : hex4 s = some (n, r)) : r.length + 4 = s.length := by
  unfold hex4 at h
  split at h
  · split at h
    · obtain ⟨-, rfl⟩ : _ ∧ _ = r := by simpa using h
      simp
    · simp at h
  · simp at h

theorem lowSurrogate_length {s r : Text} {n : ℕ} (h : lowSurrogate s = some (n, r)) :
    r.length + 6 = s.length := by
  unfold lowSurrogate at h
  split at h
  · rename_i b u s
    split_ifs at h
    cases hx : hex4 s with
    | none => simp [hx] at h
    | some p =>
      obtain ⟨l, s'⟩ := p
      have hlen := hex4_length hx
      simp only [hx] at h
      split_ifs at h
      obtain ⟨-, rfl⟩ : _ ∧ s' = r := by simpa using h
      simp only [List.length_cons]
      omega
  · simp at h

theorem length_utf8 (n : ℕ) : (utf8 n).length ≤ 4 := by
  rw [utf8, String.length_utf8EncodeChar]
  exact Char.utf8Size_le_four _

/-- An escape stands for no more bytes than it is long. -/
theorem escape_length {s e r : Text} (h : escape s = some (e, r)) :
    e.length + r.length ≤ s.length ∧ r.length < s.length := by
  cases s with
  | nil => simp [escape] at h
  | cons c s =>
    rw [escape] at h
    split_ifs at h with hu
    · unfold unicodeEscape at h
      cases hx : hex4 s with
      | none => simp [hx] at h
      | some p =>
        obtain ⟨n, s'⟩ := p
        have hlen := hex4_length hx
        simp only [hx] at h
        split_ifs at h
        · obtain ⟨⟨l, s''⟩, hl, hp⟩ := Option.map_eq_some_iff.mp h
          obtain ⟨rfl, rfl⟩ := Prod.mk.inj hp
          have hlow := lowSurrogate_length hl
          have hsize := length_utf8 (0x10000 + (n - 0xD800) * 0x400 + (l - 0xDC00))
          simp only [List.length_cons]
          omega
        · obtain ⟨rfl, rfl⟩ : utf8 n = e ∧ s' = r := by simpa using h
          have hsize := length_utf8 n
          simp only [List.length_cons]
          omega
    · obtain ⟨b, -, hp⟩ := Option.map_eq_some_iff.mp h
      obtain ⟨rfl, rfl⟩ := Prod.mk.inj hp
      simp only [List.length_cons, List.length_nil]
      omega

/-- What stands in front of the closing quote, and the rest behind it. -/
def stringBody (s : Text) : Option (Text × Text) :=
  match s with
  | [] => none
  | c :: s =>
    if c = quote then some ([], s)
    else if c = backslash then
      match _h : escape s with
      | none => none
      | some (e, r) => (stringBody r).map fun p => (e ++ p.1, p.2)
    else if c < 0x20 then none
    else (stringBody s).map fun p => (c :: p.1, p.2)
termination_by s.length
decreasing_by
  · have := (escape_length _h).2
    simp only [List.length_cons]
    omega
  · simp

/-! ### Numbers and words -/

def isDigit (c : UInt8) : Bool := 0x30 ≤ c && c ≤ 0x39

/-- One digit or more are dropped. -/
def dropDigits (s : Text) : Option Text :=
  if s.head?.any isDigit then some (s.dropWhile isDigit) else none

def dropIf (p : UInt8 → Bool) (s : Text) : Text := if s.head?.any p then s.tail else s

/-- The grammar of a number: a sign, an integer without leading zero, a
fraction and an exponent. -/
def isNumber (s : Text) : Bool :=
  let s := dropIf (· = 0x2D) s
  let s := if s.head? = some 0x30 then some s.tail else dropDigits s
  let s := s.bind fun s => if s.head? = some 0x2E then dropDigits s.tail else some s
  let s := s.bind fun s =>
    if s.head? = some 0x65 ∨ s.head? = some 0x45 then
      dropDigits (dropIf (fun c => c = 0x2B || c = 0x2D) s.tail)
    else some s
  s = some []

def isNumberByte (c : UInt8) : Bool :=
  isDigit c || c = 0x2B || c = 0x2D || c = 0x2E || c = 0x45 || c = 0x65

def word (w : Text) (v : Value) (s : Text) : Option (Value × Text) :=
  if w <+: s then some (v, s.drop w.length) else none

def number (s : Text) : Option (Value × Text) :=
  if isNumber (s.takeWhile isNumberByte) then
    some (.number (s.takeWhile isNumberByte), s.dropWhile isNumberByte)
  else none

/-- `true`, `false`, `null` or a number. -/
def scalar (s : Text) : Option (Value × Text) :=
  (word [0x74, 0x72, 0x75, 0x65] (.bool true) s).or <|
    (word [0x66, 0x61, 0x6C, 0x73, 0x65] (.bool false) s).or <|
      (word [0x6E, 0x75, 0x6C, 0x6C] .null s).or (number s)

/-! ### Values -/

/-- A key and the colon behind it. -/
def key (s : Text) : Option (Text × Text) :=
  match skipWs s with
  | [] => none
  | c :: s =>
    if c = quote then
      (stringBody s).bind fun p =>
        if (skipWs p.2).head? = some colon then some (p.1, (skipWs p.2).tail) else none
    else none

/-- What follows an item of a list: more items behind a comma, or the close. -/
def more {α : Type} (close : UInt8) (items : Text → Option (List α × Text)) (item : α) (s : Text) :
    Option (List α × Text) :=
  match skipWs s with
  | [] => none
  | c :: s =>
    if c = comma then (items s).map fun p => (item :: p.1, p.2)
    else if c = close then some ([item], s)
    else none

/-- A list behind its opening bracket, which may be empty. -/
def bracketed {α : Type} (close : UInt8) (wrap : List α → Value)
    (items : Text → Option (List α × Text)) (s : Text) : Option (Value × Text) :=
  if (skipWs s).head? = some close then some (wrap [], (skipWs s).tail)
  else (items s).map fun p => (wrap p.1, p.2)

mutual

/-- The value a text begins with, and the rest. -/
def value : ℕ → Text → Option (Value × Text)
  | 0, _ => none
  | n + 1, s =>
    match skipWs s with
    | [] => none
    | c :: s =>
      if c = quote then (stringBody s).map fun p => (.string p.1, p.2)
      else if c = openBracket then bracketed closeBracket .array (elements n) s
      else if c = openBrace then bracketed closeBrace .object (members n) s
      else scalar (c :: s)

/-- One element or more, up to the closing bracket. -/
def elements : ℕ → Text → Option (List Value × Text)
  | 0, _ => none
  | n + 1, s => (value n s).bind fun p => more closeBracket (elements n) p.1 p.2

/-- One member or more, up to the closing brace. -/
def members : ℕ → Text → Option (List (Text × Value) × Text)
  | 0, _ => none
  | n + 1, s =>
    (key s).bind fun k => (value n k.2).bind fun p => more closeBrace (members n) (k.1, p.1) p.2

end

/-- The value of a text. -/
def decode (s : Text) : Option Value :=
  match value (s.length + 1) s with
  | none => none
  | some (v, rest) => if skipWs rest = [] then some v else none

/-! ### Reading plain strings -/

/-- No byte of the text needs an escape. -/
def Plain (text : Text) : Prop := ∀ c ∈ text, c ≠ quote ∧ c ≠ backslash ∧ ¬ c < 0x20

instance : DecidablePred Plain := fun _ => inferInstanceAs (Decidable (∀ _ ∈ _, _))

/-- No backslash comes before the next quote. -/
def Safe (text : Text) : Prop := backslash ∉ text.takeWhile (· ≠ quote)

theorem safe_nil : Safe [] := by simp [Safe]

theorem safe_quote (s : Text) : Safe (quote :: s) := by simp [Safe]

theorem Safe.cons {c : UInt8} {s : Text} (hs : Safe s) (hc : c ≠ backslash) : Safe (c :: s) := by
  unfold Safe at hs ⊢
  rw [List.takeWhile_cons]
  split
  · exact List.not_mem_cons_of_ne_of_not_mem hc.symm hs
  · simp

section StringBody

variable (c : UInt8) (s : Text)

theorem stringBody_quote : stringBody (quote :: s) = some ([], s) := by
  rw [stringBody, if_pos rfl]

theorem stringBody_backslash : stringBody (backslash :: s) =
    (escape s).bind fun p => (stringBody p.2).map fun q => (p.1 ++ q.1, q.2) := by
  rw [stringBody, if_neg (by decide), if_pos rfl]
  cases escape s <;> rfl

theorem stringBody_cons {c : UInt8} (hq : c ≠ quote) (hb : c ≠ backslash) : stringBody (c :: s) =
    if c < 0x20 then none else (stringBody s).map fun p => (c :: p.1, p.2) := by
  rw [stringBody, if_neg hq, if_neg hb]

end StringBody

/-- A plain text stands for itself. -/
theorem stringBody_plain {p : Text} (hp : Plain p) (t : Text) :
    stringBody (p ++ quote :: t) = some (p, t) := by
  induction p with
  | nil => exact stringBody_quote t
  | cons c p ih =>
    obtain ⟨hq, hb, hlow⟩ := hp c List.mem_cons_self
    rw [List.cons_append, stringBody_cons _ hq hb, if_neg hlow,
      ih fun c' hc' => hp c' (List.mem_cons_of_mem _ hc')]
    rfl

/-- Up to the next quote of a safe text no backslash is read. -/
theorem Safe.stringBody {t x r : Text} (ht : Safe t) (h : stringBody t = some (x, r)) :
    backslash ∉ x := by
  induction t generalizing x with
  | nil => simp [Json.stringBody] at h
  | cons c t ih =>
    by_cases hq : c = quote
    · rw [hq, stringBody_quote] at h
      obtain ⟨rfl, -⟩ : [] = x ∧ _ := by simpa using h
      simp
    · have hmem : backslash ∉ c :: t.takeWhile (· ≠ quote) := by
        unfold Safe at ht
        rwa [List.takeWhile_cons, if_pos (by simpa using hq)] at ht
      obtain ⟨hb, ht⟩ := not_or.mp (List.mem_cons.not.mp hmem)
      rw [stringBody_cons _ hq (Ne.symm hb)] at h
      split_ifs at h
      obtain ⟨⟨x', r'⟩, hx, hp⟩ := Option.map_eq_some_iff.mp h
      obtain ⟨rfl, rfl⟩ := Prod.mk.inj hp
      exact List.not_mem_cons_of_ne_of_not_mem hb (ih ht hx)

/-! ### What is read off any string

The text `q` is followed by a quote. An escape that does not begin right in
front of it ends before it. -/

theorem hex4_within {q t r : Text} {n : ℕ} (h : hex4 (q ++ quote :: t) = some (n, r)) :
    ∃ q', q' <:+ q ∧ r = q' ++ quote :: t := by
  have hquote : hexVal quote = none := by decide
  match q with
  | [] => unfold hex4 at h; split at h <;> simp_all
  | [a] => unfold hex4 at h; split at h <;> simp_all
  | [a, b] => unfold hex4 at h; split at h <;> simp_all
  | [a, b, c] => simp [hex4, hquote] at h
  | a :: b :: c :: d :: q =>
    simp only [List.cons_append, hex4] at h
    split at h
    · obtain ⟨-, rfl⟩ : _ ∧ _ = r := by simpa using h
      exact ⟨q, List.suffix_append [a, b, c, d] q, rfl⟩
    · simp at h

theorem lowSurrogate_within {q t r : Text} {n : ℕ}
    (h : lowSurrogate (q ++ quote :: t) = some (n, r)) : ∃ q', q' <:+ q ∧ r = q' ++ quote :: t := by
  match q with
  | [] =>
    cases t with
    | nil => simp [lowSurrogate] at h
    | cons u t => simp [lowSurrogate, show quote ≠ backslash by decide] at h
  | [b] => simp [lowSurrogate, show ¬ (quote = 0x75) by decide] at h
  | b :: u :: q =>
    simp only [List.cons_append, lowSurrogate] at h
    split_ifs at h
    cases hx : hex4 (q ++ quote :: t) with
    | none => simp [hx] at h
    | some p =>
      obtain ⟨l, s⟩ := p
      simp only [hx] at h
      split_ifs at h
      obtain ⟨-, rfl⟩ : _ ∧ s = r := by simpa using h
      obtain ⟨q', hq, hs⟩ := hex4_within hx
      exact ⟨q', hq.trans (List.suffix_append [b, u] q), hs⟩

theorem escape_quote (s : Text) : escape (quote :: s) = some ([quote], s) := by
  have hsimple : simpleEscape quote = some quote := by decide
  rw [escape, if_neg (by decide), hsimple]
  rfl

/-- An escape that begins before the quote ends before it. -/
theorem escape_within {c : UInt8} {q t e r : Text}
    (h : escape (c :: q ++ quote :: t) = some (e, r)) :
    ∃ q', q' <:+ q ∧ r = q' ++ quote :: t ∧ e.length + q'.length ≤ (c :: q).length := by
  have hlen := escape_length h
  suffices hr : ∃ q', q' <:+ q ∧ r = q' ++ quote :: t by
    obtain ⟨q', hq, rfl⟩ := hr
    simp only [List.length_append, List.length_cons] at hlen ⊢
    exact ⟨q', hq, rfl, by omega⟩
  rw [List.cons_append, escape] at h
  split_ifs at h
  · unfold unicodeEscape at h
    cases hx : hex4 (q ++ quote :: t) with
    | none => simp [hx] at h
    | some p =>
      obtain ⟨n, s⟩ := p
      obtain ⟨q', hq, rfl⟩ := hex4_within hx
      simp only [hx] at h
      split_ifs at h
      · obtain ⟨⟨l, s⟩, hl, hp⟩ := Option.map_eq_some_iff.mp h
        obtain ⟨-, rfl⟩ := Prod.mk.inj hp
        obtain ⟨q'', hq', hs⟩ := lowSurrogate_within hl
        exact ⟨q'', hq'.trans hq, hs⟩
      · obtain ⟨-, rfl⟩ : _ ∧ _ = r := by simpa using h
        exact ⟨q', hq, rfl⟩
  · obtain ⟨b, -, hp⟩ := Option.map_eq_some_iff.mp h
    obtain ⟨-, rfl⟩ := Prod.mk.inj hp
    exact ⟨q, List.suffix_rfl, rfl⟩

theorem getLast?_of_suffix {q p : Text} (h : q <:+ p) {c : UInt8} (hc : q.getLast? = some c) :
    p.getLast? = some c := by
  obtain ⟨front, rfl⟩ := h
  rw [List.getLast?_append, hc]
  rfl

/-- A text that goes on behind an escaped quote does not end in a backslash. -/
theorem Safe.getLast_ne {t x r : Text} (ht : Safe t) (h : Json.stringBody t = some (x, r)) :
    ∃ c, (quote :: x).getLast? = some c ∧ c ≠ backslash := by
  have hx := ht.stringBody h
  cases hl : (quote :: x).getLast? with
  | none => simp at hl
  | some c =>
    refine ⟨c, rfl, ?_⟩
    rintro rfl
    have hmem := List.mem_of_getLast? hl
    exact (List.mem_cons.mp hmem).elim (by decide) hx

/-- What is read off `p` is no longer than `p`, and as long only if `p` is
plain; unless the quote behind `p` was taken for an escaped one, and then what
was read does not end as `p` does. -/
theorem stringBody_within {p t x r : Text} (ht : Safe t)
    (h : stringBody (p ++ quote :: t) = some (x, r)) :
    (x.length ≤ p.length ∧ (x.length = p.length → Plain p ∧ r = t)) ∨
      (p.getLast? = some backslash ∧ ∃ c, x.getLast? = some c ∧ c ≠ backslash) := by
  induction hn : p.length using Nat.strongRecOn generalizing p x with
  | _ n ih =>
    subst hn
    cases p with
    | nil =>
      rw [List.nil_append, stringBody_quote] at h
      obtain ⟨rfl, rfl⟩ : [] = x ∧ t = r := by simpa using h
      exact Or.inl ⟨Nat.le_refl _, fun _ => ⟨by simp [Plain], rfl⟩⟩
    | cons c p =>
      rw [List.cons_append] at h
      by_cases hq : c = quote
      · rw [hq, stringBody_quote] at h
        obtain ⟨rfl, -⟩ : [] = x ∧ _ := by simpa using h
        exact Or.inl ⟨by simp, by simp⟩
      · by_cases hb : c = backslash
        · rw [hb, stringBody_backslash] at h
          obtain ⟨⟨e, s⟩, he, h⟩ := Option.bind_eq_some_iff.mp h
          obtain ⟨⟨x', r'⟩, hx, hp⟩ := Option.map_eq_some_iff.mp h
          obtain ⟨rfl, rfl⟩ := Prod.mk.inj hp
          cases p with
          | nil =>
            -- the quote behind `p` is escaped: the text goes on to the next
            rw [List.nil_append, escape_quote] at he
            obtain ⟨rfl, rfl⟩ : [quote] = e ∧ t = s := by simpa using he
            exact Or.inr ⟨by rw [hb]; rfl, ht.getLast_ne hx⟩
          | cons d p =>
            obtain ⟨q', hsuf, rfl, hle⟩ := escape_within he
            have hlt : q'.length < (c :: d :: p).length := by
              have := hsuf.length_le
              simp only [List.length_cons]
              omega
            rcases ih q'.length hlt hx rfl with ⟨hlen, -⟩ | ⟨hq', c', hx', hne⟩
            · left
              simp only [List.length_append, List.length_cons] at hle ⊢
              exact ⟨by omega, by omega⟩
            · right
              refine ⟨getLast?_of_suffix (hsuf.trans (List.suffix_append [c, d] p)) hq', c', ?_, hne⟩
              exact getLast?_of_suffix (List.suffix_append e x') hx'
        · rw [stringBody_cons _ hq hb] at h
          split_ifs at h with hlow
          obtain ⟨⟨x', r'⟩, hx, hp⟩ := Option.map_eq_some_iff.mp h
          obtain ⟨rfl, rfl⟩ := Prod.mk.inj hp
          rcases ih p.length (by simp) hx rfl with ⟨hlen, heq⟩ | ⟨hp', c', hx', hne⟩
          · left
            simp only [List.length_cons]
            refine ⟨by omega, fun he => ?_⟩
            obtain ⟨hplain, hr⟩ := heq (by omega)
            refine ⟨?_, hr⟩
            intro c' hc'
            rcases List.mem_cons.mp hc' with rfl | hc'
            · exact ⟨hq, hb, hlow⟩
            · exact hplain c' hc'
          · right
            exact ⟨getLast?_of_suffix (List.suffix_cons c p) hp', c',
              getLast?_of_suffix (List.suffix_cons c x') hx', hne⟩

/-- **A text between two quotes is read as itself exactly if it is plain.** -/
theorem stringBody_iff (p : Text) {t : Text} (ht : Safe t) (r : Text) :
    stringBody (p ++ quote :: t) = some (p, r) ↔ Plain p ∧ r = t := by
  constructor
  · intro h
    rcases stringBody_within ht h with ⟨-, heq⟩ | ⟨hp, c, hc, hne⟩
    · exact heq rfl
    · rw [hp] at hc
      exact absurd (Option.some.inj hc).symm hne
  · rintro ⟨hp, rfl⟩
    exact stringBody_plain hp _

/-! ### Reading pieces -/

section Reads

variable {α β : Type}

/-- In front of `rest`, `f` reads `v` off `t` and nothing more exactly if
`ok`. -/
def Reads (f : Text → Option (α × Text)) (t : Text) (v : α) (rest : Text) (ok : Prop) : Prop :=
  ∀ r, f (t ++ rest) = some (v, r) ↔ ok ∧ r = rest

/-- Between its quotes `raw` is a string literal for `text`. -/
def Literal (raw text : Text) : Prop := ∀ t, stringBody (raw ++ quote :: t) = some (text, t)

theorem Plain.literal {p : Text} (h : Plain p) : Literal p p := stringBody_plain h

/-- What does not begin with white space is not skipped. -/
theorem skipWs_cons {c : UInt8} (h : isWs c = false) (s : Text) : skipWs (c :: s) = c :: s := by
  rw [skipWs, List.dropWhile_cons, if_neg (by simp [h])]

variable {t ts rest : Text} {ok ok' : Prop}

/-- Two pieces, where the whole shows what the first was read as. -/
theorem Reads.bind {f : Text → Option (α × Text)} {g : α → Text → Option (β × Text)} {v : α} {w : β}
    (h : Reads f t v (ts ++ rest) ok) (h' : Reads (g v) ts w rest ok')
    (hv : ∀ v' s r, g v' s = some (w, r) → v' = v) :
    Reads (fun s => (f s).bind fun p => g p.1 p.2) (t ++ ts) w rest (ok ∧ ok') := by
  intro r
  rw [List.append_assoc]
  constructor
  · intro he
    obtain ⟨⟨v', s⟩, hf, hg⟩ := Option.bind_eq_some_iff.mp he
    obtain rfl : v' = v := hv _ _ _ hg
    obtain ⟨hok, rfl⟩ := (h s).mp hf
    obtain ⟨hok', hr⟩ := (h' r).mp hg
    exact ⟨⟨hok, hok'⟩, hr⟩
  · rintro ⟨⟨hok, hok'⟩, rfl⟩
    show (f (t ++ (ts ++ r))).bind _ = _
    rw [(h (ts ++ r)).mpr ⟨hok, rfl⟩]
    exact (h' r).mpr ⟨hok', rfl⟩

theorem Reads.map {f : Text → Option (α × Text)} {g : α → β} (hg : Function.Injective g) {v : α}
    (h : Reads f t v rest ok) :
    Reads (fun s => (f s).map fun p => (g p.1, p.2)) t (g v) rest ok := by
  intro r
  rw [← h r]
  have hpair : ∀ q : α × Text, (g q.1, q.2) = (g v, r) ↔ q = (v, r) := by
    rintro ⟨x, y⟩
    simp [hg.eq_iff]
  simp only [Option.map_eq_some_iff, hpair, exists_eq_right]

/-! ### Lists -/

section More

variable {close : UInt8} {items : Text → Option (List α × Text)} {item : α}

/-- The first item stands in front. -/
theorem more_head {s r : Text} {all : List α} (h : more close items item s = some (all, r)) :
    all.head? = some item := by
  unfold more at h
  split at h
  · simp at h
  · split_ifs at h
    · obtain ⟨p, -, hp⟩ := Option.map_eq_some_iff.mp h
      rw [← (Prod.mk.inj hp).1]
      rfl
    · rw [← (Prod.mk.inj (Option.some.inj h)).1]
      rfl

theorem reads_more_close (hws : isWs close = false) (hc : close ≠ comma) (rest : Text) :
    Reads (more close items item) [close] [item] rest True := by
  intro r
  rw [List.singleton_append, more, skipWs_cons hws]
  simp only [if_neg hc, if_pos]
  simp [eq_comm]

theorem reads_more_comma (close : UInt8) (item : α) {all : List α} (h : Reads items ts all rest ok) :
    Reads (more close items item) (comma :: ts) (item :: all) rest ok := by
  intro r
  have hmap := h.map (List.cons_injective (a := item)) r
  rw [← hmap, List.cons_append, more, skipWs_cons (by decide)]
  simp only [if_pos]

end More

variable {n : ℕ}

theorem reads_elements {v : Value} {vs : List Value} (h : Reads (value n) t v (ts ++ rest) ok)
    (h' : Reads (more closeBracket (elements n) v) ts (v :: vs) rest ok') :
    Reads (elements (n + 1)) (t ++ ts) (v :: vs) rest (ok ∧ ok') :=
  h.bind h' fun v' s r he => by simpa using (more_head he).symm

theorem reads_key {raw k : Text} (h : Literal raw k) (rest : Text) :
    Reads key (quote :: raw ++ [quote, colon]) k rest True := by
  intro r
  have he : quote :: raw ++ [quote, colon] ++ rest = quote :: (raw ++ quote :: colon :: rest) := by
    simp
  rw [he, key, skipWs_cons (by decide)]
  simp only [if_pos]
  rw [h, Option.bind_some]
  simp [skipWs_cons (show isWs colon = false by decide), eq_comm]

theorem reads_members {raw k : Text} {v : Value} {ms : List (Text × Value)} (hk : Literal raw k)
    (h : Reads (value n) t v (ts ++ rest) ok)
    (h' : Reads (more closeBrace (members n) (k, v)) ts ((k, v) :: ms) rest ok') :
    Reads (members (n + 1)) (quote :: raw ++ [quote, colon] ++ (t ++ ts)) ((k, v) :: ms) rest
      (ok ∧ ok') := by
  have hvalue : Reads (fun s => (value n s).bind fun p => more closeBrace (members n) (k, p.1) p.2)
      (t ++ ts) ((k, v) :: ms) rest (ok ∧ ok') := by
    refine Reads.bind (g := fun v => more closeBrace (members n) (k, v)) h h' ?_
    intro v' s r he
    have hhead := more_head he
    simp at hhead
    exact hhead.symm
  have hall := Reads.bind (g := fun k s =>
    (value n s).bind fun p => more closeBrace (members n) (k, p.1) p.2) (reads_key hk _) hvalue ?_
  · have hmembers : members (n + 1) = fun s => (key s).bind fun k =>
        (value n k.2).bind fun p => more closeBrace (members n) (k.1, p.1) p.2 := by
      funext s
      rw [members]
    rw [hmembers]
    simpa only [true_and] using hall
  · intro k' s r he
    obtain ⟨p, -, hp⟩ := Option.bind_eq_some_iff.mp he
    have hhead := more_head hp
    simp at hhead
    exact hhead.1.symm

/-! ### Values -/

theorem value_quote (n : ℕ) (s : Text) :
    value (n + 1) (quote :: s) = (stringBody s).map fun p => (.string p.1, p.2) := by
  rw [value, skipWs_cons (by decide)]
  rfl

/-- A string that is written as it is. -/
theorem reads_string_iff (n : ℕ) (p : Text) (hsafe : Safe rest) :
    Reads (value (n + 1)) (quote :: p ++ [quote]) (.string p) rest (Plain p) := by
  have hbody : Reads stringBody (p ++ [quote]) p rest (Plain p) := by
    intro r
    rw [← stringBody_iff p hsafe r, List.append_assoc, List.singleton_append]
  have hmap := hbody.map (g := Value.string) fun _ _ => Value.string.inj
  intro r
  rw [← hmap r, List.cons_append, List.cons_append, value_quote]

theorem reads_string (n : ℕ) {raw text : Text} (h : Literal raw text) (rest : Text) :
    Reads (value (n + 1)) (quote :: raw ++ [quote]) (.string text) rest True := by
  intro r
  rw [List.append_assoc, List.cons_append, List.singleton_append, value_quote, h]
  simp [eq_comm]

/-- A list that is not empty. -/
theorem reads_bracketed {close c : UInt8} {wrap : List α → Value} (hwrap : Function.Injective wrap)
    {items : Text → Option (List α × Text)} {vs : List α} (hhead : ts.head? = some c)
    (hws : isWs c = false) (hc : c ≠ close) (h : Reads items ts vs rest ok) :
    Reads (bracketed close wrap items) ts (wrap vs) rest ok := by
  obtain ⟨tail, rfl⟩ := List.head?_eq_some_iff.mp hhead
  intro r
  rw [← h.map hwrap r, List.cons_append, bracketed, skipWs_cons hws, if_neg (by simpa using hc)]

theorem reads_array {c : UInt8} {vs : List Value} (hhead : ts.head? = some c)
    (hws : isWs c = false) (hc : c ≠ closeBracket) (h : Reads (elements n) ts vs rest ok) :
    Reads (value (n + 1)) (openBracket :: ts) (.array vs) rest ok := by
  have hinj : Function.Injective Value.array := fun _ _ => Value.array.inj
  have harray := reads_bracketed hinj hhead hws hc h
  intro r
  rw [← harray r, List.cons_append, value, skipWs_cons (by decide)]
  rfl

theorem reads_object {ms : List (Text × Value)} (hhead : ts.head? = some quote)
    (h : Reads (members n) ts ms rest ok) :
    Reads (value (n + 1)) (openBrace :: ts) (.object ms) rest ok := by
  have hinj : Function.Injective Value.object := fun _ _ => Value.object.inj
  have hclose : quote ≠ closeBrace := by decide
  have hobject := reads_bracketed hinj hhead (by decide) hclose h
  intro r
  rw [← hobject r, List.cons_append, value, skipWs_cons (by decide)]
  rfl

/-- A list of elements with commas between them, each of which is read with as
much fuel as it is long. -/
theorem reads_elements_join {text : α → Text} {val : α → Value} {okOf : α → Prop}
    (hsafe : ∀ a s, Safe (text a ++ s)) (rest : Text) (hrest : Safe rest) :
    ∀ (as : List α) (n : ℕ),
      (∀ a ∈ as, ∀ n rest, (text a).length ≤ n → Safe rest →
        Reads (value n) (text a) (val a) rest (okOf a)) →
      as ≠ [] → ([comma].intercalate (as.map text)).length + 1 ≤ n →
      Reads (elements n) ([comma].intercalate (as.map text) ++ [closeBracket]) (as.map val) rest
        (∀ a ∈ as, okOf a)
  | [], _, _, h, _ => absurd rfl h
  | [a], n, hread, _, hn => by
    obtain ⟨n, rfl⟩ : ∃ m, n = m + 1 := ⟨n - 1, by omega⟩
    have ha := hread a List.mem_cons_self n (closeBracket :: rest) (by simpa using hn)
      (hrest.cons (by decide))
    have hlast := reads_elements ha (reads_more_close (by decide) (by decide) rest)
    simpa using hlast
  | a :: b :: as, n, hread, _, hn => by
    obtain ⟨n, rfl⟩ : ∃ m, n = m + 1 := ⟨n - 1, by omega⟩
    have hjoin : [comma].intercalate ((a :: b :: as).map text) =
        text a ++ comma :: [comma].intercalate ((b :: as).map text) := by
      simp [List.intercalate]
    rw [hjoin, List.length_append, List.length_cons] at hn
    have hmore := reads_elements_join hsafe rest hrest (b :: as) n
      (fun c hc => hread c (List.mem_cons_of_mem _ hc)) (by simp) (by omega)
    have hcomma : Safe
        (comma :: ([comma].intercalate ((b :: as).map text) ++ [closeBracket]) ++ rest) := by
      refine Safe.cons ?_ (by decide)
      cases as with
      | nil => simpa using hsafe b (closeBracket :: rest)
      | cons c as => simpa [List.intercalate] using hsafe b _
    have ha := hread a List.mem_cons_self n _ (by omega) hcomma
    have hall := reads_elements ha (reads_more_comma closeBracket (val a) hmore)
    rw [hjoin]
    simpa using hall

theorem reads_array_nil (n : ℕ) (rest : Text) :
    Reads (value (n + 1)) [openBracket, closeBracket] (.array []) rest True := by
  intro r
  have hempty : value (n + 1) ([openBracket, closeBracket] ++ rest) = some (.array [], rest) := by
    rw [List.cons_append, List.singleton_append, value, skipWs_cons (by decide)]
    show bracketed closeBracket .array (elements n) (closeBracket :: rest) = _
    rw [bracketed, skipWs_cons (by decide)]
    rfl
  rw [hempty]
  simp [eq_comm]

/-- An array that is written with commas between its elements, which begin with
`c`. -/
theorem reads_array_join (text : α → Text) (val : α → Value) (okOf : α → Prop) {c : UInt8}
    (hhead : ∀ a, (text a).head? = some c) (hws : isWs c = false) (hc : c ≠ closeBracket)
    (hsafe : ∀ a s, Safe (text a ++ s)) (hrest : Safe rest) (as : List α) (n : ℕ)
    (hread : ∀ a ∈ as, ∀ n rest, (text a).length ≤ n → Safe rest →
      Reads (value n) (text a) (val a) rest (okOf a))
    (hn : ([comma].intercalate (as.map text)).length + 1 ≤ n) :
    Reads (value (n + 1)) (openBracket :: ([comma].intercalate (as.map text) ++ [closeBracket]))
      (.array (as.map val)) rest (∀ a ∈ as, okOf a) := by
  by_cases hne : as = []
  · subst hne
    have hnil := reads_array_nil n rest
    simpa using hnil
  · have hjoin := reads_elements_join hsafe rest hrest as n hread hne hn
    refine reads_array (c := c) ?_ hws hc hjoin
    cases as with
    | nil => exact absurd rfl hne
    | cons a as =>
      obtain ⟨tail, htail⟩ := List.head?_eq_some_iff.mp (hhead a)
      cases as <;> simp [List.intercalate, htail]

end Reads

/-! ### The fuel -/

theorem length_skipWs (s : Text) : (skipWs s).length ≤ s.length :=
  (List.dropWhile_sublist isWs).length_le

theorem length_of_skipWs {s s' : Text} {c : UInt8} (h : skipWs s = c :: s') :
    s'.length < s.length := by
  have := length_skipWs s
  rw [h, List.length_cons] at this
  omega

theorem length_tail_of_head? {s : Text} {c : UInt8} (h : (skipWs s).head? = some c) :
    (skipWs s).tail.length < s.length := by
  cases hs : skipWs s with
  | nil => simp [hs] at h
  | cons c' s' => exact length_of_skipWs hs

theorem stringBody_length {s x r : Text} (h : stringBody s = some (x, r)) :
    r.length < s.length := by
  induction hn : s.length using Nat.strongRecOn generalizing s x with
  | _ n ih =>
    subst hn
    cases s with
    | nil => simp [stringBody] at h
    | cons c s =>
      by_cases hq : c = quote
      · rw [hq, stringBody_quote] at h
        obtain ⟨-, rfl⟩ : _ ∧ s = r := by simpa using h
        simp
      · by_cases hb : c = backslash
        · rw [hb, stringBody_backslash] at h
          obtain ⟨⟨e, s'⟩, he, h⟩ := Option.bind_eq_some_iff.mp h
          obtain ⟨⟨x', r'⟩, hx, hp⟩ := Option.map_eq_some_iff.mp h
          obtain ⟨-, rfl⟩ := Prod.mk.inj hp
          have hlen := (escape_length he).2
          have hrec : r'.length < s'.length :=
            ih s'.length (by simp only [List.length_cons]; omega) hx rfl
          show r'.length < s.length + 1
          omega
        · rw [stringBody_cons _ hq hb] at h
          split_ifs at h
          obtain ⟨⟨x', r'⟩, hx, hp⟩ := Option.map_eq_some_iff.mp h
          obtain ⟨-, rfl⟩ := Prod.mk.inj hp
          have hrec : r'.length < s.length := ih s.length (by simp) hx rfl
          show r'.length < s.length + 1
          omega

theorem word_length {w : Text} (hw : w ≠ []) {v : Value} {s : Text} {p : Value × Text}
    (h : word w v s = some p) : p.2.length < s.length := by
  unfold word at h
  split_ifs at h with hpre
  obtain rfl := Option.some.inj h
  have := hpre.length_le
  have := List.length_pos_iff.mpr hw
  simp only [List.length_drop]
  omega

theorem number_length {s : Text} {p : Value × Text} (h : number s = some p) :
    p.2.length < s.length := by
  unfold number at h
  split_ifs at h with hnum
  obtain rfl := Option.some.inj h
  have hlen := congrArg List.length (List.takeWhile_append_dropWhile (p := isNumberByte) (l := s))
  have hne : (s.takeWhile isNumberByte).length ≠ 0 := by
    intro h0
    rw [List.length_eq_zero_iff.mp h0] at hnum
    revert hnum
    decide
  rw [List.length_append] at hlen
  show (s.dropWhile isNumberByte).length < _
  omega

theorem scalar_length {s : Text} {p : Value × Text} (h : scalar s = some p) :
    p.2.length < s.length := by
  unfold scalar at h
  simp only [Option.or_eq_some_iff] at h
  rcases h with h | ⟨-, h | ⟨-, h | ⟨-, h⟩⟩⟩
  · exact word_length (by decide) h
  · exact word_length (by decide) h
  · exact word_length (by decide) h
  · exact number_length h

theorem key_length {s : Text} {p : Text × Text} (h : key s = some p) : p.2.length < s.length := by
  unfold key at h
  cases hws : skipWs s with
  | nil => simp [hws] at h
  | cons c s' =>
    simp only [hws] at h
    split_ifs at h
    obtain ⟨q, hq, h⟩ := Option.bind_eq_some_iff.mp h
    split_ifs at h with hcolon
    obtain rfl := Option.some.inj h
    have h₁ := length_of_skipWs hws
    have h₂ := stringBody_length hq
    have h₃ := length_tail_of_head? hcolon
    show (skipWs q.2).tail.length < _
    omega

/-- `f` stops behind something, and `f'` does the same. -/
def Agrees {α : Type} (f f' : Text → Option (α × Text)) (s : Text) (p : α × Text) : Prop :=
  f s = some p → p.2.length < s.length ∧ f' s = some p

theorem more_agrees {α : Type} {close : UInt8} {items items' : Text → Option (List α × Text)}
    {item : α} {s : Text} {p : List α × Text}
    (hitems : ∀ s' q, s'.length < s.length → q.2 = p.2 → Agrees items items' s' q) :
    Agrees (more close items item) (more close items' item) s p := by
  intro h
  unfold more at h ⊢
  cases hws : skipWs s with
  | nil => simp [hws] at h
  | cons c s' =>
    have hlen := length_of_skipWs hws
    simp only [hws] at h ⊢
    by_cases hc : c = comma
    · rw [if_pos hc] at h ⊢
      obtain ⟨q, hq, rfl⟩ := Option.map_eq_some_iff.mp h
      obtain ⟨hshort, hq'⟩ := hitems s' q hlen rfl hq
      rw [hq']
      exact ⟨by show q.2.length < _; omega, rfl⟩
    · rw [if_neg hc] at h ⊢
      split_ifs at h ⊢
      obtain rfl := Option.some.inj h
      exact ⟨hlen, rfl⟩

theorem bracketed_agrees {α : Type} {close : UInt8} {wrap : List α → Value}
    {items items' : Text → Option (List α × Text)} {s : Text} {p : Value × Text}
    (hitems : ∀ q, q.2 = p.2 → Agrees items items' s q) :
    Agrees (bracketed close wrap items) (bracketed close wrap items') s p := by
  intro h
  unfold bracketed at h ⊢
  by_cases hempty : (skipWs s).head? = some close
  · rw [if_pos hempty] at h ⊢
    obtain rfl := Option.some.inj h
    exact ⟨length_tail_of_head? hempty, rfl⟩
  · rw [if_neg hempty] at h ⊢
    obtain ⟨q, hq, rfl⟩ := Option.map_eq_some_iff.mp h
    obtain ⟨hlen, hq'⟩ := hitems q rfl hq
    rw [hq']
    exact ⟨hlen, rfl⟩

/-- A parser's fuel may be any that covers the text it takes. -/
def FuelFree {α : Type} (f : ℕ → Text → Option (α × Text)) (n : ℕ) : Prop :=
  ∀ s p m, s.length ≤ p.2.length + m → Agrees (f n) (f m) s p

theorem FuelFree.of_succ {α : Type} {f : ℕ → Text → Option (α × Text)} {n : ℕ}
    (h : ∀ s p m, s.length ≤ p.2.length + (m + 1) → Agrees (f n) (f (m + 1)) s p) :
    FuelFree f n := by
  intro s p m hm
  cases m with
  | zero =>
    intro hs
    have := (h s p s.length (by omega) hs).1
    omega
  | succ m => exact h s p m hm

theorem fuelFree (n : ℕ) : FuelFree value n ∧ FuelFree elements n ∧ FuelFree members n := by
  induction n with
  | zero =>
    exact ⟨fun s p m _ h => by simp [value] at h, fun s p m _ h => by simp [elements] at h,
      fun s p m _ h => by simp [members] at h⟩
  | succ n ih =>
    obtain ⟨ihv, ihe, ihm⟩ := ih
    refine ⟨.of_succ fun s p m hm h => ?_, .of_succ fun s p m hm h => ?_,
      .of_succ fun s p m hm h => ?_⟩
    · rw [value] at h ⊢
      cases hws : skipWs s with
      | nil => simp [hws] at h
      | cons c s' =>
        have hlen := length_of_skipWs hws
        simp only [hws] at h ⊢
        split_ifs at h ⊢
        · obtain ⟨q, hq, rfl⟩ := Option.map_eq_some_iff.mp h
          have := stringBody_length hq
          exact ⟨by show q.2.length < _; omega, h⟩
        · obtain ⟨hshort, h'⟩ := bracketed_agrees
            (fun q hq => ihe s' q m (by rw [hq]; omega)) h
          exact ⟨by omega, h'⟩
        · obtain ⟨hshort, h'⟩ := bracketed_agrees
            (fun q hq => ihm s' q m (by rw [hq]; omega)) h
          exact ⟨by omega, h'⟩
        · have hshort := scalar_length h
          rw [List.length_cons] at hshort
          exact ⟨by omega, h⟩
    · rw [elements] at h ⊢
      obtain ⟨⟨v, s'⟩, hv, hmore⟩ := Option.bind_eq_some_iff.mp h
      dsimp only at hmore
      have hlen : s'.length < s.length := (ihv s (v, s') s.length (by omega) hv).1
      obtain ⟨hshort, hmore'⟩ := more_agrees
        (fun s'' q hs'' hq => ihe s'' q m (by rw [hq]; omega)) hmore
      have hv' := (ihv s (v, s') m (by show _ ≤ s'.length + m; omega) hv).2
      exact ⟨by omega, by rw [hv']; exact hmore'⟩
    · rw [members] at h ⊢
      obtain ⟨⟨k, s₀⟩, hk, h⟩ := Option.bind_eq_some_iff.mp h
      obtain ⟨⟨v, s'⟩, hv, hmore⟩ := Option.bind_eq_some_iff.mp h
      dsimp only at hmore
      have hkey : s₀.length < s.length := key_length hk
      have hlen : s'.length < s₀.length := (ihv s₀ (v, s') s₀.length (by omega) hv).1
      obtain ⟨hshort, hmore'⟩ := more_agrees
        (fun s'' q hs'' hq => ihm s'' q m (by rw [hq]; omega)) hmore
      have hv' := (ihv s₀ (v, s') m (by show _ ≤ s'.length + m; omega) hv).2
      refine ⟨by omega, ?_⟩
      rw [hk, Option.bind_some, hv']
      exact hmore'

/-- What is a value with some fuel is the same value with any that covers the
text. -/
theorem value_fuel {n m : ℕ} {s : Text} {p : Value × Text} (h : value n s = some p)
    (hm : s.length ≤ m) : value m s = some p :=
  ((fuelFree n).1 s p m (by omega) h).2

/-- **The fuel of `decode` is never short.** -/
theorem decode_eq_some_iff {s : Text} {v : Value} :
    decode s = some v ↔ ∃ n r, value n s = some (v, r) ∧ skipWs r = [] := by
  unfold decode
  constructor
  · intro h
    cases hval : value (s.length + 1) s with
    | none => simp [hval] at h
    | some p =>
      obtain ⟨v', r⟩ := p
      simp only [hval] at h
      split_ifs at h with hr
      obtain rfl : v' = v := Option.some.inj h
      exact ⟨_, r, hval, hr⟩
  · rintro ⟨n, r, hval, hr⟩
    rw [value_fuel hval (Nat.le_succ _)]
    simp only [if_pos hr]

/-- A text that is one value. -/
theorem decode_iff {n : ℕ} {s : Text} {v : Value} {ok : Prop} (hn : s.length ≤ n)
    (h : Reads (value n) s v [] ok) : decode s = some v ↔ ok := by
  have hread : ∀ r, value n s = some (v, r) ↔ ok ∧ r = [] := by
    intro r
    rw [← h r, List.append_nil]
  rw [decode_eq_some_iff]
  constructor
  · rintro ⟨m, r, hval, -⟩
    exact ((hread r).mp (value_fuel hval hn)).1
  · intro hok
    exact ⟨n, [], (hread []).mpr ⟨hok, rfl⟩, rfl⟩

/-! ### UTF-8 -/

/-- The bytes are the UTF-8 encoding of characters. -/
def IsUtf8 (s : Text) : Prop := ∃ cs : List Char, s = cs.flatMap String.utf8EncodeChar

theorem IsUtf8.append {s t : Text} (hs : IsUtf8 s) (ht : IsUtf8 t) : IsUtf8 (s ++ t) := by
  obtain ⟨cs, rfl⟩ := hs
  obtain ⟨ds, rfl⟩ := ht
  exact ⟨cs ++ ds, by rw [List.flatMap_append]⟩

theorem isUtf8_nil : IsUtf8 [] := ⟨[], rfl⟩

theorem isUtf8_flatMap {α : Type} {f : α → Text} {as : List α} (h : ∀ a ∈ as, IsUtf8 (f a)) :
    IsUtf8 (as.flatMap f) := by
  induction as with
  | nil => exact isUtf8_nil
  | cons a as ih =>
    rw [List.flatMap_cons]
    exact (h a List.mem_cons_self).append (ih fun a' ha' => h a' (List.mem_cons_of_mem _ ha'))

theorem isUtf8_toByteArray (s : String) : IsUtf8 s.toByteArray.data.toList := by
  refine ⟨s.toList, ?_⟩
  rw [← String.utf8Encode_toList]
  exact List.toList_data_toByteArray

theorem utf8_ascii {c : UInt8} (h : c < 0x80) : utf8 c.toNat = [c] := by
  have hall : ∀ n < 128, utf8 n = [UInt8.ofNat n] := by decide +kernel
  rw [hall c.toNat (UInt8.lt_iff_toNat_lt.mp h), UInt8.ofNat_toNat]

theorem isUtf8_ascii {s : Text} (h : ∀ c ∈ s, c < 0x80) : IsUtf8 s := by
  induction s with
  | nil => exact isUtf8_nil
  | cons c s ih =>
    have hc : IsUtf8 [c] := ⟨[Char.ofNat c.toNat], by
      rw [List.flatMap_singleton]
      exact (utf8_ascii (h c List.mem_cons_self)).symm⟩
    exact hc.append (ih fun c' hc' => h c' (List.mem_cons_of_mem _ hc'))

theorem isUtf8_intercalate {sep : Text} (hsep : IsUtf8 sep) :
    ∀ ts : List Text, (∀ t ∈ ts, IsUtf8 t) → IsUtf8 (sep.intercalate ts)
  | [], _ => isUtf8_nil
  | [t], h => by simpa using h t List.mem_cons_self
  | t :: u :: ts, h => by
    have hmore := isUtf8_intercalate hsep (u :: ts) fun t' ht' => h t' (List.mem_cons_of_mem _ ht')
    have hjoin : sep.intercalate (t :: u :: ts) = t ++ sep ++ sep.intercalate (u :: ts) := by
      simp [List.intercalate]
    rw [hjoin]
    exact ((h t List.mem_cons_self).append hsep).append hmore

/-- The text is a JSON document, of this value. -/
def IsDocument (s : Text) (v : Value) : Prop := IsUtf8 s ∧ decode s = some v

end Json
