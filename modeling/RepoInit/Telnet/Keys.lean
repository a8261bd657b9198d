/-
# The keys of a telnet client as bytes

`encode` is what a client sends for the keys of a line editor: printable
characters, the two backspaces, tab, the up-arrow sequence and CR LF. `decode`
reads bytes back and keeps the first bytes of a sequence that is not complete
(`Cut`); it loses nothing (`encode_decode`), does not depend on how the bytes
arrive (`decode_append`) and finds the keys that were sent (`decode_encode`).

Key definitions: `encode`, `decode`, `Typed`, `Cut`.
Key theorems: `encode_decode`, `decode_encode`, `single_decode`.
-/
import RepoInit.Lib.LineEditor
import RepoInit.Telnet.Session

namespace RepoInit
namespace Telnet

open LineEditor

def Printable (b : Byte) : Prop := 0x20 ≤ b ∧ b < 0x7F

instance : DecidablePred Printable := fun _ => inferInstanceAs (Decidable (_ ∧ _))

/-- The characters are printable. -/
def Typed (keys : List (Key Byte)) : Prop := CharsAll Printable keys

theorem typed_iff {keys : List (Key Byte)} :
    Typed keys ↔ ∀ key ∈ keys, (match key with | .char b => decide (Printable b) | _ => true) = true := by
  constructor
  · intro h key hk
    cases key with
    | char b => exact decide_eq_true (h b hk)
    | _ => rfl
  · exact fun h b hb => of_decide_eq_true (h _ hb)

instance : DecidablePred Typed := fun _ => decidable_of_iff _ typed_iff.symm

def backByte (kind : Bool) : Byte := if kind then asciiDEL else asciiBS

def encodeKey : Key Byte → Str
  | .char b => [b]
  | .back kind => [backByte kind]
  | .tab => [asciiTab]
  | .up => ansiArrowUp
  | .enter => crlf

def encode (keys : List (Key Byte)) : Str := keys.flatMap encodeKey

@[simp] theorem encode_nil : encode [] = [] := rfl

@[simp] theorem encode_cons (key : Key Byte) (keys : List (Key Byte)) :
    encode (key :: keys) = encodeKey key ++ encode keys := rfl

@[simp] theorem encode_append (keys keys' : List (Key Byte)) :
    encode (keys ++ keys') = encode keys ++ encode keys' := List.flatMap_append

@[simp] theorem encode_chars (text : Str) : encode (text.map .char) = text := by
  induction text with
  | nil => rfl
  | cons b text ih => rw [List.map_cons, encode_cons, ih]; rfl

/-! ### Reading keys -/

def specialKeys : List (Key Byte) := [.back true, .back false, .tab, .up, .enter]

/-- A byte more behind the keys read and the first bytes of another. -/
def decodeByte (st : List (Key Byte) × Str) (b : Byte) : List (Key Byte) × Str :=
  let bytes := st.2 ++ [b]
  match specialKeys.find? fun key => encodeKey key = bytes with
  | some key => (st.1 ++ [key], [])
  | none =>
    if ∃ key ∈ specialKeys, bytes <+: encodeKey key then (st.1, bytes)
    else (st.1 ++ bytes.map .char, [])

/-- The keys, and the first bytes of another one. -/
def decode (bytes : Str) : List (Key Byte) × Str := bytes.foldl decodeByte ([], [])

theorem decode_append (s t : Str) : decode (s ++ t) = t.foldl decodeByte (decode s) :=
  List.foldl_append

/-- Some first bytes of a longer sequence. -/
def Cut (bytes : Str) : Prop :=
  bytes = [] ∨ bytes = [0x0D] ∨ bytes = [0x1B] ∨ bytes = [0x1B, 0x5B]

theorem cut_of_begins {bytes : Str} {key : Key Byte} (hk : key ∈ specialKeys)
    (h : bytes <+: encodeKey key) (hne : bytes ≠ encodeKey key) : Cut bytes := by
  obtain ⟨rest, hrest⟩ := h
  have htake : bytes = (encodeKey key).take bytes.length := by simp [← hrest]
  have hlen : bytes.length < (encodeKey key).length := by
    rw [← hrest, List.length_append]
    have : rest ≠ [] := by
      rintro rfl
      exact hne (by simpa using hrest)
    have := List.length_pos_iff.mpr this
    omega
  have hall : ∀ key ∈ specialKeys, ∀ n < (encodeKey key).length,
      (encodeKey key).take n = [] ∨ (encodeKey key).take n = [0x0D] ∨
        (encodeKey key).take n = [0x1B] ∨ (encodeKey key).take n = [0x1B, 0x5B] := by decide
  rw [htake]
  exact hall key hk _ hlen

/-- What becomes of a byte: it completes a key, it waits, or it is read as a
character with what waited before it. -/
theorem decodeByte_cases (st : List (Key Byte) × Str) (b : Byte) :
    (∃ key, encodeKey key = st.2 ++ [b] ∧ decodeByte st b = (st.1 ++ [key], [])) ∨
      (Cut (st.2 ++ [b]) ∧ decodeByte st b = (st.1, st.2 ++ [b])) ∨
      decodeByte st b = (st.1 ++ (st.2 ++ [b]).map .char, []) := by
  unfold decodeByte
  dsimp only
  split
  · rename_i key hkey
    exact Or.inl ⟨key, by simpa using List.find?_some hkey, rfl⟩
  · rename_i hnone
    split
    · rename_i h
      obtain ⟨key, hk, hpre⟩ := h
      have hne := List.find?_eq_none.mp hnone key hk
      exact Or.inr (Or.inl ⟨cut_of_begins hk hpre (by simpa [eq_comm] using hne), rfl⟩)
    · exact Or.inr (Or.inr rfl)

/-- The keys already read do not matter. -/
theorem decodeByte_shift (keys : List (Key Byte)) (bytes : Str) (b : Byte) :
    decodeByte (keys, bytes) b =
      (keys ++ (decodeByte ([], bytes) b).1, (decodeByte ([], bytes) b).2) := by
  unfold decodeByte
  dsimp only
  split
  · simp
  · split <;> simp

theorem foldl_decodeByte_shift (keys : List (Key Byte)) (bytes s : Str) :
    s.foldl decodeByte (keys, bytes) =
      (keys ++ (s.foldl decodeByte ([], bytes)).1, (s.foldl decodeByte ([], bytes)).2) := by
  induction s generalizing keys bytes with
  | nil => simp
  | cons b s ih =>
    rw [List.foldl_cons, List.foldl_cons, decodeByte_shift, ih,
      ih (decodeByte ([], bytes) b).1, List.append_assoc]

/-- **Nothing is lost.** -/
theorem encode_decode (s : Str) : encode (decode s).1 ++ (decode s).2 = s := by
  induction s using List.reverseRecOn with
  | nil => rfl
  | append_singleton s b ih =>
    rw [decode_append, List.foldl_cons, List.foldl_nil]
    conv_rhs => rw [← ih]
    rcases decodeByte_cases (decode s) b with ⟨key, hkey, h⟩ | ⟨-, h⟩ | h
    · simp [h, hkey]
    · simp [h]
    · rw [h, encode_append, encode_chars]
      simp

theorem cut_decode (s : Str) : Cut (decode s).2 := by
  induction s using List.reverseRecOn with
  | nil => exact Or.inl rfl
  | append_singleton s b ih =>
    rw [decode_append, List.foldl_cons, List.foldl_nil]
    rcases decodeByte_cases (decode s) b with ⟨key, -, h⟩ | ⟨hcut, h⟩ | h
    · rw [h]
      exact Or.inl rfl
    · rw [h]
      exact hcut
    · rw [h]
      exact Or.inl rfl

/-! ### Keys that were typed -/

theorem Printable.ne {b c : Byte} (h : Printable b) (hc : ¬ Printable c) : b ≠ c := by
  rintro rfl
  exact hc h

theorem decodeByte_printable {b : Byte} (h : Printable b) : decodeByte ([], []) b = ([.char b], []) := by
  have hDEL := h.ne (c := asciiDEL) (by decide)
  have hBS := h.ne (c := asciiBS) (by decide)
  have hTab := h.ne (c := asciiTab) (by decide)
  have hESC := h.ne (c := 0x1B) (by decide)
  have hCR := h.ne (c := 0x0D) (by decide)
  unfold decodeByte
  simp [specialKeys, encodeKey, backByte, ansiArrowUp, crlf, hDEL, hBS, hTab, hESC, hCR,
    hDEL.symm, hBS.symm, hTab.symm]

theorem foldl_decodeByte_encodeKey {key : Key Byte} (h : ∀ b, key = .char b → Printable b) :
    (encodeKey key).foldl decodeByte ([], []) = ([key], []) := by
  cases key with
  | char b => exact decodeByte_printable (h b rfl)
  | back kind => cases kind <;> decide
  | tab => decide
  | up => decide
  | enter => decide

/-- **The keys that were typed are found.** -/
theorem decode_encode {keys : List (Key Byte)} (h : Typed keys) : decode (encode keys) = (keys, []) := by
  induction keys using List.reverseRecOn with
  | nil => rfl
  | append_singleton keys key ih =>
    have hkeys : Typed keys := fun b hb => h b (List.mem_append_left _ hb)
    have hkey : ∀ b, key = .char b → Printable b := by
      rintro b rfl
      exact h b (by simp)
    rw [encode_append, decode_append, ih hkeys, foldl_decodeByte_shift, encode_cons, encode_nil,
      List.append_nil, foldl_decodeByte_encodeKey hkey]

/-- A beginning of what was typed reads as a beginning of the keys. -/
theorem decode_begins {keys : List (Key Byte)} (h : Typed keys) {s : Str} (hs : s <+: encode keys) :
    (decode s).1 <+: keys := by
  obtain ⟨t, ht⟩ := hs
  have hdec := decode_encode h
  rw [← ht, decode_append, foldl_decodeByte_shift] at hdec
  exact ⟨_, congrArg Prod.fst hdec⟩

/-- An unfinished line and the first bytes of another key. -/
theorem decode_text {text bytes : Str} (h : ∀ b ∈ text, Printable b) (hb : Cut bytes) :
    decode (text ++ bytes) = (text.map .char, bytes) := by
  have hcut : bytes.foldl decodeByte ([], []) = ([], bytes) := by
    rcases hb with rfl | rfl | rfl | rfl <;> decide
  have hdec := decode_encode (charsAll_chars h)
  rw [encode_chars] at hdec
  rw [decode_append, hdec, foldl_decodeByte_shift, hcut, List.append_nil]

/-- A single byte behind an unfinished line completes at most one key. -/
theorem single_decode {text bytes : Str} (h : ∀ b ∈ text, Printable b) (hb : Cut bytes) (b : Byte) :
    Single (decide ((decode (text ++ bytes ++ [b])).2 ≠ [])) (decode (text ++ bytes ++ [b])).1 := by
  rw [decode_append, decode_text h hb, List.foldl_cons, List.foldl_nil]
  rcases decodeByte_cases (text.map .char, bytes) b with ⟨key, -, hdec⟩ | ⟨-, hdec⟩ | hdec
  · rw [hdec]
    exact ⟨text, [key], rfl, by simp, by simp⟩
  · rw [hdec]
    exact ⟨text, [], by simp, by simp, by simp⟩
  · rw [hdec]
    exact ⟨text ++ (bytes ++ [b]), [], by simp, by simp, by simp⟩

/-! ### The bytes of typed keys -/

theorem mem_encode {b : Byte} {keys : List (Key Byte)} :
    b ∈ encode keys ↔ ∃ key ∈ keys, b ∈ encodeKey key := List.mem_flatMap

/-- A byte that is not printable belongs to a special key. -/
theorem not_mem_encode {c : Byte} (hc : ¬ Printable c) {keys : List (Key Byte)} (h : Typed keys)
    (hspecial : ∀ key ∈ specialKeys, c ∈ encodeKey key → key ∉ keys) : c ∉ encode keys := by
  intro hm
  obtain ⟨key, hk, hck⟩ := mem_encode.mp hm
  cases key with
  | char b =>
    obtain rfl : c = b := List.mem_singleton.mp hck
    exact hc (h c hk)
  | back kind =>
    refine hspecial _ ?_ hck hk
    cases kind <;> decide
  | tab => exact hspecial _ (by decide) hck hk
  | up => exact hspecial _ (by decide) hck hk
  | enter => exact hspecial _ (by decide) hck hk

end Telnet
end RepoInit
