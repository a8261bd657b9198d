/-
# `stripNVT` in `size_t`

The loop of `stripNVT` with the arithmetic it has: `find_first_of` gives `npos`,
the largest `size_t`, if there is no 0xFF, `npos + 2` wraps around to 1, and so does
`length - 1` if the buffer is empty. A `std::string` is shorter than `npos`, and
that is enough: nothing else wraps around, every erasing is of three bytes of the
buffer, and the loop ends after at most one turn for each byte
(`stripNVTLoop_eq`). So it is the filter `skip`, which can be resumed.

Key definitions: `stripNVTLoop`.
Key theorems: `stripNVTLoop_eq`, `stripNVT_streams`.
-/
import RepoInit.Telnet.Framing

namespace RepoInit
namespace Telnet

open Search Framing

/-! ### The loop -/

/-- `std::string::npos`. -/
def npos : UInt64 := -1

/-- `find_first_of` of one character. -/
def findFirstOf (c : Byte) (buffer : Str) : UInt64 :=
  match findElem c buffer with
  | some found => UInt64.ofNat found
  | none => npos

/-- How the loop ends. -/
inductive LoopEnd where
  | done (buffer : Str)
  /-- An erasing goes outside the buffer. -/
  | outside
  /-- Not at all, with so many turns. -/
  | running
  deriving DecidableEq, Repr

def stripNVTLoop : ℕ → Str → LoopEnd
  | 0, _ => .running
  | turns + 1, buffer =>
    let length := UInt64.ofNat buffer.length
    let found := findFirstOf asciiNBSP buffer
    if found ≠ npos ∧ found + 2 ≤ length - 1 then
      if found.toNat + 3 ≤ buffer.length then stripNVTLoop turns (erase buffer found.toNat 3)
      else .outside
    else if found + 2 ≥ length then .done buffer
    else if found ≠ npos then stripNVTLoop turns buffer
    else .done buffer

/-! ### What wraps around -/

section Arithmetic

variable {i length : ℕ}

theorem npos_toNat : npos.toNat = 2 ^ 64 - 1 := rfl

theorem toNat_ofNat_of_lt_npos (h : i < npos.toNat) : (UInt64.ofNat i).toNat = i := by
  rw [npos_toNat] at h
  exact UInt64.toNat_ofNat_of_lt' (by show i < 2 ^ 64; omega)

theorem ofNat_ne_npos (h : i < npos.toNat) : UInt64.ofNat i ≠ npos := by
  intro heq
  have := congrArg UInt64.toNat heq
  rw [toNat_ofNat_of_lt_npos h] at this
  omega

/-- In front of the end of a string `found + 2` does not wrap around. -/
theorem found_add_toNat (hi : i < length) (hlength : length < npos.toNat) :
    (UInt64.ofNat i + 2).toNat = i + 2 := by
  have hi' := toNat_ofNat_of_lt_npos (hi.trans hlength)
  rw [npos_toNat] at hlength
  calc (UInt64.ofNat i + 2).toNat = ((UInt64.ofNat i).toNat + 2) % 2 ^ 64 := UInt64.toNat_add _ _
    _ = (i + 2) % 2 ^ 64 := by rw [hi']
    _ = i + 2 := Nat.mod_eq_of_lt (by omega)

/-- Nor does `length - 1` if there is a character. -/
theorem length_sub_toNat (hi : i < length) (hlength : length < npos.toNat) :
    (UInt64.ofNat length - 1).toNat = length - 1 := by
  have hone : (1 : UInt64).toNat = 1 := rfl
  rw [UInt64.toNat_sub_of_le, toNat_ofNat_of_lt_npos hlength, hone]
  rw [UInt64.le_iff_toNat_le, toNat_ofNat_of_lt_npos hlength, hone]
  omega

end Arithmetic

/-! ### What the loop does -/

/-- The loop ends, erases inside the buffer, and leaves what `stripNVT` does. -/
theorem stripNVTLoop_eq : ∀ {turns : ℕ} {buffer : Str}, buffer.length < npos.toNat →
    buffer.length < turns → stripNVTLoop turns buffer = .done (stripNVT buffer)
  | 0, _, _, h => by omega
  | turns + 1, buffer, hlength, hturns => by
    rw [stripNVTLoop, findFirstOf]
    cases hf : findElem asciiNBSP buffer with
    | none =>
      -- `npos + 2` is 1: the loop breaks off or its condition fails
      rw [stripNVT_of_none hf]
      simp
    | some found =>
      have hfound := findElem_lt hf
      have hnat := toNat_ofNat_of_lt_npos (hfound.trans hlength)
      have hne := ofNat_ne_npos (hfound.trans hlength)
      simp only [UInt64.le_iff_toNat_le, ge_iff_le, found_add_toNat hfound hlength,
        length_sub_toNat hfound hlength, toNat_ofNat_of_lt_npos hlength, hnat, ne_eq, hne,
        not_false_eq_true, true_and]
      rw [stripNVT_of_some hf]
      by_cases hle : found + 2 ≤ buffer.length - 1
      · rw [if_pos hle, if_pos hle, if_pos (by omega)]
        have herase := length_erase buffer found 3 (by omega)
        exact stripNVTLoop_eq (by omega) (by omega)
      · rw [if_neg hle, if_neg hle, if_pos (by omega)]

/-- **`stripNVT` is a streaming filter**, in the arithmetic of the code: with a
turn for each byte the loop ends and leaves what `skip` leaves, and filtering
what was filtered with more behind it is filtering the whole. -/
theorem stripNVT_streams (a b : Str) (h : (a ++ b).length < npos.toNat) {turns : ℕ}
    (hturns : (a ++ b).length < turns) :
    ∃ s, stripNVTLoop turns a = .done s ∧ s = skip isNVT 2 a ∧
      stripNVTLoop turns (a ++ b) = .done (skip isNVT 2 (a ++ b)) ∧
      stripNVTLoop turns (s ++ b) = stripNVTLoop turns (a ++ b) := by
  have hloop : ∀ {buffer : Str}, buffer.length ≤ (a ++ b).length →
      stripNVTLoop turns buffer = .done (skip isNVT 2 buffer) := fun hle => by
    rw [stripNVTLoop_eq (hle.trans_lt h) (hle.trans_lt hturns), stripNVT_eq]
  have hskip : (skip isNVT 2 a).length ≤ a.length := (skip_sublist a).length_le
  refine ⟨skip isNVT 2 a, hloop (by simp), rfl, hloop (Nat.le_refl _), ?_⟩
  calc stripNVTLoop turns (skip isNVT 2 a ++ b)
      = .done (skip isNVT 2 (skip isNVT 2 a ++ b)) :=
        hloop (by simp only [List.length_append]; omega)
    _ = .done (skip isNVT 2 (a ++ b)) := by rw [skip_skip_append]
    _ = stripNVTLoop turns (a ++ b) := (hloop (Nat.le_refl _)).symm

/-- An 0xFF at the end is kept, and completed by the next piece. -/
theorem stripNVT_streams_split : ∃ s,
    stripNVTLoop 8 [0x61, 0xFF] = .done s ∧ s = skip isNVT 2 [0x61, 0xFF] ∧
      stripNVTLoop 8 ([0x61, 0xFF] ++ [0xFD, 0x01, 0x62]) =
        .done (skip isNVT 2 ([0x61, 0xFF] ++ [0xFD, 0x01, 0x62])) ∧
      stripNVTLoop 8 (s ++ [0xFD, 0x01, 0x62]) =
        stripNVTLoop 8 ([0x61, 0xFF] ++ [0xFD, 0x01, 0x62]) :=
  stripNVT_streams [0x61, 0xFF] [0xFD, 0x01, 0x62] (by decide) (by decide)

end Telnet
end RepoInit
