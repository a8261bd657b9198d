/-
# Records in a byte buffer

Words of 32 bits in the byte order of a little-endian host, and records of
different sizes that lie back to back. A scan that is told the size of each
record it reads gets to the positions in `offsets`.

Key definitions: `Records.le32`, `Records.readLe32`, `Records.offsets`.
Key theorems: `Records.readLe32_le32`, `Records.mem_offsets`.
-/
import Mathlib.Algebra.GroupWithZero.Nat
import Mathlib.Data.List.Basic
import Mathlib.Tactic.Common

namespace Records

/-! ### Words -/

def le32 (w : UInt32) : List UInt8 :=
  [UInt8.ofNat w.toNat, UInt8.ofNat (w.toNat / 2 ^ 8), UInt8.ofNat (w.toNat / 2 ^ 16),
    UInt8.ofNat (w.toNat / 2 ^ 24)]

/-- The word a buffer begins with, and the bytes behind it; `none` if the buffer
is shorter. -/
def readLe32 : List UInt8 → Option (UInt32 × List UInt8)
  | b₀ :: b₁ :: b₂ :: b₃ :: s =>
    some (UInt32.ofNat (b₀.toNat + b₁.toNat * 2 ^ 8 + b₂.toNat * 2 ^ 16 + b₃.toNat * 2 ^ 24), s)
  | _ => none

@[simp] theorem length_le32 (w : UInt32) : (le32 w).length = 4 := rfl

theorem readLe32_le32 (w : UInt32) (s : List UInt8) : readLe32 (le32 w ++ s) = some (w, s) := by
  have hlt := w.toNat_lt
  have hword : UInt32.ofNat ((UInt8.ofNat w.toNat).toNat + (UInt8.ofNat (w.toNat / 2 ^ 8)).toNat * 2 ^ 8 +
      (UInt8.ofNat (w.toNat / 2 ^ 16)).toNat * 2 ^ 16 +
      (UInt8.ofNat (w.toNat / 2 ^ 24)).toNat * 2 ^ 24) = w := by
    apply UInt32.toNat_inj.mp
    simp only [UInt32.toNat_ofNat', UInt8.toNat_ofNat']
    omega
  show some _ = _
  rw [hword]
  rfl

/-! ### Records back to back -/

variable {ρ : Type*} (size : ρ → ℕ)

/-- Where the records begin, the first at `start`. -/
def offsets : ℕ → List ρ → List ℕ
  | _, [] => []
  | start, r :: rs => start :: offsets (start + size r) rs

/-- A position in `offsets` is the beginning of a record. -/
theorem mem_offsets {size : ρ → ℕ} {o : ℕ} : ∀ {rs : List ρ} {start : ℕ}, o ∈ offsets size start rs →
    ∃ before r after, rs = before ++ r :: after ∧ o = start + (before.map size).sum
  | [], _, h => by simp [offsets] at h
  | r :: rs, start, h => by
    rcases List.mem_cons.mp h with rfl | h
    · exact ⟨[], r, rs, rfl, rfl⟩
    · obtain ⟨before, r', after, rfl, rfl⟩ := mem_offsets h
      exact ⟨r :: before, r', after, rfl, by simp [Nat.add_assoc]⟩

/-- The records at the beginning that fit into `n` bytes, and the others. -/
def fitting : ℕ → List ρ → List ρ × List ρ
  | _, [] => ([], [])
  | n, r :: rs =>
    if size r ≤ n then (r :: (fitting (n - size r) rs).1, (fitting (n - size r) rs).2)
    else ([], r :: rs)

/-- None is lost, and none is cut. -/
theorem fitting_append : ∀ (n : ℕ) (rs : List ρ),
    (fitting size n rs).1 ++ (fitting size n rs).2 = rs
  | _, [] => rfl
  | n, r :: rs => by
    unfold fitting
    split
    · exact congrArg (r :: ·) (fitting_append _ rs)
    · rfl

/-- A buffer of the size of the records at the beginning takes just these. -/
theorem fitting_total (hpos : ∀ r, 0 < size r) : ∀ rs late : List ρ,
    fitting size (rs.map size).sum (rs ++ late) = (rs, late)
  | [], [] => rfl
  | [], r :: late => if_neg (Nat.not_le.mpr (hpos r))
  | r :: rs, late => by
    have hfits : size r ≤ ((r :: rs).map size).sum := by simp
    have hrest : ((r :: rs).map size).sum - size r = (rs.map size).sum := by simp
    rw [List.cons_append, fitting, if_pos hfits, hrest, fitting_total hpos rs late]

end Records
