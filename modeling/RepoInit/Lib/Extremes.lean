/-
# Running extremes from a start value

A running minimum that starts at `a` is the least of `a` and the values
(`isLeast_foldl_min`), so it is the least of the values exactly if one of them
is not above `a` (`isLeast_foldl_min_iff`). For the maximum likewise.

Key theorems: `isLeast_foldl_min_iff`, `isGreatest_foldl_max_iff`.
-/
import Mathlib.Order.Bounds.Basic
import Mathlib.Order.MinMax

namespace RepoInit
namespace Extremes

variable {α : Type} [LinearOrder α]

/-- The running minimum is the least of the start value and the values. -/
theorem isLeast_foldl_min (xs : List α) (a : α) :
    IsLeast {x | x = a ∨ x ∈ xs} (xs.foldl min a) := by
  induction xs generalizing a with
  | nil =>
    refine ⟨Or.inl rfl, ?_⟩
    rintro x (rfl | hx)
    · exact le_refl x
    · simp at hx
  | cons b xs ih =>
    obtain ⟨hmem, hle⟩ := ih (min a b)
    refine ⟨?_, ?_⟩
    · rcases hmem with hmem | hmem
      · rw [List.foldl_cons, hmem]
        rcases min_choice a b with hab | hab
        · exact Or.inl hab
        · exact Or.inr (by simp [hab])
      · exact Or.inr (List.mem_cons_of_mem _ hmem)
    · have hstart : xs.foldl min (min a b) ≤ min a b := hle (Or.inl rfl)
      rintro x (rfl | hx)
      · exact hstart.trans (min_le_left _ _)
      · rcases List.mem_cons.mp hx with rfl | hx
        · exact hstart.trans (min_le_right _ _)
        · exact hle (Or.inr hx)

/-- It is the least of the values exactly if the start value is not below all of
them. -/
theorem isLeast_foldl_min_iff (xs : List α) (a : α) :
    IsLeast {x | x ∈ xs} (xs.foldl min a) ↔ ∃ x ∈ xs, x ≤ a := by
  obtain ⟨hmem, hle⟩ := isLeast_foldl_min xs a
  constructor
  · intro h
    exact ⟨_, h.1, hle (Or.inl rfl)⟩
  · rintro ⟨x, hx, hxa⟩
    refine ⟨?_, fun y hy => hle (Or.inr hy)⟩
    rcases hmem with hmem | hmem
    · -- the start value is reached by `x`
      have hxle : xs.foldl min a ≤ x := hle (Or.inr hx)
      rw [hmem] at hxle
      show xs.foldl min a ∈ xs
      rw [hmem, le_antisymm hxle hxa]
      exact hx
    · exact hmem

theorem isGreatest_foldl_max_iff (xs : List α) (a : α) :
    IsGreatest {x | x ∈ xs} (xs.foldl max a) ↔ ∃ x ∈ xs, a ≤ x :=
  @isLeast_foldl_min_iff αᵒᵈ _ xs a

end Extremes
end RepoInit
