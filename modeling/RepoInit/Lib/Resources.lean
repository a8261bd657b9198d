/-
# Numbers that objects own

A kernel gives out numbers that are not in use, and the objects of a class own
one each from their constructor to their destructor. A constructor that fails may
leave its number behind. In a run of constructors, uses and destructors the
numbers in use are those of the objects and those left behind, each once
(`Owned`): no object loses its number before its destructor, no two share one,
and what is left behind is never given back.

Key definitions: `Resources.lowest`, `Resources.Pool`, `Resources.Owned`.
Key theorems: `Resources.lowest_notMem`, `Owned.make`, `Owned.leave`,
`Owned.destroy`, `Owned.use`.
-/
import Mathlib.Data.List.Perm.Basic
import Mathlib.Data.List.Perm.Subperm
import Mathlib.Data.List.Range
import Mathlib.Tactic.Common

namespace Resources

/-! ### The lowest number that is free -/

/-- The smallest number that is not in use. -/
def lowest (used : List ℕ) : ℕ := ((List.range (used.length + 1)).find? (· ∉ used)).getD 0

theorem lowest_notMem (used : List ℕ) : lowest used ∉ used := by
  unfold lowest
  cases h : (List.range (used.length + 1)).find? (· ∉ used) with
  | some n => simpa using List.find?_some h
  | none =>
    have hall : ∀ n ∈ List.range (used.length + 1), n ∈ used := by
      simpa only [List.find?_eq_none, decide_eq_true_eq, not_not] using h
    have hlength := (List.nodup_range.subperm hall).length_le
    rw [List.length_range] at hlength
    omega

/-! ### Objects and their numbers -/

/-- The numbers in use, and the objects in the order of their constructors. -/
structure Pool (α : Type*) where
  opened : List ℕ := []
  objects : List α := []
  deriving DecidableEq, Repr

variable {α : Type*}

namespace Pool

/-- A constructor that makes an object with a number. -/
def make (p : Pool α) (n : ℕ) (a : α) : Pool α :=
  { opened := n :: p.opened, objects := p.objects ++ [a] }

/-- A constructor that fails, and leaves the number in use. -/
def leave (p : Pool α) (n : ℕ) : Pool α := { p with opened := n :: p.opened }

/-- The object at a position is used. -/
def use (p : Pool α) (i : ℕ) (f : α → α) : Pool α := { p with objects := p.objects.modify i f }

/-- The destructor of the object at a position gives its number back. -/
def destroy (number : α → ℕ) (p : Pool α) (i : ℕ) : Pool α :=
  match p.objects[i]? with
  | some a => { opened := p.opened.erase (number a), objects := p.objects.eraseIdx i }
  | none => p

end Pool

/-- The numbers in use are those of the objects and those left behind. -/
structure Owned (number : α → ℕ) (left : List ℕ) (p : Pool α) : Prop where
  perm : p.opened.Perm (p.objects.map number ++ left)
  nodup : p.opened.Nodup

section Owned

variable {number : α → ℕ} {left : List ℕ} {p : Pool α}

theorem Owned.empty : Owned number [] ({} : Pool α) := ⟨List.Perm.refl [], List.nodup_nil⟩

theorem Owned.make (h : Owned number left p) {n : ℕ} {a : α} (ha : number a = n)
    (hn : n ∉ p.opened) : Owned number left (p.make n a) := by
  subst ha
  refine ⟨?_, List.nodup_cons.mpr ⟨hn, h.nodup⟩⟩
  calc (number a :: p.opened).Perm (number a :: (p.objects.map number ++ left)) := h.perm.cons _
    _ = (number a :: p.objects.map number) ++ left := rfl
    List.Perm _ ((p.objects.map number ++ [number a]) ++ left) :=
        (List.perm_append_singleton _ _).symm.append_right left
    _ = (p.objects ++ [a]).map number ++ left := by rw [List.map_append, List.map_singleton]

theorem Owned.leave (h : Owned number left p) {n : ℕ} (hn : n ∉ p.opened) :
    Owned number (n :: left) (p.leave n) :=
  ⟨(h.perm.cons n).trans List.perm_middle.symm, List.nodup_cons.mpr ⟨hn, h.nodup⟩⟩

theorem Owned.use (h : Owned number left p) (i : ℕ) {f : α → α} (hf : ∀ a, number (f a) = number a) :
    Owned number left (p.use i f) := by
  have hmap : (p.objects.modify i f).map number = p.objects.map number := by
    refine List.ext_getElem? fun j => ?_
    rw [List.getElem?_map, List.getElem?_map, List.getElem?_modify]
    cases p.objects[j]? with
    | none => rfl
    | some a =>
      by_cases hij : i = j
      · simp [hij, hf]
      · simp [hij]
  refine ⟨?_, h.nodup⟩
  show p.opened.Perm ((p.objects.modify i f).map number ++ left)
  rw [hmap]
  exact h.perm

theorem Owned.destroy (h : Owned number left p) (i : ℕ) :
    Owned number left (p.destroy number i) := by
  unfold Pool.destroy
  split
  · rename_i a ha
    obtain ⟨hi, rfl⟩ := List.getElem?_eq_some_iff.mp ha
    refine ⟨?_, h.nodup.erase _⟩
    have hperm : (p.objects.map number).Perm
        (number p.objects[i] :: (p.objects.eraseIdx i).map number) :=
      (List.getElem_cons_eraseIdx_perm hi).symm.map number
    calc (p.opened.erase (number p.objects[i])).Perm
          ((p.objects.map number ++ left).erase (number p.objects[i])) := h.perm.erase _
      List.Perm _ (((number p.objects[i] :: (p.objects.eraseIdx i).map number) ++ left).erase
          (number p.objects[i])) := (hperm.append_right left).erase _
      _ = (p.objects.eraseIdx i).map number ++ left := List.erase_cons_head _ _
  · exact h

/-- No two objects share one, and none has one that was left behind. -/
theorem Owned.nodup_append (h : Owned number left p) : (p.objects.map number ++ left).Nodup :=
  h.perm.nodup_iff.mp h.nodup

end Owned

end Resources
