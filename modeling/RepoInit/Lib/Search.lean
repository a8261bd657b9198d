/-
# Searching and erasing in lists

What `std::string::find`, `find_first_of`, `erase` and `substr` do, over any
type with decidable equality: the position of the first occurrence, or `none`
for `npos`. A search that succeeds splits its list around the first occurrence
(`find_eq_some`, `findElem_eq_some`), and the first occurrence does not depend
on what follows it (`find_append`), so a loop that searches, erases and
searches again can be followed one occurrence at a time.

Key definitions: `Search.find`, `Search.findElem`, `Search.erase`.
Key theorems: `Search.find_eq_some`, `Search.find_eq_none`, `Search.find_append`.
-/
import Mathlib.Data.List.Basic
import Mathlib.Data.List.Infix
import Mathlib.Tactic.Common

namespace Search

variable {α : Type*}

/-- The list without the `n` elements from position `pos` on. -/
def erase (s : List α) (pos n : ℕ) : List α := s.take pos ++ s.drop (pos + n)

theorem erase_append (x m y : List α) : erase (x ++ (m ++ y)) x.length m.length = x ++ y := by
  simp [erase, List.drop_append]

theorem erase_append_cons (x y : List α) (c : α) : erase (x ++ c :: y) x.length 1 = x ++ y :=
  erase_append x [c] y

theorem erase_sublist (s : List α) (pos n : ℕ) : (erase s pos n).Sublist s := by
  conv_rhs => rw [← List.take_append_drop pos s]
  exact (List.Sublist.refl _).append (by
    rw [← List.drop_drop]
    exact List.drop_sublist _ _)

theorem length_erase (s : List α) (pos n : ℕ) (h : pos + n ≤ s.length) :
    (erase s pos n).length + n = s.length := by
  simp only [erase, List.length_append, List.length_take, List.length_drop]
  omega

variable [DecidableEq α]

/-- The position of the first occurrence of the list `p`. -/
def find (p : List α) : List α → Option ℕ
  | [] => if p = [] then some 0 else none
  | x :: s => if p <+: x :: s then some 0 else (find p s).map (· + 1)

/-- The position of the first occurrence of the element `c`. -/
def findElem (c : α) : List α → Option ℕ
  | [] => none
  | x :: s => if x = c then some 0 else (findElem c s).map (· + 1)

/-! ### Elements -/

theorem findElem_eq_none {c : α} : ∀ {s : List α}, findElem c s = none ↔ c ∉ s
  | [] => by simp [findElem]
  | x :: s => by
    by_cases h : x = c
    · simp [findElem, h]
    · simp [findElem, h, findElem_eq_none (s := s), Ne.symm h]

theorem findElem_append {c : α} {x : List α} (y : List α) (h : c ∉ x) :
    findElem c (x ++ c :: y) = some x.length := by
  induction x with
  | nil => simp [findElem]
  | cons a x ih =>
    simp only [List.mem_cons, not_or] at h
    simp [findElem, Ne.symm h.1, ih h.2]

/-- A successful search splits the list at the first occurrence. -/
theorem findElem_eq_some {c : α} {i : ℕ} : ∀ {s : List α}, findElem c s = some i →
    ∃ x y, s = x ++ c :: y ∧ c ∉ x ∧ x.length = i
  | [], h => by simp [findElem] at h
  | a :: s, h => by
    by_cases ha : a = c
    · simp only [findElem, ha, if_true, Option.some.injEq] at h
      exact ⟨[], s, by simp [ha], by simp, h⟩
    · simp only [findElem, ha, if_false, Option.map_eq_some_iff] at h
      obtain ⟨j, hj, rfl⟩ := h
      obtain ⟨x, y, rfl, hx, rfl⟩ := findElem_eq_some hj
      exact ⟨a :: x, y, rfl, by simp [hx, Ne.symm ha], rfl⟩

/-- A search for an element either fails or finds its first occurrence. -/
theorem findElem_cases (c : α) (s : List α) :
    (findElem c s = none ∧ c ∉ s) ∨
      ∃ x y, s = x ++ c :: y ∧ c ∉ x ∧ findElem c s = some x.length := by
  cases h : findElem c s with
  | none => exact Or.inl ⟨rfl, findElem_eq_none.mp h⟩
  | some i =>
    obtain ⟨x, y, hs, hx, hl⟩ := findElem_eq_some h
    exact Or.inr ⟨x, y, hs, hx, by rw [hl]⟩

theorem findElem_lt {c : α} {s : List α} {i : ℕ} (h : findElem c s = some i) : i < s.length := by
  obtain ⟨x, y, rfl, -, rfl⟩ := findElem_eq_some h
  simp

/-! ### Patterns -/

theorem find_eq_none {p : List α} : ∀ {s : List α}, find p s = none ↔ ¬ p <:+: s
  | [] => by simp [find]
  | x :: s => by
    by_cases h : p <+: x :: s
    · simp [find, h, h.isInfix]
    · simp only [find, h, if_false, Option.map_eq_none_iff, find_eq_none (s := s),
        List.infix_cons_iff, false_or]

theorem find_isSome {p s : List α} : (find p s).isSome ↔ p <:+: s := by
  rw [Option.isSome_iff_ne_none, ne_eq, find_eq_none, not_not]

/-- A successful search splits the list at an occurrence, and no other one
starts before it. -/
theorem find_eq_some {p : List α} {i : ℕ} : ∀ {s : List α}, find p s = some i →
    ∃ x y, s = x ++ (p ++ y) ∧ x.length = i
  | [], h => by
    by_cases hp : p = []
    · simp only [find, hp, if_true, Option.some.injEq] at h
      exact ⟨[], [], by simp [hp], h⟩
    · simp [find, hp] at h
  | a :: s, h => by
    by_cases ha : p <+: a :: s
    · simp only [find, ha, if_true, Option.some.injEq] at h
      obtain ⟨y, hy⟩ := ha
      exact ⟨[], y, by simp [hy], h⟩
    · simp only [find, ha, if_false, Option.map_eq_some_iff] at h
      obtain ⟨j, hj, rfl⟩ := h
      obtain ⟨x, y, rfl, rfl⟩ := find_eq_some hj
      exact ⟨a :: x, y, rfl, rfl⟩

theorem find_le {p s : List α} {i : ℕ} (h : find p s = some i) : i + p.length ≤ s.length := by
  obtain ⟨x, y, rfl, rfl⟩ := find_eq_some h
  simp only [List.length_append]
  omega

/-- The first occurrence does not depend on what follows it. -/
theorem find_append {p s : List α} {i : ℕ} (t : List α) (hp : p ≠ []) (h : find p s = some i) :
    find p (s ++ t) = some i := by
  induction s generalizing i with
  | nil => simp [find, hp] at h
  | cons a s ih =>
    by_cases ha : p <+: a :: s
    · have : p <+: a :: (s ++ t) := ha.trans (List.prefix_append (a :: s) t)
      simp only [find, ha, if_true] at h
      simp only [List.cons_append, find, this, if_true, h]
    · simp only [find, ha, if_false, Option.map_eq_some_iff] at h
      obtain ⟨j, hj, rfl⟩ := h
      have hle := find_le hj
      have : ¬ p <+: a :: (s ++ t) := fun hpre =>
        ha (List.prefix_of_prefix_length_le hpre (List.prefix_append (a :: s) t)
          (by simp only [List.length_cons]; omega))
      simp only [List.cons_append, find, this, if_false, ih hj, Option.map_some]

/-- A pattern whose first element does not occur in `x` is found right after
`x`. -/
theorem find_append_head {c : α} {p x : List α} (y : List α) (h : c ∉ x) :
    find (c :: p) (x ++ (c :: p ++ y)) = some x.length := by
  induction x with
  | nil => simp [find]
  | cons a x ih =>
    simp only [List.mem_cons, not_or] at h
    have hn : ¬ (c :: p <+: a :: (x ++ (c :: p ++ y))) := fun hp =>
      h.1 (List.cons_prefix_cons.mp hp).1
    rw [List.cons_append, find, if_neg hn, ih h.2]
    simp

/-- A pattern does not occur where its first element occurs only in an end too
short for it. -/
theorem find_none_of_tail {c : α} {p x t : List α} (h : c ∉ x) (ht : t.length ≤ p.length) :
    find (c :: p) (x ++ t) = none := by
  rw [find_eq_none]
  intro hi
  rcases List.infix_append_iff_ne_nil.mp hi with hx | hx | ⟨a, b, ha, -, hab, hsuf, -⟩
  · exact h (hx.subset List.mem_cons_self)
  · have := hx.length_le
    simp only [List.length_cons] at this
    omega
  · obtain ⟨d, a, rfl⟩ := List.exists_cons_of_ne_nil ha
    obtain rfl : c = d := (List.cons.inj hab).1
    exact h (hsuf.subset List.mem_cons_self)

/-! ### Patterns by their last element -/

omit [DecidableEq α] in
/-- A pattern whose last element is not in what is appended was there before. -/
theorem infix_of_append_last {p x : List α} {z : α} {y : List α} (hz : z ∉ y)
    (h : p ++ [z] <:+: x ++ y) : p ++ [z] <:+: x := by
  induction y using List.reverseRecOn with
  | nil => simpa using h
  | append_singleton y b ih =>
    rw [← List.append_assoc, List.infix_concat_iff] at h
    rcases h with ⟨r, hr⟩ | h
    · rw [← List.append_assoc] at hr
      have hzb : z = b := (List.append_singleton_inj.mp hr).2
      exact absurd (by simp [hzb]) hz
    · exact ih (fun hm => hz (List.mem_append_left _ hm)) h

/-- Behind a text without it, a pattern is found at the end of the text. -/
theorem find_append_last {p x : List α} {z : α} (hz : z ∉ p) (hx : ¬ p ++ [z] <:+: x) :
    find (p ++ [z]) (x ++ (p ++ [z])) = some x.length := by
  cases hf : find (p ++ [z]) (x ++ (p ++ [z])) with
  | none => exact absurd (List.suffix_append x _).isInfix (find_eq_none.mp hf)
  | some i =>
    obtain ⟨a, b, hab, rfl⟩ := find_eq_some hf
    rcases List.eq_nil_or_concat b with rfl | ⟨b, d, rfl⟩
    · have hcancel : x ++ (p ++ [z]) = a ++ (p ++ [z]) := by simpa using hab
      rw [List.append_cancel_right hcancel]
    · have hab : x ++ p ++ [z] = a ++ (p ++ [z] ++ b) ++ [d] := by simpa using hab
      have hinfix : p ++ [z] <:+: x ++ p := by
        rw [(List.append_singleton_inj.mp hab).1]
        exact ⟨a, b, by simp⟩
      exact absurd (infix_of_append_last hz hinfix) hx

end Search
