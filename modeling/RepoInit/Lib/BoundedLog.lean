/-
# A log that keeps its last entries, without repeats

`push` adds an entry to a log unless it is the last one already, and keeps the
last `limit` entries. It looks at what is kept only, but the last entry is
always kept, so the log is the end of what the whole input collapses to
(`foldl_push`).

Key definitions: `BoundedLog.push`.
Key theorems: `BoundedLog.destutter_concat`, `BoundedLog.foldl_push`.
-/
import Mathlib.Data.List.Destutter
import Mathlib.Data.List.DropRight

namespace BoundedLog

variable {α : Type*}

/-! ### The end of a list -/

theorem rtake_suffix (l : List α) (n : ℕ) : l.rtake n <:+ l := List.drop_suffix _ _

theorem length_rtake_le (l : List α) (n : ℕ) : (l.rtake n).length ≤ n := by
  rw [List.rtake, List.length_drop]
  omega

theorem rtake_of_length_le {l : List α} {n : ℕ} (h : l.length ≤ n) : l.rtake n = l := by
  rw [List.rtake, Nat.sub_eq_zero_of_le h, List.drop_zero]

theorem getLast?_rtake (l : List α) {n : ℕ} (hn : 0 < n) : (l.rtake n).getLast? = l.getLast? := by
  cases l using List.reverseRecOn with
  | nil => simp
  | append_singleton l x =>
    obtain ⟨k, rfl⟩ := Nat.exists_eq_succ_of_ne_zero hn.ne'
    simp

/-- What was dropped before an entry came is dropped after it. -/
theorem rtake_rtake_concat (l : List α) (n : ℕ) (x : α) :
    (l.rtake n ++ [x]).rtake n = (l ++ [x]).rtake n := by
  cases n with
  | zero => simp
  | succ n =>
    rw [List.rtake_concat_succ, List.rtake_concat_succ, List.rtake, List.rtake, List.rtake,
      List.drop_drop, List.length_drop]
    congr 2
    omega

/-! ### Collapsing repeats -/

section Destutter

variable (R : α → α → Prop) [DecidableRel R]

theorem destutter'_concat (l : List α) (a x : α) :
    (l ++ [x]).destutter' R a =
      if ∀ y ∈ (l.destutter' R a).getLast?, R y x then l.destutter' R a ++ [x]
      else l.destutter' R a := by
  induction l generalizing a with
  | nil => by_cases h : R a x <;> simp [h]
  | cons b l ih =>
    by_cases h : R a b
    · have hne : l.destutter' R b ≠ [] := List.destutter'_ne_nil l R
      rw [List.cons_append, List.destutter'_cons_pos _ h, List.destutter'_cons_pos _ h, ih,
        List.getLast?_cons_of_ne_nil hne]
      split <;> rfl
    · rw [List.cons_append, List.destutter'_cons_neg _ h, List.destutter'_cons_neg _ h, ih]

/-- A further entry is kept unless the last one that was kept excludes it. -/
theorem destutter_concat (l : List α) (x : α) :
    (l ++ [x]).destutter R =
      if ∀ y ∈ (l.destutter R).getLast?, R y x then l.destutter R ++ [x] else l.destutter R := by
  cases l with
  | nil => simp
  | cons a l => exact destutter'_concat R l a x

end Destutter

/-! ### The log -/

variable [DecidableEq α]

/-- An entry is added unless it repeats the last one; the last `limit` are
kept. -/
def push (limit : ℕ) (log : List α) (x : α) : List α :=
  if log.getLast? = some x then log else (log ++ [x]).rtake limit

/-- **The log is the end of the collapsed input.** -/
theorem foldl_push {limit : ℕ} (hlimit : 0 < limit) (xs : List α) :
    xs.foldl (push limit) [] = (xs.destutter (· ≠ ·)).rtake limit := by
  induction xs using List.reverseRecOn with
  | nil => simp
  | append_singleton xs x ih =>
    rw [List.foldl_append, List.foldl_cons, List.foldl_nil, ih, push, getLast?_rtake _ hlimit,
      destutter_concat, rtake_rtake_concat]
    by_cases h : (xs.destutter (· ≠ ·)).getLast? = some x
    · rw [if_pos h, if_neg]
      rw [h]
      simp
    · rw [if_neg h, if_pos]
      rintro y hy rfl
      exact h hy

end BoundedLog
