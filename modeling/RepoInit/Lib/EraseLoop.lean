/-
# Erasing from a vector while looping over it

The loop `for (size_t idx = 0; idx < v.size(); ++idx)` over a vector, whose body
works on `v[idx]` and may erase it and decrement `idx`. The index is unsigned:
it wraps around when the first element is erased, and wraps back before the next
test. The position to erase at is the index cast to `int`.

On a vector of at most `2^31` elements the loop ends without indexing outside it
and has visited every element once, in order (`loop_eq_visitEach`).

Key definitions: `EraseLoop.loop`, `EraseLoop.visitEach`.
Key theorems: `EraseLoop.body_erased`, `EraseLoop.body_kept`, `EraseLoop.loop_eq_visitEach`.
-/
import Mathlib.Algebra.GroupWithZero.Nat
import Mathlib.Data.Int.Notation
import Mathlib.Data.List.Basic

namespace EraseLoop

variable {σ ω : Type*}

/-- How a loop of at most so many turns comes out. -/
inductive Outcome (α : Type*) where
  | ended (result : α)
  /-- The vector was indexed outside its bounds. -/
  | outside
  /-- It is not over yet. -/
  | running

/-- `static_cast<int>(idx)`. -/
def toInt (idx : UInt64) : ℤ := idx.toUInt32.toInt32.toInt

variable (visit : σ → ω → Option σ × ω)

/-- The body of the loop, up to but not including `++idx`: `v[idx]` is visited
and put back, or erased (`none`). No result if a position is outside `v`. -/
def body (idx : UInt64) (v : List σ) (w : ω) : Option (UInt64 × List σ × ω) :=
  match v[idx.toNat]? with
  | none => none
  | some x =>
    match visit x w with
    | (some x', w') => some (idx, v.set idx.toNat x', w')
    | (none, w') =>
      if 0 ≤ toInt idx ∧ toInt idx < v.length then
        some (idx - 1, v.eraseIdx (toInt idx).toNat, w')
      else none

/-- The loop from the test on, for less than the given number of turns. -/
def loop : ℕ → UInt64 → List σ → ω → Outcome (List σ × ω)
  | 0, _, _, _ => .running
  | turns + 1, idx, v, w =>
    if idx.toNat < v.length then
      match body visit idx v w with
      | none => .outside
      | some (idx', v', w') => loop turns (idx' + 1) v' w'
    else .ended (v, w)

/-- Every element once, in order, and those that stay. -/
def visitEach : List σ → ω → List σ × ω
  | [], w => ([], w)
  | x :: v, w =>
    let p := visit x w
    let q := visitEach v p.2
    (p.1.toList ++ q.1, q.2)

/-! ### One turn -/

theorem toInt_of_lt {idx : UInt64} (h : idx.toNat < 2 ^ 31) : toInt idx = idx.toNat := by
  have hmod : idx.toUInt32.toBitVec.toNat = idx.toNat := by
    rw [UInt32.toNat_toBitVec, UInt64.toNat_toUInt32]
    omega
  calc toInt idx = idx.toUInt32.toBitVec.toInt := by
        rw [toInt, Int32.toInt, UInt32.toBitVec_toInt32]
    _ = idx.toUInt32.toBitVec.toNat := BitVec.toInt_eq_toNat_of_lt (by omega)
    _ = idx.toNat := by rw [hmod]

section Turn

variable {visit} {idx : UInt64} {done todo : List σ} {x : σ} {w w' : ω}

theorem body_kept {x' : σ} (hidx : idx.toNat = done.length) (hv : visit x w = (some x', w')) :
    body visit idx (done ++ x :: todo) w = some (idx, done ++ x' :: todo, w') := by
  simp [body, hidx, hv]

/-- The erased position is the index, which is then one less, or the largest
if it was zero. -/
theorem body_erased (hidx : idx.toNat = done.length) (hlt : done.length < 2 ^ 31)
    (hv : visit x w = (none, w')) :
    body visit idx (done ++ x :: todo) w = some (idx - 1, done ++ todo, w') := by
  have hint : toInt idx = done.length := by
    rw [toInt_of_lt (by omega), hidx]
  have hrange : 0 ≤ toInt idx ∧ toInt idx < (done ++ x :: todo).length := by
    rw [hint, List.length_append, List.length_cons]
    omega
  have hget : (done ++ x :: todo)[idx.toNat]? = some x := by simp [hidx]
  simp only [body, hget, hv]
  rw [if_pos hrange, hint, Int.toNat_natCast, List.eraseIdx_append_of_length_le (Nat.le_refl _),
    Nat.sub_self, List.eraseIdx_cons_zero]

/-- Without erasing, the index goes on by one. -/
theorem toNat_succ (hidx : idx.toNat = done.length) (hlt : done.length < 2 ^ 31) :
    (idx + 1).toNat = done.length + 1 := by
  rw [UInt64.toNat_add, hidx]
  show (done.length + 1) % 2 ^ 64 = _
  omega

end Turn

/-! ### The loop -/

/-- **The loop visits every element once, in order.** It takes one turn more
than the vector has elements, the last one for the test alone. -/
theorem loop_eq_visitEach {idx : UInt64} {done : List σ} (todo : List σ) (w : ω)
    (hidx : idx.toNat = done.length) (hlen : (done ++ todo).length ≤ 2 ^ 31) :
    loop visit (todo.length + 1) idx (done ++ todo) w =
      .ended (done ++ (visitEach visit todo w).1, (visitEach visit todo w).2) := by
  induction todo generalizing idx done w with
  | nil => simp [loop, visitEach, hidx]
  | cons x todo ih =>
    have hlt : done.length < 2 ^ 31 := by
      rw [List.length_append, List.length_cons] at hlen
      omega
    have hguard : idx.toNat < (done ++ x :: todo).length := by
      rw [hidx, List.length_append, List.length_cons]
      omega
    rw [List.length_cons, loop, if_pos hguard]
    rcases hv : visit x w with ⟨_ | x', w'⟩
    · rw [body_erased hidx hlt hv]
      have hback : idx - 1 + 1 = idx := UInt64.sub_add_cancel idx 1
      have hrest : (done ++ todo).length ≤ 2 ^ 31 := by
        simp only [List.length_append, List.length_cons] at hlen ⊢
        omega
      simp only [hback, ih w' hidx hrest, visitEach, hv, Option.toList_none, List.nil_append]
    · rw [body_kept hidx hv]
      have hnext : (idx + 1).toNat = (done ++ [x']).length := by
        rw [toNat_succ hidx hlt, List.length_append, List.length_singleton]
      have happ : done ++ x' :: todo = (done ++ [x']) ++ todo := by simp
      have hrest : ((done ++ [x']) ++ todo).length ≤ 2 ^ 31 := by
        simp only [List.length_append, List.length_cons, List.length_nil] at hlen ⊢
        omega
      dsimp only
      rw [happ, ih w' hnext hrest]
      simp only [visitEach, hv, Option.toList_some, List.append_assoc]

end EraseLoop
