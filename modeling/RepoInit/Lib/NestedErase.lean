/-
# Erasing sequences in passes

Sequences `a b d` that begin alike and end in one of several letters are erased
from a text in passes, a letter each: a pass erases occurrences of its sequence
in any order until none is left. Erasing can bring a sequence of another letter
together, and if that letter's pass is over it stays. This happens exactly if
somewhere in the text a sequence is broken up by one of a later pass
(`passes_clean_iff`).

The proof reads the text once with a stack of the elements not erased yet, each
with a mark for the latest pass that erased something behind it (`scan`). An
erasing step of the first pass does not change the outcome (`scan_erase`), a
text without its sequences needs the pass no more (`scan_next`), and without
passes the scan looks for sequences (`scan_nil`).

Key definitions: `NestedErase.Nested`, `NestedErase.BrokenUp`, `NestedErase.Passes`,
`NestedErase.scan`.
Key theorems: `NestedErase.scan_erase`, `NestedErase.scan_next`, `NestedErase.scan_nil`,
`NestedErase.brokenUp_iff`, `NestedErase.passes_clean_iff`.
-/
import Mathlib.Data.List.Basic
import Mathlib.Data.List.Induction
import Mathlib.Order.Lattice
import Mathlib.Order.Nat

namespace NestedErase

/-! ### Sequences and passes -/

section Sequences

variable {α : Type*} (a b : α) (letters : List α)

/-- Sequences behind each other and within each other. -/
inductive Nested : List α → Prop
  | nil : Nested []
  | seq {u v w : List α} {d : α} (hd : d ∈ letters) (hu : Nested u) (hv : Nested v)
      (hw : Nested w) : Nested (a :: (u ++ b :: (v ++ d :: w)))

/-- A sequence is broken up by sequences, one of them of a later pass. -/
def BrokenUp [DecidableEq α] (s : List α) : Prop :=
  ∃ x u v d y e, s = x ++ a :: (u ++ b :: (v ++ d :: y)) ∧ Nested a b letters u ∧
    Nested a b letters v ∧ d ∈ letters ∧ e ∈ letters ∧ e ∈ u ++ v ∧
      letters.idxOf d < letters.idxOf e

/-- Occurrences of `a b c` are erased, one at a time. -/
inductive Erased (c : α) : List α → List α → Prop
  | refl (s : List α) : Erased c s s
  | erase (x y : List α) {t : List α} (h : Erased c (x ++ y) t) :
      Erased c (x ++ a :: b :: c :: y) t

/-- One pass for each letter of the list, until its sequence does not occur. -/
inductive Passes : List α → List α → List α → Prop
  | nil (s : List α) : Passes [] s s
  | cons {c : α} {L s t r : List α} (h : Erased a b c s t) (hno : ¬ [a, b, c] <:+: t)
      (hrest : Passes L t r) : Passes (c :: L) s r

variable {a b letters}

theorem Nested.append {u w : List α} (hu : Nested a b letters u) (hw : Nested a b letters w) :
    Nested a b letters (u ++ w) := by
  induction hu with
  | nil => exact hw
  | seq hd hu hv hw' _ _ ih =>
    simp only [List.cons_append, List.append_assoc]
    exact .seq hd hu hv ih

/-- What an erasing step leaves is a part of the text, in its order. -/
theorem Erased.sublist {c : α} {s t : List α} (h : Erased a b c s t) : t.Sublist s := by
  induction h with
  | refl s => exact List.Sublist.refl s
  | erase x y h ih =>
    refine ih.trans (List.Sublist.append_left ?_ x)
    exact ((List.sublist_cons_self c y).trans (List.sublist_cons_self b _)).trans
      (List.sublist_cons_self a _)

end Sequences

/-! ### The stack -/

section Stack

variable {α : Type*} {a b : α}

/-- Something was erased behind the top of the stack, in pass `i`. -/
def bump (i : ℕ) : List (α × ℕ) → List (α × ℕ)
  | [] => []
  | (x, m) :: st => (x, max m i) :: st

theorem bump_zero (st : List (α × ℕ)) : bump 0 st = st := by
  cases st with
  | nil => rfl
  | cons p st => simp [bump]

theorem bump_bump (i j : ℕ) (st : List (α × ℕ)) : bump i (bump j st) = bump (max j i) st := by
  cases st with
  | nil => rfl
  | cons p st => simp [bump, max_assoc]

/-- The text read, cut at the elements on the stack; `R` holds of each mark and
the text behind its element. -/
def Reads (R : ℕ → List α → Prop) : List α → List (α × ℕ) → Prop
  | _, [] => True
  | p, (x, m) :: st => ∃ q w, p = q ++ x :: w ∧ R m w ∧ Reads R q st

theorem reads_push {R : ℕ → List α → Prop} (h0 : R 0 []) {p : List α} {st : List (α × ℕ)} (d : α)
    (h : Reads R p st) : Reads R (p ++ [d]) ((d, 0) :: st) :=
  ⟨p, [], rfl, h0, h⟩

/-- The sequence that is erased, with what breaks it up, is behind the top of
the stack that is left. -/
theorem reads_close {R : ℕ → List α → Prop} {i : ℕ} {d : α}
    (hR : ∀ k m n w u v, R k w → R m v → R n u → R (max k i) (w ++ (a :: (u ++ b :: (v ++ [d])))))
    {p : List α} {m n : ℕ} {st : List (α × ℕ)} (h : Reads R p ((b, m) :: (a, n) :: st)) :
    Reads R (p ++ [d]) (bump i st) := by
  obtain ⟨q, v, rfl, hv, q', u, rfl, hu, h⟩ := h
  cases st with
  | nil => trivial
  | cons top st =>
    obtain ⟨x, k⟩ := top
    obtain ⟨q'', w, rfl, hw, h⟩ := h
    exact ⟨q'', w ++ (a :: (u ++ b :: (v ++ [d]))), by simp, hR k m n w u v hw hv hu, h⟩

/-- The marks with a pass less to come. -/
def earlier (st : List (α × ℕ)) : List (α × ℕ) := st.map fun p => (p.1, p.2 - 1)

theorem earlier_bump (i : ℕ) (st : List (α × ℕ)) :
    earlier (bump (i + 1) st) = bump i (earlier st) := by
  cases st with
  | nil => rfl
  | cons p st =>
    have hmax : max p.2 (i + 1) - 1 = max (p.2 - 1) i := by omega
    simp [earlier, bump, hmax]

/-- Nothing was erased behind an element without a mark. -/
def Unmarked (m : ℕ) (w : List α) : Prop := m = 0 → w = []

end Stack

/-! ### The scan -/

section Scan

variable {α : Type*} [DecidableEq α] (a b : α) (letters : List α)

/-- The next element goes on the stack, or ends a sequence on its top. That is
erased if its pass is still to come, and not before those that break it up. -/
def step (L : List α) (st : List (α × ℕ)) (d : α) : Option (List (α × ℕ)) :=
  match st with
  | (y, m) :: (x, n) :: st' =>
    if x = a ∧ y = b ∧ d ∈ letters then
      if d ∈ L ∧ m ≤ L.idxOf d ∧ n ≤ L.idxOf d then some (bump (L.idxOf d) st') else none
    else some ((d, 0) :: st)
  | _ => some ((d, 0) :: st)

/-- `none` if a sequence stays. -/
def scan (L : List α) (st : List (α × ℕ)) (s : List α) : Option (List (α × ℕ)) :=
  s.foldlM (step a b letters L) st

variable {a b letters}

/-- A sequence ends on the top of the stack, or the element goes there, whatever
the passes and the marks. -/
theorem step_cases (a b : α) (letters : List α) (st : List (α × ℕ)) (d : α) :
    (∃ m n st', st = (b, m) :: (a, n) :: st' ∧ d ∈ letters) ∨
      ∀ L (f : α × ℕ → ℕ), step a b letters L (st.map fun p => (p.1, f p)) d =
        some ((d, 0) :: st.map fun p => (p.1, f p)) := by
  match st with
  | [] => exact Or.inr fun _ _ => rfl
  | [_] => exact Or.inr fun _ _ => rfl
  | (y, m) :: (x, n) :: st' =>
    by_cases h : x = a ∧ y = b ∧ d ∈ letters
    · obtain ⟨rfl, rfl, hd⟩ := h
      exact Or.inl ⟨m, n, st', rfl, hd⟩
    · exact Or.inr fun L f => by rw [List.map_cons, List.map_cons, step, if_neg h]

theorem step_cases' (a b : α) (letters L : List α) (st : List (α × ℕ)) (d : α) :
    (∃ m n st', st = (b, m) :: (a, n) :: st' ∧ d ∈ letters) ∨
      step a b letters L st d = some ((d, 0) :: st) := by
  refine (step_cases a b letters st d).imp_right fun h => ?_
  have := h L Prod.snd
  rwa [List.map_id'] at this

theorem step_close (L : List α) {d : α} (hd : d ∈ letters) (m n : ℕ) (st : List (α × ℕ)) :
    step a b letters L ((b, m) :: (a, n) :: st) d =
      if d ∈ L ∧ m ≤ L.idxOf d ∧ n ≤ L.idxOf d then some (bump (L.idxOf d) st) else none := by
  rw [step, if_pos ⟨rfl, rfl, hd⟩]

theorem step_push (L : List α) {d : α} (hd : d ∉ letters) (st : List (α × ℕ)) :
    step a b letters L st d = some ((d, 0) :: st) := by
  rcases step_cases' a b letters L st d with ⟨m, n, st', -, h⟩ | h
  · exact absurd h hd
  · exact h

theorem scan_append (L : List α) (st : List (α × ℕ)) (s t : List α) :
    scan a b letters L st (s ++ t) =
      (scan a b letters L st s).bind fun st' => scan a b letters L st' t := by
  simp [scan]

theorem scan_cons (L : List α) (st : List (α × ℕ)) (d : α) (s : List α) :
    scan a b letters L st (d :: s) =
      (step a b letters L st d).bind fun st' => scan a b letters L st' s := by
  simp [scan]

theorem scan_concat (L : List α) (st : List (α × ℕ)) (s : List α) (d : α) :
    scan a b letters L st (s ++ [d]) =
      (scan a b letters L st s).bind fun st' => step a b letters L st' d := by
  simp [scan]

/-! ### One pass -/

/-- Erasing a sequence of the first pass changes nothing. -/
theorem scan_erase (ha : a ∉ letters) (hb : b ∉ letters) {c : α} (hc : c ∈ letters) (L x y : List α)
    (st : List (α × ℕ)) :
    scan a b letters (c :: L) st (x ++ a :: b :: c :: y) =
      scan a b letters (c :: L) st (x ++ y) := by
  have hseq : ∀ st', scan a b letters (c :: L) st' (a :: b :: c :: y) =
      scan a b letters (c :: L) st' y := by
    intro st'
    rw [scan_cons, step_push _ ha, Option.bind_some, scan_cons, step_push _ hb, Option.bind_some,
      scan_cons, step_close _ hc, if_pos (by simp), Option.bind_some, List.idxOf_cons_self, bump_zero]
  rw [scan_append, scan_append]
  exact congrArg _ (funext hseq)

theorem scan_erased (ha : a ∉ letters) (hb : b ∉ letters) {c : α} (hc : c ∈ letters) (L : List α)
    {s t : List α} (h : Erased a b c s t) :
    scan a b letters (c :: L) [] s = scan a b letters (c :: L) [] t := by
  induction h with
  | refl s => rfl
  | erase x y h ih => rw [scan_erase ha hb hc, ih]

/-- What the scans with and without the first pass have read of a text without
its sequence: both have found a sequence that stays, or both have the same
stack. -/
theorem scan_next_read {c : α} (hc : c ∈ letters) {L : List α} (hcL : c ∉ L) {t : List α}
    (hno : ¬ [a, b, c] <:+: t) :
    (scan a b letters (c :: L) [] t = none ∧ scan a b letters L [] t = none) ∨
      ∃ st, scan a b letters (c :: L) [] t = some st ∧ scan a b letters L [] t = some (earlier st) ∧
        Reads Unmarked t st := by
  induction t using List.reverseRecOn with
  | nil => exact Or.inr ⟨[], rfl, rfl, trivial⟩
  | append_singleton t d ih =>
    rw [scan_concat, scan_concat]
    rcases ih fun h => hno (h.trans (List.prefix_append t [d]).isInfix) with
      ⟨h₁, h₂⟩ | ⟨st, h₁, h₂, hreads⟩
    · rw [h₁, h₂]
      exact Or.inl ⟨rfl, rfl⟩
    · rw [h₁, h₂, Option.bind_some, Option.bind_some]
      rcases step_cases a b letters st d with ⟨m, n, st', rfl, hd⟩ | hpush
      · have hearlier : earlier ((b, m) :: (a, n) :: st') =
            (b, m - 1) :: (a, n - 1) :: earlier st' := rfl
        rw [hearlier, step_close _ hd, step_close _ hd]
        by_cases hdc : d = c
        · -- a sequence of the first pass would be one that nothing breaks up
          subst hdc
          have hmarks : ¬ (m ≤ 0 ∧ n ≤ 0) := by
            rintro ⟨hm, hn⟩
            obtain ⟨q, v, rfl, hv, q', u, rfl, hu, -⟩ := hreads
            rw [hv (Nat.le_zero.mp hm), hu (Nat.le_zero.mp hn)] at hno
            exact hno ⟨q', [], by simp⟩
          left
          rw [if_neg fun h => hmarks (by simpa using h.2), if_neg fun h => hcL h.1]
          exact ⟨rfl, rfl⟩
        · have hidx : (c :: L).idxOf d = L.idxOf d + 1 := by
            rw [List.idxOf_cons_ne _ (Ne.symm hdc)]
          have hiff : (d ∈ c :: L ∧ m ≤ (c :: L).idxOf d ∧ n ≤ (c :: L).idxOf d) ↔
              d ∈ L ∧ m - 1 ≤ L.idxOf d ∧ n - 1 ≤ L.idxOf d := by
            rw [hidx, List.mem_cons, or_iff_right hdc, Nat.sub_le_iff_le_add, Nat.sub_le_iff_le_add]
          by_cases hclose : d ∈ L ∧ m - 1 ≤ L.idxOf d ∧ n - 1 ≤ L.idxOf d
          · right
            rw [if_pos hclose, if_pos (hiff.mpr hclose), hidx]
            refine ⟨_, rfl, by rw [earlier_bump], reads_close ?_ hreads⟩
            intro k _ _ w u v _ _ _ hmark
            have hmax : max k (L.idxOf d + 1) = 0 := hmark
            omega
          · left
            rw [if_neg hclose, if_neg (mt hiff.mp hclose)]
            exact ⟨rfl, rfl⟩
      · right
        have hsame := hpush (c :: L) Prod.snd
        rw [List.map_id'] at hsame
        exact ⟨_, hsame, hpush L fun p => p.2 - 1, reads_push (fun _ => rfl) d hreads⟩

/-- **A pass less.** A text without the sequence of the first pass does not need
it. -/
theorem scan_next {c : α} (hc : c ∈ letters) {L : List α} (hcL : c ∉ L) {t : List α}
    (hno : ¬ [a, b, c] <:+: t) :
    scan a b letters (c :: L) [] t = none ↔ scan a b letters L [] t = none := by
  rcases scan_next_read hc hcL hno with ⟨h₁, h₂⟩ | ⟨st, h₁, h₂, -⟩
  · simp [h₁, h₂]
  · simp [h₁, h₂]

/-- Without passes the stack is the text, or a sequence was found. -/
theorem scan_nil_read (a b : α) (letters t : List α) :
    (scan a b letters [] [] t = none ∧ ∃ d ∈ letters, [a, b, d] <:+: t) ∨
      (scan a b letters [] [] t = some (t.reverse.map fun x => (x, 0)) ∧
        ∀ d ∈ letters, ¬ [a, b, d] <:+: t) := by
  induction t using List.reverseRecOn with
  | nil => exact Or.inr ⟨rfl, by simp⟩
  | append_singleton t d ih =>
    rw [scan_concat]
    rcases ih with ⟨h, e, he, hinfix⟩ | ⟨h, hno⟩
    · rw [h]
      exact Or.inl ⟨rfl, e, he, hinfix.trans (List.prefix_append t [d]).isInfix⟩
    · rw [h, Option.bind_some]
      rcases step_cases' a b letters [] (t.reverse.map fun x => (x, 0)) d with
        ⟨m, n, st', hst, hd⟩ | hpush
      · left
        rw [hst, step_close _ hd, if_neg (by simp)]
        refine ⟨rfl, d, hd, ?_⟩
        obtain ⟨y, r, hr, hy, hst'⟩ := List.map_eq_cons_iff.mp hst
        obtain ⟨x, r', rfl, hx, -⟩ := List.map_eq_cons_iff.mp hst'
        obtain rfl : y = b := congrArg Prod.fst hy
        obtain rfl : x = a := congrArg Prod.fst hx
        have ht : t = r'.reverse ++ [x, y] := by
          rw [← List.reverse_reverse t, hr]
          simp
        exact ⟨r'.reverse, [], by simp [ht]⟩
      · right
        refine ⟨by rw [hpush]; simp, fun e he hinfix => ?_⟩
        rcases List.infix_concat_iff.mp hinfix with ⟨q, hq⟩ | hinfix
        · have happ : (q ++ [a, b]) ++ [e] = t ++ [d] := by simpa using hq
          obtain ⟨rfl, hed⟩ := List.append_inj' happ rfl
          obtain rfl : e = d := by simpa using hed
          simp [step, he] at hpush
        · exact hno e he hinfix

/-! ### All passes -/

/-- A sequence stays if and only if the scan finds that it does. -/
theorem passes_scan (ha : a ∉ letters) (hb : b ∉ letters) {L s r : List α} (hL : ∀ c ∈ L, c ∈ letters)
    (hnodup : L.Nodup) (h : Passes a b L s r) :
    scan a b letters L [] s = none ↔ ∃ d ∈ letters, [a, b, d] <:+: r := by
  induction h with
  | nil s =>
    rcases scan_nil_read a b letters s with ⟨h₁, h₂⟩ | ⟨h₁, h₂⟩
    · simp [h₁, h₂]
    · rw [h₁]
      refine ⟨fun h => by simp at h, fun ⟨d, hd, hinfix⟩ => absurd hinfix (h₂ d hd)⟩
  | @cons c L s t r herase hno _ ih =>
    have hc := hL c List.mem_cons_self
    obtain ⟨hcL, hnodup'⟩ := List.nodup_cons.mp hnodup
    rw [scan_erased ha hb hc L herase, scan_next hc hcL hno]
    exact ih (fun d hd => hL d (List.mem_cons_of_mem c hd)) hnodup'

/-- Reading the text leaves the stack, with a mark on its top for each letter, if
it does not find a sequence that stays. -/
def LeavesStack (a b : α) (letters w : List α) : Prop :=
  ∀ st, scan a b letters letters st w = none ∨
    ∃ i, scan a b letters letters st w = some (bump i st) ∧
      ∀ e ∈ w, e ∈ letters → letters.idxOf e ≤ i

/-- A sequence without its letter, with such texts behind its elements. -/
theorem scan_open (ha : a ∉ letters) (hb : b ∉ letters) {u v : List α}
    (hu : LeavesStack a b letters u) (hv : LeavesStack a b letters v) (st : List (α × ℕ)) :
    scan a b letters letters st (a :: (u ++ b :: v)) = none ∨
      ∃ i j, scan a b letters letters st (a :: (u ++ b :: v)) = some ((b, j) :: (a, i) :: st) ∧
        (∀ e ∈ u, e ∈ letters → letters.idxOf e ≤ i) ∧
        ∀ e ∈ v, e ∈ letters → letters.idxOf e ≤ j := by
  rw [scan_cons, step_push _ ha, Option.bind_some, scan_append]
  rcases hu ((a, 0) :: st) with hu | ⟨i, hu, hui⟩
  · exact Or.inl (by rw [hu, Option.bind_none])
  rw [hu, Option.bind_some, scan_cons, step_push _ hb, Option.bind_some]
  rcases hv ((b, 0) :: bump i ((a, 0) :: st)) with hv | ⟨j, hv, hvj⟩
  · exact Or.inl hv
  · refine Or.inr ⟨i, j, ?_, hui, hvj⟩
    rw [hv]
    simp [bump]

/-- Nested sequences leave the stack. -/
theorem scan_nested (ha : a ∉ letters) (hb : b ∉ letters) {w : List α} (h : Nested a b letters w) :
    LeavesStack a b letters w := by
  induction h with
  | nil =>
    intro st
    exact Or.inr ⟨0, by rw [bump_zero]; rfl, by simp⟩
  | @seq u v w d hd _ _ _ ihu ihv ihw =>
    intro st
    have hsplit : a :: (u ++ b :: (v ++ d :: w)) = a :: (u ++ b :: v) ++ d :: w := by simp
    rw [hsplit, scan_append]
    rcases scan_open ha hb ihu ihv st with hopen | ⟨i, j, hopen, hui, hvj⟩
    · exact Or.inl (by rw [hopen, Option.bind_none])
    rw [hopen, Option.bind_some, scan_cons, step_close _ hd]
    by_cases hin : d ∈ letters ∧ j ≤ letters.idxOf d ∧ i ≤ letters.idxOf d
    · rw [if_pos hin, Option.bind_some]
      rcases ihw (bump (letters.idxOf d) st) with hw | ⟨k, hw, hwk⟩
      · exact Or.inl hw
      · right
        refine ⟨max (letters.idxOf d) k, by rw [hw, bump_bump], fun e he hmem => ?_⟩
        obtain ⟨-, hjd, hid⟩ := hin
        simp only [List.cons_append, List.mem_cons, List.mem_append] at he
        rcases he with rfl | (he | rfl | he) | rfl | he
        · exact absurd hmem ha
        · exact ((hui e he hmem).trans hid).trans (le_max_left _ _)
        · exact absurd hmem hb
        · exact ((hvj e he hmem).trans hjd).trans (le_max_left _ _)
        · exact le_max_left _ _
        · exact (hwk e he hmem).trans (le_max_right _ _)
    · left
      rw [if_neg hin]
      rfl

/-- The text behind an element is nested sequences, and the mark is that of one
of their letters. -/
def Marked (a b : α) (letters : List α) (m : ℕ) (w : List α) : Prop :=
  Nested a b letters w ∧ (m ≠ 0 → ∃ e ∈ w, e ∈ letters ∧ letters.idxOf e = m)

theorem scan_reads {p : List α} {st : List (α × ℕ)} (h : scan a b letters letters [] p = some st) :
    Reads (Marked a b letters) p st := by
  induction p using List.reverseRecOn generalizing st with
  | nil =>
    obtain rfl : [] = st := Option.some.inj h
    trivial
  | append_singleton p d ih =>
    rw [scan_concat] at h
    obtain ⟨st₀, h₀, hstep⟩ := Option.bind_eq_some_iff.mp h
    have hreads := ih h₀
    rcases step_cases' a b letters letters st₀ d with ⟨m, n, st', rfl, hd⟩ | hpush
    · rw [step_close _ hd] at hstep
      split at hstep
      · obtain rfl : bump (letters.idxOf d) st' = st := Option.some.inj hstep
        refine reads_close ?_ hreads
        rintro k m n w u v ⟨hw, hk⟩ ⟨hv, -⟩ ⟨hu, -⟩
        refine ⟨hw.append (.seq hd hu hv .nil), fun hne => ?_⟩
        rcases le_total k (letters.idxOf d) with hle | hle
        · exact ⟨d, by simp, hd, (max_eq_right hle).symm⟩
        · rw [max_eq_left hle] at hne ⊢
          obtain ⟨e, he, hmem, hidx⟩ := hk hne
          exact ⟨e, List.mem_append_left _ he, hmem, hidx⟩
      · cases hstep
    · rw [hpush] at hstep
      obtain rfl : (d, 0) :: st₀ = st := Option.some.inj hstep
      exact reads_push ⟨.nil, fun h => absurd rfl h⟩ d hreads

/-- The scan finds what is broken up by a later pass. -/
theorem brokenUp_iff (ha : a ∉ letters) (hb : b ∉ letters) {s : List α} :
    BrokenUp a b letters s ↔ scan a b letters letters [] s = none := by
  constructor
  · rintro ⟨x, u, v, d, y, e, rfl, hu, hv, hd, he, hmem, hlt⟩
    have hsplit : x ++ a :: (u ++ b :: (v ++ d :: y)) = x ++ (a :: (u ++ b :: v) ++ d :: y) := by simp
    rw [hsplit, scan_append]
    cases scan a b letters letters [] x with
    | none => rfl
    | some st =>
      rw [Option.bind_some, scan_append]
      rcases scan_open ha hb (scan_nested ha hb hu) (scan_nested ha hb hv) st with
        hopen | ⟨i, j, hopen, hui, hvj⟩
      · rw [hopen, Option.bind_none]
      rw [hopen, Option.bind_some, scan_cons, step_close _ hd, if_neg, Option.bind_none]
      rintro ⟨-, hj, hi⟩
      rcases List.mem_append.mp hmem with hmem | hmem
      · exact absurd ((hui e hmem he).trans hi) (Nat.not_le.mpr hlt)
      · exact absurd ((hvj e hmem he).trans hj) (Nat.not_le.mpr hlt)
  · -- the first element at which the scan fails
    intro h
    induction s using List.reverseRecOn with
    | nil => cases h
    | append_singleton s d ih =>
      rw [scan_concat] at h
      cases hs : scan a b letters letters [] s with
      | none =>
        obtain ⟨x, u, v, d', y, e, rfl, hrest⟩ := ih hs
        exact ⟨x, u, v, d', y ++ [d], e, by simp, hrest⟩
      | some st =>
        rw [hs, Option.bind_some] at h
        rcases step_cases' a b letters letters st d with ⟨m, n, st', rfl, hd⟩ | hpush
        · obtain ⟨q, v, rfl, ⟨hv, hvm⟩, q', u, rfl, ⟨hu, hun⟩, -⟩ := scan_reads hs
          rw [step_close _ hd] at h
          have hlate : ¬ (m ≤ letters.idxOf d ∧ n ≤ letters.idxOf d) := by
            intro hle
            rw [if_pos ⟨hd, hle⟩] at h
            cases h
          have hex : ∃ e ∈ u ++ v, e ∈ letters ∧ letters.idxOf d < letters.idxOf e := by
            by_cases hm : m ≤ letters.idxOf d
            · have hn : letters.idxOf d < n := by omega
              obtain ⟨e, he, hmem, hidx⟩ := hun (by omega)
              exact ⟨e, List.mem_append_left v he, hmem, by omega⟩
            · obtain ⟨e, he, hmem, hidx⟩ := hvm (by omega)
              exact ⟨e, List.mem_append_right u he, hmem, by omega⟩
          obtain ⟨e, he, hmem, hlt⟩ := hex
          exact ⟨q', u, v, d, [], e, by simp, hu, hv, hd, hmem, he, hlt⟩
        · rw [hpush] at h
          cases h

/-- **What passes leave.** No sequence is left if and only if none was broken up
by one of a later pass. -/
theorem passes_clean_iff (ha : a ∉ letters) (hb : b ∉ letters) (hnodup : letters.Nodup)
    {s r : List α} (h : Passes a b letters s r) :
    (∀ d ∈ letters, ¬ [a, b, d] <:+: r) ↔ ¬ BrokenUp a b letters s := by
  rw [brokenUp_iff ha hb, passes_scan ha hb (fun _ hc => hc) hnodup h]
  push Not
  rfl

end Scan

end NestedErase
