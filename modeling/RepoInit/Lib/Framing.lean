/-
# Framing a byte stream that arrives in pieces

Two list functions a stream reader is made of: `split p` cuts a buffer at every
occurrence of the terminator `p` and keeps the unterminated rest, and `skip q k`
drops every element that satisfies `q` together with the `k` elements after it,
and keeps such an element with its tail when fewer than `k` follow. Splitting is
the inverse of putting terminators behind lines, if the last element of the
terminator comes in it only once (`split_eq_iff`). Both can be
run on a buffer that grows: `split_append` and `skip_skip_append`. A reader
that appends a piece, skips and splits (`feed`) gives the same lines and the
same rest however the stream is cut (`feed_feed`, `foldl_feed`), if no
terminator can lie in what `skip` keeps pending.

Key definitions: `Framing.split`, `Framing.Splits`, `Framing.skip`,
`Framing.feed`.
Key theorems: `Framing.split_join`, `Framing.split_eq_iff`,
`Framing.split_append`, `Framing.skip_skip_append`, `Framing.feed_feed`,
`Framing.foldl_feed_eq`.
-/
import RepoInit.Lib.Search

namespace Framing

open Search

variable {α : Type*}

/-! ### Skipping -/

/-- The list without the elements that satisfy `q`, each taken out with the
`k` elements after it; one with fewer than `k` after it stays with its tail. -/
def skip (q : α → Bool) (k : ℕ) : List α → List α
  | [] => []
  | x :: s =>
    if q x then if k ≤ s.length then skip q k (s.drop k) else x :: s
    else x :: skip q k s
termination_by s => s.length
decreasing_by
  · simp only [List.length_drop, List.length_cons]; omega
  · simp

variable {q : α → Bool} {k : ℕ}

@[simp] theorem skip_nil : skip q k [] = [] := by rw [skip]

theorem skip_cons_of_not {x : α} (s : List α) (h : q x = false) :
    skip q k (x :: s) = x :: skip q k s := by
  rw [skip]
  simp [h]

theorem skip_cons_of_short {x : α} {s : List α} (h : q x = true) (hs : s.length < k) :
    skip q k (x :: s) = x :: s := by
  rw [skip]
  simp [h, Nat.not_le.mpr hs]

theorem skip_cons_append {x : α} {m : List α} (s : List α) (h : q x = true) (hm : m.length = k) :
    skip q k (x :: (m ++ s)) = skip q k s := by
  rw [skip]
  simp [h, ← hm]

theorem skip_append {x : List α} (s : List α) (h : ∀ c ∈ x, q c = false) :
    skip q k (x ++ s) = x ++ skip q k s := by
  induction x with
  | nil => rfl
  | cons c x ih =>
    rw [List.cons_append, skip_cons_of_not _ (h c List.mem_cons_self),
      ih fun d hd => h d (List.mem_cons_of_mem _ hd), List.cons_append]

/-- What `skip` leaves: elements that do not satisfy `q`, then nothing or a
pending element that does, with fewer than `k` elements after it. -/
def Pending (q : α → Bool) (k : ℕ) (v : List α) : Prop :=
  v = [] ∨ ∃ x t, v = x :: t ∧ q x = true ∧ t.length < k

theorem skip_eq (q : α → Bool) (k : ℕ) : ∀ s : List α,
    ∃ u v, skip q k s = u ++ v ∧ (∀ c ∈ u, q c = false) ∧ Pending q k v
  | [] => ⟨[], [], by simp, by simp, Or.inl rfl⟩
  | x :: s => by
    by_cases hx : q x = true
    · by_cases hs : k ≤ s.length
      · obtain ⟨u, v, h, hu, hv⟩ := skip_eq q k (s.drop k)
        refine ⟨u, v, ?_, hu, hv⟩
        rw [← h, skip]
        simp [hx, hs]
      · have hs' : s.length < k := Nat.lt_of_not_le hs
        exact ⟨[], x :: s, skip_cons_of_short hx hs', by simp, Or.inr ⟨x, s, rfl, hx, hs'⟩⟩
    · have hx' : q x = false := by simpa using hx
      obtain ⟨u, v, h, hu, hv⟩ := skip_eq q k s
      refine ⟨x :: u, v, by rw [skip_cons_of_not s hx', h]; rfl, ?_, hv⟩
      intro c hc
      rcases List.mem_cons.mp hc with rfl | hc
      · exact hx'
      · exact hu c hc
termination_by s => s.length
decreasing_by
  · simp only [List.length_drop, List.length_cons]; omega
  · simp

theorem skip_sublist (s : List α) : (skip q k s).Sublist s := by
  fun_induction skip q k s with
  | case1 => exact List.Sublist.refl _
  | case2 x s hx hs ih =>
    exact (ih.trans (List.drop_sublist k s)).trans (List.sublist_cons_self x s)
  | case3 x s hx hs => exact List.Sublist.refl _
  | case4 x s hx ih => exact ih.cons_cons x

/-- **Skipping can be resumed**: skipping what was skipped, with more behind
it, is skipping the whole. -/
theorem skip_skip_append : ∀ a b : List α, skip q k (skip q k a ++ b) = skip q k (a ++ b)
  | [], b => by simp
  | x :: s, b => by
    by_cases hx : q x = true
    · by_cases hs : k ≤ s.length
      · have hlen : (s.take k).length = k := by simp [hs]
        have hcut : skip q k (x :: s) = skip q k (s.drop k) := by
          conv_lhs => rw [← List.take_append_drop k s]
          exact skip_cons_append _ hx hlen
        have hcut' : skip q k (x :: (s ++ b)) = skip q k (s.drop k ++ b) := by
          conv_lhs => rw [← List.take_append_drop k s, List.append_assoc]
          exact skip_cons_append _ hx hlen
        rw [hcut, List.cons_append, hcut', skip_skip_append (s.drop k) b]
      · rw [skip_cons_of_short hx (Nat.lt_of_not_le hs)]
    · have hx' : q x = false := by simpa using hx
      rw [skip_cons_of_not s hx', List.cons_append, skip_cons_of_not _ hx', List.cons_append,
        skip_cons_of_not _ hx', skip_skip_append s b]
termination_by a => a.length
decreasing_by
  · simp only [List.length_drop, List.length_cons]; omega
  · simp

/-! ### What stays pending under editing -/

/-- An element that satisfies `q` has fewer than `k` elements after it. -/
def Trailing (q : α → Bool) (k : ℕ) (s : List α) : Prop :=
  ∀ x t, q x = true → x :: t <:+ s → t.length < k

theorem trailing_of_none {s : List α} (h : ∀ c ∈ s, q c = false) : Trailing q k s := by
  intro x t hx ht
  have := h x (ht.subset List.mem_cons_self)
  simp [this] at hx

theorem Trailing.suffix {s t : List α} (h : Trailing q k s) (ht : t <:+ s) : Trailing q k t :=
  fun x r hx hr => h x r hx (hr.trans ht)

/-- A suffix of an append lies in the second list, or reaches into the first. -/
theorem suffix_append_cases {z x y : List α} (h : z <:+ x ++ y) :
    z <:+ y ∨ ∃ z', z = z' ++ y ∧ z' <:+ x := by
  obtain ⟨r, hr⟩ := h
  rcases List.append_eq_append_iff.mp hr with ⟨a, rfl, rfl⟩ | ⟨a, rfl, rfl⟩
  · exact Or.inr ⟨a, rfl, List.suffix_append r a⟩
  · exact Or.inl (List.suffix_append a z)

theorem Trailing.append_left {s : List α} (h : Trailing q k s) (u : List α)
    (hu : ∀ c ∈ u, q c = false) : Trailing q k (u ++ s) := by
  intro x t hx ht
  rcases suffix_append_cases ht with ht | ⟨z, hz, hzu⟩
  · exact h x t hx ht
  · cases z with
    | nil => exact h x t hx (by rw [hz]; exact List.suffix_rfl)
    | cons c z =>
      have hc : x = c := (List.cons.inj hz).1
      have := hu c (hzu.subset List.mem_cons_self)
      simp [hc, this] at hx

/-- Taking out a piece leaves no more behind an element than there was. -/
theorem Trailing.drop_middle {x m y : List α} (h : Trailing q k (x ++ (m ++ y))) :
    Trailing q k (x ++ y) := by
  intro c t hc ht
  rcases suffix_append_cases ht with ht | ⟨z, hz, hzx⟩
  · exact h c t hc (ht.trans ((List.suffix_append m y).trans (List.suffix_append x _)))
  · cases z with
    | nil =>
      refine h c t hc ?_
      rw [hz, List.nil_append]
      exact (List.suffix_append m y).trans (List.suffix_append x _)
    | cons d z =>
      rw [List.cons_append, List.cons.injEq] at hz
      obtain ⟨rfl, rfl⟩ := hz
      obtain ⟨r, rfl⟩ := hzx
      have := h c (z ++ (m ++ y)) hc ⟨r, by simp⟩
      simp only [List.length_append] at this ⊢
      omega

theorem Trailing.erase {s : List α} (h : Trailing q k s) (pos n : ℕ) :
    Trailing q k (erase s pos n) := by
  have hs : s = s.take pos ++ ((s.drop pos).take n ++ s.drop (pos + n)) := by
    rw [← List.drop_drop, List.take_append_drop, List.take_append_drop]
  rw [hs] at h
  exact h.drop_middle

theorem trailing_skip (s : List α) : Trailing q k (skip q k s) := by
  obtain ⟨u, v, h, hu, hv⟩ := skip_eq q k s
  rw [h]
  refine Trailing.append_left ?_ u hu
  rcases hv with rfl | ⟨x, t, rfl, -, ht⟩
  · exact trailing_of_none (by simp)
  · intro y r _ hr
    have := hr.length_le
    simp only [List.length_cons] at this
    omega

/-! ### Splitting -/

variable {p : List α}

/-- The text a list of terminated lines takes up. -/
def terminated (p : List α) (ls : List (List α)) : List α := (ls.map (· ++ p)).flatten

@[simp] theorem terminated_nil : terminated p [] = [] := rfl

@[simp] theorem terminated_cons (l : List α) (ls : List (List α)) :
    terminated p (l :: ls) = l ++ (p ++ terminated p ls) := by
  simp [terminated]

variable [DecidableEq α]

/-- The pieces of `s` that the terminator `p` ends, without it, and the rest. -/
def split (p : List α) (s : List α) : List (List α) × List α :=
  match _h : find p s with
  | none => ([], s)
  | some i =>
    if p = [] then ([], s)
    else (s.take i :: (split p (s.drop (i + p.length))).1, (split p (s.drop (i + p.length))).2)
termination_by s.length
decreasing_by
  all_goals
    have h1 := find_le _h
    have h2 : 0 < p.length := List.length_pos_iff.mpr (by assumption)
    simp only [List.length_drop]
    omega

theorem split_of_none {s : List α} (h : find p s = none) : split p s = ([], s) := by
  rw [split]
  split
  · rfl
  · simp_all

theorem split_of_some {s : List α} {i : ℕ} (hp : p ≠ []) (h : find p s = some i) :
    split p s = (s.take i :: (split p (s.drop (i + p.length))).1,
      (split p (s.drop (i + p.length))).2) := by
  conv_lhs => rw [split]
  split
  · simp_all
  · rename_i j hj
    obtain rfl : j = i := by simpa [h] using hj.symm
    rw [if_neg hp]

theorem split_of_find {x y : List α} (hp : p ≠ []) (h : find p (x ++ (p ++ y)) = some x.length) :
    split p (x ++ (p ++ y)) = (x :: (split p y).1, (split p y).2) := by
  have hd : (x ++ (p ++ y)).drop (x.length + p.length) = y := by
    rw [← List.append_assoc, ← List.length_append, List.drop_left]
  rw [split_of_some hp h, hd, List.take_left]

/-- What splitting a list does, one occurrence of the terminator at a time. -/
theorem split_induction {motive : List α → Prop} (hp : p ≠ [])
    (rest : ∀ s, find p s = none → motive s)
    (line : ∀ x y, find p (x ++ (p ++ y)) = some x.length → motive y → motive (x ++ (p ++ y)))
    (s : List α) : motive s := by
  induction h : s.length using Nat.strongRecOn generalizing s with
  | _ n ih =>
    cases hf : find p s with
    | none => exact rest s hf
    | some i =>
      obtain ⟨x, y, rfl, rfl⟩ := find_eq_some hf
      refine line x y hf (ih y.length ?_ y rfl)
      have := List.length_pos_iff.mpr hp
      simp only [List.length_append] at h
      omega

/-- **Splitting loses nothing.** -/
theorem split_join (hp : p ≠ []) (s : List α) : terminated p (split p s).1 ++ (split p s).2 = s := by
  induction s using split_induction hp with
  | rest s h => simp [split_of_none h]
  | line x y h ih => simp [split_of_find hp h, ih]

theorem split_rest (hp : p ≠ []) (s : List α) : find p (split p s).2 = none := by
  induction s using split_induction hp with
  | rest s h => rw [split_of_none h]; exact h
  | line x y h ih => rw [split_of_find hp h]; exact ih

theorem split_lines (hp : p ≠ []) (s : List α) : ∀ l ∈ (split p s).1, find p l = none := by
  induction s using split_induction hp with
  | rest s h => simp [split_of_none h]
  | line x y h ih =>
    rw [split_of_find hp h]
    intro l hl
    rcases List.mem_cons.mp hl with rfl | hl
    · cases hf : find p l with
      | none => rfl
      | some i =>
        have h1 := find_append (p ++ y) hp hf
        have h2 := find_le hf
        have h3 := List.length_pos_iff.mpr hp
        rw [h] at h1
        obtain rfl := Option.some.inj h1
        omega
    · exact ih l hl

/-- A line stands in its buffer in front of a terminator. -/
theorem split_mem (hp : p ≠ []) (s : List α) :
    ∀ l ∈ (split p s).1, ∃ a b, s = a ++ (l ++ (p ++ b)) := by
  induction s using split_induction hp with
  | rest s h => simp [split_of_none h]
  | line x y h ih =>
    rw [split_of_find hp h]
    intro l hl
    rcases List.mem_cons.mp hl with rfl | hl
    · exact ⟨[], y, rfl⟩
    · obtain ⟨a, b, rfl⟩ := ih l hl
      exact ⟨x ++ (p ++ a), b, by simp⟩

theorem split_rest_suffix (hp : p ≠ []) (s : List α) : (split p s).2 <:+ s :=
  ⟨_, split_join hp s⟩

/-- What may only trail in a buffer does not get into a line. -/
theorem Trailing.not_mem_split {q : α → Bool} {k : ℕ} {s : List α} (h : Trailing q k s)
    (hp : p ≠ []) (hk : k ≤ p.length) : ∀ l ∈ (split p s).1, ∀ c ∈ l, q c = false := by
  intro l hl c hc
  obtain ⟨a, b, rfl⟩ := split_mem hp s l hl
  obtain ⟨l₁, l₂, rfl⟩ := List.append_of_mem hc
  by_contra hq
  have := h c (l₂ ++ (p ++ b)) (by simpa using hq) ⟨a ++ l₁, by simp⟩
  simp only [List.length_append] at this
  omega

/-- **Splitting can be resumed**: splitting the rest with more behind it gives
the lines and the rest that splitting the whole gives. -/
theorem split_append (hp : p ≠ []) (s t : List α) :
    split p (s ++ t) =
      ((split p s).1 ++ (split p ((split p s).2 ++ t)).1, (split p ((split p s).2 ++ t)).2) := by
  induction s using split_induction hp with
  | rest s h => simp [split_of_none h]
  | line x y h ih =>
    have h' := find_append t hp h
    rw [List.append_assoc, List.append_assoc] at h' ⊢
    rw [split_of_find hp h', split_of_find hp h, ih]
    simp

/-- What splitting is for: the lines with their terminators and the rest make up
the text, and the terminator is in none of them. -/
structure Splits (p s : List α) (ls : List (List α)) (rest : List α) : Prop where
  join : terminated p ls ++ rest = s
  lines : ∀ l ∈ ls, ¬ p <:+: l
  rest : ¬ p <:+: rest

theorem splits_split (hp : p ≠ []) (s : List α) : Splits p s (split p s).1 (split p s).2 where
  join := split_join hp s
  lines := fun l hl => find_eq_none.mp (split_lines hp s l hl)
  rest := find_eq_none.mp (split_rest hp s)

section Terminator

variable {z : α}

/-- A terminator whose last element it has only once does not reach into the
line in front of it. -/
theorem find_terminator (hz : z ∉ p) {x : List α} (hx : ¬ p ++ [z] <:+: x) (y : List α) :
    find (p ++ [z]) (x ++ (p ++ [z] ++ y)) = some x.length := by
  have h := find_append y (by simp) (find_append_last hz hx)
  rwa [List.append_assoc] at h

/-- **Splitting gives terminated lines back**, and the rest behind them. -/
theorem split_terminated (hz : z ∉ p) {ls : List (List α)} {rest : List α}
    (hls : ∀ l ∈ ls, ¬ p ++ [z] <:+: l) (hrest : ¬ p ++ [z] <:+: rest) :
    split (p ++ [z]) (terminated (p ++ [z]) ls ++ rest) = (ls, rest) := by
  induction ls with
  | nil => exact split_of_none (find_eq_none.mpr hrest)
  | cons l ls ih =>
    have hfind := find_terminator hz (hls l List.mem_cons_self) (terminated (p ++ [z]) ls ++ rest)
    have hih := ih fun l' hl => hls l' (List.mem_cons_of_mem _ hl)
    rw [terminated_cons, List.append_assoc, List.append_assoc (p ++ [z]),
      split_of_find (by simp) hfind, hih]

/-- So there is one way to split a text. -/
theorem split_eq_iff (hz : z ∉ p) {s rest : List α} {ls : List (List α)} :
    split (p ++ [z]) s = (ls, rest) ↔ Splits (p ++ [z]) s ls rest := by
  constructor
  · intro h
    have hsplits := splits_split (p := p ++ [z]) (by simp) s
    rwa [h] at hsplits
  · rintro ⟨rfl, hls, hrest⟩
    exact split_terminated hz hls hrest

end Terminator

/-! ### Feeding pieces -/

/-- One read of a stream: the piece goes behind the rest, `skip` runs over it
all, and the complete lines are cut off. -/
def feed (q : α → Bool) (k : ℕ) (p : List α) (st : List (List α) × List α) (piece : List α) :
    List (List α) × List α :=
  (st.1 ++ (split p (skip q k (st.2 ++ piece))).1, (split p (skip q k (st.2 ++ piece))).2)

/-- A terminator cannot reach into what `skip` keeps pending. -/
theorem split_pending (hp : p ≠ []) (hq : ∀ c ∈ p, q c = false) (hk : k ≤ p.length)
    {v : List α} (hv : Pending q k v) (u : List α) :
    split p (u ++ v) = ((split p u).1, (split p u).2 ++ v) := by
  have hr := split_rest hp u
  rw [split_append hp, split_of_none (s := (split p u).2 ++ v), List.append_nil]
  rcases hv with rfl | ⟨x, t, rfl, hx, ht⟩
  · simpa using hr
  · rw [find_eq_none] at hr ⊢
    intro hi
    rcases List.infix_append_iff_ne_nil.mp hi with h | h | ⟨a, b, ha, hb, rfl, -, hpre⟩
    · exact hr h
    · have := h.length_le
      simp only [List.length_cons] at this
      have hxp : x ∉ p := fun hm => by simp [hq x hm] at hx
      have hpt : p <:+: t := by
        rcases List.infix_cons_iff.mp h with h | h
        · cases p with
          | nil => exact absurd rfl hp
          | cons c p => exact absurd (List.cons_prefix_cons.mp h).1 (fun e => hxp (by simp [e]))
        · exact h
      have := hpt.length_le
      omega
    · obtain ⟨c, b, rfl⟩ := List.exists_cons_of_ne_nil hb
      have hc : c = x := (List.cons_prefix_cons.mp hpre).1
      have := hq c (by simp)
      simp [hc, hx] at this

/-- **A read can be cut in two.** -/
theorem feed_feed (hp : p ≠ []) (hq : ∀ c ∈ p, q c = false) (hk : k ≤ p.length)
    (st : List (List α) × List α) (a b : List α) :
    feed q k p (feed q k p st a) b = feed q k p st (a ++ b) := by
  obtain ⟨u, v, huv, hu, hv⟩ := skip_eq q k (st.2 ++ a)
  have hrest : ∀ c ∈ (split p u).2, q c = false := fun c hc => by
    refine hu c ?_
    rw [← split_join hp u]
    exact List.mem_append_right _ hc
  have h1 : skip q k (st.2 ++ (a ++ b)) = u ++ skip q k (v ++ b) := by
    rw [← List.append_assoc, ← skip_skip_append, huv, List.append_assoc, skip_append _ hu]
  have h2 : skip q k ((split p u).2 ++ (v ++ b)) = (split p u).2 ++ skip q k (v ++ b) :=
    skip_append _ hrest
  simp only [feed, huv, split_pending hp hq hk hv, h1, h2, split_append hp u, List.append_assoc]

/-- **The cut of a stream into pieces does not matter.** -/
theorem foldl_feed (hp : p ≠ []) (hq : ∀ c ∈ p, q c = false) (hk : k ≤ p.length)
    (st : List (List α) × List α) (a : List α) (pieces : List (List α)) :
    (a :: pieces).foldl (feed q k p) st = feed q k p st (a :: pieces).flatten := by
  induction pieces generalizing a with
  | nil => simp
  | cons b pieces ih =>
    have := ih (a ++ b)
    simp only [List.foldl_cons, List.flatten_cons, List.append_assoc] at this ⊢
    rw [feed_feed hp hq hk]
    exact this

/-- Two ways of cutting one stream into non-empty pieces end alike. -/
theorem foldl_feed_eq (hp : p ≠ []) (hq : ∀ c ∈ p, q c = false) (hk : k ≤ p.length)
    (st : List (List α) × List α) {as bs : List (List α)} (ha : ∀ a ∈ as, a ≠ [])
    (hb : ∀ b ∈ bs, b ≠ []) (h : as.flatten = bs.flatten) :
    as.foldl (feed q k p) st = bs.foldl (feed q k p) st := by
  cases as with
  | nil =>
    cases bs with
    | nil => rfl
    | cons b bs => simp [hb b List.mem_cons_self] at h
  | cons a as =>
    cases bs with
    | nil => simp [ha a List.mem_cons_self] at h
    | cons b bs => rw [foldl_feed hp hq hk, foldl_feed hp hq hk, h]

end Framing
