/-
# Reading a text with rubouts

Some elements of a list are rubouts (`er`): read from left to right, each takes
away the last element still there, if there is one. What a list takes of the
text in front of it is its `lead`, the most by which its rubouts outnumber the
other elements in a beginning of it; and an element stands if what is behind it
takes nothing (`rubout_eq_standing`).

Two kinds of rubouts served one after the other, the first also taking away
elements of the second, leave no less than the reading in order
(`standing_sublist`). They leave the same exactly if the lengths agree, which is
counted in `standing_twice_eq_iff`.

Key definitions: `Rubout.rubout`, `Rubout.lead`, `Rubout.standing`, `Rubout.taken`.
Key theorems: `Rubout.rubout_eq_standing`, `Rubout.length_standing`,
`Rubout.standing_sublist`, `Rubout.standing_twice_eq_iff`.
-/
import Mathlib.Data.List.Basic
import Mathlib.Order.Nat

namespace Rubout

variable {α : Type*}

/-! ### One kind -/

section OneKind

variable (er : α → Bool)

/-- Another element is read. -/
def press (line : List α) (c : α) : List α := if er c then line.dropLast else line ++ [c]

/-- The text read from left to right. -/
def rubout (s : List α) : List α := s.foldl (press er) []

/-- How many elements in front of it a list takes away. -/
def lead : List α → ℕ
  | [] => 0
  | c :: s => if er c then lead s + 1 else lead s - 1

/-- The elements that nothing behind them takes away. -/
def standing : List α → List α
  | [] => []
  | c :: s => if er c ∨ 0 < lead er s then standing s else c :: standing s

variable {er}

theorem lead_rub {c : α} (hc : er c = true) (s : List α) : lead er (c :: s) = lead er s + 1 := by
  rw [lead, if_pos hc]

theorem lead_char {c : α} (hc : er c = false) (s : List α) :
    lead er (c :: s) = lead er s - 1 := by
  rw [lead, if_neg (by simp [hc])]

theorem standing_rub {c : α} (hc : er c = true) (s : List α) :
    standing er (c :: s) = standing er s := by
  rw [standing, if_pos (Or.inl hc)]

theorem standing_taken {c : α} {s : List α} (h : 0 < lead er s) :
    standing er (c :: s) = standing er s := by
  rw [standing, if_pos (Or.inr h)]

theorem standing_stays {c : α} (hc : er c = false) {s : List α} (h : lead er s = 0) :
    standing er (c :: s) = c :: standing er s := by
  rw [standing, if_neg (by simp [hc, h])]

/-- An element is a rubout, is taken away, or stands. -/
theorem char_cases (er : α → Bool) (c : α) (s : List α) :
    er c = true ∨ (er c = false ∧ 0 < lead er s) ∨ (er c = false ∧ lead er s = 0) := by
  cases er c with
  | true => exact Or.inl rfl
  | false => exact Or.inr ((Nat.eq_zero_or_pos (lead er s)).symm.imp (fun h => ⟨rfl, h⟩) fun h => ⟨rfl, h⟩)

/-- What is read after a text takes `lead` of it. -/
theorem foldl_press (s line : List α) :
    s.foldl (press er) line = line.take (line.length - lead er s) ++ standing er s := by
  induction s generalizing line with
  | nil => simp [lead, standing]
  | cons c s ih =>
    rw [List.foldl_cons, ih]
    rcases char_cases er c s with hc | ⟨hc, hpos⟩ | ⟨hc, hzero⟩
    · rw [press, if_pos hc, lead_rub hc, standing_rub hc, List.dropLast_eq_take, List.take_take,
        List.length_take]
      congr 2
      omega
    · rw [press, if_neg (by simp [hc]), lead_char hc, standing_taken hpos, List.length_append,
        List.length_singleton, List.take_append_of_le_length (by omega)]
      congr 2
      omega
    · have htake : (line ++ [c]).take ((line ++ [c]).length - 0) = line ++ [c] := by
        rw [Nat.sub_zero, List.take_length]
      rw [press, if_neg (by simp [hc]), lead_char hc, standing_stays hc hzero, hzero, htake]
      simp

/-- **The reading leaves what stands.** -/
theorem rubout_eq_standing (s : List α) : rubout er s = standing er s := by
  rw [rubout, foldl_press]
  simp

theorem countP_add_countP_not (er : α → Bool) (s : List α) :
    s.countP er + s.countP (fun c => !er c) = s.length := by
  simpa using (List.length_eq_countP_add_countP er (l := s)).symm

/-- Every rubout takes something or adds to the lead. -/
theorem length_standing (er : α → Bool) (s : List α) :
    (standing er s).length + s.countP er = s.countP (fun c => !er c) + lead er s := by
  induction s with
  | nil => rfl
  | cons c s ih =>
    rcases char_cases er c s with hc | ⟨hc, hpos⟩ | ⟨hc, hzero⟩
    · rw [standing_rub hc, lead_rub hc, List.countP_cons_of_pos hc,
        List.countP_cons_of_neg (by simp [hc])]
      omega
    · rw [standing_taken hpos, lead_char hc, List.countP_cons_of_neg (by simp [hc]),
        List.countP_cons_of_pos (by simp [hc])]
      omega
    · rw [standing_stays hc hzero, lead_char hc, List.countP_cons_of_neg (by simp [hc]),
        List.countP_cons_of_pos (by simp [hc]), List.length_cons]
      omega

/-- A text without rubouts stands. -/
theorem standing_of_none {s : List α} (h : ∀ c ∈ s, er c = false) :
    standing er s = s ∧ lead er s = 0 := by
  induction s with
  | nil => exact ⟨rfl, rfl⟩
  | cons c s ih =>
    obtain ⟨hs, hl⟩ := ih fun c' hc' => h c' (List.mem_cons_of_mem c hc')
    have hc := h c List.mem_cons_self
    rw [standing_stays hc hl, lead_char hc, hs, hl]
    exact ⟨rfl, rfl⟩

/-- A rubout and the element before it can be crossed out. -/
theorem cross_out {a d : α} (ha : er a = false) (hd : er d = true) (x y : List α) :
    lead er (x ++ a :: d :: y) = lead er (x ++ y) ∧
      standing er (x ++ a :: d :: y) = standing er (x ++ y) := by
  induction x with
  | nil =>
    have hpos : 0 < lead er (d :: y) := by
      rw [lead_rub hd]
      exact Nat.succ_pos _
    rw [List.nil_append, List.nil_append, lead_char ha, lead_rub hd, standing_taken hpos,
      standing_rub hd]
    exact ⟨Nat.add_sub_cancel _ _, rfl⟩
  | cons c x ih =>
    simp only [List.cons_append, lead, standing, ih.1, ih.2]
    exact ⟨trivial, trivial⟩

end OneKind

/-! ### Two kinds, one after the other -/

section TwoKinds

variable (e₁ e₂ : α → Bool)

/-- How many of the second kind the first takes away. -/
def taken : List α → ℕ
  | [] => 0
  | c :: s => (if e₂ c ∧ 0 < lead e₁ s then 1 else 0) + taken s

/-- A rubout of either kind. -/
def either (c : α) : Bool := e₁ c || e₂ c

variable {e₁ e₂}

/-- The two kinds take no more of the text in front than both at once. -/
theorem lead_twice_le (e₁ e₂ : α → Bool) (s : List α) :
    lead e₂ (standing e₁ s) + lead e₁ s ≤ lead (either e₁ e₂) s := by
  induction s with
  | nil => exact Nat.zero_le _
  | cons c s ih =>
    rcases char_cases e₁ c s with hc | ⟨hc, hpos⟩ | ⟨hc, hzero⟩
    · have hboth : either e₁ e₂ c = true := by simp [either, hc]
      rw [standing_rub hc, lead_rub hc, lead_rub hboth]
      omega
    · rw [standing_taken hpos, lead_char hc]
      by_cases h₂ : e₂ c = true
      · have hboth : either e₁ e₂ c = true := by simp [either, h₂]
        rw [lead_rub hboth]
        omega
      · have hboth : either e₁ e₂ c = false := by simp [either, hc, h₂]
        rw [lead_char hboth]
        omega
    · rw [standing_stays hc hzero, lead_char hc]
      by_cases h₂ : e₂ c = true
      · have hboth : either e₁ e₂ c = true := by simp [either, h₂]
        rw [lead_rub hboth, lead_rub h₂]
        omega
      · have hboth : either e₁ e₂ c = false := by simp [either, hc, h₂]
        rw [lead_char hboth, lead_char (by simpa using h₂)]
        omega

/-- Nor do they take more of the text itself. -/
theorem standing_sublist (s : List α) :
    (standing (either e₁ e₂) s).Sublist (standing e₂ (standing e₁ s)) := by
  induction s with
  | nil => exact List.Sublist.refl _
  | cons c s ih =>
    have hlead := lead_twice_le e₁ e₂ s
    by_cases hboth : either e₁ e₂ c = true
    · rw [standing_rub hboth]
      rcases char_cases e₁ c s with hc | ⟨hc, hpos⟩ | ⟨hc, hzero⟩
      · rw [standing_rub hc]
        exact ih
      · rw [standing_taken hpos]
        exact ih
      · have h₂ : e₂ c = true := by simpa [either, hc] using hboth
        rw [standing_stays hc hzero, standing_rub h₂]
        exact ih
    · have hc : e₁ c = false ∧ e₂ c = false := by simpa [either] using hboth
      rcases Nat.eq_zero_or_pos (lead (either e₁ e₂) s) with hzero | hpos
      · -- what stands in the end stood all the time
        rw [standing_stays (by simpa using hboth) hzero, standing_stays hc.1 (by omega),
          standing_stays hc.2 (by omega)]
        exact ih.cons_cons c
      · rw [standing_taken hpos]
        refine ih.trans ?_
        rw [standing]
        split
        · exact List.Sublist.refl _
        · rw [standing]
          split
          · exact List.Sublist.refl _
          · exact List.sublist_cons_self c _

variable (hdisj : ∀ c, e₁ c = true → e₂ c = false)

include hdisj

theorem countP_standing (s : List α) :
    (standing e₁ s).countP e₂ + taken e₁ e₂ s = s.countP e₂ := by
  induction s with
  | nil => rfl
  | cons c s ih =>
    rw [taken]
    rcases char_cases e₁ c s with hc | ⟨hc, hpos⟩ | ⟨hc, hzero⟩
    · rw [standing_rub hc, List.countP_cons_of_neg (by simp [hdisj c hc]),
        if_neg (by simp [hdisj c hc])]
      omega
    · rw [standing_taken hpos]
      by_cases h₂ : e₂ c = true
      · rw [List.countP_cons_of_pos h₂, if_pos ⟨h₂, hpos⟩]
        omega
      · rw [List.countP_cons_of_neg h₂, if_neg fun h => h₂ h.1]
        omega
    · rw [standing_stays hc hzero, if_neg (by omega)]
      by_cases h₂ : e₂ c = true
      · rw [List.countP_cons_of_pos h₂, List.countP_cons_of_pos h₂]
        omega
      · rw [List.countP_cons_of_neg h₂, List.countP_cons_of_neg h₂]
        omega

theorem countP_either (s : List α) :
    s.countP (either e₁ e₂) = s.countP e₁ + s.countP e₂ := by
  induction s with
  | nil => rfl
  | cons c s ih =>
    by_cases h₁ : e₁ c = true
    · have h₂ := hdisj c h₁
      rw [List.countP_cons_of_pos (by simp [either, h₁]), List.countP_cons_of_pos h₁,
        List.countP_cons_of_neg (by simp [h₂]), ih]
      omega
    · by_cases h₂ : e₂ c = true
      · rw [List.countP_cons_of_pos (by simp [either, h₂]), List.countP_cons_of_neg h₁,
          List.countP_cons_of_pos h₂, ih]
        omega
      · rw [List.countP_cons_of_neg (by simp [either, h₁, h₂]), List.countP_cons_of_neg h₁,
          List.countP_cons_of_neg h₂, ih]

/-- **When serving one kind first is the reading in order.** If neither kind
comes to the front of the text, then exactly if the rubouts that find nothing in
the reading are twice those of the second kind that the first takes away. -/
theorem standing_twice_eq_iff {s : List α} (h₁ : lead e₁ s = 0) (h₂ : lead e₂ (standing e₁ s) = 0) :
    standing e₂ (standing e₁ s) = standing (either e₁ e₂) s ↔
      lead (either e₁ e₂) s = 2 * taken e₁ e₂ s := by
  have hlen₁ := length_standing e₁ s
  have hlen₂ := length_standing e₂ (standing e₁ s)
  have hlen := length_standing (either e₁ e₂) s
  have hcount := countP_standing hdisj s
  have hsplit := countP_either hdisj s
  have hiff : (standing e₂ (standing e₁ s)).length = (standing (either e₁ e₂) s).length ↔
      lead (either e₁ e₂) s = 2 * taken e₁ e₂ s := by
    have hall₁ := countP_add_countP_not e₁ s
    have hall₂ := countP_add_countP_not e₂ (standing e₁ s)
    have hall := countP_add_countP_not (either e₁ e₂) s
    omega
  rw [← hiff]
  exact ⟨fun h => by rw [h], fun h => ((standing_sublist s).eq_of_length h.symm).symm⟩

end TwoKinds

end Rubout
