/-
# Steps of a run

A run is the list of its steps, and the beginnings of the list are where it has
been. What is asked of a run step by step, each with the steps before it, can be
asked of the last one and the others (`forall_step_append`), and what every step
keeps holds at every beginning (`prefix_induction`). What steps set and others
reset was set since the last reset (`Since`). Steps that each set a value or leave
it come to the last value set (`foldl_eq_last`).

Key definitions: `Prefixes.Since`.
Key theorems: `Prefixes.forall_step_append`, `Prefixes.prefix_induction`,
`Prefixes.since_append`, `Prefixes.foldl_eq_last`.
-/
import Mathlib.Data.List.Induction

namespace Prefixes

variable {α : Type*} {xs : List α}

theorem forall_step_nil {P : List α → α → Prop} :
    ∀ before x, before ++ [x] <+: ([] : List α) → P before x := by
  intro before x h
  simp at h

theorem forall_step_append {P : List α → α → Prop} {x : α} :
    (∀ before y, before ++ [y] <+: xs ++ [x] → P before y) ↔
      (∀ before y, before ++ [y] <+: xs → P before y) ∧ P xs x := by
  constructor
  · intro h
    exact ⟨fun before y hb => h before y (hb.trans (List.prefix_append xs [x])),
      h xs x List.prefix_rfl⟩
  · rintro ⟨h, hx⟩ before y hb
    rcases List.prefix_concat_iff.mp hb with heq | hb
    · obtain ⟨rfl, hyx⟩ := List.append_inj' heq rfl
      rw [List.singleton_inj.mp hyx]
      exact hx
    · exact h before y hb

theorem forall_prefix_append {P : List α → Prop} {x : α} :
    (∀ before, before <+: xs ++ [x] → P before) ↔
      (∀ before, before <+: xs → P before) ∧ P (xs ++ [x]) := by
  simp only [List.prefix_concat_iff, forall_eq_or_imp]
  exact and_comm

/-- Induction along a run, from the beginning on. -/
theorem prefix_induction {P : List α → Prop} (nil : P [])
    (step : ∀ before x, before ++ [x] <+: xs → P before → P (before ++ [x])) :
    ∀ before, before <+: xs → P before := by
  intro before
  induction before using List.reverseRecOn with
  | nil => exact fun _ => nil
  | append_singleton before x ih =>
    intro hb
    exact step before x hb (ih ((List.prefix_append before [x]).trans hb))

/-- A step of the run was good, and none after it was a reset. -/
def Since (good : List α → α → Prop) (reset : α → Prop) (xs : List α) : Prop :=
  ∃ before x after, xs = before ++ x :: after ∧ good before x ∧ ∀ y ∈ after, ¬ reset y

section Since

variable {good : List α → α → Prop} {reset : α → Prop}

theorem since_nil : ¬ Since good reset [] := by
  rintro ⟨before, x, after, h, -⟩
  simp at h

theorem since_append {x : α} :
    Since good reset (xs ++ [x]) ↔ good xs x ∨ (¬ reset x ∧ Since good reset xs) := by
  constructor
  · rintro ⟨before, y, after, h, hgood, hafter⟩
    induction after using List.reverseRecOn with
    | nil =>
      obtain ⟨rfl, hyx⟩ := List.append_inj' h rfl
      rw [List.singleton_inj.mp hyx]
      exact .inl hgood
    | append_singleton after z _ =>
      have hlast : xs ++ [x] = (before ++ y :: after) ++ [z] := by simp [h]
      obtain ⟨rfl, hxz⟩ := List.append_inj' hlast rfl
      rw [List.singleton_inj.mp hxz]
      exact .inr ⟨hafter z (by simp), before, y, after, rfl, hgood, fun w hw => hafter w (by simp [hw])⟩
  · rintro (hgood | ⟨hx, before, y, after, rfl, hgood, hafter⟩)
    · exact ⟨xs, x, [], rfl, hgood, by simp⟩
    · refine ⟨before, y, after ++ [x], by simp, hgood, fun z hz => ?_⟩
      rcases List.mem_append.mp hz with hz | hz
      · exact hafter z hz
      · rw [List.mem_singleton.mp hz]
        exact hx

end Since

/-- A fold of steps that each set a value or leave it. -/
theorem foldl_eq_last {β : Type*} {f : β → α → β} {sets : α → Option β}
    (h : ∀ b x, f b x = (sets x).getD b) (b : β) (xs : List α) :
    xs.foldl f b = ((xs.filterMap sets).getLast?).getD b := by
  induction xs using List.reverseRecOn with
  | nil => rfl
  | append_singleton xs x ih =>
    rw [List.foldl_append, List.foldl_cons, List.foldl_nil, ih, h]
    cases hx : sets x with
    | none => simp [hx]
    | some value => simp [hx]

end Prefixes
