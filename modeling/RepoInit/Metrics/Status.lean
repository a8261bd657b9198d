/-
# `StatusTracker` and its active gauge

A `TrackStatus` raises the active gauge when it is constructed and lowers it
when it is destroyed. `incrementSuccess` and `incrementFail` lower it too, if it
is positive, so an outcome that is reported inside a scope lowers it a second
time, and the gauge falls below the number of open scopes and stays there
(`active_le_depth`). It counts them exactly if every outcome is reported outside
all scopes (`countsActive_iff`).

Key definitions: `StatusTracker`, `Scopes`, `CountsActive`, `OutcomesOutside`.
Key theorems: `active_le_depth`, `countsActive_iff`.
-/
import Mathlib.Algebra.Ring.Int.Defs
import Mathlib.Data.Int.Notation
import Mathlib.Data.List.Induction
import RepoInit.Lib.Prefixes

namespace RepoInit
namespace Status

/-! ### The tracker -/

structure StatusTracker where
  activeCtr : ℤ := 0
  totalCtr : ℕ := 0
  successCtr : ℕ := 0
  failedCtr : ℕ := 0

def incrementActive (t : StatusTracker) : StatusTracker := { t with activeCtr := t.activeCtr + 1 }

def decrementActive (t : StatusTracker) : StatusTracker := { t with activeCtr := t.activeCtr - 1 }

def incrementSuccess (t : StatusTracker) : StatusTracker :=
  let t := { t with successCtr := t.successCtr + 1, totalCtr := t.totalCtr + 1 }
  if t.activeCtr > 0 then decrementActive t else t

def incrementFail (t : StatusTracker) : StatusTracker :=
  let t := { t with failedCtr := t.failedCtr + 1, totalCtr := t.totalCtr + 1 }
  if t.activeCtr > 0 then decrementActive t else t

/-! ### Scopes -/

/-- A `TrackStatus` is constructed or destroyed, or an outcome is reported. -/
inductive Event where
  | construct
  | destruct
  | success
  | fail
  deriving DecidableEq, Repr

def step (t : StatusTracker) : Event → StatusTracker
  | .construct => incrementActive t
  | .destruct => decrementActive t
  | .success => incrementSuccess t
  | .fail => incrementFail t

def run (events : List Event) : StatusTracker := events.foldl step {}

/-- Nested scopes with outcomes in and around them. -/
inductive Scopes where
  | nil
  | success (rest : Scopes)
  | fail (rest : Scopes)
  | scope (body rest : Scopes)

def Scopes.events : Scopes → List Event
  | .nil => []
  | .success rest => .success :: rest.events
  | .fail rest => .fail :: rest.events
  | .scope body rest => .construct :: (body.events ++ .destruct :: rest.events)

/-- How an event changes the number of open scopes. -/
def Event.depth : Event → ℤ
  | .construct => 1
  | .destruct => -1
  | _ => 0

/-- The number of open scopes. -/
def depth (events : List Event) : ℤ := (events.map Event.depth).sum

def Event.IsOutcome (e : Event) : Prop := e = .success ∨ e = .fail

/-- At every moment the gauge is not negative, and zero if no scope is open, and
the total is the sum of the outcomes. -/
structure CountsActive (events : List Event) : Prop where
  nonneg : ∀ before, before <+: events → 0 ≤ (run before).activeCtr
  zero : ∀ before, before <+: events → depth before = 0 → (run before).activeCtr = 0
  total : ∀ before, before <+: events →
    (run before).totalCtr = (run before).successCtr + (run before).failedCtr

/-- No outcome is reported while a scope is open. -/
def OutcomesOutside (events : List Event) : Prop :=
  ∀ before e, before ++ [e] <+: events → e.IsOutcome → depth before = 0

/-! ### Depths -/

theorem depth_append (events events' : List Event) :
    depth (events ++ events') = depth events + depth events' := by
  simp [depth]

theorem depth_cons (e : Event) (events : List Event) :
    depth (e :: events) = e.depth + depth events := by
  simp [depth]

/-- All scopes are closed in the end. -/
theorem depth_events : ∀ s : Scopes, depth s.events = 0
  | .nil => rfl
  | .success rest => by
    rw [Scopes.events, depth_cons, depth_events rest]
    rfl
  | .fail rest => by
    rw [Scopes.events, depth_cons, depth_events rest]
    rfl
  | .scope body rest => by
    rw [Scopes.events, depth_cons, depth_append, depth_cons, depth_events body, depth_events rest]
    rfl

/-- Only a scope that is open is closed. -/
theorem depth_nonneg (s : Scopes) : ∀ before, before <+: s.events → 0 ≤ depth before := by
  -- an outcome before the rest
  have hcons : ∀ {e : Event} {rest : List Event}, e.depth = 0 →
      (∀ before, before <+: rest → 0 ≤ depth before) →
        ∀ before, before <+: e :: rest → 0 ≤ depth before := by
    intro e rest he ih before h
    rcases List.prefix_cons_iff.mp h with rfl | ⟨before, rfl, hrest⟩
    · decide
    · rw [depth_cons, he, Int.zero_add]
      exact ih before hrest
  induction s with
  | nil =>
    intro before h
    rw [List.prefix_nil.mp h]
    decide
  | success rest ih => exact hcons rfl ih
  | fail rest ih => exact hcons rfl ih
  | scope body rest ihb ihr =>
    intro before h
    rcases List.prefix_cons_iff.mp h with rfl | ⟨before, rfl, hin⟩
    · decide
    · rw [depth_cons]
      show 0 ≤ 1 + depth before
      rcases List.prefix_or_prefix_of_prefix hin (List.prefix_append _ _) with hb | ⟨after, rfl⟩
      · have := ihb before hb
        omega
      · -- the body is over
        rw [depth_append, depth_events]
        rcases List.prefix_cons_iff.mp ((List.prefix_append_right_inj _).mp hin) with
          rfl | ⟨after, rfl, hr⟩
        · decide
        · have := ihr after hr
          rw [depth_cons]
          show 0 ≤ 1 + (0 + (-1 + depth after))
          omega

/-! ### One event -/

theorem run_snoc (before : List Event) (e : Event) : run (before ++ [e]) = step (run before) e := by
  simp [run]

theorem depth_snoc (before : List Event) (e : Event) :
    depth (before ++ [e]) = depth before + e.depth := by
  rw [depth_append, depth_cons]
  show depth before + (e.depth + 0) = _
  omega

/-- An outcome lowers a positive gauge. -/
theorem step_outcome {e : Event} (he : e.IsOutcome) (t : StatusTracker) :
    (step t e).activeCtr = if t.activeCtr > 0 then t.activeCtr - 1 else t.activeCtr := by
  rcases he with rfl | rfl
  · unfold step incrementSuccess decrementActive
    dsimp only
    split <;> rfl
  · unfold step incrementFail decrementActive
    dsimp only
    split <;> rfl

theorem step_scope {e : Event} (he : ¬ e.IsOutcome) (t : StatusTracker) :
    (step t e).activeCtr = t.activeCtr + e.depth := by
  cases e with
  | construct => rfl
  | destruct => rfl
  | success => exact absurd (Or.inl rfl) he
  | fail => exact absurd (Or.inr rfl) he

theorem depth_outcome {e : Event} (he : e.IsOutcome) : e.depth = 0 := by
  rcases he with rfl | rfl <;> rfl

/-- No event raises the gauge more than the number of open scopes. -/
theorem step_active_le (t : StatusTracker) (e : Event) :
    (step t e).activeCtr ≤ t.activeCtr + e.depth := by
  by_cases he : e.IsOutcome
  · rw [step_outcome he, depth_outcome he]
    split <;> omega
  · exact Int.le_of_eq (step_scope he t)

theorem step_total {t : StatusTracker} (h : t.totalCtr = t.successCtr + t.failedCtr) (e : Event) :
    (step t e).totalCtr = (step t e).successCtr + (step t e).failedCtr := by
  cases e with
  | construct => exact h
  | destruct => exact h
  | success =>
    unfold step incrementSuccess decrementActive
    dsimp only
    split <;> dsimp only <;> omega
  | fail =>
    unfold step incrementFail decrementActive
    dsimp only
    split <;> dsimp only <;> omega

/-! ### Runs -/

/-- **The total is right in every run.** -/
theorem run_total (events : List Event) :
    (run events).totalCtr = (run events).successCtr + (run events).failedCtr := by
  induction events using List.reverseRecOn with
  | nil => rfl
  | append_singleton before e ih =>
    rw [run_snoc]
    exact step_total ih e

/-- What the gauge lacks to the number of open scopes it never regains. -/
theorem active_le_depth (before after : List Event) :
    (run (before ++ after)).activeCtr - depth (before ++ after) ≤
      (run before).activeCtr - depth before := by
  induction after using List.reverseRecOn with
  | nil => simp
  | append_singleton after e ih =>
    rw [← List.append_assoc, run_snoc, depth_snoc]
    have hstep := step_active_le (run (before ++ after)) e
    omega

/-- With all outcomes outside, the gauge is the number of open scopes. -/
theorem active_eq_depth {events : List Event} (h : OutcomesOutside events) :
    ∀ before, before <+: events → (run before).activeCtr = depth before := by
  refine Prefixes.prefix_induction rfl fun before e hb hbefore => ?_
  rw [run_snoc, depth_snoc]
  by_cases he : e.IsOutcome
  · have hzero := h before e hb he
    rw [step_outcome he, depth_outcome he, hbefore, hzero]
    decide
  · rw [step_scope he, hbefore]

/-- **The active gauge counts the open scopes** exactly if every outcome is
reported outside all of them. -/
theorem countsActive_iff (s : Scopes) : CountsActive s.events ↔ OutcomesOutside s.events := by
  constructor
  · rintro h before e ⟨after, hafter⟩ he
    have hprefix : before <+: s.events := ⟨[e] ++ after, by rw [← hafter, List.append_assoc]⟩
    have hend := h.zero s.events (List.prefix_refl _) (depth_events s)
    have hnonneg := depth_nonneg s before hprefix
    -- the gauge lacks nothing in the end, so it never did
    have hlater := active_le_depth (before ++ [e]) after
    rw [hafter, hend, depth_events, run_snoc, depth_snoc, step_outcome he, depth_outcome he] at hlater
    have hfirst : (run before).activeCtr - depth before ≤ 0 := active_le_depth [] before
    split at hlater <;> omega
  · intro h
    have hdepth := active_eq_depth h
    refine ⟨?_, ?_, fun before _ => run_total before⟩
    · intro before hbefore
      rw [hdepth before hbefore]
      exact depth_nonneg s before hbefore
    · intro before hbefore hzero
      rw [hdepth before hbefore, hzero]

/-- A success that is reported inside its scope: the gauge ends at -1. -/
theorem successInside_not_countsActive :
    ¬ CountsActive (Scopes.scope (.success .nil) .nil).events := by
  intro h
  have hend := h.nonneg _ (List.prefix_refl _)
  revert hend
  decide

end Status
end RepoInit
