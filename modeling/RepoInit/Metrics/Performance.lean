/-
# `PerformanceTracker` and the extremes of processing time

A tracker measures from its last `startTimer` and keeps the largest and the
smallest measurement in two gauges; `BaseServerStats` does the same with the
times it is given. The smallest starts at `INT_MAX` nanoseconds, a little over
two seconds, so it is right exactly if one of the durations is not longer
(`extremes_iff`). The start time is the tracker's, not the guard's: a
`TrackPerformance` observes its own lifetime exactly if the guard that was
constructed last read the same time as it (`observesOwn_iff`).

Key definitions: `PerformanceTracker`, `HasExtremes`, `GuardEvent`, `ObservesOwn`.
Key theorems: `extremes_iff`, `observesOwn_iff`.
-/
import Mathlib.Data.List.Induction
import RepoInit.BaseServerStats
import RepoInit.Lib.Extremes

namespace RepoInit
namespace Performance

open Extremes

/-! ### The tracker -/

/-- A gauge is its value and a summary the list of its observations, newest
first. Clock readings are in nanoseconds. -/
structure PerformanceTracker where
  startTime : ℤ := 0
  perfTiming : List ℤ := []
  maxTiming : ℤ := 0
  minTiming : ℤ := INT_MAX

/-- `now` is the reading of the clock. -/
def startTimer (now : ℤ) (t : PerformanceTracker) : PerformanceTracker := { t with startTime := now }

/-- What was measured, and the tracker that took note of it. -/
def endTimer (now : ℤ) (t : PerformanceTracker) : ℤ × PerformanceTracker :=
  let val := now - t.startTime
  let t := { t with perfTiming := val :: t.perfTiming }
  let t := if val < t.minTiming then { t with minTiming := val } else t
  let t := if val > t.maxTiming then { t with maxTiming := val } else t
  (val, t)

theorem endTimer_eq (now : ℤ) (t : PerformanceTracker) : (endTimer now t).2 =
    { startTime := t.startTime
      perfTiming := (now - t.startTime) :: t.perfTiming
      maxTiming := max t.maxTiming (now - t.startTime)
      minTiming := min t.minTiming (now - t.startTime) } := by
  unfold endTimer
  dsimp only
  split_ifs with h₁ h₂ h₂ <;> dsimp only at h₂ <;>
    simp only [PerformanceTracker.mk.injEq, true_and] <;> omega

/-! ### Extremes -/

/-- The gauges hold the largest and the smallest of the durations. -/
structure HasExtremes (durations : List ℤ) (maximum minimum : ℤ) : Prop where
  greatest : IsGreatest {d | d ∈ durations} maximum
  least : IsLeast {d | d ∈ durations} minimum

/-- A measurement: the clock at its start, and how long it took. -/
def measure (t : PerformanceTracker) (m : ℤ × ℤ) : PerformanceTracker :=
  (endTimer (m.1 + m.2) (startTimer m.1 t)).2

def measured (measurements : List (ℤ × ℤ)) : PerformanceTracker := measurements.foldl measure {}

/-- The statistics after calls with these counts and processing times. -/
def consumed (calls : List (ℕ × ℕ × ℤ)) : BaseServerStats :=
  calls.foldl (fun st c => st.consumeBaseStats c.1 c.2.1 c.2.2) {}

theorem foldl_measure (measurements : List (ℤ × ℤ)) (t : PerformanceTracker) :
    (measurements.foldl measure t).maxTiming = (measurements.map (·.2)).foldl max t.maxTiming ∧
      (measurements.foldl measure t).minTiming = (measurements.map (·.2)).foldl min t.minTiming := by
  induction measurements generalizing t with
  | nil => exact ⟨rfl, rfl⟩
  | cons m measurements ih =>
    have hval : m.1 + m.2 - m.1 = m.2 := by omega
    have hmax : (measure t m).maxTiming = max t.maxTiming m.2 := by
      simp [measure, endTimer_eq, startTimer, hval]
    have hmin : (measure t m).minTiming = min t.minTiming m.2 := by
      simp [measure, endTimer_eq, startTimer, hval]
    rw [List.foldl_cons, List.map_cons, List.foldl_cons, List.foldl_cons, ← hmax, ← hmin]
    exact ih (measure t m)

theorem foldl_consume (calls : List (ℕ × ℕ × ℤ)) (st : BaseServerStats)
    (hpos : ∀ d ∈ calls.map (·.2.2), 0 < d) :
    (calls.foldl (fun st c => st.consumeBaseStats c.1 c.2.1 c.2.2) st).maxProcessingTime =
        (calls.map (·.2.2)).foldl max st.maxProcessingTime ∧
      (calls.foldl (fun st c => st.consumeBaseStats c.1 c.2.1 c.2.2) st).minProcessingTime =
        (calls.map (·.2.2)).foldl min st.minProcessingTime := by
  induction calls generalizing st with
  | nil => exact ⟨rfl, rfl⟩
  | cons c calls ih =>
    have hc : c.2.2 > 0 := hpos _ (by simp)
    have hstep : (st.consumeBaseStats c.1 c.2.1 c.2.2).maxProcessingTime =
          max st.maxProcessingTime c.2.2 ∧
        (st.consumeBaseStats c.1 c.2.1 c.2.2).minProcessingTime =
          min st.minProcessingTime c.2.2 := by
      unfold BaseServerStats.consumeBaseStats
      dsimp only
      rw [if_pos hc]
      exact ⟨rfl, rfl⟩
    rw [List.foldl_cons, List.map_cons, List.foldl_cons, List.foldl_cons, ← hstep.1, ← hstep.2]
    exact ih _ fun d hd => hpos d (by simp at hd ⊢; exact Or.inr hd)

/-- Gauges that start at `0` and `INT_MAX`, over positive durations. -/
theorem hasExtremes_iff {durations : List ℤ} (hne : durations ≠ []) (hpos : ∀ d ∈ durations, 0 < d) :
    HasExtremes durations (durations.foldl max 0) (durations.foldl min INT_MAX) ↔
      ∃ d ∈ durations, d ≤ INT_MAX := by
  constructor
  · intro h
    exact (isLeast_foldl_min_iff _ _).mp h.least
  · intro h
    obtain ⟨d, hd⟩ := List.exists_mem_of_ne_nil durations hne
    refine ⟨(isGreatest_foldl_max_iff _ _).mpr ⟨d, hd, ?_⟩, (isLeast_foldl_min_iff _ _).mpr h⟩
    have := hpos d hd
    omega

/-- **The gauges hold the extremes**, in both implementations, exactly if one of
the durations is at most `INT_MAX`. -/
theorem extremes_iff {durations : List ℤ} (hne : durations ≠ []) (hpos : ∀ d ∈ durations, 0 < d) :
    (∀ measurements : List (ℤ × ℤ), measurements.map (·.2) = durations →
      (HasExtremes durations (measured measurements).maxTiming (measured measurements).minTiming ↔
        ∃ d ∈ durations, d ≤ INT_MAX)) ∧
    ∀ calls : List (ℕ × ℕ × ℤ), calls.map (·.2.2) = durations →
      (HasExtremes durations (consumed calls).maxProcessingTime (consumed calls).minProcessingTime ↔
        ∃ d ∈ durations, d ≤ INT_MAX) := by
  refine ⟨?_, ?_⟩
  · rintro measurements rfl
    obtain ⟨hmax, hmin⟩ := foldl_measure measurements {}
    rw [measured, hmax, hmin]
    exact hasExtremes_iff hne hpos
  · rintro calls rfl
    obtain ⟨hmax, hmin⟩ := foldl_consume calls {} hpos
    rw [consumed, hmax, hmin]
    exact hasExtremes_iff hne hpos

/-- A short duration and a long one. -/
theorem extremes_short :
    HasExtremes [5, 3000000000] (measured [(10, 5), (20, 3000000000)]).maxTiming
      (measured [(10, 5), (20, 3000000000)]).minTiming :=
  ((@extremes_iff [5, 3000000000] (by decide) (by decide)).1 [(10, 5), (20, 3000000000)] rfl).mpr
    ⟨5, by decide, by decide⟩

/-- A single duration of three seconds: the minimum stays at `INT_MAX`. -/
theorem longDuration_not_hasExtremes :
    ¬ HasExtremes [3000000000] (measured [(0, 3000000000)]).maxTiming
        (measured [(0, 3000000000)]).minTiming ∧
      ¬ HasExtremes [3000000000] (consumed [(1, 0, 3000000000)]).maxProcessingTime
        (consumed [(1, 0, 3000000000)]).minProcessingTime := by
  have hmeasured : (measured [(0, 3000000000)]).minTiming ∉ [3000000000] := by decide
  have hconsumed : (consumed [(1, 0, 3000000000)]).minProcessingTime ∉ [3000000000] := by decide
  exact ⟨fun h => hmeasured h.least.1, fun h => hconsumed h.least.1⟩

/-! ### Guards -/

/-- A `TrackPerformance` is constructed or destroyed while the clock reads
`now`. -/
inductive GuardEvent where
  | construct (guard : ℕ) (now : ℤ)
  | destruct (guard : ℕ) (now : ℤ)
  deriving DecidableEq

def guardStep (t : PerformanceTracker) : GuardEvent → PerformanceTracker
  | .construct _ now => startTimer now t
  | .destruct _ now => (endTimer now t).2

def guarded (events : List GuardEvent) : PerformanceTracker := events.foldl guardStep {}

/-- The guard that was constructed last, and the clock at that time. -/
def lastConstruct : List GuardEvent → Option (ℕ × ℤ)
  | [] => none
  | .construct guard now :: events => (lastConstruct events).or (some (guard, now))
  | .destruct _ _ :: events => lastConstruct events

/-- The clock at the construction of the guard. -/
def constructedAt (guard : ℕ) : List GuardEvent → Option ℤ
  | [] => none
  | .construct guard' now :: events =>
    (constructedAt guard events).or (if guard' = guard then some now else none)
  | .destruct _ _ :: events => constructedAt guard events

/-- The destruction of a guard observes the time since its construction. -/
def ObservesOwn (events : List GuardEvent) : Prop :=
  ∀ before guard start now, before ++ [.destruct guard now] <+: events →
    constructedAt guard before = some start →
      (guarded (before ++ [.destruct guard now])).perfTiming =
        (now - start) :: (guarded before).perfTiming

/-- At the destruction of a guard the clock of the last construction, of any
guard, is that of its own. -/
def LastIsOwn (events : List GuardEvent) : Prop :=
  ∀ before guard start now, before ++ [.destruct guard now] <+: events →
    constructedAt guard before = some start → (lastConstruct before).map (·.2) = some start

theorem lastConstruct_snoc (before : List GuardEvent) (e : GuardEvent) :
    lastConstruct (before ++ [e]) = match e with
      | .construct guard now => some (guard, now)
      | .destruct _ _ => lastConstruct before := by
  induction before with
  | nil => cases e <;> rfl
  | cons b before ih =>
    cases b with
    | construct guard now =>
      rw [List.cons_append, lastConstruct, ih]
      cases e <;> rfl
    | destruct guard now =>
      rw [List.cons_append, lastConstruct, ih]
      cases e <;> rfl

theorem guarded_snoc (before : List GuardEvent) (e : GuardEvent) :
    guarded (before ++ [e]) = guardStep (guarded before) e := by
  simp [guarded]

/-- The tracker's start time is that of the last construction. -/
theorem guarded_startTime {events : List GuardEvent} {last : ℕ × ℤ}
    (h : lastConstruct events = some last) : (guarded events).startTime = last.2 := by
  induction events using List.reverseRecOn with
  | nil => simp [lastConstruct] at h
  | append_singleton before e ih =>
    rw [lastConstruct_snoc] at h
    rw [guarded_snoc]
    cases e with
    | construct guard now =>
      obtain rfl := Option.some.inj h
      rfl
    | destruct guard now =>
      show (endTimer now (guarded before)).2.startTime = last.2
      rw [endTimer_eq]
      exact ih h

/-- Where a guard was constructed there is a last construction. -/
theorem exists_lastConstruct {guard : ℕ} {events : List GuardEvent} {start : ℤ}
    (h : constructedAt guard events = some start) : ∃ last, lastConstruct events = some last := by
  induction events with
  | nil => simp [constructedAt] at h
  | cons e events ih =>
    cases e with
    | construct guard' now =>
      rw [lastConstruct]
      cases lastConstruct events with
      | none => exact ⟨_, rfl⟩
      | some last => exact ⟨last, rfl⟩
    | destruct guard' now => exact ih h

/-- The guard that was constructed last was constructed then. -/
theorem constructedAt_last {events : List GuardEvent} {last : ℕ × ℤ}
    (h : lastConstruct events = some last) : constructedAt last.1 events = some last.2 := by
  induction events with
  | nil => simp [lastConstruct] at h
  | cons e events ih =>
    cases e with
    | construct guard now =>
      rw [lastConstruct] at h
      rw [constructedAt]
      cases hlater : lastConstruct events with
      | none =>
        rw [hlater] at h
        obtain rfl := Option.some.inj h
        have hnone : constructedAt guard events = none := by
          by_contra hsome
          obtain ⟨start, hstart⟩ := Option.ne_none_iff_exists'.mp hsome
          obtain ⟨last, hlast⟩ := exists_lastConstruct hstart
          rw [hlater] at hlast
          simp at hlast
        simp [hnone]
      | some last' =>
        rw [hlater] at h
        obtain rfl := Option.some.inj h
        rw [ih hlater]
        rfl
    | destruct guard now => exact ih h

/-- What the destruction of a guard observes: the time since the last
construction of any guard. -/
theorem guarded_destruct {before : List GuardEvent} {last : ℕ × ℤ}
    (h : lastConstruct before = some last) (guard : ℕ) (now : ℤ) :
    (guarded (before ++ [.destruct guard now])).perfTiming =
      (now - last.2) :: (guarded before).perfTiming := by
  rw [guarded_snoc, guardStep, endTimer_eq, guarded_startTime h]

/-- **A guard observes its own lifetime** exactly if the clock read the same at
the last construction of any guard as at its own. -/
theorem observesOwn_iff (events : List GuardEvent) : ObservesOwn events ↔ LastIsOwn events := by
  have hiff : ∀ before guard start now, constructedAt guard before = some start →
      ((guarded (before ++ [.destruct guard now])).perfTiming =
        (now - start) :: (guarded before).perfTiming ↔
          (lastConstruct before).map (·.2) = some start) := by
    intro before guard start now hstart
    obtain ⟨last, hlast⟩ := exists_lastConstruct hstart
    rw [guarded_destruct hlast, hlast]
    simp only [List.cons.injEq, and_true, Option.map_some, Option.some.injEq]
    omega
  constructor
  · intro h before guard start now hbefore hstart
    exact (hiff before guard start now hstart).mp (h before guard start now hbefore hstart)
  · intro h before guard start now hbefore hstart
    exact (hiff before guard start now hstart).mpr (h before guard start now hbefore hstart)

/-- So guards do that are destroyed before another is constructed. -/
theorem lastIsOwn_of_sequential {events : List GuardEvent}
    (h : ∀ before guard now, before ++ [.destruct guard now] <+: events →
      (lastConstruct before).map (·.1) = some guard) : LastIsOwn events := by
  intro before guard start now hbefore hstart
  obtain ⟨last, hlast, rfl⟩ := Option.map_eq_some_iff.mp (h before guard now hbefore)
  rw [constructedAt_last hlast] at hstart
  rw [hlast]
  exact hstart

/-- Two nested guards: the outer one observes 20, but was there for 30. -/
theorem nestedGuards_not_observesOwn :
    ¬ ObservesOwn [.construct 0 0, .construct 1 10, .destruct 1 20, .destruct 0 30] := by
  intro h
  have houter := h [.construct 0 0, .construct 1 10, .destruct 1 20] 0 0 30
    (List.prefix_refl _) rfl
  revert houter
  decide

end Performance
end RepoInit
