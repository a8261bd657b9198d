/-
# The samples of `getCpuUsage`

The first call takes a baseline, and each call after it divides by the ticks
since the last one and makes its own reading the next baseline. A failure of
`times` is looked for only when there is no baseline. So a later failure is
taken for the reading of -1 ticks, and is the next baseline, and two calls in
one tick divide by zero. Neither happens exactly if a reading whose tick value
is not zero is followed only by a reading with another one
(`samplesRight_iff`). A baseline of zero ticks stands for no baseline, and costs
one sample.

Key definitions: `Sample`, `getCpuUsage`, `SamplesRight`, `Advances`.
Key theorems: `samplesRight_iff`.
-/
import Mathlib.Algebra.Order.Field.Rat
import Mathlib.Data.List.Induction
import Mathlib.Tactic.NormNum
import RepoInit.Lib.Prefixes

namespace RepoInit
namespace ProcessMetrics

/-! ### `getCpuUsage` -/

/-- A reading of `times`: the ticks it returns, which are not the failure value,
and the user time. -/
structure Sample where
  ticks : ℤ
  utime : ℤ
  valid : ticks ≠ -1
  deriving DecidableEq

/-- `_oldCpuTime` and `_oldCpu`, of which only the user time is used. -/
structure CpuBaseline where
  oldCpuTime : ℤ := 0
  oldUtime : ℤ := 0
  deriving DecidableEq, Repr

/-- `times(&buf)`: what it returns and the user time in `buf` afterwards. A
failure leaves `buf` as it was. -/
def times (o : Option Sample) (buf : ℤ) : ℤ × ℤ :=
  match o with
  | some s => (s.ticks, s.utime)
  | none => (-1, buf)

/-- The result, `none` for a division by zero, and the state afterwards. -/
def getCpuUsage (o : Option Sample) (st : CpuBaseline) : Option ℚ × CpuBaseline :=
  if st.oldCpuTime = 0 then
    let (oldCpuTime, oldUtime) := times o st.oldUtime
    (some 0, { oldCpuTime := if oldCpuTime = -1 then 0 else oldCpuTime, oldUtime := oldUtime })
  else
    let (nowCpuTime, nowUtime) := times o 0
    let usage : Option ℚ :=
      if nowCpuTime - st.oldCpuTime = 0 then none
      else some (100 * ((nowUtime - st.oldUtime : ℤ) : ℚ) / ((nowCpuTime - st.oldCpuTime : ℤ) : ℚ))
    (usage, { oldCpuTime := nowCpuTime, oldUtime := nowUtime })

/-- The state after calls with these outcomes of `times`. -/
def run (outcomes : List (Option Sample)) : CpuBaseline :=
  outcomes.foldl (fun st o => (getCpuUsage o st).2) {}

@[simp] theorem run_nil : run [] = {} := rfl

@[simp] theorem run_append (outcomes : List (Option Sample)) (o : Option Sample) :
    run (outcomes ++ [o]) = (getCpuUsage o (run outcomes)).2 := by
  simp [run]

/-! ### When the samples are right -/

/-- The baseline and the outcome are readings, with different tick values, and
the result is 100 times the quotient of their differences. -/
structure RightSample (before : List (Option Sample)) (o : Option Sample) (old new : Sample) :
    Prop where
  old_mem : some old ∈ before
  baseline : run before = ⟨old.ticks, old.utime⟩
  outcome : o = some new
  ticks_ne : new.ticks - old.ticks ≠ 0
  usage : (getCpuUsage o (run before)).1 =
    some (100 * ((new.utime - old.utime : ℤ) : ℚ) / ((new.ticks - old.ticks : ℤ) : ℚ))

/-- Every call finds no baseline and returns 0, or samples two readings. -/
def SamplesRight (outcomes : List (Option Sample)) : Prop :=
  ∀ before o, before ++ [o] <+: outcomes →
    ((run before).oldCpuTime = 0 ∧ (getCpuUsage o (run before)).1 = some 0) ∨
      ∃ old new, RightSample before o old new

/-- After a reading whose tick value is not zero comes no failure, and no reading
with the same tick value. -/
def Advances (outcomes : List (Option Sample)) : Prop :=
  ∀ before s o, before ++ [some s, o] <+: outcomes → s.ticks ≠ 0 →
    ∃ new, o = some new ∧ new.ticks ≠ s.ticks

/-- A call without a baseline returns 0. -/
theorem getCpuUsage_first {st : CpuBaseline} (h : st.oldCpuTime = 0) (o : Option Sample) :
    (getCpuUsage o st).1 = some 0 := by
  simp [getCpuUsage, h]

/-- A reading is the next baseline. -/
theorem getCpuUsage_some (s : Sample) (st : CpuBaseline) :
    (getCpuUsage (some s) st).2 = ⟨s.ticks, s.utime⟩ := by
  unfold getCpuUsage times
  split
  · simp [s.valid]
  · rfl

theorem getCpuUsage_none {st : CpuBaseline} (h : st.oldCpuTime = 0) :
    (getCpuUsage none st).2.oldCpuTime = 0 := by
  simp [getCpuUsage, times, h]

theorem getCpuUsage_usage {st : CpuBaseline} (h : st.oldCpuTime ≠ 0) {s : Sample}
    (hs : s.ticks - st.oldCpuTime ≠ 0) :
    (getCpuUsage (some s) st).1 =
      some (100 * ((s.utime - st.oldUtime : ℤ) : ℚ) / ((s.ticks - st.oldCpuTime : ℤ) : ℚ)) := by
  simp only [getCpuUsage, times, if_neg h]
  exact if_neg hs

/-- If the ticks advance, the baseline is the last reading, if it was one. -/
theorem Advances.baseline {outcomes : List (Option Sample)} (h : Advances outcomes) :
    ∀ before, before <+: outcomes → (run before).oldCpuTime ≠ 0 →
      ∃ b s, before = b ++ [some s] ∧ s.ticks ≠ 0 ∧ run before = ⟨s.ticks, s.utime⟩ := by
  refine Prefixes.prefix_induction (fun hne => absurd rfl hne) fun b o hb ih hne => ?_
  rw [run_append] at hne ⊢
  cases o with
  | some s =>
    rw [getCpuUsage_some] at hne
    exact ⟨b, s, rfl, hne, getCpuUsage_some s _⟩
  | none =>
    -- a failure is no baseline, and it does not come after one
    by_cases hold : (run b).oldCpuTime = 0
    · exact absurd (getCpuUsage_none hold) hne
    · obtain ⟨b', s, rfl, hs, -⟩ := ih hold
      obtain ⟨new, hnew, -⟩ := h b' s none (by simpa using hb) hs
      cases hnew

/-- **When the samples are right.** -/
theorem samplesRight_iff (outcomes : List (Option Sample)) :
    SamplesRight outcomes ↔ Advances outcomes := by
  constructor
  · intro h before s o hb hs
    have hrun : run (before ++ [some s]) = ⟨s.ticks, s.utime⟩ := by
      rw [run_append, getCpuUsage_some]
    have hb' : before ++ [some s] ++ [o] <+: outcomes := by simpa using hb
    rcases h _ o hb' with ⟨h0, -⟩ | ⟨old, new, hright⟩
    · rw [hrun] at h0
      exact absurd h0 hs
    · obtain ⟨hticks, -⟩ := CpuBaseline.mk.inj (hrun.symm.trans hright.baseline)
      refine ⟨new, hright.outcome, fun heq => hright.ticks_ne ?_⟩
      rw [heq, hticks, sub_self]
  · intro h before o hb
    by_cases h0 : (run before).oldCpuTime = 0
    · exact .inl ⟨h0, getCpuUsage_first h0 o⟩
    · obtain ⟨b, old, rfl, hold, hrun⟩ :=
        h.baseline before ((List.prefix_append before [o]).trans hb) h0
      obtain ⟨new, rfl, hticks⟩ := h b old o (by simpa using hb) hold
      have hdiff : new.ticks - old.ticks ≠ 0 := sub_ne_zero.mpr hticks
      refine .inr ⟨old, new, by simp, hrun, rfl, hdiff, ?_⟩
      rw [hrun]
      exact getCpuUsage_usage hold hdiff

/-- A failure after a reading of 100 ticks is divided by and becomes the
baseline, and two readings in one tick divide by zero. -/
theorem not_samplesRight :
    ¬ SamplesRight [some ⟨100, 7, by decide⟩, none] ∧
      (getCpuUsage none (run [some ⟨100, 7, by decide⟩])).1 = some (700 / 101) ∧
      (run [some ⟨100, 7, by decide⟩, none]).oldCpuTime = -1 ∧
      (getCpuUsage (some ⟨100, 7, by decide⟩) (run [some ⟨100, 7, by decide⟩])).1 = none := by
  refine ⟨fun h => ?_, ?_, rfl, rfl⟩
  · rcases h [some ⟨100, 7, by decide⟩] none List.prefix_rfl with ⟨h0, -⟩ | ⟨old, new, hright⟩
    · exact absurd h0 (by decide)
    · exact absurd hright.outcome (by simp)
  · norm_num [getCpuUsage, run, times]

end ProcessMetrics
end RepoInit
