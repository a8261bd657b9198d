/-
# `BaseServerStats`

The command counters and processing times that the servers publish. The metrics
are double-valued; here a counter is its sum, a gauge its value and a summary
the list of its observations, newest first, all exact.
-/
import RepoInit.Basic

namespace RepoInit

/-- `std::numeric_limits<int>::max()`, where the minima start. -/
def INT_MAX : ℤ := 2147483647

structure BaseServerStats where
  succeededCommand : ℕ := 0
  failedCommand : ℕ := 0
  totalCommand : ℕ := 0
  processingTime : List ℤ := []
  maxProcessingTime : ℤ := 0
  minProcessingTime : ℤ := INT_MAX

def BaseServerStats.consumeBaseStats (succeeded failed : ℕ) (processingTime : ℤ)
    (st : BaseServerStats) : BaseServerStats :=
  let st := { st with
    succeededCommand := st.succeededCommand + succeeded
    failedCommand := st.failedCommand + failed
    totalCommand := st.totalCommand + (succeeded + failed) }
  if processingTime > 0 then
    { st with
      processingTime := processingTime :: st.processingTime
      maxProcessingTime := max st.maxProcessingTime processingTime
      minProcessingTime := min st.minProcessingTime processingTime }
  else st

/-- `received_commands` is the sum of the two outcomes. -/
def BaseServerStats.Balanced (st : BaseServerStats) : Prop :=
  st.totalCommand = st.succeededCommand + st.failedCommand

section Consume

variable (succeeded failed : ℕ) (processingTime : ℤ) (st : BaseServerStats)

@[simp] theorem consumeBaseStats_succeededCommand :
    (st.consumeBaseStats succeeded failed processingTime).succeededCommand =
      st.succeededCommand + succeeded := by
  unfold BaseServerStats.consumeBaseStats
  dsimp only
  split <;> rfl

@[simp] theorem consumeBaseStats_failedCommand :
    (st.consumeBaseStats succeeded failed processingTime).failedCommand =
      st.failedCommand + failed := by
  unfold BaseServerStats.consumeBaseStats
  dsimp only
  split <;> rfl

@[simp] theorem consumeBaseStats_totalCommand :
    (st.consumeBaseStats succeeded failed processingTime).totalCommand =
      st.totalCommand + (succeeded + failed) := by
  unfold BaseServerStats.consumeBaseStats
  dsimp only
  split <;> rfl

theorem BaseServerStats.Balanced.consumeBaseStats {st : BaseServerStats} (h : st.Balanced) :
    (st.consumeBaseStats succeeded failed processingTime).Balanced := by
  unfold Balanced at h ⊢
  simp only [consumeBaseStats_totalCommand, consumeBaseStats_succeededCommand,
    consumeBaseStats_failedCommand]
  omega

end Consume

end RepoInit
