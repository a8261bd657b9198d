/-
# The crash handler's watchdog

`Tracer::threadFunc` asks every 50 ms whether the crashpad handler runs. The
iterations of a loop are the results of `isRunning` in order, up to where the
stop token ends it. The counter is put back to zero and the check flag set in
every iteration, those of a false result included, so the counter never passes
one, the loop never closes (`threadFunc_open`), and the watchdog does what it is
there for exactly on the runs that put it to no test (`meetsWatchdog_iff`). Of all
that `isRunning` finds out about the handler, the loop passes on only whether
crashpad could be asked (`threadFunc_probes`).

Key definitions: `isRunning`, `iteration`, `threadFunc`, `misses`, `MeetsWatchdog`.
Key theorems: `isRunning_eq_true_iff`, `threadFunc_open`, `threadFunc_probes`,
`meetsWatchdog_iff`.
-/
import Mathlib.Data.Nat.Find
import RepoInit.Basic

namespace RepoInit
namespace Tracer

def CRASHPAD_RETRY_COUNT : ℕ := 10

/-! ### `isRunning` -/

/-- What the system answers to one call of `isRunning`: the handler's socket and
process id if crashpad has them, the result and the error `getsockopt` gives,
what peeking at the socket returns, and what signal 0 to the process returns. -/
structure Probe where
  getHandlerSocket : Except Str (Option (ℤ × ℤ))
  getsockopt : ℤ × ℤ
  recv : ℤ
  kill : ℤ

def checkPidIsRunning (p : Probe) : Bool := p.kill = 0

def checkSocketIsRunning (p : Probe) : Bool :=
  p.getsockopt.1 = 0 && p.getsockopt.2 = 0 && p.recv ≠ 0

def isRunning (p : Probe) : Except Str Bool :=
  match p.getHandlerSocket with
  | .error what => .error what
  | .ok none => .ok false
  | .ok (some (sockId, processId)) =>
    if sockId ≥ 0 && !checkSocketIsRunning p then .ok false
    else if processId > 0 && !checkPidIsRunning p then .ok false
    else .ok true

/-- It throws only where crashpad does. -/
theorem isRunning_error_iff {p : Probe} {what : Str} :
    isRunning p = .error what ↔ p.getHandlerSocket = .error what := by
  unfold isRunning
  split
  · rename_i h
    simp [h]
  · rename_i h
    simp [h]
  · rename_i h
    split_ifs <;> simp [h]

/-- **The handler runs** if crashpad has one and what it has of it, a socket, a
process or neither, is alive. -/
theorem isRunning_eq_true_iff {p : Probe} :
    isRunning p = .ok true ↔ ∃ sockId processId, p.getHandlerSocket = .ok (some (sockId, processId)) ∧
      (0 ≤ sockId → p.getsockopt = (0, 0) ∧ p.recv ≠ 0) ∧ (0 < processId → p.kill = 0) := by
  have hsocket : checkSocketIsRunning p = true ↔ p.getsockopt = (0, 0) ∧ p.recv ≠ 0 := by
    simp [checkSocketIsRunning, Prod.ext_iff]
  have hpid : checkPidIsRunning p = true ↔ p.kill = 0 := by simp [checkPidIsRunning]
  rw [← hsocket, ← hpid]
  unfold isRunning
  split
  · rename_i h
    simp [h]
  · rename_i h
    simp [h]
  · rename_i sockId processId h
    have hfound : (∃ sockId' processId',
        p.getHandlerSocket = .ok (some (sockId', processId')) ∧
          (0 ≤ sockId' → checkSocketIsRunning p = true) ∧
          (0 < processId' → checkPidIsRunning p = true)) ↔
        (0 ≤ sockId → checkSocketIsRunning p = true) ∧
          (0 < processId → checkPidIsRunning p = true) := by
      constructor
      · rintro ⟨sockId', processId', h', hp⟩
        cases h.symm.trans h'
        exact hp
      · exact fun hp => ⟨sockId, processId, h, hp⟩
    rw [hfound]
    split_ifs <;> simp_all

/-! ### The loop -/

/-- What an iteration does that others see: it sets the check flag, or logs. -/
inductive Effect where
  | testAndSet
  | info (message : Str)
  | error (message : Str)
  deriving DecidableEq

def handlerClosed : Str := str "Crashpad handler closed"

/-- One iteration, without the sleep: its effects and the counter for the next,
`none` where the loop returns. `checkFlag` says whether a flag was given. -/
def iteration (checkFlag : Bool) (answer : Except Str Bool) (stopCounter : ℕ) :
    Option ℕ × List Effect :=
  match answer with
  | .error what => (some stopCounter, [.error (str "Crashpad failed: " ++ what)])
  | .ok running =>
    let stopCounter := if !running then stopCounter + 1 else stopCounter
    if !running && stopCounter > CRASHPAD_RETRY_COUNT then (none, [.info handlerClosed])
    -- the `if (!isRunning())` has no `else`: what follows runs after a miss as well
    else (some 0, if checkFlag then [.testAndSet] else [])

/-- The effects of each iteration, and whether the loop returned by itself. The
answers are those of `isRunning` until the stop token is requested. -/
def threadFunc (checkFlag : Bool) : List (Except Str Bool) → ℕ → List (List Effect) × Bool
  | [], _ => ([], false)
  | answer :: answers, stopCounter =>
    match iteration checkFlag answer stopCounter with
    | (none, effects) => ([effects], true)
    | (some stopCounter', effects) =>
      let (rounds, closed) := threadFunc checkFlag answers stopCounter'
      (effects :: rounds, closed)

/-- An iteration entered below the limit leaves the counter below it. -/
theorem iteration_counter (checkFlag : Bool) (answer : Except Str Bool) {stopCounter : ℕ}
    (h : stopCounter < CRASHPAD_RETRY_COUNT) :
    ∃ stopCounter' < CRASHPAD_RETRY_COUNT,
      (iteration checkFlag answer stopCounter).1 = some stopCounter' := by
  cases answer with
  | error what => exact ⟨stopCounter, h, rfl⟩
  | ok running =>
    have hle : ¬ stopCounter + 1 > CRASHPAD_RETRY_COUNT := by omega
    exact ⟨0, by decide, by cases running <;> simp [iteration, hle]⟩

/-- **The loop never closes**, whatever `isRunning` answers or throws. -/
theorem threadFunc_open (checkFlag : Bool) : ∀ (answers : List (Except Str Bool)) (stopCounter : ℕ),
    stopCounter < CRASHPAD_RETRY_COUNT →
      (threadFunc checkFlag answers stopCounter).2 = false ∧
      (threadFunc checkFlag answers stopCounter).1.length = answers.length
  | [], _, _ => ⟨rfl, rfl⟩
  | answer :: answers, stopCounter, h => by
    obtain ⟨next, hnext, he⟩ := iteration_counter checkFlag answer h
    have ih := threadFunc_open checkFlag answers next hnext
    rcases hi : iteration checkFlag answer stopCounter with ⟨_ | c, effects⟩
    · simp [hi] at he
    · obtain rfl : c = next := by simpa [hi] using he
      simpa [threadFunc, hi] using ih

/-- What an iteration does: it logs what was thrown, and sets the flag after any
result. -/
def effectsOf (checkFlag : Bool) : Except Str Bool → List Effect
  | .error what => [.error (str "Crashpad failed: " ++ what)]
  | .ok _ => if checkFlag then [.testAndSet] else []

/-- The counter stays at zero. -/
theorem iteration_eq (checkFlag : Bool) (answer : Except Str Bool) :
    iteration checkFlag answer 0 = (some 0, effectsOf checkFlag answer) := by
  cases answer with
  | error what => rfl
  | ok running => cases running <;> simp [iteration, effectsOf, CRASHPAD_RETRY_COUNT]

theorem threadFunc_eq (checkFlag : Bool) (answers : List (Except Str Bool)) :
    threadFunc checkFlag answers 0 = (answers.map (effectsOf checkFlag), false) := by
  induction answers with
  | nil => rfl
  | cons answer answers ih => simp only [List.map_cons, threadFunc, iteration_eq, ih]

/-- Of the probe only the first question matters. -/
theorem effectsOf_isRunning (checkFlag : Bool) (p : Probe) :
    effectsOf checkFlag (isRunning p) =
      match p.getHandlerSocket with
      | .error what => [.error (str "Crashpad failed: " ++ what)]
      | .ok _ => if checkFlag then [.testAndSet] else [] := by
  cases hp : p.getHandlerSocket with
  | error what =>
    rw [isRunning_error_iff.mpr hp]
    rfl
  | ok handler =>
    cases hr : isRunning p with
    | error what => simp [isRunning_error_iff.mp hr] at hp
    | ok running => rfl

/-- **The loop does not tell a handler that runs from one that does not.** Whatever
the probes find, it goes on, and sets the flag unless crashpad itself throws. -/
theorem threadFunc_probes (checkFlag : Bool) (probes : List Probe) :
    threadFunc checkFlag (probes.map isRunning) 0 =
      (probes.map fun p =>
        match p.getHandlerSocket with
        | .error what => [.error (str "Crashpad failed: " ++ what)]
        | .ok _ => if checkFlag then [.testAndSet] else [], false) := by
  rw [threadFunc_eq, List.map_map]
  congr 1
  exact List.map_congr_left fun p _ => effectsOf_isRunning checkFlag p

/-- The flag is set unless crashpad throws. -/
theorem testAndSet_effectsOf (p : Probe) : .testAndSet ∈ effectsOf true (isRunning p) ↔
    ∃ handler, p.getHandlerSocket = .ok handler := by
  rw [effectsOf_isRunning]
  cases p.getHandlerSocket <;> simp

/-! ### What the watchdog is there for -/

/-- How many results in a row were false up to now; a true one restarts the
count. -/
def misses (results : List Bool) : ℕ :=
  results.foldl (fun count running => if running then 0 else count + 1) 0

/-- Iteration `n` is the first with more misses in a row than are allowed. -/
def FirstOver (results : List Bool) (n : ℕ) : Prop :=
  n < results.length ∧ CRASHPAD_RETRY_COUNT < misses (results.take (n + 1)) ∧
    ∀ k < n, misses (results.take (k + 1)) ≤ CRASHPAD_RETRY_COUNT

/-- The loop returns in iteration `n`, logging it. -/
def Closes (run : List (List Effect) × Bool) (n : ℕ) : Prop :=
  run.2 = true ∧ run.1.length = n + 1 ∧ .info handlerClosed ∈ run.1.getD n []

/-- The loop stops exactly when too many results in a row were false, and the
flag is set only where the handler was found running. -/
def MeetsWatchdog (checkFlag : Bool) (results : List Bool) : Prop :=
  (∀ n, Closes (threadFunc checkFlag (results.map .ok) 0) n ↔ FirstOver results n) ∧
    ∀ n, .testAndSet ∈ (threadFunc checkFlag (results.map .ok) 0).1.getD n [] →
      results.getD n false = true

theorem exists_firstOver {results : List Bool} {n : ℕ} (hn : n < results.length)
    (h : CRASHPAD_RETRY_COUNT < misses (results.take (n + 1))) : ∃ k, FirstOver results k := by
  classical
  have hex : ∃ k, CRASHPAD_RETRY_COUNT < misses (results.take (k + 1)) := ⟨n, h⟩
  have hle : Nat.find hex ≤ n := Nat.find_min' hex h
  refine ⟨Nat.find hex, by omega, Nat.find_spec hex, fun k hk => ?_⟩
  exact Nat.le_of_not_lt (Nat.find_min hex hk)

theorem not_closes (checkFlag : Bool) (results : List Bool) (n : ℕ) :
    ¬ Closes (threadFunc checkFlag (results.map .ok) 0) n := by
  rintro ⟨hclosed, -, -⟩
  simp [(threadFunc_open checkFlag (results.map .ok) 0 (by decide)).1] at hclosed

theorem testAndSet_mem (checkFlag : Bool) (results : List Bool) (n : ℕ) :
    .testAndSet ∈ (threadFunc checkFlag (results.map .ok) 0).1.getD n [] ↔
      checkFlag = true ∧ n < results.length := by
  rw [threadFunc_eq]
  by_cases hn : n < results.length
  · cases checkFlag <;> simp [hn, effectsOf]
  · simp [hn]

/-- **When the watchdog works.** It stops where it should and keeps the flag
honest exactly if no more than `CRASHPAD_RETRY_COUNT` results in a row are false
and, where there is a flag, none is false at all. -/
theorem meetsWatchdog_iff (checkFlag : Bool) (results : List Bool) :
    MeetsWatchdog checkFlag results ↔
      (∀ n < results.length, misses (results.take (n + 1)) ≤ CRASHPAD_RETRY_COUNT) ∧
        (checkFlag = true → ∀ running ∈ results, running = true) := by
  unfold MeetsWatchdog
  apply and_congr
  · constructor
    · intro h n hn
      by_contra hover
      obtain ⟨k, hk⟩ := exists_firstOver hn (Nat.lt_of_not_le hover)
      exact not_closes checkFlag results k ((h k).mpr hk)
    · intro h n
      apply iff_of_false (not_closes checkFlag results n)
      rintro ⟨hn, hover, -⟩
      exact absurd (h n hn) (by omega)
  · constructor
    · intro h hflag running hmem
      obtain ⟨n, hn, rfl⟩ := List.mem_iff_getElem.mp hmem
      have hset := h n ((testAndSet_mem checkFlag results n).mpr ⟨hflag, hn⟩)
      simpa [hn] using hset
    · intro h n hset
      obtain ⟨hflag, hn⟩ := (testAndSet_mem checkFlag results n).mp hset
      have htrue := h hflag results[n] (List.getElem_mem hn)
      simpa [hn] using htrue

/-- Eleven misses in a row: the loop goes on, and sets the flag each time. -/
theorem deadHandler_not_meetsWatchdog :
    ¬ MeetsWatchdog true (List.replicate 11 false) ∧
      ¬ MeetsWatchdog false (List.replicate 11 false) := by
  constructor
  · rintro ⟨-, hset⟩
    exact absurd (hset 0 (by decide)) (by decide)
  · rintro ⟨hstop, -⟩
    have hclosed := (hstop 10).mpr ⟨by decide, by decide, by decide⟩
    exact absurd hclosed.1 (by decide)

end Tracer
end RepoInit
