/-
# Rounds of `ProcessMetrics`

`update` sets the gauges one after the other, and the disk counters may throw in
the middle, so a round that throws sets only those before them. Whether it throws
depends on the file alone (`getDiskIo_throws`). After any rounds the first gauges
show the last round and the later ones the last that did not throw
(`rounds_gauges`), and what the disk gauges showed after the rounds that did not
throw adds up to the latest reading (`rounds_disk`).

Key definitions: `Readings`, `Gauges`, `ProcessMetrics.update`, `rounds`.
Key theorems: `rounds_gauges`, `rounds_disk`.
-/
import RepoInit.Metrics.CpuUsage
import RepoInit.Metrics.DiskIO

namespace RepoInit
namespace ProcessMetrics

/-! ### The source -/

/-- What the system answers in one `update`. -/
structure Readings where
  currentTime : ℤ
  /-- `ru_maxrss` and `ru_majflt`. -/
  maxrss : ℤ
  majflt : ℤ
  times : Option Sample
  files : Files
  /-- The entries of `/proc/self/task` and `/proc/self/fd`; `none` if a directory
  can't be opened. -/
  task : Option (List Str)
  fd : Option (List Str)

/-- The gauges, before their values become doubles. -/
structure Gauges where
  currentTime : ℤ := 0
  memory : ℤ := 0
  pageFaults : ℤ := 0
  /-- `none` for a division by zero. -/
  cpuUsage : Option ℚ := some 0
  diskRead : UInt64 := 0
  diskWrite : UInt64 := 0
  threadCount : ℕ := 0
  fileDescriptorCount : ℕ := 0
  deriving DecidableEq

structure Monitor where
  gauges : Gauges := {}
  cpu : CpuBaseline := {}
  disk : DiskBaseline := {}

def countDirectoryEntries (entries : Option (List Str)) : ℕ := (entries.getD []).length

/-- `update`: what it throws, if it does, and what it leaves. -/
def update (r : Readings) (m : Monitor) : Option StdException × Monitor :=
  let (usage, cpu) := getCpuUsage r.times m.cpu
  let g : Gauges := { m.gauges with
    currentTime := r.currentTime, memory := r.maxrss, pageFaults := r.majflt, cpuUsage := usage }
  match getDiskIo r.files m.disk with
  | (.error e, disk) => (some e, { gauges := g, cpu := cpu, disk := disk })
  | (.ok (diskRead, diskWrite), disk) =>
    (none,
      { gauges := { g with
          diskRead := diskRead, diskWrite := diskWrite
          threadCount := countDirectoryEntries r.task
          fileDescriptorCount := countDirectoryEntries r.fd }
        cpu := cpu
        disk := disk })

/-- The loop of `threadRunner`, which swallows what is thrown. -/
def rounds (rs : List Readings) (m : Monitor) : Monitor := rs.foldl (fun m r => (update r m).2) m

@[simp] theorem rounds_nil (m : Monitor) : rounds [] m = m := rfl

@[simp] theorem rounds_append_singleton (rs : List Readings) (r : Readings) (m : Monitor) :
    rounds (rs ++ [r]) m = (update r (rounds rs m)).2 := by
  simp [rounds]

/-! ### Rounds that throw -/

/-- A lookup gives a word that is no number. -/
def unparsable (file : Option Str) (text : Str) : Bool :=
  match firstWord file { text := text } with
  | none => false
  | some word => word ≠ [] && (stoull word).toOption.isNone

/-- `getDiskIO` throws for these files: for the first number, or for the second
if the first was found. -/
def Files.bad (files : Files) : Bool :=
  unparsable files.first (str "read_bytes") ||
    ((lookup files.first (str "read_bytes")).isSome && unparsable files.second (str "write_bytes"))

/-- What the code does with one lookup. -/
theorem unparsable_cases (file : Option Str) (text : Str) :
    ((findFromFile file { text := text } []).2 = [] ∧ unparsable file text = false ∧
        lookup file text = none) ∨
      ((findFromFile file { text := text } []).2 ≠ [] ∧
        ((∃ e, stoull (findFromFile file { text := text } []).2 = .error e ∧
            unparsable file text = true) ∨
          ∃ v, stoull (findFromFile file { text := text } []).2 = .ok v ∧
            unparsable file text = false ∧ lookup file text = some v)) := by
  rw [findFromFile_word, lookup, unparsable]
  cases firstWord file { text := text } with
  | none => exact .inl ⟨rfl, rfl, rfl⟩
  | some word =>
    simp only [Option.getD_some]
    by_cases hword : word = []
    · exact .inl ⟨hword, by simp [hword], if_pos hword⟩
    · refine .inr ⟨hword, ?_⟩
      rw [if_neg hword]
      cases stoull word with
      | error e => exact .inl ⟨e, rfl, by simp [hword, Except.toOption]⟩
      | ok v => exact .inr ⟨v, rfl, by simp [Except.toOption], rfl⟩

/-- **Whether the disk counters throw is a matter of the file.** -/
theorem getDiskIo_throws (files : Files) (st : DiskBaseline) :
    (∃ e, (getDiskIo files st).1 = .error e) ↔ files.bad = true := by
  unfold getDiskIo Files.bad
  rcases unparsable_cases files.first (str "read_bytes") with
    ⟨he, hu, hl⟩ | ⟨hne, ⟨e, hr, hu⟩ | ⟨r, hr, hu, hl⟩⟩
  · simp [he, hu, hl]
  · simp [hne, hr, hu]
  · rcases unparsable_cases files.second (str "write_bytes") with
      ⟨he', hu', -⟩ | ⟨hne', ⟨e, hw, hu'⟩ | ⟨w, hw, hu', -⟩⟩
    · simp [hne, hr, hu, hl, he', hu']
    · simp [hne, hr, hu, hl, hne', hw, hu']
    · simp [hne, hr, hu, hl, hne', hw, hu']

/-- What a round leaves, by whether it throws. -/
theorem update_cases (r : Readings) (m : Monitor) :
    ∃ g : Gauges, g = { m.gauges with
        currentTime := r.currentTime, memory := r.maxrss, pageFaults := r.majflt
        cpuUsage := (getCpuUsage r.times m.cpu).1 } ∧
      (update r m).2.cpu = (getCpuUsage r.times m.cpu).2 ∧
      (update r m).2.disk = (getDiskIo r.files m.disk).2 ∧
      ((r.files.bad = true ∧ (update r m).1.isSome ∧ (update r m).2.gauges = g) ∨
        (r.files.bad = false ∧ (update r m).1 = none ∧
          ∃ d, (getDiskIo r.files m.disk).1 = .ok d ∧
            (update r m).2.gauges = { g with
              diskRead := d.1, diskWrite := d.2
              threadCount := countDirectoryEntries r.task
              fileDescriptorCount := countDirectoryEntries r.fd })) := by
  refine ⟨_, rfl, ?_⟩
  have hbad := getDiskIo_throws r.files m.disk
  unfold update
  rcases hd : getDiskIo r.files m.disk with ⟨e | d, disk⟩
  · rw [hd] at hbad
    exact ⟨rfl, rfl, .inl ⟨hbad.mp ⟨e, rfl⟩, rfl, rfl⟩⟩
  · rw [hd] at hbad
    have hgood : r.files.bad = false := by
      rw [← Bool.not_eq_true, ← hbad]
      simp
    exact ⟨rfl, rfl, .inr ⟨hgood, rfl, d, rfl, rfl⟩⟩

/-! ### Runs -/

/-- The last round that did not throw. -/
def lastGood (rs : List Readings) : Option Readings := (rs.filter fun r => !r.files.bad).getLast?

theorem lastGood_append_singleton (rs : List Readings) (r : Readings) :
    lastGood (rs ++ [r]) = if r.files.bad then lastGood rs else some r := by
  unfold lastGood
  cases hr : r.files.bad <;> simp [List.filter_append, hr]

/-- **What the gauges show.** Those that are set before the disk counters show the
last round, and the counts behind them the last round that did not throw. -/
theorem rounds_gauges (rs : List Readings) :
    (∀ r, rs.getLast? = some r → (rounds rs {}).gauges.currentTime = r.currentTime ∧
      (rounds rs {}).gauges.memory = r.maxrss ∧ (rounds rs {}).gauges.pageFaults = r.majflt ∧
      (rounds rs {}).gauges.cpuUsage = (getCpuUsage r.times (run (rs.dropLast.map (·.times)))).1) ∧
    (rounds rs {}).gauges.threadCount =
      ((lastGood rs).map fun r => countDirectoryEntries r.task).getD 0 ∧
    (rounds rs {}).gauges.fileDescriptorCount =
      ((lastGood rs).map fun r => countDirectoryEntries r.fd).getD 0 := by
  have hcpu : ∀ rs, (rounds rs {}).cpu = run (rs.map (·.times)) := by
    intro rs
    induction rs using List.reverseRecOn with
    | nil => rfl
    | append_singleton rs r ih =>
      obtain ⟨-, -, hcpu, -⟩ := update_cases r (rounds rs {})
      rw [rounds_append_singleton, hcpu, ih, List.map_append, List.map_singleton, run_append]
  induction rs using List.reverseRecOn with
  | nil => exact ⟨by simp, rfl, rfl⟩
  | append_singleton rs r ih =>
    obtain ⟨-, hthreads, hfds⟩ := ih
    rw [rounds_append_singleton, lastGood_append_singleton]
    obtain ⟨g, rfl, -, -, ⟨hbad, -, hg⟩ | ⟨hgood, -, d, -, hg⟩⟩ := update_cases r (rounds rs {})
    · rw [hg, if_pos hbad]
      refine ⟨?_, hthreads, hfds⟩
      intro r' hr'
      obtain rfl : r = r' := by simpa using hr'
      simp [hcpu]
    · rw [hg, if_neg (by simp [hgood])]
      refine ⟨?_, rfl, rfl⟩
      intro r' hr'
      obtain rfl : r = r' := by simpa using hr'
      simp [hcpu]

/-- The gauges after each round that did not throw. -/
def shown : List Readings → Monitor → List Gauges
  | [], _ => []
  | r :: rs, m =>
    if r.files.bad then shown rs (update r m).2
    else (update r m).2.gauges :: shown rs (update r m).2

theorem shown_deltas (rs : List Readings) (m : Monitor) :
    (shown rs m).map (fun g => (g.diskRead, g.diskWrite)) = deltas (rs.map (·.files)) m.disk := by
  induction rs generalizing m with
  | nil => rfl
  | cons r rs ih =>
    rw [List.map_cons, deltas_cons, shown]
    obtain ⟨g, rfl, -, hdisk, ⟨hbad, -, -⟩ | ⟨hgood, -, d, hd, hg⟩⟩ := update_cases r m
    · obtain ⟨e, he⟩ := (getDiskIo_throws r.files m.disk).mpr hbad
      rw [if_pos hbad, ih, hdisk, he]
      rfl
    · rw [if_neg (by simp [hgood]), List.map_cons, ih, hdisk, hd, hg]
      rfl

/-- **The disk gauges lose nothing** over the rounds that throw. -/
theorem rounds_disk (rs : List Readings) :
    ((shown rs {}).map Gauges.diskRead).sum =
        ((latest (rs.map (·.files))).map Prod.fst).getD 0 ∧
      ((shown rs {}).map Gauges.diskWrite).sum =
        ((latest (rs.map (·.files))).map Prod.snd).getD 0 := by
  have hfst : (Prod.fst ∘ fun g : Gauges => (g.diskRead, g.diskWrite)) = Gauges.diskRead := rfl
  have hsnd : (Prod.snd ∘ fun g : Gauges => (g.diskRead, g.diskWrite)) = Gauges.diskWrite := rfl
  have hdeltas : deltas (rs.map (·.files)) {} =
      (shown rs {}).map (fun g => (g.diskRead, g.diskWrite)) := (shown_deltas rs {}).symm
  obtain ⟨hread, hwrite⟩ := sum_deltas (rs.map (·.files)) {}
  rw [hdeltas, List.map_map, hfst, baselinesAfter_latest] at hread
  rw [hdeltas, List.map_map, hsnd, baselinesAfter_latest] at hwrite
  cases hl : latest (rs.map (·.files)) with
  | none => simpa [hl] using And.intro hread hwrite
  | some r => simpa [hl] using And.intro hread hwrite

end ProcessMetrics
end RepoInit
