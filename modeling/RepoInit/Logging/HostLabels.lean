/-
# What the sinks say about the host

The constructor of the Loki sink and `setHostContext` of the Sentry sink look up
four fields of `/proc/cpuinfo` with one string that is not cleared in between,
while `findFromFile` writes it only if it finds a word. So a field that is not
found is given the word of the field before it. Each label has its own word
exactly if no field is missing behind a word (`lokiLabels_iff`); in the context of
the Sentry sink, which is made of C strings, no word may hold a NUL either
(`sentryLabels_iff`).

Key definitions: `cpuLabels`, `lokiInformation`, `setHostContext`, `ownWord`,
`NoneMissing`.
Key theorems: `words_iff`, `cWords_iff`, `hostLabels_iff`.
-/
import RepoInit.FindFromFile
import RepoInit.Logging.Loki

namespace RepoInit
namespace Host

/-! ### The lookups -/

/-- What `Version.h` and the build define. -/
structure BuildInformation where
  projectFullRevision : Str
  projectBuildDate : Str
  projectBuildTime : Str
  compilerName : Str
  compilerVersion : Str
  buildType : Str

def siblings : Pattern := { atBegin := true, text := str "siblings" }
def cpuCores : Pattern := { atBegin := true, text := str "cpu cores" }
def modelName : Pattern := { atBegin := true, text := str "model name" }
def vendorId : Pattern := { atBegin := true, text := str "vendor_id" }

/-- The labels the constructor of the Loki sink makes of `/proc/cpuinfo`. -/
def cpuLabels (cpuInfo : Option Str) : List (Str × Str) :=
  let word := []
  let word := (findFromFile cpuInfo siblings word).2
  let labels := [(str "cpu_threadcount", word)]
  let word := (findFromFile cpuInfo cpuCores word).2
  let labels := labels ++ [(str "cpu_corecount", word)]
  let word := (findFromFile cpuInfo modelName word).2
  let labels := labels ++ [(str "cpu_model", word)]
  let word := (findFromFile cpuInfo vendorId word).2
  labels ++ [(str "cpu_vendorid", word)]

/-- The labels that do not depend on `/proc/cpuinfo`. -/
def buildLabels (b : BuildInformation) (hostBuffer : Str) : List (Str × Str) :=
  [(str "release_version", str "v" ++ b.projectFullRevision),
    (str "release_date", b.projectBuildDate ++ str " " ++ b.projectBuildTime),
    (str "compiler_name", b.compilerName), (str "compiler_version", b.compilerVersion),
    (str "build", b.buildType), (str "hostname", cString hostBuffer)]

/-- A label in `_basicInformation`. -/
def labelText (label : Str × Str) : Str :=
  str "\"" ++ label.1 ++ str "\":\"" ++ label.2 ++ str "\","

/-- `_basicInformation`. -/
def lokiInformation (b : BuildInformation) (hostBuffer : Str) (cpuInfo : Option Str) : Str :=
  (buildLabels b hostBuffer ++ cpuLabels cpuInfo).flatMap labelText

/-- The constructor of the Loki sink. -/
def lokiSink (lokiAddress : Str) (b : BuildInformation) (hostBuffer : Str)
    (cpuInfo : Option Str) : Loki.LokiSink :=
  Loki.lokiApiSink lokiAddress (lokiInformation b hostBuffer cpuInfo)

/-- The members of the host context. -/
def setHostContext (hostBuffer : Str) (cpuInfo : Option Str) : List (Str × Str) :=
  let hostContext := [(str "Hostname", cString hostBuffer)]
  let word := []
  let word := (findFromFile cpuInfo siblings word).2
  let hostContext := hostContext ++ [(str "Thread count", cString word)]
  let word := (findFromFile cpuInfo cpuCores word).2
  let hostContext := hostContext ++ [(str "Core count", cString word)]
  let word := (findFromFile cpuInfo modelName word).2
  let hostContext := hostContext ++ [(str "Model", cString word)]
  let word := (findFromFile cpuInfo vendorId word).2
  hostContext ++ [(str "Vendor ID", cString word)]

/-! ### What belongs in them -/

/-- The last word of the first line of the field, or nothing. -/
def ownWord (cpuInfo : Option Str) (pattern : Pattern) : Str := (firstWord cpuInfo pattern).getD []

def ownLabels (cpuInfo : Option Str) : List (Str × Str) :=
  [(str "cpu_threadcount", ownWord cpuInfo siblings),
    (str "cpu_corecount", ownWord cpuInfo cpuCores), (str "cpu_model", ownWord cpuInfo modelName),
    (str "cpu_vendorid", ownWord cpuInfo vendorId)]

def ownContext (hostBuffer : Str) (cpuInfo : Option Str) : List (Str × Str) :=
  [(str "Hostname", cString hostBuffer), (str "Thread count", ownWord cpuInfo siblings),
    (str "Core count", ownWord cpuInfo cpuCores), (str "Model", ownWord cpuInfo modelName),
    (str "Vendor ID", ownWord cpuInfo vendorId)]

/-- The fields in the order they are looked up. -/
def patterns : List Pattern := [siblings, cpuCores, modelName, vendorId]

/-- A field without a word comes only behind a field whose word is empty. -/
def NoneMissing (cpuInfo : Option Str) : Prop :=
  patterns.IsChain fun before pattern =>
    firstWord cpuInfo pattern = none → ownWord cpuInfo before = []

/-- No word holds a NUL. -/
def NoNul (cpuInfo : Option Str) : Prop := ∀ pattern ∈ patterns, 0 ∉ ownWord cpuInfo pattern

/-- The words the lookups of these patterns leave, starting from `word`. -/
def wordsFrom (cpuInfo : Option Str) : Str → List Pattern → List Str
  | _, [] => []
  | word, pattern :: rest =>
    (findFromFile cpuInfo pattern word).2 ::
      wordsFrom cpuInfo (findFromFile cpuInfo pattern word).2 rest

/-- What one lookup leaves is right if it finds a word, or if nothing was there. -/
theorem findFromFile_eq_ownWord {cpuInfo : Option Str} {pattern : Pattern} {word : Str} :
    (findFromFile cpuInfo pattern word).2 = ownWord cpuInfo pattern ↔
      (firstWord cpuInfo pattern = none → word = []) := by
  rw [findFromFile_word, ownWord]
  cases firstWord cpuInfo pattern <;> simp

theorem wordsFrom_iff (cpuInfo : Option Str) : ∀ (rest : List Pattern) (before : Pattern),
    wordsFrom cpuInfo (ownWord cpuInfo before) rest = rest.map (ownWord cpuInfo) ↔
      (before :: rest).IsChain fun before pattern =>
        firstWord cpuInfo pattern = none → ownWord cpuInfo before = []
  | [], before => by simp [wordsFrom]
  | pattern :: rest, before => by
    rw [wordsFrom, List.map_cons, List.cons.injEq, findFromFile_eq_ownWord,
      List.isChain_cons_cons, ← wordsFrom_iff cpuInfo rest pattern]
    refine and_congr_right fun h => ?_
    rw [findFromFile_eq_ownWord.mpr h]

/-- The four words are the fields' own exactly if none is missing. -/
theorem words_iff (cpuInfo : Option Str) :
    wordsFrom cpuInfo [] patterns = patterns.map (ownWord cpuInfo) ↔ NoneMissing cpuInfo := by
  have hfirst : (findFromFile cpuInfo siblings []).2 = ownWord cpuInfo siblings :=
    findFromFile_eq_ownWord.mpr fun _ => rfl
  have hsplit : wordsFrom cpuInfo [] patterns = ownWord cpuInfo siblings ::
      wordsFrom cpuInfo (ownWord cpuInfo siblings) [cpuCores, modelName, vendorId] := by
    rw [← hfirst]
    rfl
  rw [hsplit]
  show _ = ownWord cpuInfo siblings :: [cpuCores, modelName, vendorId].map (ownWord cpuInfo) ↔ _
  rw [List.cons.injEq, wordsFrom_iff]
  exact and_iff_right rfl

/-! ### When the labels are their own -/

theorem lokiLabels_iff (cpuInfo : Option Str) :
    cpuLabels cpuInfo = ownLabels cpuInfo ↔ NoneMissing cpuInfo := by
  rw [← words_iff]
  simp [cpuLabels, ownLabels, wordsFrom, patterns]

/-- Every word that is left is one of the fields' own, or the one there was
before. -/
theorem mem_wordsFrom {cpuInfo : Option Str} {w : Str} : ∀ {rest : List Pattern} {word : Str},
    w ∈ wordsFrom cpuInfo word rest → w ∈ rest.map (ownWord cpuInfo) ∨ w = word
  | [], _, h => by simp [wordsFrom] at h
  | pattern :: rest, word, h => by
    have hone : (findFromFile cpuInfo pattern word).2 = ownWord cpuInfo pattern ∨
        (findFromFile cpuInfo pattern word).2 = word := by
      rw [findFromFile_word, ownWord]
      cases firstWord cpuInfo pattern <;> simp
    have hw : w = (findFromFile cpuInfo pattern word).2 ∨ w ∈ rest.map (ownWord cpuInfo) := by
      rcases List.mem_cons.mp h with hw | hw
      · exact .inl hw
      · exact (mem_wordsFrom hw).symm
    rw [List.map_cons, List.mem_cons]
    rcases hw with rfl | hw
    · exact hone.imp_left .inl
    · exact .inl (.inr hw)

/-- As C strings the words are right if they are right and hold no NUL. -/
theorem cWords_iff (cpuInfo : Option Str) :
    (wordsFrom cpuInfo [] patterns).map cString = patterns.map (ownWord cpuInfo) ↔
      NoneMissing cpuInfo ∧ NoNul cpuInfo := by
  have hsame : ∀ {words : List Str}, (∀ w ∈ words, 0 ∉ w) → words.map cString = words :=
    fun h => (List.map_congr_left fun w hw => cString_of_notMem (h w hw)).trans (List.map_id _)
  rw [← words_iff]
  constructor
  · intro h
    have hown : ∀ w ∈ patterns.map (ownWord cpuInfo), 0 ∉ w := by
      intro w hw
      rw [← h] at hw
      obtain ⟨w', -, rfl⟩ := List.mem_map.mp hw
      exact zero_notMem_cString w'
    have hwords : ∀ w ∈ wordsFrom cpuInfo [] patterns, 0 ∉ w := by
      intro w hw
      rcases mem_wordsFrom hw with hw | rfl
      · exact hown w hw
      · exact List.not_mem_nil
    rw [hsame hwords] at h
    exact ⟨h, fun pattern hp => hown _ (List.mem_map_of_mem hp)⟩
  · rintro ⟨h, hnul⟩
    rw [h, hsame]
    intro w hw
    obtain ⟨pattern, hp, rfl⟩ := List.mem_map.mp hw
    exact hnul pattern hp

theorem sentryLabels_iff (hostBuffer : Str) (cpuInfo : Option Str) :
    setHostContext hostBuffer cpuInfo = ownContext hostBuffer cpuInfo ↔
      NoneMissing cpuInfo ∧ NoNul cpuInfo := by
  rw [← cWords_iff]
  simp [setHostContext, ownContext, wordsFrom, patterns]

/-- If no line is missing, the sink sends the labels of its own host. -/
theorem lokiSink_own {lokiAddress : Str} (h : lokiAddress ≠ []) (b : BuildInformation)
    (hostBuffer : Str) {cpuInfo : Option Str} (hlines : NoneMissing cpuInfo) :
    (lokiSink lokiAddress b hostBuffer cpuInfo).basicInformation =
      (buildLabels b hostBuffer ++ ownLabels cpuInfo).flatMap labelText := by
  rw [lokiSink, Loki.lokiApiSink, if_neg h, ← (lokiLabels_iff cpuInfo).mpr hlines]
  rfl

/-- **When the host labels are their own**, in the Loki sink and in the context
of the Sentry sink. -/
theorem hostLabels_iff (hostBuffer : Str) (cpuInfo : Option Str) :
    (cpuLabels cpuInfo = ownLabels cpuInfo ↔ NoneMissing cpuInfo) ∧
      (setHostContext hostBuffer cpuInfo = ownContext hostBuffer cpuInfo ↔
        NoneMissing cpuInfo ∧ NoNul cpuInfo) :=
  ⟨lokiLabels_iff cpuInfo, sentryLabels_iff hostBuffer cpuInfo⟩

/-- A file with the siblings and the vendor only. The cores and the model are
given the word of the siblings. -/
def noCores : Str := str "siblings\t: 8\nvendor_id\t: GenuineIntel\n"

theorem not_hostLabels_noCores :
    cpuLabels (some noCores) ≠ ownLabels (some noCores) ∧
      cpuLabels (some noCores) =
        [(str "cpu_threadcount", str "8"), (str "cpu_corecount", str "8"), (str "cpu_model", str "8"),
          (str "cpu_vendorid", str "GenuineIntel")] ∧
      setHostContext (str "host") (some noCores) ≠ ownContext (str "host") (some noCores) := by
  decide +kernel

end Host
end RepoInit
