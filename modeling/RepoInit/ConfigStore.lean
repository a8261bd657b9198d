/-
# A `ConfigParser` and its file over time

Keys are set and removed, the configuration is saved and loaded, and someone else may
write the file. On keys and values without NUL the parser and its file are a map with
a copy on disk (`parser_refines`), so a load brings back what was saved
(`load_reverts`). A load that fails empties the map, and nothing keeps `save` from
writing the file then: what was in it is gone but for what was set since
(`save_after_failed_load`).

Key definitions: `System`, `Action`, `step`, `contents`, `System.store`.
Key theorems: `step_store`, `parser_refines`, `load_reverts`, `save_after_failed_load`.
-/
import RepoInit.ConfigParser
import RepoInit.Lib.MapStore

namespace RepoInit
namespace ConfigStore

open MapStore

/-! ### The parser and the file -/

/-- A parser, and the content of its file, or `none` if it can't be opened. -/
structure System where
  parser : ConfigParser
  file : Option Str

inductive Action where
  | set (key value : Str)
  | remove (key : Str)
  | save (writable : Bool) (order : ∀ m, Iteration m)
  | load
  | replace (file : Option Str)

section Source

variable (rj : RapidJson)

def step (s : System) : Action → System
  | .set key value => { s with parser := s.parser.set key value }
  | .remove key => { s with parser := s.parser.remove key }
  | .save writable order =>
    match s.parser.save rj writable (order s.parser.configMap) with
    | .ok text => { s with file := some text }
    | .error _ => s
  | .load => { s with parser := (load rj s.file s.parser).2 }
  | .replace file => { s with file := file }

def run (s : System) (actions : List Action) : System := actions.foldl (step rj) s

/-- The constructor, which loads. -/
def start (path : Str) (file : Option Str) : System :=
  { parser := ConfigParser.new rj path file, file := file }

end Source

/-! ### The store it is -/

/-- The map that a load gives, if it succeeds. -/
def contents (rj : RapidJson) (file : Option Str) : Option ConfigMap :=
  match file.map rj.parse with
  | some (.ok (.object members)) => some (takeMembers rj members ∅)
  | _ => none

def System.store (rj : RapidJson) (s : System) : Store Str Str :=
  { memory := s.parser.configMap, disk := contents rj s.file }

/-- What an action does to the store; a save that fails does nothing. -/
def Action.ops (rj : RapidJson) : Action → List (Op Str Str)
  | .set key value => [.set key value]
  | .remove key => [.remove key]
  | .save writable _ => if writable then [.save] else []
  | .load => [.load]
  | .replace file => [.replace (contents rj file)]

/-- The action sets a key and a value without NUL, if it sets one. -/
def Action.Clean : Action → Prop
  | .set key value => 0 ∉ key ∧ 0 ∉ value
  | _ => True

instance : DecidablePred Action.Clean
  | .set _ _ => inferInstanceAs (Decidable (_ ∧ _))
  | .remove _ | .save _ _ | .load | .replace _ => inferInstanceAs (Decidable True)

section Store

variable {rj : RapidJson} {s : System}

/-- A load takes the contents of the file, or nothing. -/
theorem load_contents (file : Option Str) (p : ConfigParser) :
    (load rj file p).2.configMap = (contents rj file).getD ∅ ∧
      (load rj file p).2.isValid = (contents rj file).isSome := by
  unfold load readJson contents
  cases file with
  | none => exact ⟨rfl, rfl⟩
  | some text =>
    simp only [Option.map_some]
    cases rj.parse text with
    | error offset => exact ⟨rfl, rfl⟩
    | ok v => cases v <;> exact ⟨rfl, rfl⟩

/-- A map without NUL is read back from what is written. -/
theorem contents_writeJson (hrj : rj.KeepsStrings) {m : ConfigMap} (h : NoNul m)
    (it : Iteration m) : contents rj (some (writeJson rj it.entries)) = some m := by
  rw [contents, Option.map_some, writeJson, hrj]
  exact congrArg some (takeMembers_iteration h it)

theorem noNul_insert {m : ConfigMap} (h : NoNul m) {key value : Str} (hkey : 0 ∉ key)
    (hvalue : 0 ∉ value) : NoNul (m.insert key value) := by
  intro k v hlookup
  by_cases hk : k = key
  · subst hk
    rw [Finmap.lookup_insert] at hlookup
    obtain rfl := Option.some.inj hlookup
    exact ⟨hkey, hvalue⟩
  · rw [Finmap.lookup_insert_of_ne _ hk] at hlookup
    exact h k v hlookup

theorem noNul_erase {m : ConfigMap} (h : NoNul m) (key : Str) : NoNul (m.erase key) := by
  intro k v hlookup
  by_cases hk : k = key
  · subst hk
    simp [Finmap.lookup_erase] at hlookup
  · rw [Finmap.lookup_erase_ne hk] at hlookup
    exact h k v hlookup

/-- No NUL comes into the map, except through `set`. -/
theorem step_noNul (h : NoNul s.parser.configMap) {a : Action} (ha : a.Clean) :
    NoNul (step rj s a).parser.configMap := by
  cases a with
  | set key value => exact noNul_insert h ha.1 ha.2
  | remove key => exact noNul_erase h key
  | save writable order =>
    unfold step
    dsimp only
    split
    · exact h
    · exact h
  | load => exact load_noNul s.file s.parser
  | replace file => exact h

/-- One action, on the parser and its file and on the store. -/
theorem step_store (hrj : rj.KeepsStrings) (h : NoNul s.parser.configMap) (a : Action) :
    (step rj s a).store rj = (s.store rj).run (a.ops rj) := by
  cases a with
  | save writable order =>
    cases writable with
    | false => rfl
    | true =>
      show Store.mk s.parser.configMap (contents rj (some (writeJson rj (order _).entries))) = _
      rw [contents_writeJson hrj h]
      rfl
  | load =>
    show Store.mk (load rj s.file s.parser).2.configMap (contents rj s.file) = _
    rw [(load_contents s.file s.parser).1]
    rfl
  | _ => rfl

theorem run_noNul {actions : List Action} (ha : ∀ a ∈ actions, a.Clean) :
    NoNul s.parser.configMap → NoNul (run rj s actions).parser.configMap := by
  induction actions generalizing s with
  | nil => exact id
  | cons a actions ih =>
    intro h
    exact ih (fun b hb => ha b (List.mem_cons_of_mem a hb)) (step_noNul h (ha a List.mem_cons_self))

theorem run_store (hrj : rj.KeepsStrings) {actions : List Action} (ha : ∀ a ∈ actions, a.Clean) :
    NoNul s.parser.configMap →
      (run rj s actions).store rj = (s.store rj).run (actions.flatMap (Action.ops rj)) := by
  induction actions generalizing s with
  | nil => exact fun _ => rfl
  | cons a actions ih =>
    intro h
    have hnul : NoNul (step rj s a).parser.configMap := step_noNul h (ha a List.mem_cons_self)
    have hrest := ih (fun b hb => ha b (List.mem_cons_of_mem a hb)) hnul
    rw [List.flatMap_cons, Store.run_append, ← step_store hrj h a]
    exact hrest

theorem run_append (actions actions' : List Action) :
    run rj s (actions ++ actions') = run rj (run rj s actions) actions' := List.foldl_append

end Store

theorem start_noNul (rj : RapidJson) (path : Str) (file : Option Str) :
    NoNul (start rj path file).parser.configMap := load_noNul file { configPath := path }

/-- The store that a constructor begins with: the map is loaded. -/
def loaded (disk : Option ConfigMap) : Store Str Str := { memory := disk.getD ∅, disk := disk }

theorem start_store (rj : RapidJson) (path : Str) (file : Option Str) :
    (start rj path file).store rj = loaded (contents rj file) := by
  show Store.mk (load rj file { configPath := path }).2.configMap (contents rj file) = _
  rw [(load_contents file { configPath := path }).1]
  rfl

theorem start_run_store {rj : RapidJson} (hrj : rj.KeepsStrings) (path : Str) (file : Option Str)
    {actions : List Action} (ha : ∀ a ∈ actions, a.Clean) :
    (run rj (start rj path file) actions).store rj =
      (loaded (contents rj file)).run (actions.flatMap (Action.ops rj)) := by
  rw [run_store hrj ha (start_noNul rj path file), start_store]

/-! ### What comes back -/

/-- **A parser and its file are a store.** Over any actions that set no NUL, whatever
the file holds and whoever writes it, `get` returns what the store has in memory, and
the file loads to what the store has on disk. -/
theorem parser_refines (rj : RapidJson) (hrj : rj.KeepsStrings) (path : Str) (file : Option Str)
    (actions : List Action) (ha : ∀ a ∈ actions, a.Clean) :
    let s := run rj (start rj path file) actions
    let store := (loaded (contents rj file)).run (actions.flatMap (Action.ops rj))
    (∀ key, s.parser.get key = (store.memory.lookup key).getD []) ∧
      contents rj s.file = store.disk := by
  have h := start_run_store hrj path file ha
  dsimp only
  rw [← h]
  exact ⟨fun _ => rfl, rfl⟩

/-- A map has an order. -/
noncomputable def anyOrder (m : ConfigMap) : Iteration m where
  entries := m.entries.toList.map fun entry => (entry.1, entry.2)
  nodup := by
    have hnodup := m.nodupKeys
    rw [← Multiset.coe_toList m.entries, Multiset.coe_nodupKeys] at hnodup
    rw [List.map_map]
    exact hnodup
  mem_iff key value := by
    rw [Finmap.lookup_eq_some_iff, ← Multiset.mem_toList, List.mem_map]
    constructor
    · rintro ⟨⟨k, v⟩, hmem, heq⟩
      obtain ⟨rfl, rfl⟩ := Prod.mk.inj heq
      exact hmem
    · exact fun hmem => ⟨⟨key, value⟩, hmem, rfl⟩

/-- A key is set, saved and set again, and the file is loaded. -/
theorem parser_refines_port :
    let actions : List Action := [.set (str "PORT") (str "23000"), .save true anyOrder,
      .set (str "PORT") (str "23001"), .load]
    let s := run jsonText (start jsonText (str "config.json") none) actions
    let store := (loaded (contents jsonText none)).run (actions.flatMap (Action.ops jsonText))
    (∀ key, s.parser.get key = (store.memory.lookup key).getD []) ∧
      contents jsonText s.file = store.disk :=
  parser_refines jsonText jsonText_keepsStrings (str "config.json") none
    [.set (str "PORT") (str "23000"), .save true anyOrder, .set (str "PORT") (str "23001"), .load]
    (by decide)

/-- The action may change the file. -/
def Action.Writes : Action → Prop
  | .save writable _ => writable = true
  | .replace _ => True
  | _ => False

instance : DecidablePred Action.Writes
  | .save _ _ => inferInstanceAs (Decidable (_ = true))
  | .replace _ => inferInstanceAs (Decidable True)
  | .set _ _ | .remove _ | .load => inferInstanceAs (Decidable False)

theorem not_writes_ops {rj : RapidJson} {actions : List Action} (h : ∀ a ∈ actions, ¬ a.Writes) :
    ∀ op ∈ actions.flatMap (Action.ops rj), ¬ op.Writes := by
  intro op hop
  obtain ⟨a, ha, hop⟩ := List.mem_flatMap.mp hop
  have hwrites := h a ha
  cases a with
  | save writable order =>
    rw [Action.Writes, Bool.not_eq_true] at hwrites
    subst hwrites
    simp [Action.ops] at hop
  | replace file => exact absurd trivial hwrites
  | _ =>
    obtain rfl := List.mem_singleton.mp hop
    exact not_false

/-- **A load brings back what was saved.** Over actions that set no NUL, whatever is
set, removed, loaded or saved in vain after a save, the next load gives the map that
was saved and succeeds, if nobody else writes the file. -/
theorem load_reverts (rj : RapidJson) (hrj : rj.KeepsStrings) (path : Str) (file : Option Str)
    (before edits : List Action) (order : ∀ m, Iteration m) (hbefore : ∀ a ∈ before, a.Clean)
    (hedits : ∀ a ∈ edits, a.Clean ∧ ¬ a.Writes) :
    let s := run rj (start rj path file) before
    let s' := run rj s (.save true order :: edits ++ [.load])
    s'.parser.configMap = s.parser.configMap ∧ s'.parser.isValid = true := by
  dsimp only
  generalize hs : run rj (start rj path file) before = s
  have hnul : NoNul s.parser.configMap := hs ▸ run_noNul hbefore (start_noNul rj path file)
  have hclean : ∀ a ∈ Action.save true order :: edits, a.Clean := by
    intro a ha
    rcases List.mem_cons.mp ha with rfl | ha
    · trivial
    · exact (hedits a ha).1
  have hstore := run_store hrj hclean hnul
  have hdisk : contents rj (run rj s (.save true order :: edits)).file = some s.parser.configMap :=
    (congrArg Store.disk hstore).trans
      (disk_of_save (s.store rj) _ (not_writes_ops fun a ha => (hedits a ha).2))
  rw [run_append]
  generalize run rj s (.save true order :: edits) = s₁ at hdisk
  obtain ⟨hmap, hvalid⟩ := @load_contents rj s₁.file s₁.parser
  rw [hdisk] at hmap hvalid
  exact ⟨hmap, hvalid⟩

theorem load_reverts_port :
    let s := run jsonText (start jsonText (str "config.json") none) [.set (str "PORT") (str "23000")]
    let s' := run jsonText s (.save true anyOrder ::
      [.set (str "PORT") (str "23001"), .remove (str "NAME")] ++ [.load])
    s'.parser.configMap = s.parser.configMap ∧ s'.parser.isValid = true :=
  load_reverts jsonText jsonText_keepsStrings (str "config.json") none
    [.set (str "PORT") (str "23000")] [.set (str "PORT") (str "23001"), .remove (str "NAME")] anyOrder
    (by decide)
    (by decide)

/-- **A load that fails costs the file.** If the file can't be read or parsed when it is
loaded, the next save leaves in it what was set since, none of it with a NUL, and
nothing else. -/
theorem save_after_failed_load (rj : RapidJson) (hrj : rj.KeepsStrings) (s : System)
    (hfails : contents rj s.file = none) (edits : List Action) (order : ∀ m, Iteration m)
    (hedits : ∀ a ∈ edits, a.Clean ∧ ¬ a.Writes) (key value : Str) :
    (∃ m, contents rj (run rj s (.load :: edits ++ [.save true order])).file = some m ∧
        m.lookup key = some value) ↔
      Prefixes.Since (Gives ⟨∅, none⟩ key value) (Op.Decides key) (edits.flatMap (Action.ops rj)) := by
  have hload : (step rj s .load).store rj = ⟨∅, none⟩ := by
    show Store.mk (load rj s.file s.parser).2.configMap (contents rj s.file) = _
    rw [(load_contents s.file s.parser).1, hfails]
    rfl
  have hnul : NoNul (step rj s .load).parser.configMap := load_noNul s.file s.parser
  have hclean : ∀ a ∈ edits ++ [.save true order], a.Clean := by
    intro a ha
    rcases List.mem_append.mp ha with ha | ha
    · exact (hedits a ha).1
    · rw [List.mem_singleton.mp ha]
      trivial
  have hstore := run_store hrj hclean hnul
  rw [hload, List.flatMap_append, List.flatMap_singleton, Store.run_append] at hstore
  have hdisk : contents rj (run rj s (.load :: edits ++ [.save true order])).file =
      some ((Store.mk ∅ none).run (edits.flatMap (Action.ops rj))).memory :=
    congrArg Store.disk hstore
  rw [hdisk]
  have hlookup := lookup_run (Store.mk ∅ none) (edits.flatMap (Action.ops rj)) key value
  simp only [Finmap.lookup_empty, reduceCtorEq, and_false, or_false] at hlookup
  simp only [Option.some.injEq, exists_eq_left', hlookup]

/-- A file that is not JSON, after which one key is set. -/
theorem save_after_failed_load_port :
    let s : System := { parser := { configPath := str "config.json" }, file := some (str "PORT=1") }
    (∃ m, contents jsonText (run jsonText s (.load :: [.set (str "NAME") (str "init")] ++
        [.save true anyOrder])).file = some m ∧ m.lookup (str "PORT") = some (str "1")) ↔
      Prefixes.Since (Gives ⟨∅, none⟩ (str "PORT") (str "1")) (Op.Decides (str "PORT"))
        ([Action.set (str "NAME") (str "init")].flatMap (Action.ops jsonText)) :=
  save_after_failed_load jsonText jsonText_keepsStrings
    { parser := { configPath := str "config.json" }, file := some (str "PORT=1") } rfl
    [.set (str "NAME") (str "init")] anyOrder
    (by decide) (str "PORT") (str "1")

end ConfigStore
end RepoInit
