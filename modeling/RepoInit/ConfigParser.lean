/-
# `ConfigParser`

A configuration is a map from strings to strings, read from and written to a
JSON object. On both ways every key and value passes through a C string
(`c_str()`, `GetString()`), which ends at its first NUL. So what is loaded holds
no NUL (`load_noNul`), and a configuration is saved and loaded unchanged exactly
if it holds none (`restored_iff`); `set` takes any.

RapidJSON is a parameter. What is used of it is that it writes and parses back
strings with their length (`RapidJson.KeepsStrings`). An `unordered_map` is
written in the order of its iterator, which may be any (`Iteration`).

Key definitions: `RapidJson`, `ConfigParser`, `load`, `ConfigParser.save`,
`Restored`.
Key theorems: `load_configMap`, `load_noNul`, `takeMembers_iteration`, `restored_iff`.
-/
import Mathlib.Data.Finmap
import Mathlib.Data.List.TakeWhile
import RepoInit.Basic
import RepoInit.Lib.JsonWriter

namespace RepoInit

/-! ### The source -/

/-- `_configMap` -/
abbrev ConfigMap := Finmap fun _ : Str => Str

structure RapidJson where
  /-- `Document::ParseStream`: the value, or the offset of an error. -/
  parse : Str → Except ℕ Json.Value
  /-- `Accept` of a `Writer`. -/
  write : Json.Value → Str

/-- An object of strings is parsed back with all their bytes. -/
def RapidJson.KeepsStrings (rj : RapidJson) : Prop :=
  ∀ ms, rj.parse (rj.write (Json.strings ms)) = .ok (Json.strings ms)

structure ConfigParser where
  configPath : Str
  configMap : ConfigMap := ∅
  isValid : Bool := false
  lastError : Str := []

/-- The entries of a map in the order of its iterator. -/
structure Iteration (m : ConfigMap) where
  entries : List (Str × Str)
  nodup : (entries.map Prod.fst).Nodup
  mem_iff : ∀ key value, (key, value) ∈ entries ↔ m.lookup key = some value

section Source

variable (rj : RapidJson)

def stringifyRapidjson (obj : Json.Value) : Str := cString (rj.write obj)

/-- `entry.value.IsString() ? entry.value.GetString() :
stringifyRapidjson(entry.value)` -/
def valueText : Json.Value → Str
  | .string text => cString text
  | v => stringifyRapidjson rj v

/-- Each member goes into the map, a later one in place of an earlier. -/
def takeMembers (members : List (Str × Json.Value)) (m : ConfigMap) : ConfigMap :=
  members.foldl (fun m entry => m.insert (cString entry.1) (valueText rj entry.2)) m

/-- `readJson`, with the content of the file, or `none` if it can't be opened. -/
def readJson (file : Option Str) (p : ConfigParser) : Bool × ConfigParser :=
  match file with
  | none => (false, { p with lastError := str "Can't open config file: " ++ p.configPath })
  | some text =>
    match rj.parse text with
    | .error offset =>
      (false, { p with lastError := str "JSON parse error at offset " ++ str (toString offset) })
    | .ok (.object members) => (true, { p with configMap := takeMembers rj members p.configMap })
    | .ok _ => (false, { p with lastError := str "Config is empty or not a JSON object" })

/-- `load`, and what it returns. -/
def load (file : Option Str) (p : ConfigParser) : Bool × ConfigParser :=
  let (isValid, p) := readJson rj file { p with configMap := ∅ }
  (isValid, { p with isValid := isValid })

/-- The constructor, which loads. -/
def ConfigParser.new (path : Str) (file : Option Str) : ConfigParser :=
  (load rj file { configPath := path }).2

/-- `writeJson`: the text of the file. -/
def writeJson (entries : List (Str × Str)) : Str :=
  rj.write (Json.strings (entries.map fun entry => (cString entry.1, cString entry.2)))

/-- `save` leaves a text in the file, or throws if it can't be opened. -/
def ConfigParser.save (writable : Bool) (p : ConfigParser) (it : Iteration p.configMap) :
    Except Str Str :=
  if writable then .ok (writeJson rj it.entries)
  else .error (str "Cannot open config file for writing: " ++ p.configPath)

def ConfigParser.get (key : Str) (p : ConfigParser) : Str := (p.configMap.lookup key).getD []

def ConfigParser.set (key value : Str) (p : ConfigParser) : ConfigParser :=
  { p with configMap := p.configMap.insert key value }

def ConfigParser.remove (key : Str) (p : ConfigParser) : ConfigParser :=
  { p with configMap := p.configMap.erase key }

end Source

/-! ### Saving and loading -/

inductive Edit where
  | set (key value : Str)
  | remove (key : Str)

def ConfigParser.edit (p : ConfigParser) : Edit → ConfigParser
  | .set key value => p.set key value
  | .remove key => p.remove key

/-- A configuration that was loaded and then edited. -/
def edited (rj : RapidJson) (path : Str) (file : Option Str) (edits : List Edit) : ConfigParser :=
  edits.foldl ConfigParser.edit (ConfigParser.new rj path file)

/-- What is saved loads, here and in a new parser, and gives the same map. -/
def Restored (rj : RapidJson) (p : ConfigParser) (it : Iteration p.configMap) : Prop :=
  ∃ text, p.save rj true it = .ok text ∧
    (load rj (some text) p).1 = true ∧ (load rj (some text) p).2.configMap = p.configMap ∧
    (ConfigParser.new rj p.configPath (some text)).isValid = true ∧
    (ConfigParser.new rj p.configPath (some text)).configMap = p.configMap

/-- No key and no value holds a NUL. -/
def NoNul (m : ConfigMap) : Prop :=
  ∀ key value, m.lookup key = some value → 0 ∉ key ∧ 0 ∉ value

theorem zero_notMem_valueText (rj : RapidJson) (v : Json.Value) : 0 ∉ valueText rj v := by
  unfold valueText
  split
  · exact zero_notMem_cString _
  · exact zero_notMem_cString _

/-! ### Entries that are inserted in turn -/

/-- Entries go into a map. -/
def insertAll (entries : List (Str × Str)) (m : ConfigMap) : ConfigMap :=
  entries.foldl (fun m entry => m.insert entry.1 entry.2) m

theorem takeMembers_eq (rj : RapidJson) (members : List (Str × Json.Value)) (m : ConfigMap) :
    takeMembers rj members m =
      insertAll (members.map fun entry => (cString entry.1, valueText rj entry.2)) m := by
  rw [insertAll, List.foldl_map]
  rfl

/-- What is found was inserted or there before. -/
theorem lookup_insertAll {entries : List (Str × Str)} {m : ConfigMap} {key value : Str}
    (h : (insertAll entries m).lookup key = some value) :
    (key, value) ∈ entries ∨ m.lookup key = some value := by
  induction entries generalizing m with
  | nil => exact Or.inr h
  | cons entry entries ih =>
    rcases @ih (m.insert entry.1 entry.2) h with h | h
    · exact Or.inl (List.mem_cons_of_mem _ h)
    · by_cases hkey : key = entry.1
      · rw [hkey, Finmap.lookup_insert] at h
        have hentry : (key, value) = entry := Prod.ext hkey (Option.some.inj h).symm
        exact Or.inl (hentry ▸ List.mem_cons_self)
      · rw [Finmap.lookup_insert_of_ne _ hkey] at h
        exact Or.inr h

/-- What no entry names is left alone. -/
theorem lookup_insertAll_of_notMem {entries : List (Str × Str)} {m : ConfigMap} {key : Str}
    (h : key ∉ entries.map Prod.fst) : (insertAll entries m).lookup key = m.lookup key := by
  induction entries generalizing m with
  | nil => rfl
  | cons entry entries ih =>
    rw [List.map_cons, List.mem_cons, not_or] at h
    refine (@ih (m.insert entry.1 entry.2) h.2).trans ?_
    exact Finmap.lookup_insert_of_ne _ h.1

/-- With distinct keys every entry is found. -/
theorem lookup_insertAll_of_mem {entries : List (Str × Str)} (hnodup : (entries.map Prod.fst).Nodup)
    {m : ConfigMap} {key value : Str} (h : (key, value) ∈ entries) :
    (insertAll entries m).lookup key = some value := by
  induction entries generalizing m with
  | nil => simp at h
  | cons entry entries ih =>
    rw [List.map_cons, List.nodup_cons] at hnodup
    rcases List.mem_cons.mp h with rfl | h
    · refine (lookup_insertAll_of_notMem hnodup.1).trans ?_
      exact Finmap.lookup_insert _
    · exact ih hnodup.2 h

theorem lookup_insertAll_iff {entries : List (Str × Str)} (hnodup : (entries.map Prod.fst).Nodup)
    (key value : Str) :
    (key, value) ∈ entries ↔ (insertAll entries ∅).lookup key = some value := by
  constructor
  · exact lookup_insertAll_of_mem hnodup
  · intro h
    refine (lookup_insertAll h).resolve_right ?_
    simp

/-- A map is the entries its iterator goes through. -/
theorem insertAll_iteration {m : ConfigMap} (it : Iteration m) : insertAll it.entries ∅ = m := by
  refine Finmap.ext_lookup fun key => Option.ext fun value => ?_
  rw [← lookup_insertAll_iff it.nodup, it.mem_iff]

/-! ### What is loaded -/

section Load

variable {rj : RapidJson}

/-- An object that is loaded. -/
theorem load_object {text : Str} {members : List (Str × Json.Value)}
    (h : rj.parse text = .ok (.object members)) (p : ConfigParser) :
    load rj (some text) p =
      (true, { p with configMap := takeMembers rj members ∅, isValid := true }) := by
  unfold load readJson
  dsimp only
  rw [h]

/-- The map is emptied first, and stays so unless an object is read. -/
theorem load_configMap (file : Option Str) (p : ConfigParser) :
    (load rj file p).2.configMap = ∅ ∨
      ∃ members, (load rj file p).2.configMap = takeMembers rj members ∅ := by
  unfold load readJson
  dsimp only
  split
  · exact Or.inl rfl
  · split
    · exact Or.inl rfl
    · rename_i members _
      exact Or.inr ⟨members, rfl⟩
    · exact Or.inl rfl

/-- **What is loaded holds no NUL**, whatever the file holds. -/
theorem load_noNul (file : Option Str) (p : ConfigParser) : NoNul (load rj file p).2.configMap := by
  intro key value h
  rcases @load_configMap rj file p with hempty | ⟨members, hmembers⟩
  · simp [hempty] at h
  · rw [hmembers, takeMembers_eq] at h
    rcases lookup_insertAll h with h | h
    · obtain ⟨entry, -, he⟩ := List.mem_map.mp h
      obtain ⟨rfl, rfl⟩ := Prod.mk.inj he
      exact ⟨zero_notMem_cString _, zero_notMem_valueText rj _⟩
    · simp at h

/-- The entries of a map that holds no NUL are taken back as they were
written. -/
theorem takeMembers_iteration {m : ConfigMap} (h : NoNul m) (it : Iteration m) :
    takeMembers rj ((it.entries.map fun entry => (cString entry.1, cString entry.2)).map
      fun entry => (entry.1, .string entry.2)) ∅ = m := by
  have hentries : ((it.entries.map fun entry => (cString entry.1, cString entry.2)).map
      fun entry => (entry.1, Json.Value.string entry.2)).map
        (fun entry => (cString entry.1, valueText rj entry.2)) = it.entries := by
    rw [List.map_map, List.map_map]
    refine (List.map_congr_left fun entry he => ?_).trans (List.map_id _)
    obtain ⟨hkey, hvalue⟩ := h entry.1 entry.2 ((it.mem_iff _ _).mp he)
    simp [valueText, cString_of_notMem hkey, cString_of_notMem hvalue]
  calc takeMembers rj ((it.entries.map fun entry => (cString entry.1, cString entry.2)).map
        fun entry => (entry.1, .string entry.2)) ∅
      = insertAll it.entries ∅ := by rw [takeMembers_eq, hentries]
    _ = m := insertAll_iteration it

/-- What loads unchanged holds no NUL. -/
theorem Restored.noNul {p : ConfigParser} {it : Iteration p.configMap} (h : Restored rj p it) :
    NoNul p.configMap := by
  obtain ⟨text, -, -, hmap, -⟩ := h
  rw [← hmap]
  exact load_noNul (some text) p

/-- What loads unchanged is read unchanged. -/
theorem Restored.get {p : ConfigParser} {it : Iteration p.configMap} (h : Restored rj p it) :
    ∃ text, p.save rj true it = .ok text ∧
      ∀ key, (ConfigParser.new rj p.configPath (some text)).get key = p.get key := by
  obtain ⟨text, hsave, -, -, -, hmap⟩ := h
  refine ⟨text, hsave, fun key => ?_⟩
  rw [ConfigParser.get, ConfigParser.get, hmap]

/-- **Saving and loading are inverse exactly on the maps without NUL.** In every
order of the iterator, a configuration that was loaded from a file and then
edited is saved and loaded unchanged, here and in a new parser, if and only if
none of its keys and values holds a NUL. -/
theorem restored_iff (hrj : rj.KeepsStrings) (path : Str) (file : Option Str) (edits : List Edit)
    (it : Iteration (edited rj path file edits).configMap) :
    Restored rj (edited rj path file edits) it ↔ NoNul (edited rj path file edits).configMap := by
  constructor
  · exact Restored.noNul
  · intro h
    generalize edited rj path file edits = p at it h
    have hload : ∀ p' : ConfigParser, (load rj (some (writeJson rj it.entries)) p').1 = true ∧
        (load rj (some (writeJson rj it.entries)) p').2.isValid = true ∧
        (load rj (some (writeJson rj it.entries)) p').2.configMap = p.configMap := by
      intro p'
      rw [writeJson, load_object (hrj _) p']
      exact ⟨rfl, rfl, takeMembers_iteration h it⟩
    refine ⟨writeJson rj it.entries, rfl, (hload p).1, (hload p).2.2, ?_, ?_⟩
    · exact (hload { configPath := p.configPath }).2.1
    · exact (hload { configPath := p.configPath }).2.2

end Load

/-! ### A JSON library -/

/-- The writer and the decoder of `Json`, which does not tell where an error
is. -/
def jsonText : RapidJson where
  parse text := match Json.decode text with
    | some v => .ok v
    | none => .error 0
  write := Json.encode

theorem jsonText_keepsStrings : jsonText.KeepsStrings := by
  intro ms
  show (match Json.decode (Json.encode (Json.strings ms)) with
    | some v => Except.ok v
    | none => .error 0) = _
  rw [Json.decode_encode_strings]

/-- A map by its entries. -/
def Iteration.of {m : ConfigMap} {entries : List (Str × Str)}
    (hnodup : (entries.map Prod.fst).Nodup) (h : m = insertAll entries ∅) : Iteration m where
  entries := entries
  nodup := hnodup
  mem_iff key value := by
    rw [h]
    exact lookup_insertAll_iff hnodup key value

/-- A number, a list and a string, of which one is replaced and one removed. -/
def portConfig : ConfigParser :=
  edited jsonText (str "config.json")
    (some (str "\x7b\"PORT\": 23000, \"LEVELS\": [1, 2], \"NAME\": \"init\"\x7d"))
    [.set (str "PORT") (str "23001"), .remove (str "NAME")]

theorem portConfig_configMap : portConfig.configMap =
    insertAll [(str "PORT", str "23001"), (str "LEVELS", str "[1,2]")] ∅ := by
  decide +kernel

theorem restored_portConfig :
    Restored jsonText portConfig (.of (by decide) portConfig_configMap) := by
  refine (restored_iff jsonText_keepsStrings _ _ _ _).mpr ?_
  show NoNul portConfig.configMap
  rw [portConfig_configMap]
  intro key value h
  rcases lookup_insertAll h with h | h
  · rcases List.mem_pair.mp h with h | h
    · obtain ⟨rfl, rfl⟩ := Prod.mk.inj h
      decide
    · obtain ⟨rfl, rfl⟩ := Prod.mk.inj h
      decide
  · simp at h

/-- A value with a NUL. -/
def cutConfig : ConfigParser :=
  edited jsonText (str "config.json") (some (str "\x7b\x7d")) [.set (str "NAME") (str "a\x00b")]

theorem cutConfig_configMap : cutConfig.configMap = insertAll [(str "NAME", str "a\x00b")] ∅ := by
  decide +kernel

/-- It comes back cut off. -/
theorem not_restored_cutConfig :
    ¬ Restored jsonText cutConfig (.of (by decide) cutConfig_configMap) := by
  intro h
  have hvalue := (h.noNul (str "NAME") (str "a\x00b") (by decide +kernel)).2
  revert hvalue
  decide

end RepoInit
