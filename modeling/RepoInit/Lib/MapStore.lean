/-
# A map in memory with a copy on disk

Keys are set and removed in memory. A save makes the map in memory the copy, a load
makes the copy the map, or an empty map if there is none that can be read, and the
copy may be replaced from outside.

What a key has after a run is what the last operation that decided it gave it
(`lookup_run`), and the copy is the map at the last save or what came from outside
since (`disk_run`), so that a load undoes what was done since the save
(`disk_of_save`).

Key definitions: `MapStore.Store`, `MapStore.Op`, `MapStore.Store.run`.
Key theorems: `MapStore.lookup_run`, `MapStore.disk_run`, `MapStore.disk_of_save`.
-/
import Mathlib.Data.Finmap
import RepoInit.Lib.Prefixes

namespace MapStore

open Prefixes

variable {κ ν : Type*} [DecidableEq κ]

/-- The map in memory, and the one on disk if it can be read. -/
structure Store (κ ν : Type*) where
  memory : Finmap fun _ : κ => ν
  disk : Option (Finmap fun _ : κ => ν)

inductive Op (κ ν : Type*) where
  | set (key : κ) (value : ν)
  | remove (key : κ)
  | save
  | load
  /-- Someone else writes, spoils or removes the copy. -/
  | replace (disk : Option (Finmap fun _ : κ => ν))

namespace Store

def step (s : Store κ ν) : Op κ ν → Store κ ν
  | .set key value => { s with memory := s.memory.insert key value }
  | .remove key => { s with memory := s.memory.erase key }
  | .save => { s with disk := some s.memory }
  | .load => { s with memory := s.disk.getD ∅ }
  | .replace disk => { s with disk := disk }

def run (s : Store κ ν) (ops : List (Op κ ν)) : Store κ ν := ops.foldl step s

theorem run_append (s : Store κ ν) (ops ops' : List (Op κ ν)) :
    s.run (ops ++ ops') = (s.run ops).run ops' := List.foldl_append

theorem run_concat (s : Store κ ν) (ops : List (Op κ ν)) (op : Op κ ν) :
    s.run (ops ++ [op]) = (s.run ops).step op := s.run_append ops [op]

end Store

/-! ### The value of a key -/

/-- The operation decides what the key has. -/
def Op.Decides (key : κ) : Op κ ν → Prop
  | .set key' _ => key' = key
  | .remove key' => key' = key
  | .load => True
  | _ => False

/-- The operation, after some others, gives the key the value. -/
def Gives (s : Store κ ν) (key : κ) (value : ν) (before : List (Op κ ν)) : Op κ ν → Prop
  | .set key' value' => key' = key ∧ value' = value
  | .load => (((s.run before).disk).getD ∅).lookup key = some value
  | _ => False

/-- One operation: it gives the key its value, or leaves it alone. -/
theorem lookup_step (s : Store κ ν) (before : List (Op κ ν)) (op : Op κ ν) (key : κ) (value : ν) :
    (((s.run before).step op).memory.lookup key = some value) ↔
      Gives s key value before op ∨
        (¬ op.Decides key ∧ (s.run before).memory.lookup key = some value) := by
  cases op with
  | set key' value' =>
    by_cases hkey : key' = key
    · subst hkey
      simp [Store.step, Gives, Op.Decides, Finmap.lookup_insert]
    · simp [Store.step, Gives, Op.Decides, hkey, Finmap.lookup_insert_of_ne _ (Ne.symm hkey)]
  | remove key' =>
    by_cases hkey : key' = key
    · subst hkey
      simp [Store.step, Gives, Op.Decides, Finmap.lookup_erase]
    · simp [Store.step, Gives, Op.Decides, hkey, Finmap.lookup_erase_ne (Ne.symm hkey)]
  | save => simp [Store.step, Gives, Op.Decides]
  | load => simp [Store.step, Gives, Op.Decides]
  | replace disk => simp [Store.step, Gives, Op.Decides]

/-- **The last operation that decides a key gives it its value.** -/
theorem lookup_run (s : Store κ ν) (ops : List (Op κ ν)) (key : κ) (value : ν) :
    (s.run ops).memory.lookup key = some value ↔
      Since (Gives s key value) (Op.Decides key) ops ∨
        ((∀ op ∈ ops, ¬ op.Decides key) ∧ s.memory.lookup key = some value) := by
  induction ops using List.reverseRecOn with
  | nil => simp [Store.run, since_nil]
  | append_singleton ops op ih =>
    rw [Store.run_concat, lookup_step, ih, since_append]
    simp only [List.mem_append, List.mem_singleton, or_imp, forall_and, forall_eq]
    tauto

/-! ### The copy -/

/-- The operation writes the copy. -/
def Op.Writes : Op κ ν → Prop
  | .save => True
  | .replace _ => True
  | _ => False

/-- The operation, after some others, makes this the copy. -/
def Leaves (s : Store κ ν) (disk : Option (Finmap fun _ : κ => ν)) (before : List (Op κ ν)) :
    Op κ ν → Prop
  | .save => some (s.run before).memory = disk
  | .replace disk' => disk' = disk
  | _ => False

theorem disk_step (s : Store κ ν) (before : List (Op κ ν)) (op : Op κ ν)
    (disk : Option (Finmap fun _ : κ => ν)) :
    ((s.run before).step op).disk = disk ↔
      Leaves s disk before op ∨ (¬ op.Writes ∧ (s.run before).disk = disk) := by
  cases op <;> simp [Store.step, Leaves, Op.Writes]

/-- **The copy is what the last operation that wrote it left.** -/
theorem disk_run (s : Store κ ν) (ops : List (Op κ ν)) (disk : Option (Finmap fun _ : κ => ν)) :
    (s.run ops).disk = disk ↔
      Since (Leaves s disk) Op.Writes ops ∨ ((∀ op ∈ ops, ¬ op.Writes) ∧ s.disk = disk) := by
  induction ops using List.reverseRecOn with
  | nil => simp [Store.run, since_nil]
  | append_singleton ops op ih =>
    rw [Store.run_concat, disk_step, ih, since_append]
    simp only [List.mem_append, List.mem_singleton, or_imp, forall_and, forall_eq]
    tauto

/-- After a save the copy is the map that was saved, whatever is set, removed and
loaded, as long as nothing writes it. -/
theorem disk_of_save (s : Store κ ν) (edits : List (Op κ ν)) (h : ∀ op ∈ edits, ¬ op.Writes) :
    (s.run (.save :: edits)).disk = some s.memory :=
  (disk_run s (.save :: edits) (some s.memory)).mpr (.inl ⟨[], .save, edits, rfl, rfl, h⟩)

end MapStore
