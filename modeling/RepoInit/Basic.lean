/-
# Bytes, strings and what the servers share

A `std::string` is its list of bytes. `str` gives the UTF-8 bytes of a literal,
`cString` the bytes in front of the first NUL.
`Level` is spdlog's global level, `Build` what the build fixes (`NDEBUG` and
the generated version string), and `CheckFlags` the contents of `vCheckFlag`.
-/
import Mathlib.Data.Int.Notation
import Mathlib.Data.List.Basic
import Mathlib.Data.List.TakeWhile

namespace RepoInit

abbrev Byte := UInt8

abbrev Str := List Byte

/-- The bytes of a string literal. -/
def str (s : String) : Str := s.toByteArray.data.toList

/-- The `std::string` that is made of a `const char *` to these bytes. -/
def cString (s : Str) : Str := s.takeWhile (· ≠ 0)

theorem zero_notMem_cString (s : Str) : 0 ∉ cString s := by
  intro h
  have := List.mem_takeWhile_imp h
  simp at this

theorem cString_of_notMem {s : Str} (h : 0 ∉ s) : cString s = s := by
  rw [cString, List.takeWhile_eq_self_iff]
  intro b hb
  simp only [ne_eq, decide_eq_true_eq]
  rintro rfl
  exact h hb

/-- `spdlog::level`. -/
inductive Level where
  | trace | debug | info | warn | err | critical | off
  deriving DecidableEq, Repr

/-- What the build fixes: whether `NDEBUG` is defined, and
`PROJECT_FULL_VERSION_STRING` of the generated `Version.h`. -/
structure Build where
  ndebug : Bool
  projectFullVersionString : Str

/-- The default level the build selects in its `#ifdef NDEBUG` branches. -/
def Build.defaultLevel (b : Build) : Level := if b.ndebug then .warn else .info

/-- `vCheckFlag`: the services and whether their flag is set. -/
abbrev CheckFlags := List (Str × Bool)

end RepoInit
