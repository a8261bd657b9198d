/-
# `constHasher`

The hash the servers switch on: `*s + 33 * constHasher(s + 1)` in 64-bit
wrap-around arithmetic, with `char` signed, up to the first NUL.
-/
import RepoInit.Basic

namespace RepoInit

/-- A `char` in an arithmetic expression with a `size_t`: signed, extended. -/
def charToSize (c : Byte) : UInt64 := c.toInt8.toInt64.toUInt64

/-- `constHasher` of the C string that starts with these bytes. -/
def constHasher : Str → UInt64
  | [] => 5381
  | c :: s => if c = 0 then 5381 else charToSize c + 33 * constHasher s

/-- A line and a command with one hash: 33 less in a byte is 1 more in the next. -/
example : constHasher (str "Pvit") = constHasher (str "quit") := by decide

end RepoInit
