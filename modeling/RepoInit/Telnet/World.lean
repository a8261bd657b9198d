/-
# The world of the Telnet server

`Os` answers the system calls: the `n`-th answer of the run is the one at `n`,
so every sequence of outcomes is the answers of some `Os`. `World` counts the
answers used, and records as events, newest first, what the server did with its
sockets and which lines it passed to the newline callback. A session is named
in the events by its number among the accepted ones, since descriptor numbers
are used again.
-/
import RepoInit.Basic

namespace RepoInit
namespace Telnet

/-- The answer of `recv`: the bytes read, none at end of file, or `-1` with an
`errno`. -/
inductive Recv where
  | bytes (data : Str)
  | fail (errno : ℕ)
  deriving DecidableEq, Repr

def EAGAIN : ℕ := 11

/-- The answers of the operating system, by the number of answers given
before. Clock readings are in nanoseconds. -/
structure Os where
  /-- Whether `select` reports the listening socket. -/
  select : ℕ → Bool
  /-- The new descriptor, or `none` for `INVALID_SOCKET`. -/
  accept : ℕ → Option ℕ
  recv : ℕ → Recv
  /-- What `send` returns. -/
  send : ℕ → ℤ
  systemClock : ℕ → ℤ
  highResolutionClock : ℕ → ℤ

/-- Nothing is pending, nothing is sent and no time passes. -/
instance : Inhabited Os :=
  ⟨{ select := fun _ => false, accept := fun _ => none, recv := fun _ => .bytes [],
     send := fun _ => 0, systemClock := fun _ => 0, highResolutionClock := fun _ => 0 }⟩

/-- What the server did. -/
inductive Event where
  /-- `accept` gave `fd`; the session is kept in `m_sessions` or refused. -/
  | accept (id fd : ℕ) (kept : Bool)
  | recv (id fd : ℕ) (answer : Recv)
  | send (id fd : ℕ) (data : Str) (sent : ℤ)
  | shutdown (id fd : ℕ)
  | close (id fd : ℕ)
  /-- A line went to the newline callback, which returned `ok`. -/
  | line (id : ℕ) (line : Str) (ok : Bool)
  deriving DecidableEq, Repr

structure World where
  /-- Answers of the operating system used so far. -/
  n : ℕ := 0
  /-- Connections accepted so far. -/
  accepted : ℕ := 0
  /-- What happened, newest first. -/
  trace : List Event := []
  /-- spdlog's global level. -/
  level : Level := .info

/-- Another answer is used up. -/
def World.next (w : World) : World := { w with n := w.n + 1 }

def World.record (w : World) (e : Event) : World := { w with trace := e :: w.trace }

/-- The lines passed to the newline callback, oldest first. -/
def passedLines : List Event → List Str
  | [] => []
  | .line _ l _ :: t => passedLines t ++ [l]
  | _ :: t => passedLines t

end Telnet
end RepoInit
