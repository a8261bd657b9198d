/-
# The command line

`getCmdOption` gives the token behind the first occurrence of an option,
whatever it is. `getCmdOptions` pairs an option with the token behind it only if
that is no option itself. So they agree on an option exactly if the token behind
its first occurrence does not start with `-` (`getCmdOption_iff`); if it does,
the program takes the name of the next option for the value of this one.

Key definitions: `getCmdOption`, `getCmdOptions`.
Key theorems: `lookup_optionsFrom`, `getCmdOption_iff`.
-/
import Mathlib.Tactic.Common
import RepoInit.Basic

namespace RepoInit

structure InputParser where
  tokens : List Str

namespace InputParser

/-- The constructor takes the arguments behind the name of the program. -/
def ofArgs (argc : ℕ) (argv : List Str) : InputParser := ⟨(argv.take argc).drop 1⟩

def getCmdOption (p : InputParser) (option : Str) : Str :=
  let itr := p.tokens.idxOf option
  if itr ≠ p.tokens.length ∧ itr + 1 ≠ p.tokens.length then p.tokens.getD (itr + 1) [] else []

/-- `!s.empty() && s.at(0) == '-'`. -/
def startsWithDash (s : Str) : Bool := !s.isEmpty && s.head? = some 0x2D

/-- The pairs of `getCmdOptions` from one position on. -/
def optionsFrom : List Str → List (Str × Str)
  | [] => []
  | token :: rest =>
    if startsWithDash token then
      (match rest with
        | next :: _ =>
          if !next.isEmpty && next.head? ≠ some 0x2D then (token, next) else (token, [])
        | [] => (token, [])) :: optionsFrom rest
    else optionsFrom rest

def getCmdOptions (p : InputParser) : List (Str × Str) := optionsFrom p.tokens

def cmdOptionExists (p : InputParser) (option : Str) : Bool :=
  p.tokens.idxOf option ≠ p.tokens.length

/-! ### The token behind an option -/

/-- The token behind the first occurrence of `option`. -/
def tokenAfter (tokens : List Str) (option : Str) : Option Str := tokens[tokens.idxOf option + 1]?

/-- What `getCmdOptions` makes of it. -/
def valueOf : Option Str → Str
  | some next => if startsWithDash next then [] else next
  | none => []

theorem getCmdOption_eq (p : InputParser) (option : Str) :
    p.getCmdOption option = (tokenAfter p.tokens option).getD [] := by
  unfold getCmdOption tokenAfter
  by_cases h : p.tokens.idxOf option + 1 < p.tokens.length
  · rw [if_pos ⟨by omega, by omega⟩, List.getD_eq_getElem?_getD]
  · have hle := List.idxOf_le_length (a := option) (l := p.tokens)
    rw [if_neg (by omega), List.getElem?_eq_none (by omega)]
    rfl

theorem optionsFrom_cons (token : Str) (rest : List Str) :
    optionsFrom (token :: rest) =
      if startsWithDash token then (token, valueOf rest.head?) :: optionsFrom rest
      else optionsFrom rest := by
  cases rest with
  | nil => rfl
  | cons next rest =>
    have hpair : (if !next.isEmpty && next.head? ≠ some 0x2D then (token, next) else (token, [])) =
        (token, valueOf (some next)) := by
      cases next with
      | nil => rfl
      | cons b next => by_cases hb : b = 0x2D <;> simp [valueOf, startsWithDash, hb]
    rw [List.head?_cons, ← hpair, optionsFrom]

/-- The pair of the first occurrence comes first. -/
theorem lookup_optionsFrom {option : Str} (hdash : startsWithDash option = true) :
    ∀ {tokens : List Str}, option ∈ tokens →
      (optionsFrom tokens).lookup option = some (valueOf (tokenAfter tokens option))
  | [], h => absurd h List.not_mem_nil
  | token :: rest, h => by
    rw [optionsFrom_cons]
    by_cases heq : token = option
    · subst heq
      rw [if_pos hdash, List.lookup_cons_self, tokenAfter, List.idxOf_cons_self]
      cases rest <;> rfl
    · have hrest : option ∈ rest := (List.mem_cons.mp h).resolve_left (Ne.symm heq)
      have ih := lookup_optionsFrom hdash hrest
      have hafter : tokenAfter (token :: rest) option = tokenAfter rest option := by
        rw [tokenAfter, List.idxOf_cons_ne _ heq, List.getElem?_cons_succ, tokenAfter]
      rw [hafter]
      split
      · have hne : (option == token) = false := by simpa using Ne.symm heq
        rw [List.lookup_cons, hne]
        exact ih
      · exact ih

/-- **When the two readers agree** on an option: exactly if the token behind its
first occurrence is no option. -/
theorem getCmdOption_iff (argc : ℕ) (argv : List Str) {option : Str}
    (hdash : option.head? = some 0x2D) (hmem : option ∈ (ofArgs argc argv).tokens) :
    ∃ value, (ofArgs argc argv).getCmdOptions.lookup option = some value ∧
      ((ofArgs argc argv).getCmdOption option = value ↔
        ∀ next, tokenAfter (ofArgs argc argv).tokens option = some next →
          next.head? ≠ some 0x2D) := by
  have hd : startsWithDash option = true := by
    cases option with
    | nil => simp at hdash
    | cons b option => simpa [startsWithDash] using hdash
  refine ⟨_, lookup_optionsFrom hd hmem, ?_⟩
  rw [getCmdOption_eq]
  cases hafter : tokenAfter (ofArgs argc argv).tokens option with
  | none => simp [valueOf]
  | some next =>
    cases next with
    | nil => simp [valueOf, startsWithDash]
    | cons b next => by_cases hb : b = 0x2D <;> simp [valueOf, startsWithDash, hb]

theorem getCmdOption_telnet : ∃ value,
    (ofArgs 3 [str "prog", str "--enable-telnet", str "23"]).getCmdOptions.lookup
        (str "--enable-telnet") = some value ∧
      ((ofArgs 3 [str "prog", str "--enable-telnet", str "23"]).getCmdOption
          (str "--enable-telnet") = value ↔
        ∀ next, tokenAfter (ofArgs 3 [str "prog", str "--enable-telnet", str "23"]).tokens
          (str "--enable-telnet") = some next → next.head? ≠ some 0x2D) :=
  getCmdOption_iff 3 [str "prog", str "--enable-telnet", str "23"] rfl (by decide)

/-- The address of the ZeroMQ server is the next option. -/
theorem not_getCmdOption_agrees :
    (ofArgs 4 [str "prog", str "--enable-zeromq", str "--enable-telnet", str "23"]).getCmdOption
        (str "--enable-zeromq") = str "--enable-telnet" ∧
      (ofArgs 4 [str "prog", str "--enable-zeromq", str "--enable-telnet", str "23"]).getCmdOptions =
        [(str "--enable-zeromq", []), (str "--enable-telnet", str "23")] ∧
      str "--enable-telnet" ≠ [] := by
  decide

end InputParser
end RepoInit
