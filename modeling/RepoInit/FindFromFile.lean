/-
# `findFromFile`

The lines of a file that match a pattern, and the last word of the first of
them. The word is written to a string of the caller, but only if a line matches
and has a space (`findFromFile_word`); otherwise the string stays as it is.

A pattern is a text, anywhere in a line or, with `^`, at its beginning. The
program uses no others.

Key definitions: `Pattern`, `getLines`, `findFromFile`, `firstWord`.
Key theorems: `findFromFile_word`.
-/
import RepoInit.Basic
import RepoInit.Lib.Framing

namespace RepoInit

/-- `text` or `^text`, as a regular expression. -/
structure Pattern where
  atBegin : Bool := false
  text : Str
  deriving DecidableEq, Repr

/-- `std::regex_search`. -/
def Pattern.search (p : Pattern) (line : Str) : Bool :=
  if p.atBegin then p.text.isPrefixOf line else (Search.find p.text line).isSome

/-- The lines `getline` reads, which end at a line feed or at the end of the
file. -/
def getLines (content : Str) : List Str :=
  let (lines, rest) := Framing.split [0x0A] content
  if rest = [] then lines else lines ++ [rest]

/-- The lines of a file; one that cannot be opened has none. -/
def linesOf (file : Option Str) : List Str := (file.map getLines).getD []

/-- `find_last_of` of one character. -/
def findLastOf (c : Byte) : Str → Option ℕ
  | [] => none
  | x :: s =>
    match findLastOf c s with
    | some pos => some (pos + 1)
    | none => if x = c then some 0 else none

/-- The matched lines, and `lastWord` afterwards. -/
def findFromFile (file : Option Str) (pattern : Pattern) (lastWord : Str) : List Str × Str :=
  let matchedLines := (linesOf file).filter pattern.search
  match matchedLines with
  | [] => (matchedLines, lastWord)
  | front :: _ =>
    match findLastOf 0x20 front with
    | some pos =>
      if pos ≠ front.length then (matchedLines, front.drop (pos + 1)) else (matchedLines, lastWord)
    | none => (matchedLines, lastWord)

/-! ### The word that is found -/

/-- The last space-separated word of a line that has a space. -/
def wordOf (line : Str) : Option Str :=
  if 0x20 ∈ line then some (line.reverse.takeWhile (· ≠ 0x20)).reverse else none

/-- The last word of the first line that matches. -/
def firstWord (file : Option Str) (pattern : Pattern) : Option Str :=
  ((linesOf file).find? pattern.search).bind wordOf

theorem findLastOf_none {c : Byte} : ∀ {s : Str}, findLastOf c s = none ↔ c ∉ s
  | [] => by simp [findLastOf]
  | x :: s => by
    have ih := findLastOf_none (c := c) (s := s)
    rw [findLastOf, List.mem_cons, not_or, ← ih]
    cases findLastOf c s with
    | some pos => simp
    | none =>
      by_cases hx : x = c
      · simp [hx]
      · simp [hx, Ne.symm hx]

/-- What is behind the last space has none. -/
theorem findLastOf_some {c : Byte} {pos : ℕ} : ∀ {s : Str}, findLastOf c s = some pos →
    ∃ front word, s = front ++ c :: word ∧ front.length = pos ∧ c ∉ word
  | [], h => by simp [findLastOf] at h
  | x :: s, h => by
    rw [findLastOf] at h
    cases hs : findLastOf c s with
    | some i =>
      obtain ⟨front, word, rfl, rfl, hword⟩ := findLastOf_some hs
      simp only [hs, Option.some.injEq] at h
      exact ⟨x :: front, word, rfl, h, hword⟩
    | none =>
      simp only [hs] at h
      split_ifs at h with hx
      obtain rfl : 0 = pos := by simpa using h
      exact ⟨[], s, by rw [hx]; rfl, rfl, findLastOf_none.mp hs⟩

theorem wordOf_append {front word : Str} (h : 0x20 ∉ word) :
    wordOf (front ++ 0x20 :: word) = some word := by
  have hword : ∀ b ∈ word.reverse, decide (b ≠ 0x20) = true := fun b hb => by
    simp only [ne_eq, decide_eq_true_eq]
    rintro rfl
    exact h (List.mem_reverse.mp hb)
  have htake : (word.reverse ++ 0x20 :: front.reverse).takeWhile (· ≠ 0x20) = word.reverse := by
    rw [List.takeWhile_append_of_pos hword, List.takeWhile_cons_of_neg (by simp), List.append_nil]
  have hrev : (front ++ 0x20 :: word).reverse = word.reverse ++ 0x20 :: front.reverse := by simp
  rw [wordOf, if_pos (by simp), hrev, htake, List.reverse_reverse]

/-- **What the string of the caller is afterwards.** -/
theorem findFromFile_word (file : Option Str) (pattern : Pattern) (lastWord : Str) :
    (findFromFile file pattern lastWord).2 = (firstWord file pattern).getD lastWord := by
  unfold findFromFile firstWord
  rw [← List.head?_filter]
  cases (linesOf file).filter pattern.search with
  | nil => rfl
  | cons front lines =>
    show Prod.snd (match findLastOf 0x20 front with | some pos => _ | none => _) = _
    rw [List.head?_cons, Option.bind_some]
    cases hpos : findLastOf 0x20 front with
    | none =>
      rw [wordOf, if_neg (findLastOf_none.mp hpos)]
      rfl
    | some pos =>
      obtain ⟨before, word, rfl, rfl, hword⟩ := findLastOf_some hpos
      have hne : before.length ≠ (before ++ 0x20 :: word).length := by simp
      have hdrop : (before ++ 0x20 :: word).drop (before.length + 1) = word := by
        rw [List.drop_append]
        simp
      rw [wordOf_append hword]
      simp only [if_pos hne, hdrop]
      rfl

example : findFromFile (some (str "rchar: 5\nread_bytes: 4096\nwrite_bytes: 7\n"))
    { text := str "read_bytes" } [] = ([str "read_bytes: 4096"], str "4096") := by decide +kernel

end RepoInit
