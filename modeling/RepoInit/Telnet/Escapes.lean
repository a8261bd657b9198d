/-
# What stripping arrow sequences leaves

`stripEscapeCharacters` erases the four arrow sequences one after the other. One
that is broken up by a sequence erased later comes together when its own pass is
over, and stays in the line (`not_stripped_upInDown`). Without one such the
buffer is free of them, and stripping it again changes nothing (`stripped_iff`).

Key definitions: `arrowLetters`, `Stripped`, `BrokenUpArrow`.
Key theorems: `stripEscapeCharacters_passes`, `stripped_iff`.
-/
import RepoInit.Lib.NestedErase
import RepoInit.Telnet.Session

namespace RepoInit
namespace Telnet

open Search NestedErase

/-- What ends the arrow sequences, in the order of the passes. -/
def arrowLetters : Str := [0x41, 0x42, 0x43, 0x44]

/-- What `stripEscapeCharacters` is to leave: a subsequence of the buffer, none
of the arrow sequences, and nothing to strip. -/
structure Stripped (buffer : Str) : Prop where
  sublist : (stripEscapeCharacters buffer).Sublist buffer
  noArrow : ∀ cursor ∈ [ansiArrowUp, ansiArrowDown, ansiArrowRight, ansiArrowLeft],
    ¬ cursor <:+: stripEscapeCharacters buffer
  again : stripEscapeCharacters (stripEscapeCharacters buffer) = stripEscapeCharacters buffer

/-- An arrow sequence is broken up by arrow sequences, one of which is erased
after it. -/
def BrokenUpArrow (buffer : Str) : Prop := BrokenUp 0x1B 0x5B arrowLetters buffer

/-- A pass erases occurrences until there are none. -/
theorem eraseCursor_erased {c : Byte} (hc : ([0x1B, 0x5B, c] : Str) ≠ []) (buffer : Str) :
    Erased 0x1B 0x5B c buffer (eraseCursor [0x1B, 0x5B, c] hc buffer) ∧
      ¬ [0x1B, 0x5B, c] <:+: eraseCursor [0x1B, 0x5B, c] hc buffer := by
  induction buffer using eraseCursor.induct [0x1B, 0x5B, c] hc with
  | case1 buffer found hf ih =>
    rw [eraseCursor_of_some hc hf]
    obtain ⟨x, y, rfl, rfl⟩ := find_eq_some hf
    rw [erase_append] at ih ⊢
    exact ⟨.erase x y ih.1, ih.2⟩
  | case2 buffer hf =>
    rw [eraseCursor_of_none hc hf]
    exact ⟨.refl buffer, find_eq_none.mp hf⟩

theorem stripEscapeCharacters_passes (buffer : Str) :
    Passes 0x1B 0x5B arrowLetters buffer (stripEscapeCharacters buffer) := by
  obtain ⟨hup, hup'⟩ := eraseCursor_erased (c := 0x41) (by decide) buffer
  obtain ⟨hdown, hdown'⟩ := eraseCursor_erased (c := 0x42) (by decide) _
  obtain ⟨hright, hright'⟩ := eraseCursor_erased (c := 0x43) (by decide) _
  obtain ⟨hleft, hleft'⟩ := eraseCursor_erased (c := 0x44) (by decide) _
  exact .cons hup hup' (.cons hdown hdown' (.cons hright hright' (.cons hleft hleft' (.nil _))))

theorem stripEscapeCharacters_sublist (buffer : Str) :
    (stripEscapeCharacters buffer).Sublist buffer := by
  have hpass : ∀ c (hc : ([0x1B, 0x5B, c] : Str) ≠ []) (text : Str),
      (eraseCursor [0x1B, 0x5B, c] hc text).Sublist text :=
    fun c hc text => (eraseCursor_erased hc text).1.sublist
  unfold stripEscapeCharacters
  exact (hpass _ _ _).trans ((hpass _ _ _).trans ((hpass _ _ _).trans (hpass _ _ _)))

theorem stripEscapeCharacters_of_noArrow {buffer : Str}
    (h : ∀ cursor ∈ [ansiArrowUp, ansiArrowDown, ansiArrowRight, ansiArrowLeft],
      ¬ cursor <:+: buffer) : stripEscapeCharacters buffer = buffer := by
  have hnone : ∀ cursor ∈ [ansiArrowUp, ansiArrowDown, ansiArrowRight, ansiArrowLeft],
      find cursor buffer = none := fun cursor hc => find_eq_none.mpr (h cursor hc)
  unfold stripEscapeCharacters
  dsimp only
  rw [eraseCursor_of_none _ (hnone _ (by simp)), eraseCursor_of_none _ (hnone _ (by simp)),
    eraseCursor_of_none _ (hnone _ (by simp)), eraseCursor_of_none _ (hnone _ (by simp))]

/-- **Stripping.** It leaves no arrow sequence, and nothing for a second
application, if and only if none was broken up by one of a later pass. -/
theorem stripped_iff (buffer : Str) : Stripped buffer ↔ ¬ BrokenUpArrow buffer := by
  have hclean := passes_clean_iff (by decide) (by decide) (by decide)
    (stripEscapeCharacters_passes buffer)
  rw [BrokenUpArrow, ← hclean]
  constructor
  · intro h d hd
    exact h.noArrow [0x1B, 0x5B, d] (List.mem_map_of_mem (f := fun d => [0x1B, 0x5B, d]) hd)
  · intro h
    have hno : ∀ cursor ∈ [ansiArrowUp, ansiArrowDown, ansiArrowRight, ansiArrowLeft],
        ¬ cursor <:+: stripEscapeCharacters buffer := by
      intro cursor hcursor
      have hmem : cursor ∈ arrowLetters.map fun d => [0x1B, 0x5B, d] := hcursor
      obtain ⟨d, hd, rfl⟩ := List.mem_map.mp hmem
      exact h d hd
    exact ⟨stripEscapeCharacters_sublist buffer, hno, stripEscapeCharacters_of_noArrow hno⟩

/-- The passes the other way around break nothing up. -/
example : Stripped (str "\x1b[\x1b[AB") := by
  refine ⟨stripEscapeCharacters_sublist _, by decide +kernel, by decide +kernel⟩

/-- An up-arrow around a down-arrow. -/
def upInDown : Str := [0x1B, 0x5B] ++ ansiArrowDown ++ [0x41]

theorem not_stripped_upInDown : ¬ Stripped upInDown := by
  intro h
  refine h.noArrow ansiArrowUp (by simp) ?_
  decide +kernel

end Telnet
end RepoInit
