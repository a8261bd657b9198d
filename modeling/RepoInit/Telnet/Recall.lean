/-
# Recalling entries of the history

The entries an interactive session has taken up hold no byte that editing acts
on but the ones of arrow sequences (`passed_clean`). An entry without these
stands in the buffer as it is, whatever arrow comes next, and leaves it with CR
LF. So the arrow keys only move the cursor, which stops at the oldest and at the
newest entry: k up-arrows from the end and j down-arrows pass on the entry at
`min (n - min k n + j) (n - 1)` (`passedIn_recall`).

Key definitions: `passedIn`, `ReadyToRecall`, `Presses`, `Recalled`.
Key theorems: `passed_clean`, `Recalled.up`, `Recalled.down`, `passedIn_recall`.
-/
import Mathlib.Data.List.GetD
import RepoInit.Telnet.Cursor
import RepoInit.Telnet.Escapes
import RepoInit.Telnet.History

namespace RepoInit
namespace Telnet

open Search Framing

/-! ### The lines of a run -/

/-- The lines an update passes to the newline callback. -/
def Step.passed (step : Step) (s : TelnetSession) : List Str :=
  (passedLines
    (TelnetSession.update step.os step.conf step.answer ⟨s, step.world⟩).world.trace).drop
      (passedLines step.world.trace).length

/-- The lines the updates of a run pass to the newline callback. -/
def passedIn (s : TelnetSession) : List Step → List Str
  | [] => []
  | step :: steps => step.passed s ++ passedIn (step.after s) steps

theorem passed_of_trace {step : Step} {s : TelnetSession} {lines : List Str}
    (h : passedLines (TelnetSession.update step.os step.conf step.answer ⟨s, step.world⟩).world.trace =
      passedLines step.world.trace ++ lines) : step.passed s = lines := by
  rw [Step.passed, h, List.drop_left]

/-- Complete lines are passed on, and no others. -/
theorem mem_passed {step : Step} {s : TelnetSession} {line : Str} (h : line ∈ step.passed s) :
    line ∈ completeLines step.os step.conf step.answer ⟨s, step.world⟩ := by
  obtain ⟨new, hnew, -, hcomplete, hnone⟩ :=
    update_lines step.os step.conf step.answer ⟨s, step.world⟩
  rw [passed_of_trace hnew] at h
  cases hcb : step.conf.newLineCallBack with
  | none => simp [hnone hcb] at h
  | some callback =>
    rw [← (hcomplete (by simp [hcb])).1]
    exact h

/-! ### What is delivered -/

theorem newSession_clean (os : Os) (conf : Conf) (id socket : ℕ) (w : World) :
    CleanSession false (newSession os conf id socket w) := by
  have hacted := initialise_acted os conf ⟨{ id := id, socket := socket }, w⟩
  have hbuffer : (newSession os conf id socket w).buffer = [] := hacted.buffer
  have hhist : (newSession os conf id socket w).history = [] := hacted.history
  exact ⟨by rw [hbuffer]; exact tidy_nil _, by rw [hhist]; simp [TidyHistory]⟩

theorem sessionAfter_clean {s : TelnetSession} (h : CleanSession false s) {steps : List Step}
    (htab : ∀ step ∈ steps, step.conf.interactivePrompt = true →
      step.conf.tabCallback = some telnetTabCallback) :
    CleanSession false (sessionAfter s steps) := by
  induction steps generalizing s with
  | nil => exact h
  | cons step steps ih =>
    have hanswers : TabAnswers (Untyped false) step.conf := fun hp =>
      tabAnswers_telnetTabCallback false (htab step List.mem_cons_self hp) hp
    have hclean := (update_clean step.os hanswers (by simp) step.answer (c := ⟨s, step.world⟩) h).1
    exact ih hclean fun step' hs => htab step' (List.mem_cons_of_mem _ hs)

/-- What an update with the prompt and the program's tab callback passes on. -/
theorem passed_clean {step : Step} (hconf : Prompts step.conf) {s : TelnetSession}
    (h : CleanSession false s) : ∀ line ∈ step.passed s, CleanLine true line := by
  intro line hl
  have hl := mem_passed hl
  unfold completeLines at hl
  cases hanswer : step.answer with
  | fail errno => simp [hanswer] at hl
  | bytes data =>
    rw [hanswer] at hl
    dsimp only at hl
    split at hl
    · rw [getCompleteLines_eq, takeKeys_takeBytes] at hl
      set c : Conn := { session := resetStats s, world := step.world.record (.recv s.id s.socket (.bytes data)) }
      have hhist : (takeBytes step.os data c).session.history = s.history :=
        congrArg LineEditor.Editor.history (takeBytes_editor step.os data c)
      have htext : Tidy (· = asciiNull) (takeBytes step.os data c).session.buffer := by
        rw [takeBytes_buffer]
        exact stripNVT_tidy (h.weaken.1.append (replaceNull_free data))
      have htidy := editBuffer_tidy step.os (tabAnswers_telnetTabCallback true hconf.tab) hconf.prompt
        htext (by rw [hhist]; exact h.weaken.2)
      exact (split_clean htidy).2 line hl
    · simp at hl

/-! ### Texts without keys -/

/-- The arrow sequences. -/
def arrows : List Str := [ansiArrowUp, ansiArrowDown, ansiArrowRight, ansiArrowLeft]

/-- Editing leaves the text as it is. -/
structure NoKeys (text : Str) : Prop where
  noArrow : ∀ cursor ∈ arrows, ¬ cursor <:+: text
  noBS : asciiBS ∉ text
  noDEL : asciiDEL ∉ text
  noTab : asciiTab ∉ text

/-- An entry that a recall leaves as it is. -/
structure PlainEntry (entry : Str) : Prop where
  clean : CleanLine true entry
  noArrow : ∀ cursor ∈ arrows, ¬ cursor <:+: entry

theorem PlainEntry.noKeys {entry : Str} (h : PlainEntry entry) : NoKeys entry :=
  ⟨h.noArrow, (h.clean.noKey rfl).1, (h.clean.noKey rfl).2.1, (h.clean.noKey rfl).2.2⟩

theorem plainEntry_nil : PlainEntry [] := by
  refine ⟨⟨by simp, by simp, by decide, by simp⟩, ?_⟩
  decide

/-- An arrow sequence does not begin in one text and end in another that has
none of its last byte. -/
theorem PlainEntry.noArrow_append {entry : Str} (h : PlainEntry entry) {last : Byte}
    (hlast : [0x1B, 0x5B, last] ∈ arrows) {text : Str} (htext : last ∉ text) :
    ¬ [0x1B, 0x5B, last] <:+: entry ++ text := fun hi =>
  h.noArrow _ hlast (infix_of_append_last (p := [0x1B, 0x5B]) htext hi)

theorem PlainEntry.noKeys_crlf {entry : Str} (h : PlainEntry entry) : NoKeys (entry ++ crlf) := by
  have hkey := h.clean.noKey rfl
  refine ⟨fun cursor hc => ?_, ?_, ?_, ?_⟩
  · have hletter : cursor ∈ arrowLetters.map fun last => [0x1B, 0x5B, last] := hc
    obtain ⟨last, hlast, rfl⟩ := List.mem_map.mp hletter
    have hcrlf : ∀ last ∈ arrowLetters, last ∉ crlf := by simp [arrowLetters, crlf]
    exact h.noArrow_append hc (hcrlf last hlast)
  · rw [List.mem_append, not_or]
    exact ⟨hkey.1, by decide⟩
  · rw [List.mem_append, not_or]
    exact ⟨hkey.2.1, by decide⟩
  · rw [List.mem_append, not_or]
    exact ⟨hkey.2.2, by decide⟩

/-- Appended bytes that are no 0xFF and no NUL. -/
theorem PlainEntry.stripNVT_append {entry : Str} (h : PlainEntry entry) {data : Str}
    (hnbsp : asciiNBSP ∉ data) (hnull : asciiNull ∉ data) :
    stripNVT (entry ++ replaceNull data) = entry ++ data := by
  rw [replaceNull_of_not_mem hnull]
  apply stripNVT_of_not_mem
  rw [List.mem_append, not_or]
  exact ⟨h.clean.noNBSP, hnbsp⟩

section Editing

variable (os : Os) {conf : Conf} (hp : conf.interactivePrompt = true)

include hp

/-- What the history leaves in the buffer stays there if it has no keys. -/
theorem editBuffer_noKeys {c : Conn}
    (h : NoKeys (processCommandHistory os conf c).2.session.buffer) :
    (editBuffer os conf c).2.session.buffer = (processCommandHistory os conf c).2.session.buffer ∧
      (editBuffer os conf c).2.editor = (processCommandHistory os conf c).2.editor := by
  set c₁ := (processCommandHistory os conf c).2 with hc₁
  have hstrip : stripEscapeCharacters c₁.session.buffer = c₁.session.buffer :=
    stripEscapeCharacters_of_noArrow h.noArrow
  have hfind : findBackspace c₁.session.buffer = none := by
    unfold findBackspace
    rw [findElem_eq_none.mpr h.noDEL]
    exact findElem_eq_none.mpr h.noBS
  have hback : (processBackspace c₁.session.buffer).2 = c₁.session.buffer := by
    rw [processBackspace, processBackspaceLoop_of_none false hfind]
  have htab : findElem asciiTab (c₁.setBuffer c₁.session.buffer).session.buffer = none :=
    findElem_eq_none.mpr h.noTab
  rw [editBuffer_snd os hp, ← hc₁, hstrip, hback, processTab, processTabLoop_of_none os conf false htab]
  exact ⟨rfl, setBuffer_editor c₁ _⟩

/-- A text without a CR LF and without keys stays in the buffer. -/
theorem update_noKeys {data : Str} (hd : data ≠ []) {c : Conn} {text : Str} {cursor : ℕ}
    (htext : NoKeys text) (hcrlf : ¬ crlf <:+: text)
    (h : ∀ c' : Conn, c'.session.buffer = stripNVT (c.session.buffer ++ replaceNull data) →
      c'.editor = c.editor → (processCommandHistory os conf c').2.session.buffer = text ∧
        (processCommandHistory os conf c').2.editor = { c.editor with cursor := cursor }) :
    (TelnetSession.update os conf (.bytes data) c).session.buffer = text ∧
      (TelnetSession.update os conf (.bytes data) c).editor =
        { c.editor with cursor := cursor } := by
  obtain ⟨c₀, h₀, hcursor₀, hreceive⟩ := update_receive os conf hd c
  simp only [Conn.framed, Prod.mk.injEq] at h₀
  obtain ⟨hlines₀, hbuffer₀, hhist₀⟩ := h₀
  have heditor₀ : c₀.editor = c.editor := by
    simp only [Conn.editor, hlines₀, hhist₀, hcursor₀]
  obtain ⟨hbuffer₁, heditor₁⟩ := h (takeBytes os data c₀)
    (by rw [takeBytes_buffer, hbuffer₀]) ((takeBytes_editor os data c₀).trans heditor₀)
  obtain ⟨hbuffer₂, heditor₂⟩ := editBuffer_noKeys os hp (by rw [hbuffer₁]; exact htext)
  rw [← takeKeys_takeBytes, hbuffer₁] at hbuffer₂
  rw [← takeKeys_takeBytes, heditor₁] at heditor₂
  have hnone : find crlf (takeKeys os conf data c₀).2.session.buffer = none := by
    rw [hbuffer₂]
    exact find_eq_none.mpr hcrlf
  have htake : takeLines os conf (takeKeys os conf data c₀).2 =
      (takeKeys os conf data c₀).2.setBuffer (takeKeys os conf data c₀).2.session.buffer := by
    unfold takeLines processLines
    rw [getCompleteLines_eq, split_of_none hnone]
    cases conf.newLineCallBack <;> rfl
  have hacted := receive_acted os conf data c₀
  rw [htake] at hacted
  rw [hreceive]
  exact ⟨hacted.buffer.trans hbuffer₂, hacted.editor.trans heditor₂⟩

/-- The cursor goes one on, but not past the newest entry. -/
theorem processCommandHistory_recallDown {c : Conn}
    (hup : find ansiArrowUp c.session.buffer = none)
    (hdown : (find ansiArrowDown c.session.buffer).isSome)
    (hlt : c.session.historyCursor < c.session.history.length) :
    (processCommandHistory os conf c).2.session.buffer = c.session.history.getD
        (min (c.session.historyCursor + 1) (c.session.history.length - 1)) [] ∧
      (processCommandHistory os conf c).2.editor = { c.editor with
        cursor := min (c.session.historyCursor + 1) (c.session.history.length - 1) } := by
  have hnext : nextCursor c.session = c.session.historyCursor + 1 := if_pos hlt
  have hcursor : (recallDown c.session).historyCursor =
      min (c.session.historyCursor + 1) (c.session.history.length - 1) := by
    unfold recallDown
    dsimp only
    rw [hnext]
    split_ifs <;> omega
  have hne : c.session.history ≠ [] := by
    intro hnil
    simp [hnil] at hlt
  obtain ⟨hbuffer, hhistory, hc, hlines⟩ :=
    counterCursor_session os ansiArrowUp { c with session := recallDown c.session }
  unfold processCommandHistory
  rw [if_pos hp, if_neg (by simp [hup]), if_pos ⟨hdown, hne⟩]
  constructor
  · rw [hbuffer, ← hcursor]
    rfl
  · simp only [Conn.editor, hhistory, hc, hlines, hcursor]
    rfl

/-- CR LF passes the text before it on. -/
theorem update_enter (hcb : conf.newLineCallBack.isSome) {c : Conn}
    (h : PlainEntry c.session.buffer) :
    passedLines (TelnetSession.update os conf (.bytes crlf) c).world.trace =
      passedLines c.world.trace ++ [c.session.buffer] := by
  obtain ⟨c₀, h₀, -, hreceive⟩ := update_receive os conf crlf_ne_nil c
  simp only [Conn.framed, Prod.mk.injEq] at h₀
  obtain ⟨hlines₀, hbuffer₀, -⟩ := h₀
  have hbuffer₁ : (takeBytes os crlf c₀).session.buffer = c.session.buffer ++ crlf := by
    rw [takeBytes_buffer, hbuffer₀]
    exact h.stripNVT_append (by decide) (by decide)
  have hkeys := h.noKeys_crlf
  have hunused : (processCommandHistory os conf (takeBytes os crlf c₀)).2 = takeBytes os crlf c₀ := by
    apply processCommandHistory_unused
    have hnone : ∀ cursor ∈ arrows, find cursor (c.session.buffer ++ crlf) = none :=
      fun cursor hc => find_eq_none.mpr (hkeys.noArrow cursor hc)
    unfold cursorUses
    rw [if_pos hp, hbuffer₁, hnone ansiArrowUp (by simp [arrows]),
      hnone ansiArrowDown (by simp [arrows]), if_neg (by simp), if_neg (by simp)]
  obtain ⟨hbuffer₂, heditor₂⟩ := editBuffer_noKeys os hp (c := takeBytes os crlf c₀)
    (by rw [hunused, hbuffer₁]; exact hkeys)
  rw [hunused, ← takeKeys_takeBytes] at hbuffer₂ heditor₂
  have hlines₂ : passedLines (takeKeys os conf crlf c₀).2.world.trace = passedLines c.world.trace := by
    have heditor := congrArg LineEditor.Editor.lines
      (heditor₂.trans (takeBytes_editor os crlf c₀))
    exact heditor.trans hlines₀
  have hsplit : (split crlf (takeKeys os conf crlf c₀).2.session.buffer).1 = [c.session.buffer] := by
    have hsplits : Splits crlf (c.session.buffer ++ crlf) [c.session.buffer] [] :=
      ⟨by simp, by simpa using h.clean.noCrlf, by decide⟩
    rw [hbuffer₂, hbuffer₁, ← getCompleteLines_eq, getCompleteLines_iff.mpr hsplits]
  calc passedLines (TelnetSession.update os conf (.bytes crlf) c).world.trace
      = passedLines (takeLines os conf (takeKeys os conf crlf c₀).2).world.trace := by
        rw [hreceive, (receive_acted os conf crlf c₀).passedLines]
    _ = passedLines (takeKeys os conf crlf c₀).2.world.trace ++
          (split crlf (takeKeys os conf crlf c₀).2.session.buffer).1 :=
        congrArg Prod.fst (takeLines_framed hcb _)
    _ = passedLines c.world.trace ++ [c.session.buffer] := by
        rw [hlines₂, hsplit]

end Editing

/-! ### Recalling -/

/-- A key arrives, as a chunk of its own, at an interactive session. -/
structure Presses (key : Str) (step : Step) : Prop where
  prompt : step.conf.interactivePrompt = true
  answer : step.answer = .bytes key

/-- The cursor is at a position and the entry there is in the buffer; at the
end there is none. -/
structure Recalled (history : List Str) (cursor : ℕ) (s : TelnetSession) : Prop where
  entries : s.history = history
  position : s.historyCursor = cursor
  buffer : s.buffer = history.getD cursor []

/-- What a key leaves, if it leaves one of the entries. -/
theorem Recalled.of_update {history : List Str} {cursor cursor' : ℕ} {s : TelnetSession}
    (h : Recalled history cursor s) {step : Step} {key : Str} (hkey : step.answer = .bytes key)
    (hupdate : (TelnetSession.update step.os step.conf (.bytes key) ⟨s, step.world⟩).session.buffer =
        history.getD cursor' [] ∧
      (TelnetSession.update step.os step.conf (.bytes key) ⟨s, step.world⟩).editor =
        { (⟨s, step.world⟩ : Conn).editor with cursor := cursor' }) :
    Recalled history cursor' (step.after s) ∧ step.passed s = [] := by
  rw [← hkey] at hupdate
  obtain ⟨hbuffer, heditor⟩ := hupdate
  refine ⟨⟨?_, ?_, hbuffer⟩, ?_⟩
  · exact (congrArg LineEditor.Editor.history heditor).trans h.entries
  · exact congrArg LineEditor.Editor.cursor heditor
  · apply passed_of_trace
    rw [List.append_nil]
    exact congrArg LineEditor.Editor.lines heditor

section Keys

variable {history : List Str} (hplain : ∀ entry ∈ history, PlainEntry entry)

include hplain

theorem plainEntry_getD (cursor : ℕ) : PlainEntry (history.getD cursor []) := by
  by_cases hlt : cursor < history.length
  · rw [List.getD_eq_getElem _ _ hlt]
    exact hplain _ (List.getElem_mem hlt)
  · rw [List.getD_eq_default _ _ (Nat.le_of_not_lt hlt)]
    exact plainEntry_nil

variable {cursor : ℕ} {s : TelnetSession} (h : Recalled history cursor s) {step : Step}

include h

/-- What an arrow key finds in the buffer. -/
theorem Recalled.text_arrow {last : Byte} (hlast : [0x1B, 0x5B, last] ∈ arrows) :
    stripNVT (s.buffer ++ replaceNull [0x1B, 0x5B, last]) =
      history.getD cursor [] ++ [0x1B, 0x5B, last] := by
  have hbytes : ∀ key ∈ arrows, asciiNBSP ∉ key ∧ asciiNull ∉ key := by decide
  obtain ⟨hnbsp, hnull⟩ := hbytes _ hlast
  rw [h.buffer]
  exact (plainEntry_getD hplain cursor).stripNVT_append hnbsp hnull

/-- An arrow key leaves the entry that `processCommandHistory` recalls for it. -/
theorem Recalled.of_arrow {last : Byte} (hkey : Presses [0x1B, 0x5B, last] step)
    (hlast : [0x1B, 0x5B, last] ∈ arrows) {cursor' : ℕ}
    (hrecall : ∀ c' : Conn, c'.session.history = history → c'.session.historyCursor = cursor →
      c'.session.buffer = history.getD cursor [] ++ [0x1B, 0x5B, last] →
        (processCommandHistory step.os step.conf c').2.session.buffer = history.getD cursor' [] ∧
          (processCommandHistory step.os step.conf c').2.editor =
            { c'.editor with cursor := cursor' }) :
    Recalled history cursor' (step.after s) ∧ step.passed s = [] := by
  have hentry := plainEntry_getD hplain cursor'
  have hhist := h.entries
  have hcursor := h.position
  have htext := h.text_arrow hplain hlast
  apply h.of_update hkey.answer
  apply update_noKeys step.os hkey.prompt (by simp) hentry.noKeys hentry.clean.noCrlf
  intro c' hbuffer heditor
  rw [← heditor]
  apply hrecall c'
  · exact (congrArg LineEditor.Editor.history heditor).trans hhist
  · exact (congrArg LineEditor.Editor.cursor heditor).trans hcursor
  · exact hbuffer.trans htext

/-- **An up-arrow.** -/
theorem Recalled.up (hne : history ≠ []) (hkey : Presses ansiArrowUp step) :
    Recalled history (cursor - 1) (step.after s) ∧ step.passed s = [] := by
  apply h.of_arrow hplain hkey (by decide)
  intro c' hhist hcursor hbuffer
  have hfind : (find ansiArrowUp c'.session.buffer).isSome := by
    rw [find_isSome, hbuffer]
    exact (List.suffix_append _ _).isInfix
  have hrecall := processCommandHistory_recall step.os hkey.prompt hfind (by rw [hhist]; exact hne)
  rw [hhist, hcursor] at hrecall
  exact hrecall

/-- **A down-arrow.** -/
theorem Recalled.down (hlt : cursor < history.length) (hkey : Presses ansiArrowDown step) :
    Recalled history (min (cursor + 1) (history.length - 1)) (step.after s) ∧ step.passed s = [] := by
  have hentry := plainEntry_getD hplain cursor
  apply h.of_arrow hplain hkey (by decide)
  intro c' hhist hcursor hbuffer
  have hup : find ansiArrowUp c'.session.buffer = none := by
    rw [find_eq_none, hbuffer]
    exact hentry.noArrow_append (by decide) (by decide)
  have hdown : (find ansiArrowDown c'.session.buffer).isSome := by
    rw [find_isSome, hbuffer]
    exact (List.suffix_append _ _).isInfix
  have hrecall := processCommandHistory_recallDown step.os hkey.prompt hup hdown
    (by rw [hhist, hcursor]; exact hlt)
  rw [hhist, hcursor] at hrecall
  exact hrecall

end Keys

theorem passedIn_append (s : TelnetSession) (steps steps' : List Step) :
    passedIn s (steps ++ steps') = passedIn s steps ++ passedIn (sessionAfter s steps) steps' := by
  induction steps generalizing s with
  | nil => rfl
  | cons step steps ih =>
    rw [List.cons_append, passedIn, passedIn, ih, List.append_assoc]
    rfl

section Runs

variable {history : List Str} (hplain : ∀ entry ∈ history, PlainEntry entry)

include hplain

/-- Up-arrows. -/
theorem Recalled.ups (hne : history ≠ []) {ups : List Step}
    (hups : ∀ step ∈ ups, Presses ansiArrowUp step) {cursor : ℕ} {s : TelnetSession}
    (h : Recalled history cursor s) :
    Recalled history (cursor - ups.length) (sessionAfter s ups) ∧ passedIn s ups = [] := by
  induction ups generalizing s cursor with
  | nil => exact ⟨h, rfl⟩
  | cons step ups ih =>
    obtain ⟨h₁, hpassed⟩ := h.up hplain hne (hups step List.mem_cons_self)
    obtain ⟨h₂, hpassed'⟩ := ih (fun step' hs => hups step' (List.mem_cons_of_mem _ hs)) h₁
    have hcursor : cursor - (step :: ups).length = cursor - 1 - ups.length := by
      rw [List.length_cons]
      omega
    rw [hcursor, passedIn, hpassed, hpassed']
    exact ⟨h₂, rfl⟩

/-- Down-arrows. -/
theorem Recalled.downs {downs : List Step} (hdowns : ∀ step ∈ downs, Presses ansiArrowDown step)
    {cursor : ℕ} (hlt : cursor < history.length) {s : TelnetSession} (h : Recalled history cursor s) :
    Recalled history (min (cursor + downs.length) (history.length - 1)) (sessionAfter s downs) ∧
      passedIn s downs = [] := by
  induction downs generalizing s cursor with
  | nil =>
    have hcursor : min (cursor + ([] : List Step).length) (history.length - 1) = cursor := by
      rw [List.length_nil]
      omega
    rw [hcursor]
    exact ⟨h, rfl⟩
  | cons step downs ih =>
    obtain ⟨h₁, hpassed⟩ := h.down hplain hlt (hdowns step List.mem_cons_self)
    obtain ⟨h₂, hpassed'⟩ := ih (fun step' hs => hdowns step' (List.mem_cons_of_mem _ hs))
      (by omega) h₁
    have hcursor : min (cursor + (step :: downs).length) (history.length - 1) =
        min (min (cursor + 1) (history.length - 1) + downs.length) (history.length - 1) := by
      rw [List.length_cons]
      omega
    rw [hcursor, passedIn, hpassed, hpassed']
    exact ⟨h₂, rfl⟩

/-- CR LF passes the recalled entry on. -/
theorem Recalled.enter {cursor : ℕ} {s : TelnetSession} (h : Recalled history cursor s) {step : Step}
    (hkey : Presses crlf step) (hcb : step.conf.newLineCallBack.isSome) :
    step.passed s = [history.getD cursor []] := by
  have hbuffer := h.buffer
  apply passed_of_trace
  rw [hkey.answer, ← hbuffer]
  refine update_enter step.os hkey.prompt hcb (c := ⟨s, step.world⟩) ?_
  show PlainEntry s.buffer
  rw [hbuffer]
  exact plainEntry_getD hplain cursor

end Runs

/-- An update of a run passed the line on, with the prompt and the program's tab
callback. -/
def DeliveredIn (s : TelnetSession) (steps : List Step) (line : Str) : Prop :=
  ∃ before step after, steps = before ++ step :: after ∧ Prompts step.conf ∧
    line ∈ step.passed (sessionAfter s before)

/-- After a run the session is on an empty line with its cursor at the end of a
history, whose entries were delivered with the prompt on and have no arrow
sequence. The prompt may be off in between, but where it is on, tabs are the
program's. -/
structure ReadyToRecall (s : TelnetSession) (steps : List Step) : Prop where
  tab : ∀ step ∈ steps, step.conf.interactivePrompt = true →
    step.conf.tabCallback = some telnetTabCallback
  buffer : (sessionAfter s steps).buffer = []
  atEnd : (sessionAfter s steps).historyCursor = (sessionAfter s steps).history.length
  entries : (sessionAfter s steps).history ≠ []
  delivered : ∀ entry ∈ (sessionAfter s steps).history, DeliveredIn s steps entry
  noArrow : ∀ entry ∈ (sessionAfter s steps).history, ∀ cursor ∈ arrows, ¬ cursor <:+: entry

theorem ReadyToRecall.plain {s : TelnetSession} (hs : CleanSession false s) {steps : List Step}
    (h : ReadyToRecall s steps) : ∀ entry ∈ (sessionAfter s steps).history, PlainEntry entry := by
  intro entry he
  obtain ⟨before, step, after, rfl, hconf, hpassed⟩ := h.delivered entry he
  have hclean : CleanSession false (sessionAfter s before) :=
    sessionAfter_clean hs fun step' hm => h.tab step' (List.mem_append_left _ hm)
  exact ⟨passed_clean hconf hclean entry hpassed, h.noArrow entry he⟩

/-- **Recall.** From an empty line at the end of a history of `n` entries,
`k ≥ 1` up-arrows, `j` down-arrows and CR LF, each in a chunk of its own, pass on
the entry at `min (n - min k n + j) (n - 1)` and nothing else, whatever the
system answers to the sends. -/
theorem passedIn_recall (os : Os) (conf : Conf) (id socket : ℕ) (w : World)
    {steps ups downs : List Step} {enter : Step}
    (h : ReadyToRecall (newSession os conf id socket w) steps) (hk : 1 ≤ ups.length)
    (hups : ∀ step ∈ ups, Presses ansiArrowUp step)
    (hdowns : ∀ step ∈ downs, Presses ansiArrowDown step) (henter : Presses crlf enter)
    (hcb : enter.conf.newLineCallBack.isSome) :
    ∃ entry, (sessionAfter (newSession os conf id socket w) steps).history[
          min ((sessionAfter (newSession os conf id socket w) steps).history.length -
              min ups.length (sessionAfter (newSession os conf id socket w) steps).history.length +
              downs.length)
            ((sessionAfter (newSession os conf id socket w) steps).history.length - 1)]? =
        some entry ∧
      passedIn (sessionAfter (newSession os conf id socket w) steps) (ups ++ downs ++ [enter]) =
        [entry] := by
  have hplain := h.plain (newSession_clean os conf id socket w)
  have hpos := List.length_pos_iff.mpr h.entries
  obtain ⟨-, hbuffer, hend, hne, -, -⟩ := h
  set s := sessionAfter (newSession os conf id socket w) steps
  set n := s.history.length with hn
  have h₀ : Recalled s.history n s := by
    refine ⟨rfl, hend, ?_⟩
    rw [hbuffer, List.getD_eq_default _ _ le_rfl]
  obtain ⟨h₁, hpassed₁⟩ := h₀.ups hplain hne hups
  obtain ⟨h₂, hpassed₂⟩ := h₁.downs hplain hdowns (by omega)
  have hpassed₃ := h₂.enter hplain henter hcb
  have hindex : min (n - min ups.length n + downs.length) (n - 1) =
      min (n - ups.length + downs.length) (n - 1) := by omega
  have hlt : min (n - ups.length + downs.length) (n - 1) < s.history.length := by omega
  refine ⟨s.history.getD (min (n - ups.length + downs.length) (n - 1)) [], ?_, ?_⟩
  · rw [hindex, List.getElem?_eq_getElem hlt, List.getD_eq_getElem _ _ hlt]
  · have hrun : sessionAfter s (ups ++ downs) = sessionAfter (sessionAfter s ups) downs :=
      List.foldl_append
    calc passedIn s (ups ++ downs ++ [enter])
        = passedIn s ups ++ passedIn (sessionAfter s ups) downs ++
            passedIn (sessionAfter (sessionAfter s ups) downs) [enter] := by
          rw [passedIn_append, passedIn_append, hrun]
      _ = enter.passed (sessionAfter (sessionAfter s ups) downs) := by
          rw [hpassed₁, hpassed₂, passedIn, passedIn, List.append_nil, List.append_nil,
            List.nil_append]
      _ = [s.history.getD (min (n - ups.length + downs.length) (n - 1)) []] := hpassed₃

/-- Sends fail. -/
def sendFails : Os := { (default : Os) with send := fun _ => -1 }

def pressed (key : Str) : Step := ⟨sendFails, promptConf, {}, .bytes key⟩

/-- Two lines, and then more up-arrows than there are entries. -/
theorem passedIn_recall_pair :
    passedIn (sessionAfter (newSession default promptConf 0 4 {})
        [pressed (str "a" ++ crlf), pressed (str "b" ++ crlf)])
      ([pressed ansiArrowUp, pressed ansiArrowUp, pressed ansiArrowUp] ++ [pressed ansiArrowDown] ++
        [pressed crlf]) = [str "b"] := by
  have hhist : (sessionAfter (newSession default promptConf 0 4 {})
      [pressed (str "a" ++ crlf), pressed (str "b" ++ crlf)]).history = [str "a", str "b"] := by
    decide +kernel
  have hprompts : Prompts promptConf := ⟨by decide, rfl⟩
  have hready : ReadyToRecall (newSession default promptConf 0 4 {})
      [pressed (str "a" ++ crlf), pressed (str "b" ++ crlf)] := by
    refine ⟨?_, by decide +kernel, by decide +kernel, by rw [hhist]; decide, ?_, ?_⟩
    · intro step hs _
      rcases List.mem_pair.mp hs with rfl | rfl <;> rfl
    · rw [hhist]
      intro entry he
      rcases List.mem_pair.mp he with rfl | rfl
      · exact ⟨[], pressed (str "a" ++ crlf), [pressed (str "b" ++ crlf)], rfl, hprompts,
          by decide +kernel⟩
      · exact ⟨[pressed (str "a" ++ crlf)], pressed (str "b" ++ crlf), [], rfl, hprompts,
          by decide +kernel⟩
    · rw [hhist]
      decide
  have hkey : ∀ key, Presses key (pressed key) := fun key => ⟨hprompts.prompt, rfl⟩
  obtain ⟨entry, hentry, hpassed⟩ := @passedIn_recall default promptConf 0 4 {} _
    [pressed ansiArrowUp, pressed ansiArrowUp, pressed ansiArrowUp] [pressed ansiArrowDown]
    (pressed crlf) hready (by decide) (by simp [hkey]) (by simp [hkey]) (hkey crlf) rfl
  rw [hhist] at hentry
  obtain rfl : str "b" = entry := Option.some.inj hentry
  exact hpassed

end Telnet
end RepoInit
