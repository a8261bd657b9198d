/-
# What a command handler can see

Every line a session passes to the newline callback is free of NUL, 0xFF and
CR LF, and if the session is interactive throughout it is also free of
backspaces, DELs and tabs, recalled and completed lines included
(`runUpdates_clean`).

A 0xFF that waits for the rest of its sequence trails in the buffer, with fewer
than two bytes after it. Editing only takes bytes from behind it
(`Trailing.erase`) or puts command text in front of it, so no CR LF ever follows
it (`Tidy`); and the history, which editing reads, holds passed lines only.

Key definitions: `runUpdates`, `TabAnswers`, `Tidy`, `CleanLine`.
Key theorems: `editBuffer_tidy`, `update_clean`, `runUpdates_clean`.
-/
import RepoInit.Telnet.Commands
import RepoInit.Telnet.Framing

namespace RepoInit
namespace Telnet

open Search Framing

/-- One `update` for each answer of `recv`, under the prompt and the callbacks
of the time. -/
def runUpdates (os : Os) (steps : List (Conf × Recv)) (c : Conn) : Conn :=
  steps.foldl (fun c step => TelnetSession.update os step.1 step.2 c) c

/-- The tab callback, where the session has a prompt and asks it, answers with
no byte of the kind `bad` and no 0xFF. -/
def TabAnswers (bad : Byte → Prop) (conf : Conf) : Prop :=
  conf.interactivePrompt = true → ∀ callback, conf.tabCallback = some callback →
    ∀ w s line, ∀ b ∈ (callback.call w s line).2, ¬ bad b ∧ b ≠ asciiNBSP

/-- No byte of the text is of the kind `bad`. -/
def Free (bad : Byte → Prop) (text : Str) : Prop := ∀ b ∈ text, ¬ bad b

theorem free_nil (bad : Byte → Prop) : Free bad [] := fun b hb => by simp at hb

theorem Free.sublist {bad : Byte → Prop} {s t : Str} (h : Free bad s) (ht : t.Sublist s) :
    Free bad t :=
  fun b hb => h b (ht.subset hb)

theorem Free.append {bad : Byte → Prop} {s t : Str} (h : Free bad s) (h' : Free bad t) :
    Free bad (s ++ t) :=
  List.forall_mem_append.mpr ⟨h, h'⟩

/-- The text holds no byte of the kind `bad`, and an 0xFF only where it can be
waiting for the rest of its sequence. -/
structure Tidy (bad : Byte → Prop) (text : Str) : Prop where
  free : Free bad text
  waiting : Trailing isNVT 2 text

/-- The lines of a history, as passed lines are. -/
def TidyHistory (bad : Byte → Prop) (history : List Str) : Prop :=
  ∀ line ∈ history, Free bad line ∧ asciiNBSP ∉ line

theorem Tidy.erase {bad : Byte → Prop} {text : Str} (h : Tidy bad text) (pos n : ℕ) :
    Tidy bad (erase text pos n) :=
  ⟨h.free.sublist (erase_sublist _ _ _), Trailing.erase h.waiting _ _⟩

theorem tidy_nil (bad : Byte → Prop) : Tidy bad [] := ⟨free_nil bad, trailing_of_none (by simp)⟩

theorem TidyHistory.tidy {bad : Byte → Prop} {history : List Str} (h : TidyHistory bad history)
    (cursor : ℕ) : Tidy bad (history.getD cursor []) := by
  by_cases hc : cursor < history.length
  · have hm : history.getD cursor [] ∈ history := by
      simp [List.getD_eq_getElem?_getD, hc]
    exact ⟨(h _ hm).1, trailing_of_none (isNVT_of_not_mem (h _ hm).2)⟩
  · have h0 : history.getD cursor [] = [] := by
      simp [List.getD_eq_getElem?_getD, Nat.le_of_not_lt hc]
    rw [h0]
    exact tidy_nil bad

/-! ### The loops -/

section Loops

variable {bad : Byte → Prop}

theorem stripNVT_tidy {text : Str} (h : Free bad text) : Tidy bad (stripNVT text) := by
  rw [stripNVT_eq]
  exact ⟨h.sublist (skip_sublist text), trailing_skip text⟩

theorem eraseCursor_tidy (cursor : Str) (hc : cursor ≠ []) {text : Str} (h : Tidy bad text) :
    Tidy bad (eraseCursor cursor hc text) := by
  induction text using eraseCursor.induct cursor hc with
  | case1 text found hf ih =>
    rw [eraseCursor_of_some hc hf]
    exact ih (h.erase _ _)
  | case2 text hf =>
    rw [eraseCursor_of_none hc hf]
    exact h

theorem stripEscapeCharacters_tidy {text : Str} (h : Tidy bad text) :
    Tidy bad (stripEscapeCharacters text) :=
  eraseCursor_tidy _ _ (eraseCursor_tidy _ _ (eraseCursor_tidy _ _ (eraseCursor_tidy _ _ h)))

theorem findBackspace_none {text : Str} (h : findBackspace text = none) :
    asciiDEL ∉ text ∧ asciiBS ∉ text := by
  unfold findBackspace at h
  split at h
  · cases h
  · rename_i hd
    exact ⟨findElem_eq_none.mp hd, findElem_eq_none.mp h⟩

theorem processBackspaceLoop_tidy (found : Bool) {text : Str} (h : Tidy bad text) :
    Tidy bad (processBackspaceLoop found text).2 ∧
      asciiDEL ∉ (processBackspaceLoop found text).2 ∧
      asciiBS ∉ (processBackspaceLoop found text).2 := by
  induction found, text using processBackspaceLoop.induct with
  | case1 b text i hi hlen ih =>
    rw [processBackspaceLoop_of_some b hi, if_pos hlen]
    exact ih (h.erase _ _)
  | case2 b text i hi hlen ih =>
    rw [processBackspaceLoop_of_some b hi, if_neg hlen]
    exact ih (tidy_nil bad)
  | case3 b text hi =>
    rw [processBackspaceLoop_of_none b hi]
    exact ⟨h, findBackspace_none hi⟩

variable (os : Os) {conf : Conf} (ht : TabAnswers bad conf) (hp : conf.interactivePrompt = true)

include ht hp

/-- A completion in front of what was tidy is tidy. -/
theorem completeAt_tidy (found : ℕ) {c : Conn} (h : Tidy bad c.session.buffer) :
    Tidy bad (completeAt os conf found c).session.buffer := by
  unfold completeAt
  split
  · exact h
  · rename_i callback hcb
    have hanswer := ht hp callback hcb c.world c.session (c.session.buffer.take found)
    dsimp only
    rw [(runActs_acted os conf _ c).buffer]
    split
    · refine ⟨Free.append (fun b hb => (hanswer b hb).1) (h.erase _ _).free, ?_⟩
      exact (h.erase _ _).waiting.append_left _ (isNVT_of_not_mem fun hm => (hanswer _ hm).2 rfl)
    · rw [(runActs_acted os conf _ c).buffer]
      exact h

theorem processTabLoop_tidy (b : Bool) {c : Conn} (h : Tidy bad c.session.buffer) :
    Tidy bad (processTabLoop os conf b c).2.session.buffer ∧
      asciiTab ∉ (processTabLoop os conf b c).2.session.buffer := by
  induction b, c using processTabLoop.induct os conf with
  | case1 b c hf =>
    rw [processTabLoop_of_none os conf b hf]
    exact ⟨h, findElem_eq_none.mp hf⟩
  | case2 b c found hf ih =>
    rw [processTabLoop_of_some os conf b hf]
    exact ih (completeAt_tidy os ht hp found (h.erase _ _))

end Loops

/-! ### Recall, and what editing leaves alone -/

section Recall

variable (os : Os) (conf : Conf)

theorem counterCursor_session (cursor : Str) (c : Conn) :
    (counterCursor os cursor c).2.session.buffer = c.session.buffer ∧
      (counterCursor os cursor c).2.session.history = c.session.history ∧
      (counterCursor os cursor c).2.session.historyCursor = c.session.historyCursor ∧
      passedLines (counterCursor os cursor c).2.world.trace = passedLines c.world.trace := by
  unfold counterCursor send
  dsimp only
  split <;> exact ⟨rfl, rfl, rfl, rfl⟩

theorem processCommandHistory_tidy {bad : Byte → Prop} {c : Conn} (h : Tidy bad c.session.buffer)
    (hist : TidyHistory bad c.session.history) :
    Tidy bad (processCommandHistory os conf c).2.session.buffer := by
  unfold processCommandHistory
  split_ifs
  · rw [(counterCursor_session os _ _).1]
    exact hist.tidy _
  · rw [(counterCursor_session os _ _).1]
    exact hist.tidy _
  · exact h
  · exact h

/-- What editing leaves alone: the history and the passed lines. -/
def Conn.kept (c : Conn) : List Str × List Str := (c.session.history, passedLines c.world.trace)

theorem Acted.kept {c c' : Conn} (h : Acted c c') : c'.kept = c.kept := by
  simp only [Conn.kept, h.history, h.passedLines]

theorem processCommandHistory_kept (c : Conn) : (processCommandHistory os conf c).2.kept = c.kept := by
  have hcc : ∀ (cursor : Str) (c' : Conn), (counterCursor os cursor c').2.kept = c'.kept := by
    intro cursor c'
    obtain ⟨-, h, -, h'⟩ := counterCursor_session os cursor c'
    simp only [Conn.kept, h, h']
  unfold processCommandHistory
  split_ifs
  · exact hcc _ _
  · exact hcc _ _
  · rfl
  · rfl

theorem editBuffer_kept (c : Conn) : (editBuffer os conf c).2.kept = c.kept := by
  unfold editBuffer
  split
  · exact (processTabLoop_acted os conf false _).kept.trans (processCommandHistory_kept os conf c)
  · rfl

end Recall

/-! ### One update -/

/-- NUL, and for an interactive session the keys it takes out of its buffer. -/
def Untyped (interactive : Bool) (b : Byte) : Prop :=
  b = asciiNull ∨ (interactive = true ∧ (b = asciiBS ∨ b = asciiDEL ∨ b = asciiTab))

theorem not_untyped (i : Bool) (b : Byte) (h : 0x20 ≤ b) (h' : b < 0x7F) : ¬ Untyped i b := by
  rintro (rfl | ⟨-, rfl | rfl | rfl⟩) <;> revert h h' <;> decide

/-- The program's own completions are printable. -/
theorem tabAnswers_telnetTabCallback (i : Bool) {conf : Conf}
    (h : conf.tabCallback = some telnetTabCallback) : TabAnswers (Untyped i) conf := by
  intro _ callback hcb w s line b hb
  obtain rfl : callback = telnetTabCallback := by simpa [h] using hcb.symm
  obtain ⟨hlow, hhigh⟩ := tabAnswer_printable line b hb
  refine ⟨not_untyped i b hlow hhigh, ?_⟩
  rintro rfl
  revert hhigh
  decide

theorem replaceNull_free (data : Str) : Free (· = asciiNull) (replaceNull data) := by
  intro b hb
  obtain ⟨chr, -, rfl⟩ := List.mem_map.mp hb
  by_cases h : chr = asciiNull
  · simp [h, asciiNull, asciiLF]
  · rw [if_neg h]
    exact h

/-- After the editing of an interactive session the buffer holds no NUL and no
key, whatever the keys did to it. -/
theorem editBuffer_tidy (os : Os) {conf : Conf} {i : Bool} (ht : TabAnswers (Untyped i) conf)
    (hp : conf.interactivePrompt = true) {c : Conn} (h : Tidy (· = asciiNull) c.session.buffer)
    (hist : TidyHistory (· = asciiNull) c.session.history) :
    Tidy (Untyped i) (editBuffer os conf c).2.session.buffer := by
  have h1 := processCommandHistory_tidy os conf h hist
  obtain ⟨h2, h3, h4⟩ := processBackspaceLoop_tidy false (stripEscapeCharacters_tidy h1)
  -- what the tabs work on, and leave: no NUL, and no backspace if none may be left
  have h5 : TabAnswers (fun b => b = asciiNull ∨ (i = true ∧ (b = asciiBS ∨ b = asciiDEL))) conf := by
    intro _ callback hcb w s line b hb
    obtain ⟨hfree, hnbsp⟩ := ht hp callback hcb w s line b hb
    refine ⟨fun hk => hfree ?_, hnbsp⟩
    rcases hk with hn | ⟨hi, hk | hk⟩
    · exact Or.inl hn
    · exact Or.inr ⟨hi, Or.inl hk⟩
    · exact Or.inr ⟨hi, Or.inr (Or.inl hk)⟩
  have hpres : ∀ c' : Conn, c'.session.buffer = (processBackspaceLoop false
      (stripEscapeCharacters (processCommandHistory os conf c).2.session.buffer)).2 →
      Tidy (Untyped i) (processTabLoop os conf false c').2.session.buffer := by
    intro c' hc'
    obtain ⟨h6, h7⟩ := processTabLoop_tidy os h5 hp false (c := c') (by
      rw [hc']
      refine ⟨fun b hb => ?_, h2.waiting⟩
      rintro (hn | ⟨-, rfl | rfl⟩)
      · exact h2.free b hb hn
      · exact h4 hb
      · exact h3 hb)
    refine ⟨fun b hb => ?_, h6.waiting⟩
    rintro (hn | ⟨hi, hk | hk | rfl⟩)
    · exact h6.free b hb (Or.inl hn)
    · exact h6.free b hb (Or.inr ⟨hi, Or.inl hk⟩)
    · exact h6.free b hb (Or.inr ⟨hi, Or.inr hk⟩)
    · exact h7 hb
  unfold editBuffer
  simp only [hp, if_true]
  exact hpres _ rfl

/-- What holds between updates. -/
structure CleanSession (i : Bool) (s : TelnetSession) : Prop where
  buffer : Tidy (Untyped i) s.buffer
  history : TidyHistory (Untyped i) s.history

theorem CleanSession.weaken {i : Bool} {s : TelnetSession} (h : CleanSession i s) :
    Free (· = asciiNull) s.buffer ∧ TidyHistory (· = asciiNull) s.history :=
  ⟨fun b hb hn => h.buffer.free b hb (Or.inl hn),
    fun l hl => ⟨fun b hb hn => (h.history l hl).1 b hb (Or.inl hn), (h.history l hl).2⟩⟩

/-- A line a handler may see. -/
structure CleanLine (i : Bool) (line : Str) : Prop where
  noNull : asciiNull ∉ line
  noNBSP : asciiNBSP ∉ line
  noCrlf : ¬ crlf <:+: line
  noKey : i = true → asciiBS ∉ line ∧ asciiDEL ∉ line ∧ asciiTab ∉ line

theorem takeKeys_tidy (os : Os) {conf : Conf} {i : Bool} (ht : TabAnswers (Untyped i) conf)
    (hi : i = true → conf.interactivePrompt = true) (data : Str) {c : Conn}
    (h : CleanSession i c.session) :
    Tidy (Untyped i) (takeKeys os conf data c).2.session.buffer ∧
      (takeKeys os conf data c).2.kept = c.kept := by
  obtain ⟨hbuf, hist⟩ := h.weaken
  have hacts := echoBack_acted os data (noteReceived os data c)
  have hkept : (echoBack os data (noteReceived os data c)).kept = c.kept := hacts.kept
  have hb : (echoBack os data (noteReceived os data c)).session.buffer = c.session.buffer :=
    hacts.buffer
  have hh : (echoBack os data (noteReceived os data c)).session.history = c.session.history :=
    hacts.history
  have hstrip := stripNVT_tidy (hbuf.append (replaceNull_free data))
  unfold takeKeys
  dsimp only
  rw [hb]
  refine ⟨?_, (editBuffer_kept os conf _).trans hkept⟩
  cases hp : conf.interactivePrompt with
  | false =>
    obtain rfl : i = false := by
      cases i
      · rfl
      · simp [hi rfl] at hp
    simp only [editBuffer, hp, Bool.false_eq_true, if_false]
    refine ⟨fun b hb => ?_, hstrip.waiting⟩
    rintro (hn | ⟨h0, -⟩)
    · exact hstrip.free b hb hn
    · cases h0
  | true =>
    refine editBuffer_tidy os ht hp hstrip ?_
    intro line hl
    exact hist line (by rw [← hh]; exact hl)

theorem mem_pushHistory {history : List Str} {line l : Str} (h : l ∈ pushHistory history line) :
    l ∈ history ∨ l = line := by
  have happ : ∀ l ∈ history ++ [line], l ∈ history ∨ l = line := fun l hl => by simpa using hl
  unfold pushHistory at h
  dsimp only at h
  split_ifs at h
  · exact happ l (List.mem_of_mem_tail h)
  · exact happ l h
  · exact Or.inl h

theorem mem_pushLines {history lines : List Str} {l : Str} (h : l ∈ pushLines history lines) :
    l ∈ history ∨ l ∈ lines := by
  induction lines generalizing history with
  | nil => exact Or.inl h
  | cons line lines ih =>
    rcases @ih (pushHistory history line) h with h | h
    · rcases mem_pushHistory h with h | rfl
      · exact Or.inl h
      · exact Or.inr List.mem_cons_self
    · exact Or.inr (List.mem_cons_of_mem _ h)

/-- The lines of a tidy buffer are clean, and the rest is tidy. -/
theorem split_clean {i : Bool} {text : Str} (h : Tidy (Untyped i) text) :
    Tidy (Untyped i) (split crlf text).2 ∧ ∀ line ∈ (split crlf text).1, CleanLine i line := by
  have hrest := split_rest_suffix crlf_ne_nil text
  refine ⟨⟨h.free.sublist hrest.sublist, h.waiting.suffix hrest⟩, fun line hl => ?_⟩
  have hfree : Free (Untyped i) line := by
    obtain ⟨a, b, hab⟩ := split_mem crlf_ne_nil text line hl
    refine h.free.sublist ?_
    rw [hab]
    exact (List.sublist_append_left _ _).trans (List.sublist_append_right _ _)
  refine ⟨fun hm => hfree _ hm (Or.inl rfl), fun hm => ?_, ?_, fun hi => ⟨?_, ?_, ?_⟩⟩
  · have := h.waiting.not_mem_split crlf_ne_nil (by decide) line hl _ hm
    revert this
    decide
  · exact find_eq_none.mp (split_lines crlf_ne_nil text line hl)
  · exact fun hm => hfree _ hm (Or.inr ⟨hi, Or.inl rfl⟩)
  · exact fun hm => hfree _ hm (Or.inr ⟨hi, Or.inr (Or.inl rfl)⟩)
  · exact fun hm => hfree _ hm (Or.inr ⟨hi, Or.inr (Or.inr rfl)⟩)

theorem CleanLine.tidy {i : Bool} {line : Str} (h : CleanLine i line) :
    Free (Untyped i) line ∧ asciiNBSP ∉ line := by
  refine ⟨fun b hb => ?_, h.noNBSP⟩
  rintro (rfl | ⟨hi, rfl | rfl | rfl⟩)
  · exact h.noNull hb
  · exact (h.noKey hi).1 hb
  · exact (h.noKey hi).2.1 hb
  · exact (h.noKey hi).2.2 hb

/-- The complete lines are taken from the buffer, and without a newline
callback they are lost. -/
theorem takeLines_clean (os : Os) (conf : Conf) {i : Bool} {c : Conn}
    (hbuf : Tidy (Untyped i) c.session.buffer) (hist : TidyHistory (Untyped i) c.session.history) :
    CleanSession i (takeLines os conf c).session ∧
      ∃ new, passedLines (takeLines os conf c).world.trace = passedLines c.world.trace ++ new ∧
        ∀ line ∈ new, CleanLine i line := by
  obtain ⟨hrest, hlines⟩ := split_clean hbuf
  cases hcb : conf.newLineCallBack with
  | none =>
    unfold takeLines processLines
    simp only [hcb, getCompleteLines_eq]
    exact ⟨⟨hrest, hist⟩, [], by simp [Conn.setBuffer], by simp⟩
  | some callback =>
    have hframed := @takeLines_framed os conf (by simp [hcb]) c
    simp only [Conn.framed, Prod.mk.injEq] at hframed
    obtain ⟨hpassed, hbuffer, hhistory⟩ := hframed
    refine ⟨⟨by rw [hbuffer]; exact hrest, fun l hl => ?_⟩, _, hpassed, hlines⟩
    rw [hhistory] at hl
    rcases mem_pushLines hl with hl | hl
    · exact hist l hl
    · exact (hlines l hl).tidy

/-- **One update.** It keeps the session clean and passes clean lines. -/
theorem update_clean (os : Os) {conf : Conf} {i : Bool} (ht : TabAnswers (Untyped i) conf)
    (hi : i = true → conf.interactivePrompt = true) (answer : Recv) {c : Conn}
    (h : CleanSession i c.session) :
    CleanSession i (TelnetSession.update os conf answer c).session ∧
      ∃ new, passedLines (TelnetSession.update os conf answer c).world.trace =
          passedLines c.world.trace ++ new ∧ ∀ line ∈ new, CleanLine i line := by
  by_cases hd : ∃ data, answer = .bytes data ∧ data ≠ []
  · obtain ⟨data, rfl, hd⟩ := hd
    obtain ⟨c₀, h₀, -, hreceive⟩ := update_receive os conf hd c
    have hu := (receive_acted os conf data c₀).framed
    rw [← hreceive] at hu
    simp only [Conn.framed, Prod.mk.injEq] at h₀ hu
    obtain ⟨p₀, b₀, hist₀⟩ := h₀
    obtain ⟨p₁, b₁, hist₁⟩ := hu
    obtain ⟨hbuf, hkept⟩ := takeKeys_tidy os ht hi data (c := c₀)
      ⟨by rw [b₀]; exact h.buffer, by rw [hist₀]; exact h.history⟩
    simp only [Conn.kept, Prod.mk.injEq] at hkept
    obtain ⟨hclean, new, hnew, hlines⟩ := takeLines_clean os conf hbuf
      (by rw [hkept.1, hist₀]; exact h.history)
    refine ⟨⟨by rw [b₁]; exact hclean.buffer, by rw [hist₁]; exact hclean.history⟩, new, ?_, hlines⟩
    rw [p₁, hnew, hkept.2, p₀]
  · -- nothing was received
    have hs : (TelnetSession.update os conf answer c).session = resetStats c.session ∧
        passedLines (TelnetSession.update os conf answer c).world.trace =
          passedLines c.world.trace := by
      unfold TelnetSession.update
      cases answer with
      | fail errno =>
        dsimp only
        split_ifs <;> exact ⟨rfl, rfl⟩
      | bytes data =>
        obtain rfl : data = [] := by
          by_contra hne
          exact hd ⟨data, rfl, hne⟩
        exact ⟨rfl, rfl⟩
    refine ⟨⟨by rw [hs.1]; exact h.buffer, by rw [hs.1]; exact h.history⟩, [], ?_, by simp⟩
    rw [hs.2, List.append_nil]

/-! ### Runs -/

/-- A connection before its first update: nothing received, nothing passed on. -/
def freshConn (s : TelnetSession) (w : World) : Conn :=
  ⟨{ s with buffer := [], history := [] }, { w with trace := [] }⟩

theorem cleanSession_fresh (i : Bool) (s : TelnetSession) (w : World) :
    CleanSession i (freshConn s w).session :=
  ⟨tidy_nil _, by simp [TidyHistory, freshConn]⟩

theorem runUpdates_cleanLines (os : Os) {i : Bool} (steps : List (Conf × Recv))
    (ht : ∀ step ∈ steps, TabAnswers (Untyped i) step.1)
    (hi : i = true → ∀ step ∈ steps, step.1.interactivePrompt = true) {c : Conn}
    (h : CleanSession i c.session) :
    ∃ new, passedLines (runUpdates os steps c).world.trace = passedLines c.world.trace ++ new ∧
      ∀ line ∈ new, CleanLine i line := by
  induction steps generalizing c with
  | nil => exact ⟨[], by simp [runUpdates], by simp⟩
  | cons step steps ih =>
    obtain ⟨hclean, new, hnew, hlines⟩ := update_clean os (ht step List.mem_cons_self)
      (fun h => hi h step List.mem_cons_self) step.2 h
    obtain ⟨new', hnew', hlines'⟩ := ih (fun s hs => ht s (List.mem_cons_of_mem _ hs))
      (fun h s hs => hi h s (List.mem_cons_of_mem _ hs)) hclean
    refine ⟨new ++ new', ?_, fun line hl => ?_⟩
    · rw [← List.append_assoc, ← hnew]
      exact hnew'
    · rcases List.mem_append.mp hl with hl | hl
      · exact hlines line hl
      · exact hlines' line hl

/-- **What a handler can see.** A new session passes on no NUL, no 0xFF and no
CR LF, under every prompt and callbacks and whatever it receives, if only tab
callbacks do not answer with NUL or 0xFF; and with a prompt and the program's
tab callback throughout it passes on no backspace, DEL or tab either. -/
theorem runUpdates_clean (os : Os) (steps : List (Conf × Recv)) (s : TelnetSession) (w : World) :
    ((∀ step ∈ steps, TabAnswers (· = asciiNull) step.1) →
      ∀ line ∈ passedLines (runUpdates os steps (freshConn s w)).world.trace,
        asciiNull ∉ line ∧ asciiNBSP ∉ line ∧ ¬ crlf <:+: line) ∧
    ((∀ step ∈ steps, step.1.promptString ≠ [] ∧ step.1.tabCallback = some telnetTabCallback) →
      ∀ line ∈ passedLines (runUpdates os steps (freshConn s w)).world.trace,
        asciiNull ∉ line ∧ asciiNBSP ∉ line ∧ ¬ crlf <:+: line ∧
          asciiBS ∉ line ∧ asciiDEL ∉ line ∧ asciiTab ∉ line) := by
  constructor
  · intro ht line hl
    have ht' : ∀ step ∈ steps, TabAnswers (Untyped false) step.1 := by
      intro step hs hp callback hcb w s line b hb
      obtain ⟨h, h'⟩ := ht step hs hp callback hcb w s line b hb
      exact ⟨fun hk => h (by simpa [Untyped] using hk), h'⟩
    obtain ⟨new, hnew, hlines⟩ :=
      runUpdates_cleanLines os steps ht' (by simp) (cleanSession_fresh false s w)
    rw [hnew] at hl
    have hline := hlines line hl
    exact ⟨hline.noNull, hline.noNBSP, hline.noCrlf⟩
  · intro hsteps line hl
    obtain ⟨new, hnew, hlines⟩ := runUpdates_cleanLines os (i := true) steps
      (fun step hs => tabAnswers_telnetTabCallback true (hsteps step hs).2)
      (fun _ step hs => by simpa [Conf.interactivePrompt] using (hsteps step hs).1)
      (cleanSession_fresh true s w)
    rw [hnew] at hl
    have hline := hlines line hl
    exact ⟨hline.noNull, hline.noNBSP, hline.noCrlf, hline.noKey rfl⟩

/-- The prompt, the tab callback of the program and a newline callback that
does nothing. -/
def promptConf : Conf :=
  { promptString := str "> ", connectedCallback := none,
    newLineCallBack := some fun _ _ _ => ([], true), tabCallback := some telnetTabCallback }

/-- `help` typed as a wrong letter, a DEL, a tab and an 0xFF sequence cut in
two, and then recalled. -/
def helpSteps : List (Conf × Recv) :=
  [(promptConf, .bytes (str "x\x7fhe\t" ++ [0xFF, 0xFB])), (promptConf, .bytes ([0x01] ++ crlf)),
   (promptConf, .bytes ansiArrowUp), (promptConf, .bytes crlf)]

theorem runUpdates_clean_help :
    passedLines (runUpdates default helpSteps (freshConn ⟨0, 4, {}, 0, [], [], 0, false⟩ {})).world.trace =
        [str "help", str "help"] ∧
      ∀ line ∈ passedLines
          (runUpdates default helpSteps (freshConn ⟨0, 4, {}, 0, [], [], 0, false⟩ {})).world.trace,
        asciiNull ∉ line ∧ asciiNBSP ∉ line ∧ ¬ crlf <:+: line ∧
          asciiBS ∉ line ∧ asciiDEL ∉ line ∧ asciiTab ∉ line := by
  refine ⟨by decide +kernel, (runUpdates_clean default helpSteps _ _).2 ?_⟩
  intro step hs
  simp only [helpSteps, List.mem_cons, List.not_mem_nil, or_false] at hs
  rcases hs with rfl | rfl | rfl | rfl <;> exact ⟨by decide, rfl⟩

end Telnet
end RepoInit
