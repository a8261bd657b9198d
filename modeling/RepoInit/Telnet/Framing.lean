/-
# How a session cuts its stream into lines

`stripNVT` is the streaming filter `Framing.skip` (`stripNVT_eq`) and
`getCompleteLines` is `Framing.split` at CR LF (`getCompleteLines_eq`), which
loses nothing and can be resumed (`getCompleteLines_lossless`). Without
a prompt an update is one `Framing.feed` of the buffer, and so the cut of a
stream into chunks changes neither the lines that reach the newline callback
nor the buffer and the history the session is left with
(`updates_eq_of_flatten_eq`): an 0xFF sequence, a CR LF or a CR NUL that is cut
is treated as if it had arrived whole.

Key definitions: `updates`, `isNVT`.
Key theorems: `stripNVT_eq`, `getCompleteLines_eq`, `getCompleteLines_iff`,
`getCompleteLines_lossless`, `updates_eq_of_flatten_eq`.
-/
import Mathlib.Data.List.Induction
import RepoInit.Lib.Framing
import RepoInit.Telnet.Effects

namespace RepoInit
namespace Telnet

open Search Framing

def DEFAULT_BUFLEN : ℕ := 512

/-- What one `recv` of a session can return. -/
def IsChunk (data : Str) : Prop := data ≠ [] ∧ data.length ≤ DEFAULT_BUFLEN

instance : DecidablePred IsChunk := fun _ => inferInstanceAs (Decidable (_ ∧ _))

/-- One `update` for each chunk. -/
def updates (os : Os) (conf : Conf) (chunks : List Str) (c : Conn) : Conn :=
  chunks.foldl (fun c data => TelnetSession.update os conf (.bytes data) c) c

/-! ### The loops of the source -/

def isNVT (b : Byte) : Bool := b == asciiNBSP

theorem isNVT_of_not_mem {x : Str} (h : asciiNBSP ∉ x) : ∀ b ∈ x, isNVT b = false := by
  intro b hb
  simp only [isNVT, beq_eq_false_iff_ne]
  rintro rfl
  exact h hb

/-- `stripNVT` skips every 0xFF with the two bytes after it. -/
theorem stripNVT_eq (buffer : Str) : stripNVT buffer = skip isNVT 2 buffer := by
  induction h : buffer.length using Nat.strongRecOn generalizing buffer with
  | _ n ih =>
    rcases findElem_cases asciiNBSP buffer with ⟨hf, hx⟩ | ⟨x, y, rfl, hx, hf⟩
    · rw [stripNVT_of_none hf]
      have := skip_append (k := 2) [] (isNVT_of_not_mem hx)
      simpa using this.symm
    · rw [stripNVT_of_some hf, skip_append _ (isNVT_of_not_mem hx)]
      by_cases hlen : x.length + 2 ≤ (x ++ asciiNBSP :: y).length - 1
      · rw [if_pos hlen]
        simp only [List.length_append, List.length_cons] at hlen h
        obtain ⟨m, z, rfl, hm⟩ : ∃ m z, y = m ++ z ∧ m.length = 2 :=
          ⟨y.take 2, y.drop 2, by simp, by simp only [List.length_take]; omega⟩
        have he : erase (x ++ asciiNBSP :: (m ++ z)) x.length 3 = x ++ z := by
          have := erase_append x (asciiNBSP :: m) z
          simpa [hm] using this
        rw [he, skip_cons_append z rfl hm, ← skip_append _ (isNVT_of_not_mem hx)]
        refine ih _ ?_ _ rfl
        simp only [List.length_append] at h ⊢
        omega
      · rw [if_neg hlen]
        simp only [List.length_append, List.length_cons] at hlen
        rw [skip_cons_of_short rfl (by omega)]

theorem crlf_ne_nil : crlf ≠ [] := by decide

theorem getCompleteLinesLoop_eq (lines : List Str) (buffer : Str) :
    getCompleteLinesLoop lines buffer =
      (lines ++ (split crlf buffer).1, (split crlf buffer).2) := by
  induction lines, buffer using getCompleteLinesLoop.induct with
  | case1 lines buffer found h ih =>
    have he : erase buffer 0 (found + 2) = buffer.drop (found + crlf.length) := by
      simp [erase, crlf]
    rw [getCompleteLinesLoop_of_some lines h, ih, he, split_of_some crlf_ne_nil h]
    simp
  | case2 lines buffer h =>
    rw [getCompleteLinesLoop_of_none lines h, split_of_none h, List.append_nil]

theorem getCompleteLines_eq (buffer : Str) : getCompleteLines buffer = split crlf buffer := by
  simp [getCompleteLines, getCompleteLinesLoop_eq]

/-! ### Lines and rest -/

/-- `getCompleteLines` gives the one way to cut the buffer at CR LF. -/
theorem getCompleteLines_iff {buffer rest : Str} {lines : List Str} :
    getCompleteLines buffer = (lines, rest) ↔ Splits crlf buffer lines rest := by
  have hlast : (0x0A : Byte) ∉ [0x0D] := by decide
  rw [getCompleteLines_eq]
  exact split_eq_iff hlast

theorem getCompleteLines_splits (buffer : Str) :
    Splits crlf buffer (getCompleteLines buffer).1 (getCompleteLines buffer).2 :=
  getCompleteLines_iff.mp rfl

theorem getCompleteLines_append (a b : Str) :
    getCompleteLines (a ++ b) =
      ((getCompleteLines a).1 ++ (getCompleteLines ((getCompleteLines a).2 ++ b)).1,
        (getCompleteLines ((getCompleteLines a).2 ++ b)).2) := by
  simp only [getCompleteLines_eq]
  exact split_append crlf_ne_nil a b

/-- **Line splitting is lossless.** The lines, each with a CR LF behind it, and
the rest are the buffer, and no CR LF is left in them; and a buffer can be split
before it is complete. -/
theorem getCompleteLines_lossless (a b : Str) :
    Splits crlf a (getCompleteLines a).1 (getCompleteLines a).2 ∧
      getCompleteLines (a ++ b) =
        ((getCompleteLines a).1 ++ (getCompleteLines ((getCompleteLines a).2 ++ b)).1,
          (getCompleteLines ((getCompleteLines a).2 ++ b)).2) :=
  ⟨getCompleteLines_splits a, getCompleteLines_append a b⟩

/-- A CR in front of a CR LF belongs to the line, and one at the end to the
rest. -/
example : getCompleteLines [0x61, 0x0D, 0x0D, 0x0A, 0x0A, 0x0D] = ([[0x61, 0x0D]], [0x0A, 0x0D]) :=
  getCompleteLines_iff.mpr ⟨rfl, by decide, by decide⟩

/-! ### Lines and history -/

/-- The history after lines. -/
def pushLines (history : List Str) (lines : List Str) : List Str := lines.foldl pushHistory history

theorem pushLines_append (history ls ls' : List Str) :
    pushLines history (ls ++ ls') = pushLines (pushLines history ls) ls' := by
  simp [pushLines]

section Lines

variable (os : Os) (conf : Conf) (callback : World → TelnetSession → Str → List Act × Bool)

theorem processLine_buffer (line : Str) (c : Conn) :
    (processLine os conf callback line c).session.buffer = c.session.buffer := by
  unfold processLine
  dsimp only
  have := (runActs_acted os conf (callback c.world c.session line).1
    { c with world := c.world.record (.line c.session.id line (callback c.world c.session line).2) }).buffer
  cases h : (callback c.world c.session line).2 <;> rw [h] at this <;> exact this

theorem processLine_history (line : Str) (c : Conn) :
    (processLine os conf callback line c).session.history = pushHistory c.session.history line := by
  unfold processLine
  dsimp only
  have := (runActs_acted os conf (callback c.world c.session line).1
    { c with world := c.world.record (.line c.session.id line (callback c.world c.session line).2) }).history
  cases h : (callback c.world c.session line).2 <;> rw [h] at this <;> simp [addToHistory, this]

theorem processLine_historyCursor (line : Str) (c : Conn) :
    (processLine os conf callback line c).session.historyCursor =
      (processLine os conf callback line c).session.history.length := rfl

theorem processLine_passedLines (line : Str) (c : Conn) :
    passedLines (processLine os conf callback line c).world.trace =
      passedLines c.world.trace ++ [line] := by
  unfold processLine
  dsimp only
  rw [(runActs_acted os conf _ _).passedLines]
  rfl

theorem processLines_some (hcb : conf.newLineCallBack = some callback) (lines : List Str) (c : Conn) :
    processLines os conf lines c =
      lines.foldl (fun c line => processLine os conf callback line c) c := by
  simp [processLines, hcb]

/-- What the line loop does to the session and to the passed lines. -/
theorem processLines_eq (hcb : conf.newLineCallBack = some callback) (lines : List Str) (c : Conn) :
    (processLines os conf lines c).session.buffer = c.session.buffer ∧
      (processLines os conf lines c).session.history = pushLines c.session.history lines ∧
      passedLines (processLines os conf lines c).world.trace = passedLines c.world.trace ++ lines := by
  rw [processLines_some os conf callback hcb]
  induction lines generalizing c with
  | nil => exact ⟨rfl, rfl, by simp⟩
  | cons line lines ih =>
    obtain ⟨h1, h2, h3⟩ := ih (processLine os conf callback line c)
    simp only [List.foldl_cons]
    refine ⟨h1.trans (processLine_buffer os conf callback line c), ?_, ?_⟩
    · rw [h2, processLine_history]
      rfl
    · rw [h3, processLine_passedLines, List.append_assoc, List.singleton_append]

/-- After a line the cursor is at the end of the history. -/
theorem processLines_historyCursor (hcb : conf.newLineCallBack = some callback) (lines : List Str)
    (c : Conn) :
    (processLines os conf lines c).session.historyCursor =
      if lines = [] then c.session.historyCursor
      else (processLines os conf lines c).session.history.length := by
  rw [processLines_some os conf callback hcb]
  induction lines using List.reverseRecOn with
  | nil => rfl
  | append_singleton lines line ih =>
    rw [if_neg (by simp), List.foldl_append]
    exact processLine_historyCursor os conf callback line _

end Lines

/-! ### The update of a session without a prompt -/

/-- What the framing law compares: the passed lines, the buffer and the
history. -/
def Conn.framed (c : Conn) : List Str × Str × List Str :=
  (passedLines c.world.trace, c.session.buffer, c.session.history)

theorem takeLines_framed {os : Os} {conf : Conf} (hcb : conf.newLineCallBack.isSome) (c : Conn) :
    (takeLines os conf c).framed =
      (passedLines c.world.trace ++ (split crlf c.session.buffer).1, (split crlf c.session.buffer).2,
        pushLines c.session.history (split crlf c.session.buffer).1) := by
  obtain ⟨callback, hcb⟩ := Option.isSome_iff_exists.mp hcb
  obtain ⟨h1, h2, h3⟩ := processLines_eq os conf callback hcb (split crlf c.session.buffer).1
    (c.setBuffer (split crlf c.session.buffer).2)
  unfold takeLines Conn.framed
  simp only [getCompleteLines_eq, h1, h2, h3]
  rfl

theorem Acted.framed {c c' : Conn} (h : Acted c c') : c'.framed = c.framed := by
  simp only [Conn.framed, h.passedLines, h.buffer, h.history]

/-- Printing the prompt again is all that follows the lines. -/
theorem receive_acted (os : Os) (conf : Conf) (data : Str) (c : Conn) :
    Acted (takeLines os conf (takeKeys os conf data c).2) (receive os conf data c) := by
  unfold receive
  dsimp only
  split
  · exact (eraseLine_acted os _).trans (sendPromptAndBuffer_acted os conf _)
  · exact Acted.refl _

/-- An update with received bytes is `receive`, from a session with what the
framing law compares. -/
theorem update_receive (os : Os) (conf : Conf) {data : Str} (hd : data ≠ []) (c : Conn) :
    ∃ c₀ : Conn, c₀.framed = c.framed ∧ c₀.session.historyCursor = c.session.historyCursor ∧
      TelnetSession.update os conf (.bytes data) c = receive os conf data c₀ := by
  refine ⟨{ session := resetStats c.session
            world := c.world.record (.recv c.session.id c.session.socket (.bytes data)) }, rfl, rfl, ?_⟩
  simp [TelnetSession.update, hd]

theorem takeKeys_buffer (os : Os) {conf : Conf} (hp : conf.interactivePrompt = false) (data : Str)
    (c : Conn) : (takeKeys os conf data c).2.framed =
      (passedLines c.world.trace, stripNVT (c.session.buffer ++ replaceNull data),
        c.session.history) := by
  have h := echoBack_acted os data (noteReceived os data c)
  unfold takeKeys editBuffer
  simp only [hp, Bool.false_eq_true, if_false, Conn.framed, Conn.setBuffer, h.history, h.buffer,
    h.passedLines]
  rfl

/-- One update without a prompt feeds the chunk to the buffer. -/
theorem update_feed (os : Os) {conf : Conf} (hp : conf.interactivePrompt = false)
    (hcb : conf.newLineCallBack.isSome) {data : Str} (hd : data ≠ []) (c : Conn) :
    (TelnetSession.update os conf (.bytes data) c).framed =
      (passedLines c.world.trace ++
          (feed isNVT 2 crlf ([], c.session.buffer) (replaceNull data)).1,
        (feed isNVT 2 crlf ([], c.session.buffer) (replaceNull data)).2,
        pushLines c.session.history
          (feed isNVT 2 crlf ([], c.session.buffer) (replaceNull data)).1) := by
  obtain ⟨c₀, h₀, -, h⟩ := update_receive os conf hd c
  have hk := takeKeys_buffer os hp data c₀
  simp only [Conn.framed, Prod.mk.injEq] at h₀ hk
  obtain ⟨k1, k2, k3⟩ := hk
  obtain ⟨l1, l2, l3⟩ := h₀
  rw [h, (receive_acted os conf data c₀).framed, takeLines_framed hcb, k1, k2, k3, l1, l2, l3, stripNVT_eq]
  simp [feed]

theorem feed_fst (ls : List Str) (b data : Str) :
    feed isNVT 2 crlf (ls, b) data =
      (ls ++ (feed isNVT 2 crlf ([], b) data).1, (feed isNVT 2 crlf ([], b) data).2) := by
  simp [feed]

/-- A run of updates without a prompt feeds the chunks, one after the other. -/
theorem updates_feed (os : Os) {conf : Conf} (hp : conf.interactivePrompt = false)
    (hcb : conf.newLineCallBack.isSome) (chunks : List Str) (hc : ∀ data ∈ chunks, IsChunk data)
    (ls : List Str) (c : Conn) :
    (ls ++ passedLines (updates os conf chunks c).world.trace,
        (updates os conf chunks c).session.buffer) =
        (chunks.map replaceNull).foldl (feed isNVT 2 crlf)
          (ls ++ passedLines c.world.trace, c.session.buffer) ∧
      ∃ new, passedLines (updates os conf chunks c).world.trace = passedLines c.world.trace ++ new ∧
        (updates os conf chunks c).session.history = pushLines c.session.history new := by
  induction chunks generalizing c with
  | nil => exact ⟨rfl, [], by simp [updates], rfl⟩
  | cons data chunks ih =>
    have hu := update_feed os hp hcb (hc data List.mem_cons_self).1 c
    simp only [Conn.framed, Prod.mk.injEq] at hu
    obtain ⟨u1, u2, u3⟩ := hu
    obtain ⟨h1, new, h2, h3⟩ := ih (fun d hd => hc d (List.mem_cons_of_mem _ hd))
      (TelnetSession.update os conf (.bytes data) c)
    show _ = _ ∧ ∃ new', passedLines (updates os conf chunks
      (TelnetSession.update os conf (.bytes data) c)).world.trace = _ ∧ _
    refine ⟨?_, (feed isNVT 2 crlf ([], c.session.buffer) (replaceNull data)).1 ++ new, ?_, ?_⟩
    · rw [List.map_cons, List.foldl_cons, feed_fst, List.append_assoc, ← u1, ← u2]
      exact h1
    · rw [h2, u1, List.append_assoc]
    · refine h3.trans ?_
      rw [u3, pushLines_append]

theorem flatten_replaceNull (chunks : List Str) :
    (chunks.map replaceNull).flatten = replaceNull chunks.flatten := by
  induction chunks with
  | nil => rfl
  | cons data chunks ih => simp_all [replaceNull]

theorem isNVT_crlf : ∀ b ∈ crlf, isNVT b = false := isNVT_of_not_mem (by decide)

/-- **The cut of a stream into chunks does not matter without a prompt.** Two
runs of `update` from one session, over two ways of receiving one stream, pass
the same lines to the newline callback and leave the same buffer and history. -/
theorem updates_eq_of_flatten_eq (os os' : Os) (conf : Conf) (hp : conf.promptString = [])
    (hcb : conf.newLineCallBack.isSome) (c : Conn) (chunks chunks' : List Str)
    (hc : ∀ data ∈ chunks, IsChunk data) (hc' : ∀ data ∈ chunks', IsChunk data)
    (h : chunks.flatten = chunks'.flatten) :
    (updates os conf chunks c).framed = (updates os' conf chunks' c).framed := by
  have hp : conf.interactivePrompt = false := by simp [Conf.interactivePrompt, hp]
  have hne : ∀ cs : List Str, (∀ data ∈ cs, IsChunk data) → ∀ a ∈ cs.map replaceNull, a ≠ [] := by
    intro cs hcs a ha
    obtain ⟨data, hd, rfl⟩ := List.mem_map.mp ha
    simpa [replaceNull] using (hcs data hd).1
  obtain ⟨h1, new, h2, h3⟩ := updates_feed os hp hcb chunks hc [] c
  obtain ⟨h1', new', h2', h3'⟩ := updates_feed os' hp hcb chunks' hc' [] c
  have hfeed := foldl_feed_eq crlf_ne_nil isNVT_crlf (k := 2) (by decide)
    ([] ++ passedLines c.world.trace, c.session.buffer) (hne chunks hc) (hne chunks' hc')
    (by rw [flatten_replaceNull, flatten_replaceNull, h])
  rw [hfeed, ← h1'] at h1
  simp only [List.nil_append, Prod.mk.injEq] at h1
  have hnew : new = new' := by
    have := h1.1
    rw [h2, h2'] at this
    exact List.append_cancel_left this
  simp only [Conn.framed, h1, h3, h3', hnew]

/-- A negotiation sequence and a CR NUL, each cut by the chunks. -/
theorem updates_eq_cut :
    (updates default { (default : Conf) with newLineCallBack := some fun _ _ _ => ([], true) }
        [[0x61, 0xFF, 0xFB], [0x01, 0x62, 0x0D], [0x00]] ⟨{ id := 0, socket := 4 }, {}⟩).framed =
      (updates default { (default : Conf) with newLineCallBack := some fun _ _ _ => ([], true) }
        [[0x61, 0xFF, 0xFB, 0x01, 0x62, 0x0D, 0x00]] ⟨{ id := 0, socket := 4 }, {}⟩).framed :=
  updates_eq_of_flatten_eq default default _ rfl rfl _ _ _ (by decide) (by decide) rfl

end Telnet
end RepoInit
