/-
# Where the history cursor goes

`m_historyCursor` is a list iterator: in a list of `size` entries it stands at
a position in `0..size`, it is advanced and read before `size` only, and it
goes back from `1` on only. `cursorUses` lists what `processCommandHistory`
does to it, in order (`processCommandHistory_read`). In every state of a session
the cursor is within its list (`sessionAfter_cursor_le`), so the one use that is
not defined is the `next(m_historyCursor)` of a down-arrow at the end, which
asks whether the entry behind `end()` is the end (`cursorSafe_iff`).

Key definitions: `CursorUse`, `cursorUses`, `sessionAfter`, `DownAtEnd`,
`CursorSafe`.
Key theorems: `processCommandHistory_read`, `sessionAfter_cursor_le`,
`cursorSafe_iff`.
-/
import RepoInit.Telnet.Editing

namespace RepoInit
namespace Telnet

open Search

/-! ### The uses of the iterator -/

/-- What a method does to a list iterator that stands at a position. -/
inductive CursorUse where
  /-- `--m_historyCursor` -/
  | retreat (pos : ℕ)
  /-- `next(m_historyCursor)` and `++m_historyCursor` -/
  | advance (pos : ℕ)
  /-- `*m_historyCursor` -/
  | read (pos : ℕ)
  deriving DecidableEq, Repr

/-- The use is defined in a list of `size` entries, whose end is at `size`. -/
def CursorUse.Defined (size : ℕ) : CursorUse → Prop
  | retreat i => 0 < i ∧ i ≤ size
  | advance i => i < size
  | read i => i < size

instance (size : ℕ) : DecidablePred (CursorUse.Defined size)
  | .retreat i => inferInstanceAs (Decidable (0 < i ∧ i ≤ size))
  | .advance i => inferInstanceAs (Decidable (i < size))
  | .read i => inferInstanceAs (Decidable (i < size))

/-- The up-arrow: `if (m_historyCursor != m_history.begin()) --m_historyCursor;`
and the entry is read. -/
def upUses (s : TelnetSession) : List CursorUse :=
  if s.historyCursor ≠ 0 then [.retreat s.historyCursor, .read (s.historyCursor - 1)]
  else [.read s.historyCursor]

/-- The down-arrow: `if (next(m_historyCursor) != m_history.end())
++m_historyCursor;` and the entry is read. -/
def downUses (s : TelnetSession) : List CursorUse :=
  .advance s.historyCursor ::
    if nextCursor s ≠ s.history.length then [.advance s.historyCursor, .read (nextCursor s)]
    else [.read s.historyCursor]

/-- What `processCommandHistory` does to `m_historyCursor`. -/
def cursorUses (conf : Conf) (s : TelnetSession) : List CursorUse :=
  if conf.interactivePrompt then
    if (find ansiArrowUp s.buffer).isSome ∧ s.history ≠ [] then upUses s
    else if (find ansiArrowDown s.buffer).isSome ∧ s.history ≠ [] then downUses s
    else []
  else []

theorem read_mem_upUses {s : TelnetSession} {i : ℕ} (h : .read i ∈ upUses s) :
    (recallUp s).historyCursor = i ∧ (recallUp s).buffer = s.history.getD i [] := by
  unfold upUses at h
  unfold recallUp
  dsimp only
  split at h
  · rename_i hne
    obtain rfl : i = s.historyCursor - 1 := by simpa using h
    rw [if_pos hne]
    exact ⟨rfl, rfl⟩
  · rename_i hne
    obtain rfl : i = s.historyCursor := by simpa using h
    rw [if_neg hne]
    exact ⟨rfl, rfl⟩

theorem read_mem_downUses {s : TelnetSession} {i : ℕ} (h : .read i ∈ downUses s) :
    (recallDown s).historyCursor = i ∧ (recallDown s).buffer = s.history.getD i [] := by
  unfold downUses at h
  unfold recallDown
  dsimp only
  split at h
  · rename_i hne
    obtain rfl : i = nextCursor s := by simpa using h
    rw [if_pos hne]
    exact ⟨rfl, rfl⟩
  · rename_i hne
    obtain rfl : i = s.historyCursor := by simpa using h
    rw [if_neg hne]
    exact ⟨rfl, rfl⟩

section History

variable (os : Os) (conf : Conf)

/-- `processCommandHistory` leaves the cursor where it read, with that entry in
the buffer. -/
theorem processCommandHistory_read {c : Conn} {i : ℕ} (h : .read i ∈ cursorUses conf c.session) :
    (processCommandHistory os conf c).2.session.historyCursor = i ∧
      (processCommandHistory os conf c).2.session.buffer = c.session.history.getD i [] := by
  unfold cursorUses at h
  unfold processCommandHistory
  split at h
  · rename_i hp
    rw [if_pos hp]
    split at h
    · rename_i hup
      obtain ⟨hbuffer, -, hcursor, -⟩ :=
        counterCursor_session os ansiArrowDown { c with session := recallUp c.session }
      rw [if_pos hup, hbuffer, hcursor]
      exact read_mem_upUses h
    · rename_i hup
      rw [if_neg hup]
      split at h
      · rename_i hdown
        obtain ⟨hbuffer, -, hcursor, -⟩ :=
          counterCursor_session os ansiArrowUp { c with session := recallDown c.session }
        rw [if_pos hdown, hbuffer, hcursor]
        exact read_mem_downUses h
      · simp at h
  · simp at h

/-- Where it does not use the cursor, it changes nothing. -/
theorem processCommandHistory_unused {c : Conn} (h : cursorUses conf c.session = []) :
    (processCommandHistory os conf c).2 = c := by
  unfold cursorUses at h
  unfold processCommandHistory
  split at h
  · rename_i hp
    rw [if_pos hp]
    split at h
    · unfold upUses at h
      split at h <;> simp at h
    · rename_i hup
      rw [if_neg hup]
      split at h
      · simp [downUses] at h
      · rename_i hdown
        rw [if_neg hdown]
  · rename_i hp
    rw [if_neg hp]

end History

/-! ### When the uses are defined -/

theorem upUses_defined {s : TelnetSession} (hist : s.history ≠ [])
    (hle : s.historyCursor ≤ s.history.length) :
    ∀ u ∈ upUses s, u.Defined s.history.length := by
  have hpos : 0 < s.history.length := List.length_pos_iff.mpr hist
  intro u hu
  unfold upUses at hu
  split at hu
  · rename_i hne
    rcases List.mem_pair.mp hu with rfl | rfl
    · exact ⟨Nat.pos_of_ne_zero hne, hle⟩
    · show s.historyCursor - 1 < s.history.length
      omega
  · rename_i hzero
    rw [List.mem_singleton.mp hu]
    show s.historyCursor < s.history.length
    omega

theorem downUses_defined_iff {s : TelnetSession} (hle : s.historyCursor ≤ s.history.length) :
    (∀ u ∈ downUses s, u.Defined s.history.length) ↔ s.historyCursor ≠ s.history.length := by
  constructor
  · intro h
    have hadvance : s.historyCursor < s.history.length := h (.advance _) List.mem_cons_self
    exact hadvance.ne
  · intro hne
    have hlt : s.historyCursor < s.history.length := by omega
    have hnext : nextCursor s = s.historyCursor + 1 := if_pos hlt
    intro u hu
    rcases List.mem_cons.mp hu with rfl | hu
    · exact hlt
    · split at hu
      · rename_i hend
        rcases List.mem_pair.mp hu with rfl | rfl
        · exact hlt
        · show nextCursor s < s.history.length
          omega
      · rw [List.mem_singleton.mp hu]
        exact hlt

/-- A cursor within its list is used as it may be, unless it is at the end and
the key is the down-arrow. -/
theorem cursorUses_defined_iff (conf : Conf) {s : TelnetSession}
    (hle : s.historyCursor ≤ s.history.length) :
    (∀ u ∈ cursorUses conf s, u.Defined s.history.length) ↔
      ¬ (conf.interactivePrompt = true ∧ s.history ≠ [] ∧ s.historyCursor = s.history.length ∧
        ansiArrowDown <:+: s.buffer ∧ ¬ ansiArrowUp <:+: s.buffer) := by
  unfold cursorUses
  simp only [find_isSome]
  by_cases hp : conf.interactivePrompt = true
  · rw [if_pos hp]
    by_cases hup : ansiArrowUp <:+: s.buffer ∧ s.history ≠ []
    · rw [if_pos hup]
      exact iff_of_true (upUses_defined hup.2 hle) fun h => h.2.2.2.2 hup.1
    · rw [if_neg hup]
      by_cases hdown : ansiArrowDown <:+: s.buffer ∧ s.history ≠ []
      · rw [if_pos hdown, downUses_defined_iff hle]
        have hno : ¬ ansiArrowUp <:+: s.buffer := fun h => hup ⟨h, hdown.2⟩
        exact ⟨fun h h' => h h'.2.2.1, fun h h' => h ⟨hp, hdown.2, h', hdown.1, hno⟩⟩
      · rw [if_neg hdown]
        exact iff_of_true (by simp) fun h => hdown ⟨h.2.2.2.1, h.2.1⟩
  · rw [if_neg hp]
    exact iff_of_true (by simp) fun h => hp h.1

/-! ### The cursor within its list -/

section Within

variable (os : Os) (conf : Conf)

/-- The cursor is not past the end. -/
def Conn.Within (c : Conn) : Prop := c.session.historyCursor ≤ c.session.history.length

theorem within_of_editor {c c' : Conn} (h : c'.editor = c.editor) (hw : c.Within) : c'.Within := by
  simp only [Conn.editor, LineEditor.Editor.mk.injEq] at h
  unfold Conn.Within at hw ⊢
  rw [h.2.2.1, h.2.2.2]
  exact hw

theorem recallUp_within {s : TelnetSession} (h : s.historyCursor ≤ s.history.length) :
    (recallUp s).historyCursor ≤ (recallUp s).history.length := by
  unfold recallUp
  dsimp only
  split_ifs <;> omega

theorem nextCursor_le (s : TelnetSession) : nextCursor s ≤ s.history.length := by
  unfold nextCursor
  split_ifs <;> omega

theorem recallDown_within {s : TelnetSession} (h : s.historyCursor ≤ s.history.length) :
    (recallDown s).historyCursor ≤ (recallDown s).history.length := by
  unfold recallDown
  dsimp only
  split_ifs
  · exact nextCursor_le s
  · exact h

theorem counterCursor_within (cursor : Str) {c : Conn} (h : c.Within) :
    (counterCursor os cursor c).2.Within := by
  obtain ⟨-, hhist, hcursor, -⟩ := counterCursor_session os cursor c
  unfold Conn.Within
  rw [hhist, hcursor]
  exact h

theorem processCommandHistory_within {c : Conn} (h : c.Within) :
    (processCommandHistory os conf c).2.Within := by
  unfold processCommandHistory
  split_ifs
  · exact counterCursor_within os _ (recallUp_within h)
  · exact counterCursor_within os _ (recallDown_within h)
  · exact h
  · exact h

theorem editBuffer_within {c : Conn} (h : c.Within) : (editBuffer os conf c).2.Within := by
  unfold editBuffer
  split
  · exact within_of_editor (processTabLoop_acted os conf false _).editor
      (processCommandHistory_within os conf h)
  · exact h

theorem takeLines_within {c : Conn} (h : c.Within) : (takeLines os conf c).Within := by
  unfold takeLines
  dsimp only
  set lines := (getCompleteLines c.session.buffer).1
  cases hcb : conf.newLineCallBack with
  | none =>
    unfold processLines
    rw [hcb]
    exact h
  | some callback =>
    have hend := processLines_historyCursor os conf callback hcb lines
      (c.setBuffer (getCompleteLines c.session.buffer).2)
    unfold Conn.Within
    rw [hend]
    split
    · rename_i hnil
      rw [hnil, processLines_some os conf callback hcb]
      exact h
    · exact le_rfl

/-- What a session is when `update` calls `processCommandHistory`: the received
bytes are counted, echoed, appended to the buffer and stripped of negotiation
sequences. -/
def takeBytes (data : Str) (c : Conn) : Conn :=
  let c := echoBack os data (noteReceived os data c)
  c.setBuffer (stripNVT (c.session.buffer ++ replaceNull data))

theorem takeKeys_takeBytes (data : Str) (c : Conn) :
    takeKeys os conf data c = editBuffer os conf (takeBytes os data c) := rfl

theorem takeBytes_editor (data : Str) (c : Conn) : (takeBytes os data c).editor = c.editor :=
  (setBuffer_editor _ _).trans (echoBack_acted os data (noteReceived os data c)).editor

theorem takeBytes_buffer (data : Str) (c : Conn) :
    (takeBytes os data c).session.buffer = stripNVT (c.session.buffer ++ replaceNull data) := by
  show stripNVT ((echoBack os data (noteReceived os data c)).session.buffer ++ _) = _
  rw [(echoBack_acted os data (noteReceived os data c)).buffer]
  rfl

theorem receive_within (data : Str) {c : Conn} (h : c.Within) : (receive os conf data c).Within := by
  have hkeys : (takeKeys os conf data c).2.Within := by
    rw [takeKeys_takeBytes]
    exact editBuffer_within os conf (within_of_editor (takeBytes_editor os data c) h)
  exact within_of_editor (receive_acted os conf data c).editor (takeLines_within os conf hkeys)

theorem update_within (answer : Recv) {c : Conn} (h : c.Within) :
    (TelnetSession.update os conf answer c).Within := by
  unfold TelnetSession.update
  cases answer with
  | fail errno =>
    dsimp only
    split_ifs <;> exact h
  | bytes data =>
    dsimp only
    split_ifs
    · exact receive_within os conf data h
    · exact h

end Within

/-! ### Runs -/

/-- One update of a session: what the system answers, the server's prompt and
callbacks, the world at that moment and what `recv` returns. -/
structure Step where
  os : Os
  conf : Conf
  world : World
  answer : Recv

/-- The session of a new connection: the constructor and `initialise`. -/
def newSession (os : Os) (conf : Conf) (id socket : ℕ) (w : World) : TelnetSession :=
  (initialise os conf ⟨{ id := id, socket := socket }, w⟩).session

/-- The session when an update has received bytes and calls
`processCommandHistory`. -/
def Step.typed (step : Step) (data : Str) (s : TelnetSession) : TelnetSession :=
  (takeBytes step.os data
    { session := resetStats s
      world := step.world.record (.recv s.id s.socket step.answer) }).session

/-- What the update's `processCommandHistory` does to the cursor. -/
def Step.uses (step : Step) (s : TelnetSession) : List CursorUse :=
  match step.answer with
  | .fail _ => []
  | .bytes data => if data ≠ [] then cursorUses step.conf (step.typed data s) else []

/-- The session after an update. -/
def Step.after (step : Step) (s : TelnetSession) : TelnetSession :=
  (TelnetSession.update step.os step.conf step.answer ⟨s, step.world⟩).session

/-- The session after updates. -/
def sessionAfter (s : TelnetSession) (steps : List Step) : TelnetSession :=
  steps.foldl (fun s step => step.after s) s

/-- Every use of the cursor in a run is defined. -/
def CursorSafe (s : TelnetSession) (steps : List Step) : Prop :=
  ∀ before step after, steps = before ++ step :: after →
    ∀ u ∈ step.uses (sessionAfter s before),
      u.Defined (sessionAfter s before).history.length

/-- The prompt is on, the cursor is at the end of a history that is not empty,
and the buffer with what is received has a down-arrow and no up-arrow. -/
structure DownAtEnd (step : Step) (s : TelnetSession) : Prop where
  prompt : step.conf.interactivePrompt = true
  history : s.history ≠ []
  atEnd : s.historyCursor = s.history.length
  key : ∃ data, step.answer = .bytes data ∧ data ≠ [] ∧
    ansiArrowDown <:+: stripNVT (s.buffer ++ replaceNull data) ∧
    ¬ ansiArrowUp <:+: stripNVT (s.buffer ++ replaceNull data)

/-- **In every state of a session its cursor is within its history.** -/
theorem sessionAfter_cursor_le (os : Os) (conf : Conf) (id socket : ℕ) (w : World)
    (steps : List Step) :
    (sessionAfter (newSession os conf id socket w) steps).historyCursor ≤
      (sessionAfter (newSession os conf id socket w) steps).history.length := by
  have hnew : (newSession os conf id socket w).historyCursor ≤
      (newSession os conf id socket w).history.length := by
    have hacted := initialise_acted os conf ⟨{ id := id, socket := socket }, w⟩
    show (initialise os conf _).session.historyCursor ≤ (initialise os conf _).session.history.length
    rw [hacted.historyCursor, hacted.history]
    exact le_rfl
  generalize newSession os conf id socket w = s at hnew
  induction steps generalizing s with
  | nil => exact hnew
  | cons step steps ih =>
    exact ih _ (update_within step.os step.conf step.answer (c := ⟨s, step.world⟩) hnew)

/-- One update of a session whose cursor is within its history. -/
theorem uses_defined_iff (step : Step) {s : TelnetSession}
    (hle : s.historyCursor ≤ s.history.length) :
    (∀ u ∈ step.uses s, u.Defined s.history.length) ↔ ¬ DownAtEnd step s := by
  obtain ⟨os, conf, w, answer⟩ := step
  cases answer with
  | fail errno =>
    refine iff_of_true (by simp [Step.uses]) fun h => ?_
    obtain ⟨data, hdata, -⟩ := h.key
    simp at hdata
  | bytes data =>
    by_cases hd : data = []
    · refine iff_of_true (by simp [Step.uses, hd]) fun h => ?_
      obtain ⟨data', hdata, hne, -⟩ := h.key
      exact hne ((Recv.bytes.inj hdata).symm.trans hd)
    · set c : Conn := { session := resetStats s, world := w.record (.recv s.id s.socket (.bytes data)) }
        with hc
      have heditor := takeBytes_editor os data c
      simp only [Conn.editor, LineEditor.Editor.mk.injEq] at heditor
      obtain ⟨-, -, hhist, hcursor⟩ := heditor
      have hhist : (takeBytes os data c).session.history = s.history := hhist
      have hcursor : (takeBytes os data c).session.historyCursor = s.historyCursor := hcursor
      have hbuffer : (takeBytes os data c).session.buffer = stripNVT (s.buffer ++ replaceNull data) :=
        takeBytes_buffer os data c
      have huses : Step.uses ⟨os, conf, w, .bytes data⟩ s =
          cursorUses conf (takeBytes os data c).session := by
        simp [Step.uses, Step.typed, hd, hc]
      have h := cursorUses_defined_iff conf (s := (takeBytes os data c).session)
        (by rw [hhist, hcursor]; exact hle)
      rw [hhist, hcursor, hbuffer] at h
      rw [huses, h, not_iff_not]
      constructor
      · rintro ⟨hp, hne, hend, hdown, hup⟩
        exact ⟨hp, hne, hend, data, rfl, hd, hdown, hup⟩
      · rintro ⟨hp, hne, hend, data', hdata, -, hdown, hup⟩
        obtain rfl : data = data' := Recv.bytes.inj hdata
        exact ⟨hp, hne, hend, hdown, hup⟩

/-- **The history cursor is used as it may be but for the down-arrow at the
end.** In every run of a new session, under every prompt and callbacks and
whatever the world does in between, each advance and each read of the cursor is
before the end, if and only if no update finds a down-arrow and no up-arrow in
the buffer of a session whose cursor is at the end of a history with entries. -/
theorem cursorSafe_iff (os : Os) (conf : Conf) (id socket : ℕ) (w : World) (steps : List Step) :
    CursorSafe (newSession os conf id socket w) steps ↔
      ∀ before step after, steps = before ++ step :: after →
        ¬ DownAtEnd step (sessionAfter (newSession os conf id socket w) before) := by
  have hstep : ∀ (before : List Step) (step : Step),
      (∀ u ∈ step.uses (sessionAfter (newSession os conf id socket w) before), u.Defined
        (sessionAfter (newSession os conf id socket w) before).history.length) ↔
      ¬ DownAtEnd step (sessionAfter (newSession os conf id socket w) before) :=
    fun before step => uses_defined_iff step (sessionAfter_cursor_le os conf id socket w before)
  constructor
  · intro h before step after hsteps
    exact (hstep before step).mp (h before step after hsteps)
  · intro h before step after hsteps
    exact (hstep before step).mpr (h before step after hsteps)

def typeLine : Step := ⟨default, promptConf, {}, .bytes (str "a" ++ crlf)⟩

def pressDown : Step := ⟨default, promptConf, {}, .bytes ansiArrowDown⟩

/-- After a line the cursor is at the end, and a down-arrow takes
`next(m_historyCursor)` there. -/
theorem not_cursorSafe_lineThenDown :
    ¬ CursorSafe (newSession default promptConf 0 4 {}) [typeLine, pressDown] := by
  intro h
  have hsize : (sessionAfter (newSession default promptConf 0 4 {}) [typeLine]).history.length = 1 := by
    decide +kernel
  have hadvance := h [typeLine] pressDown [] rfl (.advance 1) (by decide +kernel)
  rw [hsize] at hadvance
  exact absurd hadvance (by decide)

end Telnet
end RepoInit
