/-
# What the history holds

`addToHistory` compares a line with the last retained entry only and drops
entries at the other end. The last entry is never dropped, so the history is the
end of what all passed lines collapse to (`historyOf`), in either mode and
whatever is recalled in between (`runUpdates_history`).

Key definitions: `completeLines`, `historyOf`, `HistoryKept`.
Key theorems: `pushLines_nil`, `update_lines`, `runUpdates_history`.
-/
import RepoInit.Lib.BoundedLog
import RepoInit.Telnet.Clean

namespace RepoInit
namespace Telnet

/-! ### The history of a list of lines -/

/-- The lines without the empty ones, those in a row that are equal as one, and
of these the last `TELNET_HISTORY_LIMIT`. -/
def historyOf (lines : List Str) : List Str :=
  ((lines.filter (· ≠ [])).destutter (· ≠ ·)).rtake TELNET_HISTORY_LIMIT

theorem historyOf_eq (lines : List Str) :
    historyOf lines = (lines.filter (· ≠ [])).foldl (BoundedLog.push TELNET_HISTORY_LIMIT) [] :=
  (BoundedLog.foldl_push (by decide) _).symm

theorem length_historyOf (lines : List Str) :
    (historyOf lines).length ≤ TELNET_HISTORY_LIMIT := BoundedLog.length_rtake_le _ _

theorem nil_notMem_historyOf (lines : List Str) : [] ∉ historyOf lines := by
  intro h
  have hmem := (List.destutter_sublist _ _).subset ((BoundedLog.rtake_suffix _ _).subset h)
  simp at hmem

theorem isChain_historyOf (lines : List Str) : (historyOf lines).IsChain (· ≠ ·) :=
  (List.isChain_destutter _ _).suffix (BoundedLog.rtake_suffix _ _)

/-- A line that is not empty is pushed. -/
theorem pushHistory_push {history : List Str} (hle : history.length ≤ TELNET_HISTORY_LIMIT)
    {line : Str} (hline : line ≠ []) :
    pushHistory history line = BoundedLog.push TELNET_HISTORY_LIMIT history line := by
  have hlast : line ≠ history.getLast?.getD [] ↔ history.getLast? ≠ some line := by
    cases h : history.getLast? with
    | none => simp [hline]
    | some last => simpa using ne_comm
  unfold pushHistory BoundedLog.push
  by_cases hrep : history.getLast? = some line
  · rw [if_neg fun h => hlast.mp h.1 hrep, if_pos hrep]
  · rw [if_pos ⟨hlast.mpr hrep, hline⟩, if_neg hrep]
    dsimp only
    by_cases hfull : (history ++ [line]).length > TELNET_HISTORY_LIMIT
    · have hlen : (history ++ [line]).length - TELNET_HISTORY_LIMIT = 1 := by
        simp only [List.length_append, List.length_singleton] at hfull ⊢
        omega
      rw [if_pos hfull, List.rtake, hlen, List.drop_one]
    · rw [if_neg hfull, BoundedLog.rtake_of_length_le (by omega)]

theorem pushHistory_nil (history : List Str) : pushHistory history [] = history := by
  simp [pushHistory]

/-- **The history after lines.** -/
theorem pushLines_nil (lines : List Str) : pushLines [] lines = historyOf lines := by
  induction lines using List.reverseRecOn with
  | nil => rfl
  | append_singleton lines line ih =>
    have hstep : pushLines [] (lines ++ [line]) = pushHistory (historyOf lines) line := by
      rw [pushLines_append, ih]
      rfl
    by_cases hline : line = []
    · rw [hstep, hline, pushHistory_nil]
      simp [historyOf]
    · have hfilter : (lines ++ [line]).filter (· ≠ []) = lines.filter (· ≠ []) ++ [line] := by
        simp [hline]
      rw [hstep, pushHistory_push (length_historyOf _) hline,
        historyOf_eq (lines ++ [line]), hfilter, List.foldl_append, ← historyOf_eq]
      rfl

/-! ### One update -/

/-- The complete lines in the buffer when `update` comes to its line loop. -/
def completeLines (os : Os) (conf : Conf) (answer : Recv) (c : Conn) : List Str :=
  match answer with
  | .fail _ => []
  | .bytes data =>
    if data ≠ [] then
      (getCompleteLines (takeKeys os conf data
        { session := resetStats c.session
          world := c.world.record (.recv c.session.id c.session.socket (.bytes data)) }
        ).2.session.buffer).1
    else []

section Update

variable (os : Os) (conf : Conf)

/-- What an update passes on goes into the history, and nothing else does. -/
theorem update_lines (answer : Recv) (c : Conn) :
    ∃ new, passedLines (TelnetSession.update os conf answer c).world.trace =
        passedLines c.world.trace ++ new ∧
      (TelnetSession.update os conf answer c).session.history = pushLines c.session.history new ∧
      (conf.newLineCallBack.isSome → new = completeLines os conf answer c ∧
        (new ≠ [] → (TelnetSession.update os conf answer c).session.historyCursor =
          (TelnetSession.update os conf answer c).session.history.length)) ∧
      (conf.newLineCallBack = none → new = []) := by
  by_cases hd : ∃ data, answer = .bytes data ∧ data ≠ []
  · obtain ⟨data, rfl, hd⟩ := hd
    set c₀ : Conn :=
      { session := resetStats c.session
        world := c.world.record (.recv c.session.id c.session.socket (.bytes data)) } with hc₀
    have hupdate : TelnetSession.update os conf (.bytes data) c = receive os conf data c₀ := by
      simp [TelnetSession.update, hd, hc₀]
    have hcomplete : completeLines os conf (.bytes data) c =
        (getCompleteLines (takeKeys os conf data c₀).2.session.buffer).1 := by
      simp [completeLines, hd, hc₀]
    have hkeys : (takeKeys os conf data c₀).2.kept = c.kept :=
      (editBuffer_kept os conf _).trans (echoBack_acted os data (noteReceived os data c₀)).kept
    obtain ⟨hhist, hpassed⟩ := Prod.mk.inj hkeys
    have hacted := receive_acted os conf data c₀
    rw [hupdate, hacted.passedLines, hacted.history, hacted.historyCursor, hcomplete, ← hhist,
      ← hpassed]
    unfold takeLines
    cases hcb : conf.newLineCallBack with
    | none =>
      refine ⟨[], ?_, ?_, by simp, fun _ => rfl⟩
      · simp [processLines, hcb, Conn.setBuffer]
      · simp [processLines, hcb, Conn.setBuffer, pushLines]
    | some callback =>
      obtain ⟨-, h₂, h₃⟩ := processLines_eq os conf callback hcb
        (getCompleteLines (takeKeys os conf data c₀).2.session.buffer).1
        ((takeKeys os conf data c₀).2.setBuffer
          (getCompleteLines (takeKeys os conf data c₀).2.session.buffer).2)
      refine ⟨_, h₃, h₂, fun _ => ⟨rfl, fun hne => ?_⟩, by simp⟩
      have hend := processLines_historyCursor os conf callback hcb
        (getCompleteLines (takeKeys os conf data c₀).2.session.buffer).1
        ((takeKeys os conf data c₀).2.setBuffer
          (getCompleteLines (takeKeys os conf data c₀).2.session.buffer).2)
      rw [if_neg hne] at hend
      exact hend
  · -- nothing was received
    refine ⟨[], ?_⟩
    unfold TelnetSession.update completeLines
    cases answer with
    | fail errno =>
      dsimp only
      split_ifs <;> simp [World.record, passedLines, resetStats, pushLines]
    | bytes data =>
      obtain rfl : data = [] := by
        by_contra hne
        exact hd ⟨data, rfl, hne⟩
      simp [World.record, passedLines, resetStats, pushLines]

end Update

/-- An update passes the complete lines on, and no other. -/
theorem update_passedLines (os : Os) {conf : Conf} (hcb : conf.newLineCallBack.isSome)
    (answer : Recv) (c : Conn) :
    passedLines (TelnetSession.update os conf answer c).world.trace =
      passedLines c.world.trace ++ completeLines os conf answer c := by
  obtain ⟨new, hnew, -, hcomplete, -⟩ := update_lines os conf answer c
  rw [hnew, (hcomplete hcb).1]

/-! ### The run -/

/-- The history is that of the passed lines; so it holds no empty entry, no two
equal neighbours and no more than `TELNET_HISTORY_LIMIT` entries. -/
structure HistoryKept (c : Conn) : Prop where
  content : c.session.history = historyOf (passedLines c.world.trace)
  noEmpty : [] ∉ c.session.history
  noTwins : c.session.history.IsChain (· ≠ ·)
  bounded : c.session.history.length ≤ TELNET_HISTORY_LIMIT

/-- The history cursor is at `end()`. -/
def AtEnd (c : Conn) : Prop := c.session.historyCursor = c.session.history.length

theorem runUpdates_pushLines (os : Os) (steps : List (Conf × Recv)) {c : Conn}
    (h : c.session.history = pushLines [] (passedLines c.world.trace)) :
    (runUpdates os steps c).session.history =
      pushLines [] (passedLines (runUpdates os steps c).world.trace) := by
  induction steps generalizing c with
  | nil => exact h
  | cons step steps ih =>
    obtain ⟨new, hpassed, hhist, -⟩ := update_lines os step.1 step.2 c
    apply ih
    rw [hhist, hpassed, pushLines_append, ← h]

/-- **What the history holds.** In every run of a new session, under every
prompt and callbacks, the history is that of the lines passed on so far. After
each line of the line loop, and after every further update that completes one
for the newline callback, the cursor is at the end. -/
theorem runUpdates_history (os : Os) (steps : List (Conf × Recv)) (s : TelnetSession) (w : World) :
    HistoryKept (runUpdates os steps (freshConn s w)) ∧
      (∀ conf callback line c, AtEnd (processLine os conf callback line c)) ∧
      ∀ conf answer, conf.newLineCallBack.isSome →
        completeLines os conf answer (runUpdates os steps (freshConn s w)) ≠ [] →
          AtEnd (TelnetSession.update os conf answer (runUpdates os steps (freshConn s w))) := by
  have hcontent : (runUpdates os steps (freshConn s w)).session.history =
      historyOf (passedLines (runUpdates os steps (freshConn s w)).world.trace) := by
    rw [← pushLines_nil]
    exact runUpdates_pushLines os steps rfl
  refine ⟨⟨hcontent, ?_, ?_, ?_⟩, fun _ _ _ _ => rfl, fun conf answer hcb hne => ?_⟩
  · rw [hcontent]
    exact nil_notMem_historyOf _
  · rw [hcontent]
    exact isChain_historyOf _
  · rw [hcontent]
    exact length_historyOf _
  · obtain ⟨new, -, -, hcomplete, -⟩ := update_lines os conf answer (runUpdates os steps (freshConn s w))
    obtain ⟨rfl, hend⟩ := hcomplete hcb
    exact hend hne

/-- A repeated and an empty line, and then a recall before the next line. -/
def twinSteps : List (Conf × Recv) :=
  [(promptConf, .bytes (str "a" ++ crlf ++ str "a" ++ crlf ++ crlf ++ str "b" ++ crlf)),
   (promptConf, .bytes ansiArrowUp)]

theorem runUpdates_history_twins :
    (runUpdates default twinSteps (freshConn { id := 0, socket := 4 } {})).session.history =
        historyOf [str "a", str "a", [], str "b"] ∧
      AtEnd (TelnetSession.update default promptConf (.bytes crlf)
        (runUpdates default twinSteps (freshConn { id := 0, socket := 4 } {}))) := by
  obtain ⟨hkept, -, hend⟩ := runUpdates_history default twinSteps { id := 0, socket := 4 } {}
  refine ⟨hkept.content.trans (congrArg historyOf (by decide +kernel)), hend _ _ rfl ?_⟩
  decide +kernel

end Telnet
end RepoInit
