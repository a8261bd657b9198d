/-
# `quit` ends the session

The case of `quit` marks the timeout, and the server's loop closes a marked
session in the same tick. The line loop of `TelnetSession::update` does not look
at the mark: it passes on the lines that came behind `quit` in the same read
(`not_quitEnds_pipelined`). Where none did, `quit` is the last line a session
passes on, and the session is closed and gone at the end of the tick
(`quitEnds_of_quitLast`).

Key definitions: `linesOf`, `QuitLast`, `QuitEnds`.
Key theorems: `update_quit`, `turn_quit`, `quitEnds_of_quitLast`.
-/
import RepoInit.Telnet.Accounting
import RepoInit.Telnet.History

namespace RepoInit
namespace Telnet

def quit : Str := str "quit"

/-- The newline callback is `TelnetMessageCallback`. -/
def HasMessageCallback (build : Build) (conf : Conf) : Prop :=
  ∃ vCheckFlag : World → CheckFlags,
    conf.newLineCallBack = some fun w _ line => telnetMessageCallback build (vCheckFlag w) line

/-! ### The lines of a session -/

/-- The lines of the session that went to the newline callback, oldest first. -/
def linesOf (id : ℕ) : List Event → List Str
  | [] => []
  | .line id' l _ :: t => if id' = id then linesOf id t ++ [l] else linesOf id t
  | _ :: t => linesOf id t

theorem linesOf_append (id : ℕ) (es t : List Event) :
    linesOf id (es ++ t) = linesOf id t ++ linesOf id es := by
  induction es with
  | nil => simp [linesOf]
  | cons e es ih =>
    cases e with
    | line id' l ok => by_cases h : id' = id <;> simp [linesOf, h, ih]
    | _ => simpa [linesOf] using ih

/-- The lines among the events of one session are all its own. -/
theorem linesOf_same {id : ℕ} {es : List Event} (h : ∀ e ∈ es, e.id = id) :
    linesOf id es = passedLines es := by
  induction es with
  | nil => rfl
  | cons e es ih =>
    have ih := ih fun e' he => h e' (List.mem_cons_of_mem _ he)
    have he := h e List.mem_cons_self
    cases e with
    | line id' l ok =>
      obtain rfl : id' = id := he
      simp [linesOf, passedLines, ih]
    | _ => exact ih

theorem linesOf_other {id : ℕ} {es : List Event} (h : ∀ e ∈ es, e.id ≠ id) : linesOf id es = [] := by
  induction es with
  | nil => rfl
  | cons e es ih =>
    have ih := ih fun e' he => h e' (List.mem_cons_of_mem _ he)
    have he := h e List.mem_cons_self
    cases e with
    | line id' l ok =>
      have hne : id' ≠ id := he
      simp [linesOf, hne, ih]
    | _ => exact ih

/-- After `quit` a session passes on no line, and at the end of the tick it is
closed and in `m_sessions` no more. -/
structure QuitEnds (srv : TelnetServer) : Prop where
  last : ∀ id, quit ∉ (linesOf id srv.world.trace).dropLast
  closed : ∀ id, quit ∈ linesOf id srv.world.trace →
    id ∉ srv.sessions.map (·.id) ∧ ∃ fd, .close id fd ∈ srv.world.trace

/-! ### The mark -/

section Mark

variable (os : Os) (conf : Conf)

theorem runAct_mark (a : Act) {c : Conn} (h : c.session.lastSeenTime = 0) :
    (runAct os conf a c).session.lastSeenTime = 0 := by
  cases a with
  | sendLine data => exact (sendLine_quiet os conf data c).2.trans h
  | markTimeout => rfl
  | setLevel level => exact h

/-- No callback takes the mark back. -/
theorem runActs_mark (acts : List Act) {c : Conn} (h : c.session.lastSeenTime = 0) :
    (runActs os conf acts c).session.lastSeenTime = 0 := by
  induction acts generalizing c with
  | nil => exact h
  | cons a acts ih => exact ih (runAct_mark os conf a h)

theorem runActs_of_markTimeout {acts : List Act} (h : .markTimeout ∈ acts) (c : Conn) :
    (runActs os conf acts c).session.lastSeenTime = 0 := by
  obtain ⟨before, after, rfl⟩ := List.append_of_mem h
  unfold runActs
  rw [List.foldl_append, List.foldl_cons]
  exact runActs_mark os conf after rfl

variable (callback : World → TelnetSession → Str → List Act × Bool)

theorem processLine_lastSeenTime (line : Str) (c : Conn) :
    (processLine os conf callback line c).session.lastSeenTime =
      (runActs os conf (callback c.world c.session line).1
        { c with world :=
          c.world.record (.line c.session.id line (callback c.world c.session line).2) }
        ).session.lastSeenTime := by
  unfold processLine
  dsimp only
  cases (callback c.world c.session line).2 <;> rfl

/-- A line that is answered with `markTimeout` leaves the session marked, and
so does the loop it is in. -/
theorem processLines_mark (hcb : conf.newLineCallBack = some callback) {line : Str}
    (hmark : ∀ w s, .markTimeout ∈ (callback w s line).1) {lines : List Str} (hl : line ∈ lines)
    (c : Conn) : (processLines os conf lines c).session.lastSeenTime = 0 := by
  have hkeep : ∀ (lines : List Str) (c : Conn), c.session.lastSeenTime = 0 →
      (lines.foldl (fun c l => processLine os conf callback l c) c).session.lastSeenTime = 0 := by
    intro lines
    induction lines with
    | nil => exact fun _ h => h
    | cons l lines ih =>
      intro c h
      apply ih
      rw [processLine_lastSeenTime]
      exact runActs_mark os conf _ h
  obtain ⟨before, after, rfl⟩ := List.append_of_mem hl
  rw [processLines_some os conf callback hcb, List.foldl_append, List.foldl_cons]
  apply hkeep
  rw [processLine_lastSeenTime]
  exact runActs_of_markTimeout os conf (hmark _ _) _

theorem telnetMessageCallback_quit (build : Build) (vCheckFlag : CheckFlags) :
    .markTimeout ∈ (telnetMessageCallback build vCheckFlag quit).1 := by
  have h := @telnetMessageCallback_command build vCheckFlag
    (quit, [.sendLine (str "Closing connection"), .sendLine (str "Goodbye!"), .markTimeout])
    (by simp [switchCases, quit])
  rw [h]
  simp

end Mark

/-! ### One update -/

section Update

variable (os : Os) {conf : Conf}

theorem sendPromptAndBuffer_quiet (c : Conn) :
    (sendPromptAndBuffer os conf c).session.lastSeenTime = c.session.lastSeenTime := by
  unfold sendPromptAndBuffer
  dsimp only
  split <;> simp [sendCounted_quiet]

theorem receive_lastSeenTime (data : Str) (c : Conn) :
    (receive os conf data c).session.lastSeenTime =
      (takeLines os conf (takeKeys os conf data c).2).session.lastSeenTime := by
  unfold receive
  dsimp only
  split
  · rw [sendPromptAndBuffer_quiet]
    simp [eraseLine, sendCounted_quiet]
  · rfl

/-- **An update that comes across `quit` leaves the session marked**, whatever
stands before and behind it. -/
theorem update_quit {build : Build} (hcb : HasMessageCallback build conf) {answer : Recv} {c : Conn}
    (h : quit ∈ completeLines os conf answer c) :
    (TelnetSession.update os conf answer c).session.lastSeenTime = 0 := by
  obtain ⟨vCheckFlag, hcb⟩ := hcb
  unfold completeLines at h
  cases answer with
  | fail errno => simp at h
  | bytes data =>
    dsimp only at h
    split at h
    · rename_i hd
      simp only [TelnetSession.update, if_pos hd, receive_lastSeenTime]
      exact processLines_mark os conf _ hcb
        (fun w _ => telnetMessageCallback_quit build (vCheckFlag w)) h _
    · simp at h

end Update

/-! ### One turn -/

/-- If the update of the turn comes across `quit`, no complete line is behind
it. The turn is at an index of a server. -/
def QuitLast (os : Os) (conf : Conf) (p : ℕ × TelnetServer) : Prop :=
  ∀ s ∈ p.2.sessions[p.1]?,
    quit ∉ (completeLines os conf (os.recv p.2.world.n) ⟨s, p.2.world.next⟩).dropLast

instance (os : Os) (conf : Conf) (p : ℕ × TelnetServer) : Decidable (QuitLast os conf p) :=
  inferInstanceAs (Decidable (∀ s ∈ p.2.sessions[p.1]?, _))

/-- The clock is later than `TELNET_TIMEOUT` whole seconds after the epoch. -/
def ClockPast (os : Os) : Prop := ∀ n, (TELNET_TIMEOUT + 1) * 1000000000 ≤ os.systemClock n

theorem timedOut_mark {os : Os} (hclock : ClockPast os) (n : ℕ) :
    timedOut (os.systemClock n) 0 = true := by
  have h : (121 : ℤ) * 1000000000 ≤ os.systemClock n := hclock n
  have hdiv : (121 : ℤ) ≤ Int.tdiv (os.systemClock n) 1000000000 := by
    rw [Int.tdiv_eq_ediv_of_nonneg (by omega)]
    omega
  simp only [timedOut, Int.sub_zero, TELNET_TIMEOUT, decide_eq_true_eq]
  omega

section Turn

variable (os : Os) {conf : Conf} {build : Build} {srv : TelnetServer}
  {done todo : List TelnetSession} {s : TelnetSession}

/-- **A turn that comes across `quit` closes the session**, whatever lines stand
around it. -/
theorem turn_quit (hcb : HasMessageCallback build conf) (hclock : ClockPast os)
    (hs : srv.sessions = done ++ s :: todo)
    (h : quit ∈ completeLines os conf (os.recv srv.world.n) ⟨s, srv.world.next⟩) :
    (turn os conf done.length srv).1 = done.length := by
  have hget : srv.sessions[done.length]? = some s := by simp [hs]
  have hmark := update_quit os hcb h
  unfold turn
  rw [hget]
  dsimp only [checkTimeout]
  rw [hmark, timedOut_mark hclock, if_pos rfl]

/-- The lines of a turn are the complete lines of its update. -/
theorem turn_passedLines (hcb : conf.newLineCallBack.isSome) (hs : srv.sessions = done ++ s :: todo) :
    passedLines (turn os conf done.length srv).2.world.trace = passedLines srv.world.trace ++
      completeLines os conf (os.recv srv.world.n) ⟨s, srv.world.next⟩ := by
  have hget : srv.sessions[done.length]? = some s := by simp [hs]
  have hlines := update_passedLines os hcb (os.recv srv.world.n) ⟨s, srv.world.next⟩
  unfold turn
  rw [hget]
  dsimp only [checkTimeout]
  split
  · rw [closeClient_trace, passedLines_append]
    exact (List.append_nil _).trans hlines
  · exact hlines

/-- So are those the session passes on, and other sessions pass on none. -/
theorem turn_linesOf (hcb : conf.newLineCallBack.isSome) (hs : srv.sessions = done ++ s :: todo) :
    linesOf s.id (turn os conf done.length srv).2.world.trace = linesOf s.id srv.world.trace ++
        completeLines os conf (os.recv srv.world.n) ⟨s, srv.world.next⟩ ∧
      ∀ id, id ≠ s.id → linesOf id (turn os conf done.length srv).2.world.trace =
        linesOf id srv.world.trace := by
  obtain ⟨answer, es, stat, rest, closed, ht⟩ := turn_spec os conf hs
  obtain ⟨events, htrace, hown⟩ := ht.own
  have hlines := turn_passedLines os hcb hs
  rw [htrace, passedLines_append, List.append_cancel_left_eq] at hlines
  rw [htrace]
  refine ⟨?_, fun id hid => ?_⟩
  · rw [linesOf_append, linesOf_same hown, hlines]
  · have hnone : linesOf id events = [] := linesOf_other fun e he => by
      rw [hown e he]
      exact hid.symm
    rw [linesOf_append, hnone, List.append_nil]

/-- A session whose turn does not move on is closed and gone. -/
theorem turn_gone (hs : srv.sessions = done ++ s :: todo) (hids : (srv.sessions.map (·.id)).Nodup)
    (hindex : (turn os conf done.length srv).1 = done.length) :
    s.id ∉ (turn os conf done.length srv).2.sessions.map (·.id) ∧
      .close s.id s.socket ∈ (turn os conf done.length srv).2.world.trace := by
  obtain ⟨answer, es, stat, rest, closed, ht⟩ := turn_spec os conf hs
  rw [ht.index] at hindex
  obtain rfl : rest = [] := List.length_eq_zero_iff.mp (by omega)
  rcases ht.outcome with ⟨s', -, -, hrest, -⟩ | ⟨-, rfl⟩
  · simp at hrest
  · refine ⟨?_, ?_⟩
    · rw [ht.sessions, List.append_nil]
      intro hm
      obtain ⟨r, hr, heq⟩ := List.mem_map.mp hm
      exact others_ne hs hids r hr heq
    · rw [ht.trace]
      simp [closing]

end Turn

/-! ### The run -/

/-- What a run keeps: sessions are told apart by their numbers, and one that
came across `quit` ended there. -/
structure EndedAtQuit (srv : TelnetServer) : Prop where
  ids_lt : ∀ e ∈ srv.world.trace, e.id < srv.world.accepted
  sessions_lt : ∀ s ∈ srv.sessions, s.id < srv.world.accepted
  nodup : (srv.sessions.map (·.id)).Nodup
  ends : QuitEnds srv

theorem linesOf_new {id : ℕ} {es : List Event} (h : ∀ e ∈ es, OfSession id e)
    (hlines : passedLines es = []) (i : ℕ) : linesOf i es = [] := by
  by_cases hi : i = id
  · rw [hi, linesOf_same fun e he => (h e he).1, hlines]
  · exact linesOf_other fun e he => by
      rw [(h e he).1]
      exact fun hid => hi hid.symm

/-- Accepting a connection adds no line. -/
theorem accepts_linesOf {srv srv' : TelnetServer} {b : Bool} (h : Accepts srv srv' b) (i : ℕ) :
    linesOf i srv'.world.trace = linesOf i srv.world.trace := by
  have hsends : ∀ {id fd : ℕ} {es : List Event}, (∀ e ∈ es, IsSend id fd e) → linesOf i es = [] :=
    fun h => linesOf_new (fun e he => (h e he).ofSession) (passedLines_sends h) i
  cases h with
  | failed hs ht ha => rw [ht]
  | refused fd es hmax hes hs ht ha =>
    have hclosing := linesOf_new (@closing_ofSession srv.world.accepted fd) rfl i
    rw [ht, List.append_assoc, linesOf_append, linesOf_append, hclosing, hsends hes]
    simp [linesOf]
  | kept s es hmax hid hes hs ht ha =>
    rw [ht, linesOf_append, hsends hes]
    simp [linesOf]

theorem linesOf_eq_nil {n i : ℕ} {trace : List Event} (h : ∀ e ∈ trace, e.id < n) (hi : n ≤ i) :
    linesOf i trace = [] :=
  linesOf_other fun e he => by
    have := h e he
    omega

theorem EndedAtQuit.accept {srv srv' : TelnetServer} {b : Bool} (h : EndedAtQuit srv)
    (ha : Accepts srv srv' b) : EndedAtQuit srv' := by
  have hlt := ha.sessions_lt h.sessions_lt
  have hids := ha.nodup_ids h.sessions_lt h.nodup
  have hevents := ha.ids_lt h.ids_lt
  have hlines := accepts_linesOf ha
  have hlast : ∀ id, quit ∉ (linesOf id srv'.world.trace).dropLast := by
    intro id
    rw [hlines]
    exact h.ends.last id
  cases ha with
  | failed hs ht ha =>
    refine ⟨hevents, hlt, hids, hlast, ?_⟩
    rw [ht, hs]
    exact h.ends.closed
  | refused fd es hmax hes hs ht ha =>
    refine ⟨hevents, hlt, hids, hlast, ?_⟩
    intro id hq
    rw [hlines] at hq
    obtain ⟨hgone, fd', hfd⟩ := h.ends.closed id hq
    rw [hs, ht]
    exact ⟨hgone, fd', List.mem_append_right _ (List.mem_cons_of_mem _ hfd)⟩
  | kept s es hmax hid hes hs ht ha =>
    refine ⟨hevents, hlt, hids, hlast, ?_⟩
    intro id hq
    rw [hlines] at hq
    obtain ⟨hgone, fd', hfd⟩ := h.ends.closed id hq
    refine ⟨?_, fd', ?_⟩
    · rw [hs, List.map_append, List.mem_append, not_or]
      refine ⟨hgone, ?_⟩
      rw [List.map_singleton, List.mem_singleton]
      rintro rfl
      -- a new session has no lines
      rw [linesOf_eq_nil h.ids_lt (Nat.le_of_eq hid.symm)] at hq
      simp at hq
    · rw [ht]
      exact List.mem_append_right _ (List.mem_cons_of_mem _ hfd)

/-- The session of the turn passes on the complete lines; if `quit` is among
them, as the last, the session goes. -/
theorem EndedAtQuit.turn (os : Os) {conf : Conf} {build : Build} {srv : TelnetServer} {idx : ℕ}
    (hcb : HasMessageCallback build conf) (hclock : ClockPast os) (h : EndedAtQuit srv)
    (hquit : QuitLast os conf (idx, srv)) : EndedAtQuit (turn os conf idx srv).2 := by
  by_cases hidx : idx < srv.sessions.length
  · obtain ⟨done, s, todo, hs, rfl⟩ := split_at hidx
    obtain ⟨answer, es, stat, rest, closed, ht⟩ := turn_spec os conf hs
    obtain ⟨events, htrace, hown⟩ := ht.own
    have hsome : conf.newLineCallBack.isSome := by
      obtain ⟨vCheckFlag, hcb⟩ := hcb
      simp [hcb]
    obtain ⟨hsame, hother⟩ := turn_linesOf os hsome hs
    set new := completeLines os conf (os.recv srv.world.n) ⟨s, srv.world.next⟩ with hnew
    have hmem : s ∈ srv.sessions := by simp [hs]
    have hlast : quit ∉ new.dropLast := hquit s (by simp [hs])
    have hopen : quit ∉ linesOf s.id srv.world.trace := fun hq =>
      (h.ends.closed s.id hq).1 (List.mem_map_of_mem hmem)
    refine ⟨ht.ids_lt (h.sessions_lt s hmem) h.ids_lt, ht.sessions_lt hs h.sessions_lt,
      ht.nodup_ids hs h.nodup, ?_, ?_⟩
    · intro id
      by_cases hid : id = s.id
      · rw [hid, hsame]
        by_cases hne : new = []
        · rw [hne, List.append_nil]
          exact h.ends.last s.id
        · rw [List.dropLast_append_of_ne_nil hne, List.mem_append, not_or]
          exact ⟨hopen, hlast⟩
      · rw [hother id hid]
        exact h.ends.last id
    · intro id hq
      by_cases hid : id = s.id
      · rw [hid, hsame, List.mem_append] at hq
        have hindex := turn_quit os hcb hclock hs (hq.resolve_left hopen)
        obtain ⟨hgone, hclose⟩ := turn_gone os hs h.nodup hindex
        rw [hid]
        exact ⟨hgone, s.socket, hclose⟩
      · rw [hother id hid] at hq
        obtain ⟨hgone, fd, hfd⟩ := h.ends.closed id hq
        refine ⟨fun hm => hgone ?_, fd, ht.suffix.subset hfd⟩
        obtain ⟨s', hs', rfl⟩ := List.mem_map.mp hm
        obtain ⟨s'', hs'', he, -⟩ := ht.left hs s' hs'
        exact List.mem_map.mpr ⟨s'', hs'', he⟩
  · rw [turn_past os conf (Nat.le_of_not_lt hidx)]
    exact h

/-- The state of the loop of the tick under `conf` that follows `confs`, after
`k` turns. -/
def loopState (os : Os) (confs : List Conf) (conf : Conf) (k : ℕ) : ℕ × TelnetServer :=
  (fun p => turn os conf p.1 p.2)^[k] (0, (startTick os conf (ticks os confs initialised)).2)

/-- The loop is some number of turns. -/
theorem updateSessions_eq_iterate (os : Os) (conf : Conf) (idx : ℕ) (srv : TelnetServer) :
    ∃ k, updateSessions os conf idx srv = ((fun p => turn os conf p.1 p.2)^[k] (idx, srv)).2 := by
  induction idx, srv using updateSessions.induct os conf with
  | case1 idx srv hidx ih =>
    obtain ⟨k, hk⟩ := ih
    refine ⟨k + 1, ?_⟩
    rw [updateSessions, if_pos hidx, hk]
    rfl
  | case2 idx srv hidx =>
    refine ⟨0, ?_⟩
    rw [updateSessions, if_neg hidx]
    rfl

/-- **Where no line comes behind `quit` in the same read, `quit` ends the
session.** It is the last line the session passes on, and at the end of the tick
the session is closed and in `m_sessions` no more, in every run of the server
with `TelnetMessageCallback`. -/
theorem quitEnds_of_quitLast (os : Os) (build : Build) (confs : List Conf)
    (hcb : ∀ conf ∈ confs, HasMessageCallback build conf) (hclock : ClockPast os)
    (hquit : ∀ past conf rest k, confs = past ++ conf :: rest →
      QuitLast os conf (loopState os past conf k)) :
    ∀ past rest, confs = past ++ rest → QuitEnds (ticks os past initialised) := by
  intro past
  suffices h : ∀ rest, confs = past ++ rest → EndedAtQuit (ticks os past initialised) from
    fun rest he => (h rest he).ends
  induction past using List.reverseRecOn with
  | nil =>
    intro rest _
    exact ⟨by simp [ticks, initialised], by simp [ticks, initialised], List.nodup_nil,
      by simp [ticks, initialised, linesOf], by simp [ticks, initialised, linesOf]⟩
  | append_singleton past conf ih =>
    intro rest he
    rw [List.append_assoc, List.singleton_append] at he
    have hconf := hcb conf (by simp [he])
    have hstart : EndedAtQuit (startTick os conf (ticks os past initialised)).2 :=
      (ih _ he).accept (startTick_spec os conf _).1
    -- the turns of the loop, one after the other
    have hloop : ∀ k, EndedAtQuit (loopState os past conf k).2 := by
      intro k
      induction k with
      | zero => exact hstart
      | succ k ih =>
        unfold loopState at ih ⊢
        rw [Function.iterate_succ_apply']
        exact ih.turn os hconf hclock (hquit past conf rest k he)
    obtain ⟨k, hk⟩ := updateSessions_eq_iterate os conf 0 (startTick os conf (ticks os past initialised)).2
    have hend := hloop k
    unfold loopState at hend
    rw [← hk] at hend
    simp only [ticks, List.foldl_append, List.foldl_cons, List.foldl_nil]
    exact ⟨hend.ids_lt, hend.sessions_lt, hend.nodup, hend.ends.last, hend.ends.closed⟩

/-- A client connects, is given descriptor 5 and sends `data`; the clock is at
200 s. -/
def oneClientOs (data : Str) : Os :=
  { (default : Os) with
    select := fun _ => true, accept := fun _ => some 5, recv := fun _ => .bytes data
    systemClock := fun _ => 200000000000 }

theorem oneClientOs_clockPast (data : Str) : ClockPast (oneClientOs data) := by
  intro n
  show (TELNET_TIMEOUT + 1 : ℤ) * 1000000000 ≤ 200000000000
  decide

def messageConf : Conf :=
  { (default : Conf) with
    newLineCallBack := some fun _ _ line => telnetMessageCallback ⟨false, []⟩ [] line }

theorem messageConf_hasMessageCallback :
    ∀ conf ∈ [messageConf], HasMessageCallback ⟨false, []⟩ conf := by
  intro conf hm
  rw [List.mem_singleton.mp hm]
  exact ⟨fun _ => [], rfl⟩

/-- `ping` and then `quit` in one read. -/
theorem quitEnds_pingQuit :
    linesOf 0 (ticks (oneClientOs (str "ping" ++ crlf ++ quit ++ crlf)) [messageConf]
        initialised).world.trace = [str "ping", quit] ∧
      QuitEnds (ticks (oneClientOs (str "ping" ++ crlf ++ quit ++ crlf)) [messageConf] initialised) := by
  set os := oneClientOs (str "ping" ++ crlf ++ quit ++ crlf) with hos
  refine ⟨by rw [hos]; decide +kernel, quitEnds_of_quitLast os ⟨false, []⟩ [messageConf]
    messageConf_hasMessageCallback (oneClientOs_clockPast _) ?_ [messageConf] [] rfl⟩
  intro past conf rest k he
  obtain ⟨rfl, rfl⟩ : past = [] ∧ conf = messageConf := by
    cases past with
    | nil => simp_all
    | cons c past => simp at he
  cases k with
  | zero =>
    rw [hos]
    decide +kernel
  | succ k =>
    -- the session is gone after the first turn
    have hpast : turn os messageConf (loopState os [] messageConf 1).1
        (loopState os [] messageConf 1).2 = loopState os [] messageConf 1 :=
      turn_past os messageConf (by rw [hos]; decide +kernel)
    have hfixed : loopState os [] messageConf (k + 1) = loopState os [] messageConf 1 :=
      Function.iterate_fixed hpast k
    rw [hfixed, hos]
    decide +kernel

/-- `quit` and then `ping` in one read: both are passed on. -/
theorem not_quitEnds_pipelined :
    (∀ conf ∈ [messageConf], HasMessageCallback ⟨false, []⟩ conf) ∧
      ClockPast (oneClientOs (quit ++ crlf ++ str "ping" ++ crlf)) ∧
      ¬ QuitEnds (ticks (oneClientOs (quit ++ crlf ++ str "ping" ++ crlf)) [messageConf]
        initialised) := by
  refine ⟨messageConf_hasMessageCallback, oneClientOs_clockPast _, fun h => h.last 0 ?_⟩
  decide +kernel

end Telnet
end RepoInit
