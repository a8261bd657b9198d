/-
# What a session does is its own

The sessions of a server share the loop that serves them, the callbacks and the
log level. What a session keeps in its buffer and its history, and the lines it
passes on, depend on what its own client sent and on nothing else: in every
state of every run they are those of a session that received the same answers
alone, under whatever callbacks, sends and clocks (`sessions_apart`). So two runs
in which a session received the same pass the same lines on for it, whatever the
other clients do.

Key definitions: `Editing`, `Alike`, `receivedBy`, `aloneRun`, `Apart`.
Key theorems: `update_alike`, `turn_apart`, `sessions_apart`.
-/
import RepoInit.Telnet.Clean
import RepoInit.Telnet.Editing
import RepoInit.Telnet.Quit

namespace RepoInit
namespace Telnet

open Search

/-! ### Two sessions that have typed the same -/

/-- A newline callback, and either a prompt and the tab callback of the program
or no prompt. -/
structure Editing (i : Bool) (conf : Conf) : Prop where
  prompt : conf.interactivePrompt = i
  newLine : conf.newLineCallBack.isSome
  tab : i = true → conf.tabCallback = some telnetTabCallback

/-- The same line and history, and the same lines passed on behind `p` and
`p'`. -/
structure Alike (p p' : List Str) (c c' : Conn) : Prop where
  buffer : c.session.buffer = c'.session.buffer
  history : c.session.history = c'.session.history
  historyCursor : c.session.historyCursor = c'.session.historyCursor
  lines : ∃ new, passedLines c.world.trace = p ++ new ∧ passedLines c'.world.trace = p' ++ new

section Alike

variable {p p' : List Str} {c c' d d' : Conn}

theorem Alike.acted (h : Alike p p' c c') (hd : Acted c d) (hd' : Acted c' d') : Alike p p' d d' where
  buffer := by rw [hd.buffer, hd'.buffer, h.buffer]
  history := by rw [hd.history, hd'.history, h.history]
  historyCursor := by rw [hd.historyCursor, hd'.historyCursor, h.historyCursor]
  lines := by
    rw [hd.passedLines, hd'.passedLines]
    exact h.lines

theorem Alike.setBuffer (h : Alike p p' c c') (buffer : Str) :
    Alike p p' (c.setBuffer buffer) (c'.setBuffer buffer) :=
  ⟨rfl, h.history, h.historyCursor, h.lines⟩

/-! ### The keys -/

variable (os os' : Os) {conf conf' : Conf}

theorem completeAt_alike (htab : conf.tabCallback = some telnetTabCallback)
    (htab' : conf'.tabCallback = some telnetTabCallback) (h : Alike p p' c c') (found : ℕ) :
    Alike p p' (completeAt os conf found c) (completeAt os' conf' found c') := by
  have hacted := h.acted (runActs_acted os conf (tabAnswer (c.session.buffer.take found)).1 c)
    (runActs_acted os' conf' (tabAnswer (c.session.buffer.take found)).1 c')
  unfold completeAt
  rw [htab, htab']
  dsimp only [telnetTabCallback]
  rw [← h.buffer]
  split
  · rw [← hacted.buffer]
    exact hacted.setBuffer _
  · exact hacted

theorem processTabLoop_alike (htab : conf.tabCallback = some telnetTabCallback)
    (htab' : conf'.tabCallback = some telnetTabCallback) (b b' : Bool) (h : Alike p p' c c') :
    Alike p p' (processTabLoop os conf b c).2 (processTabLoop os' conf' b' c').2 := by
  induction b, c using processTabLoop.induct os conf generalizing b' c' with
  | case1 b c hnone =>
    rw [processTabLoop_of_none os conf b hnone,
      processTabLoop_of_none os' conf' b' (by rw [← h.buffer]; exact hnone)]
    exact h
  | case2 b c found hfound ih =>
    rw [processTabLoop_of_some os conf b hfound,
      processTabLoop_of_some os' conf' b' (by rw [← h.buffer]; exact hfound)]
    refine ih true ?_
    rw [← h.buffer]
    exact completeAt_alike os os' htab htab' (h.setBuffer _) found

theorem counterCursor_alike (cursor : Str) (h : Alike p p' c c') :
    Alike p p' (counterCursor os cursor c).2 (counterCursor os' cursor c').2 := by
  have hsent : ∀ (os : Os) (c : Conn),
      (counterCursor os cursor c).2.session.buffer = c.session.buffer ∧
      (counterCursor os cursor c).2.session.history = c.session.history ∧
      (counterCursor os cursor c).2.session.historyCursor = c.session.historyCursor ∧
      passedLines (counterCursor os cursor c).2.world.trace = passedLines c.world.trace := by
    intro os c
    unfold counterCursor
    dsimp only
    split <;> exact ⟨rfl, rfl, rfl, rfl⟩
  obtain ⟨h₁, h₂, h₃, h₄⟩ := hsent os c
  obtain ⟨h₁', h₂', h₃', h₄'⟩ := hsent os' c'
  refine ⟨by rw [h₁, h₁', h.buffer], by rw [h₂, h₂', h.history], by rw [h₃, h₃', h.historyCursor], ?_⟩
  rw [h₄, h₄']
  exact h.lines

theorem recallUp_alike (h : Alike p p' c c') :
    Alike p p' { c with session := recallUp c.session } { c' with session := recallUp c'.session } := by
  refine ⟨?_, h.history, ?_, h.lines⟩ <;> simp only [recallUp, h.history, h.historyCursor]

theorem recallDown_alike (h : Alike p p' c c') :
    Alike p p' { c with session := recallDown c.session }
      { c' with session := recallDown c'.session } := by
  refine ⟨?_, h.history, ?_, h.lines⟩ <;> unfold recallDown nextCursor <;> dsimp only <;>
    rw [h.history, h.historyCursor]

theorem processCommandHistory_alike (hi : conf.interactivePrompt = conf'.interactivePrompt)
    (h : Alike p p' c c') :
    Alike p p' (processCommandHistory os conf c).2 (processCommandHistory os' conf' c').2 := by
  unfold processCommandHistory
  rw [← hi, ← h.buffer, ← h.history]
  split_ifs
  · exact counterCursor_alike os os' _ (recallUp_alike h)
  · exact counterCursor_alike os os' _ (recallDown_alike h)
  · exact h
  · exact h

theorem editBuffer_alike {i : Bool} (hconf : Editing i conf) (hconf' : Editing i conf')
    (h : Alike p p' c c') : Alike p p' (editBuffer os conf c).2 (editBuffer os' conf' c').2 := by
  have hhist := processCommandHistory_alike os os' (hconf.prompt.trans hconf'.prompt.symm) h
  by_cases hp : conf.interactivePrompt = true
  · rw [editBuffer_snd os hp, editBuffer_snd os' (hconf'.prompt.trans (hconf.prompt.symm.trans hp)),
      ← hhist.buffer]
    have htrue : i = true := hconf.prompt.symm.trans hp
    exact processTabLoop_alike os os' (hconf.tab htrue) (hconf'.tab htrue) _ _ (hhist.setBuffer _)
  · have hp' : ¬ conf'.interactivePrompt = true := by
      rw [hconf'.prompt, ← hconf.prompt]
      exact hp
    unfold editBuffer
    rw [if_neg hp, if_neg hp']
    exact h

/-! ### The lines -/

theorem processLine_alike (callback callback' : World → TelnetSession → Str → List Act × Bool)
    (line : Str) (h : Alike p p' c c') :
    Alike p p' (processLine os conf callback line c) (processLine os' conf' callback' line c') where
  buffer := by rw [processLine_buffer, processLine_buffer, h.buffer]
  history := by rw [processLine_history, processLine_history, h.history]
  historyCursor := by
    rw [processLine_historyCursor, processLine_historyCursor, processLine_history,
      processLine_history, h.history]
  lines := by
    obtain ⟨new, hnew, hnew'⟩ := h.lines
    refine ⟨new ++ [line], ?_, ?_⟩
    · rw [processLine_passedLines, hnew, List.append_assoc]
    · rw [processLine_passedLines, hnew', List.append_assoc]

theorem takeLines_alike {i : Bool} (hconf : Editing i conf) (hconf' : Editing i conf')
    (h : Alike p p' c c') : Alike p p' (takeLines os conf c) (takeLines os' conf' c') := by
  obtain ⟨callback, hcb⟩ := Option.isSome_iff_exists.mp hconf.newLine
  obtain ⟨callback', hcb'⟩ := Option.isSome_iff_exists.mp hconf'.newLine
  unfold takeLines
  rw [← h.buffer]
  dsimp only
  rw [processLines_some os conf callback hcb, processLines_some os' conf' callback' hcb']
  have hset := h.setBuffer (getCompleteLines c.session.buffer).2
  generalize (getCompleteLines c.session.buffer).1 = lines
  generalize c.setBuffer (getCompleteLines c.session.buffer).2 = d at hset ⊢
  generalize c'.setBuffer (getCompleteLines c.session.buffer).2 = d' at hset ⊢
  induction lines generalizing d d' with
  | nil => exact hset
  | cons line lines ih => exact ih _ _ (processLine_alike os os' callback callback' line hset)

/-- **An update takes sessions that have typed the same to sessions that have**,
whatever their callbacks answer and their sends return. -/
theorem update_alike {i : Bool} (hconf : Editing i conf) (hconf' : Editing i conf')
    (h : Alike p p' c c') (answer : Recv) :
    Alike p p' (TelnetSession.update os conf answer c) (TelnetSession.update os' conf' answer c') := by
  have hstart : Alike p p'
      ⟨resetStats c.session, c.world.record (.recv c.session.id c.session.socket answer)⟩
      ⟨resetStats c'.session, c'.world.record (.recv c'.session.id c'.session.socket answer)⟩ :=
    ⟨h.buffer, h.history, h.historyCursor, h.lines⟩
  unfold TelnetSession.update
  dsimp only
  cases answer with
  | fail errno =>
    dsimp only
    split
    · exact ⟨hstart.buffer, hstart.history, hstart.historyCursor, hstart.lines⟩
    · exact hstart
  | bytes data =>
    dsimp only
    split
    · have hnoted : Alike p p'
          (noteReceived os data ⟨resetStats c.session,
            c.world.record (.recv c.session.id c.session.socket (.bytes data))⟩)
          (noteReceived os' data ⟨resetStats c'.session,
            c'.world.record (.recv c'.session.id c'.session.socket (.bytes data))⟩) :=
        ⟨h.buffer, h.history, h.historyCursor, h.lines⟩
      have hecho := hnoted.acted (echoBack_acted os data _) (echoBack_acted os' data _)
      have hkeys : Alike p p'
          (takeKeys os conf data ⟨resetStats c.session,
            c.world.record (.recv c.session.id c.session.socket (.bytes data))⟩).2
          (takeKeys os' conf' data ⟨resetStats c'.session,
            c'.world.record (.recv c'.session.id c'.session.socket (.bytes data))⟩).2 := by
        unfold takeKeys
        dsimp only
        rw [← hecho.buffer]
        exact editBuffer_alike os os' hconf hconf' (hecho.setBuffer _)
      exact (takeLines_alike os os' hconf hconf' hkeys).acted (receive_acted os conf data _)
        (receive_acted os' conf' data _)
    · exact hstart

end Alike

/-! ### The server and sessions alone -/

/-- The answers of `recv` for the session, oldest first. -/
def receivedBy (id : ℕ) : List Event → List Recv
  | [] => []
  | .recv id' _ answer :: t =>
    if id' = id then receivedBy id t ++ [answer] else receivedBy id t
  | _ :: t => receivedBy id t

theorem receivedBy_append (id : ℕ) (es t : List Event) :
    receivedBy id (es ++ t) = receivedBy id t ++ receivedBy id es := by
  induction es with
  | nil => simp [receivedBy]
  | cons e es ih =>
    cases e with
    | recv id' fd answer => by_cases h : id' = id <;> simp [receivedBy, h, ih]
    | _ => simpa [receivedBy] using ih

theorem receivedBy_other {id : ℕ} {es : List Event} (h : ∀ e ∈ es, e.id ≠ id) :
    receivedBy id es = [] := by
  induction es with
  | nil => rfl
  | cons e es ih =>
    have ih := ih fun e' he => h e' (List.mem_cons_of_mem _ he)
    have he := h e List.mem_cons_self
    cases e with
    | recv id' fd answer => simp [receivedBy, ih, show id' ≠ id from he]
    | _ => exact ih

/-- No `recv` is among the events. -/
theorem receivedBy_of_no_recv {id : ℕ} {es : List Event} (h : ∀ i fd answer, .recv i fd answer ∉ es) :
    receivedBy id es = [] := by
  induction es with
  | nil => rfl
  | cons e es ih =>
    have ih := ih fun i fd answer hm => h i fd answer (List.mem_cons_of_mem _ hm)
    cases e with
    | recv i fd answer => exact absurd List.mem_cons_self (h i fd answer)
    | _ => exact ih

theorem UpdateEvents.no_recv {answer : Recv} {id fd : ℕ} {es : List Event}
    (h : UpdateEvents answer id fd es) (i fd' : ℕ) (answer' : Recv) : .recv i fd' answer' ∉ es := by
  rcases h with ⟨-, rfl⟩ | ⟨-, h⟩
  · simp
  · intro hm
    rcases h _ hm with ⟨data, r, he⟩ | ⟨l, ok, he⟩ <;> cases he

section Alone

variable (os' : Os) (conf' : Conf)

/-- A session alone with its client, which answers so. -/
def aloneRun (answers : List Recv) : Conn :=
  runUpdates os' (answers.map fun answer => (conf', answer)) (freshConn { id := 0, socket := 0 } {})

theorem aloneRun_concat (answers : List Recv) (answer : Recv) :
    aloneRun os' conf' (answers ++ [answer]) =
      TelnetSession.update os' conf' answer (aloneRun os' conf' answers) := by
  simp [aloneRun, runUpdates]

/-- The session has typed what a session alone has that received the same. -/
structure TypedAlone (trace : List Event) (s : TelnetSession) : Prop where
  buffer : s.buffer = (aloneRun os' conf' (receivedBy s.id trace)).session.buffer
  history : s.history = (aloneRun os' conf' (receivedBy s.id trace)).session.history
  historyCursor :
    s.historyCursor = (aloneRun os' conf' (receivedBy s.id trace)).session.historyCursor

/-- Every session of the server is as it were alone, and passed on what it
would alone. -/
structure Apart (srv : TelnetServer) : Prop where
  alone : ∀ s ∈ srv.sessions, TypedAlone os' conf' srv.world.trace s
  lines : ∀ id, linesOf id srv.world.trace =
    passedLines (aloneRun os' conf' (receivedBy id srv.world.trace)).world.trace

/-- What keeps the sessions apart: their numbers, and the numbers to come. -/
structure Numbered (srv : TelnetServer) : Prop where
  ids_lt : ∀ e ∈ srv.world.trace, e.id < srv.world.accepted
  sessions_lt : ∀ s ∈ srv.sessions, s.id < srv.world.accepted
  nodup : (srv.sessions.map (·.id)).Nodup

end Alone

theorem TypedAlone.of_receivedBy {os' : Os} {conf' : Conf} {trace trace' : List Event}
    {s : TelnetSession} (h : TypedAlone os' conf' trace s)
    (hsame : receivedBy s.id trace' = receivedBy s.id trace) : TypedAlone os' conf' trace' s :=
  ⟨by rw [hsame]; exact h.buffer, by rw [hsame]; exact h.history, by rw [hsame]; exact h.historyCursor⟩

theorem numbered_initialised : Numbered initialised :=
  ⟨by simp [initialised], by simp [initialised], List.nodup_nil⟩

theorem Numbered.accept {srv srv' : TelnetServer} {b : Bool} (h : Numbered srv)
    (ha : Accepts srv srv' b) : Numbered srv' :=
  ⟨ha.ids_lt h.ids_lt, ha.sessions_lt h.sessions_lt, ha.nodup_ids h.sessions_lt h.nodup⟩

theorem Numbered.turn (os : Os) (conf : Conf) {srv : TelnetServer} (h : Numbered srv) (idx : ℕ) :
    Numbered (turn os conf idx srv).2 := by
  by_cases hidx : idx < srv.sessions.length
  · obtain ⟨done, s, todo, hs, rfl⟩ := split_at hidx
    obtain ⟨answer, es, stat, rest, closed, ht⟩ := turn_spec os conf hs
    exact ⟨ht.ids_lt (h.sessions_lt s (by simp [hs])) h.ids_lt, ht.sessions_lt hs h.sessions_lt,
      ht.nodup_ids hs h.nodup⟩
  · rw [turn_past os conf (Nat.le_of_not_lt hidx)]
    exact h

/-! ### Accepting -/

/-- A session that is accepted has typed nothing. -/
theorem acceptConnection_sessions (os : Os) (conf : Conf) (srv : TelnetServer) :
    ∀ s ∈ (acceptConnection os conf srv).2.sessions, s ∈ srv.sessions ∨
      (s.id = srv.world.accepted ∧ s.buffer = [] ∧ s.history = [] ∧ s.historyCursor = 0) := by
  unfold acceptConnection
  split
  · exact fun s hs => .inl hs
  · rename_i clientSocket _
    dsimp only
    split
    · exact fun s hs => .inl hs
    · intro s hs
      rcases List.mem_append.mp hs with hs | hs
      · exact .inl hs
      · rw [List.mem_singleton.mp hs]
        have h := initialise_acted os conf
          ⟨{ id := srv.world.accepted, socket := clientSocket },
            { srv.world.next.record (.accept srv.world.accepted clientSocket
                (decide (srv.sessions.length < MAX_AVAILABLE_SESSION))) with
              accepted := srv.world.accepted + 1 }⟩
        exact .inr ⟨h.id, h.buffer, h.history, h.historyCursor⟩

theorem startTick_sessions (os : Os) (conf : Conf) (srv : TelnetServer) :
    ∀ s ∈ (startTick os conf srv).2.sessions, s ∈ srv.sessions ∨
      (s.id = srv.world.accepted ∧ s.buffer = [] ∧ s.history = [] ∧ s.historyCursor = 0) := by
  unfold startTick pollConnection
  dsimp only
  split
  · exact acceptConnection_sessions os conf _
  · exact fun s hs => .inl hs

theorem accepts_receivedBy {srv srv' : TelnetServer} {b : Bool} (h : Accepts srv srv' b) (i : ℕ) :
    receivedBy i srv'.world.trace = receivedBy i srv.world.trace := by
  have hsends : ∀ {id fd : ℕ} {es : List Event}, (∀ e ∈ es, IsSend id fd e) →
      receivedBy i es = [] := by
    intro id fd es h
    refine receivedBy_of_no_recv fun i fd answer hm => ?_
    obtain ⟨data, r, he⟩ := h _ hm
    cases he
  cases h with
  | failed hs ht ha => rw [ht]
  | refused fd es hmax hes hs ht ha =>
    rw [ht, List.append_assoc, receivedBy_append, receivedBy_append, hsends hes]
    simp [receivedBy, closing]
  | kept s es hmax hid hes hs ht ha =>
    rw [ht, receivedBy_append, hsends hes]
    simp [receivedBy]

theorem Apart.startTick (os : Os) (conf : Conf) {os' : Os} {conf' : Conf} {srv : TelnetServer}
    (h : Apart os' conf' srv) (hnum : Numbered srv) :
    Apart os' conf' (startTick os conf srv).2 := by
  have ha := (startTick_spec os conf srv).1
  refine ⟨fun s hs => ?_, fun id => ?_⟩
  · have hsame := accepts_receivedBy ha s.id
    rcases startTick_sessions os conf srv s hs with hs | ⟨hid, hbuffer, hhistory, hcursor⟩
    · exact (h.alone s hs).of_receivedBy hsame
    · have hnone : receivedBy s.id srv.world.trace = [] := receivedBy_other fun e he => by
        rw [hid]
        exact (hnum.ids_lt e he).ne
      rw [hnone] at hsame
      exact ⟨by rw [hsame]; exact hbuffer, by rw [hsame]; exact hhistory, by rw [hsame]; exact hcursor⟩
  · rw [accepts_linesOf ha, accepts_receivedBy ha]
    exact h.lines id

/-! ### A turn -/

section Turn

variable (os : Os) {conf : Conf} {srv : TelnetServer} {done todo : List TelnetSession}
  {s : TelnetSession} (hs : srv.sessions = done ++ s :: todo)

include hs

/-- The session of a turn is updated with what its client sent, and then it
stays or goes. -/
theorem turn_update :
    ∃ rest closed,
      (rest = [(TelnetSession.update os conf (os.recv srv.world.n) ⟨s, srv.world.next⟩).session] ∧
          closed = [] ∨
        rest = [] ∧ closed = closing s.id s.socket) ∧
      (turn os conf done.length srv).2.sessions = done ++ rest ++ todo ∧
      (turn os conf done.length srv).2.world.trace = closed ++
        (TelnetSession.update os conf (os.recv srv.world.n) ⟨s, srv.world.next⟩).world.trace := by
  have hget : srv.sessions[done.length]? = some s := by simp [hs]
  obtain ⟨es, h⟩ := update_updated os conf (os.recv srv.world.n) ⟨s, srv.world.next⟩
  unfold turn
  rw [hget]
  dsimp only [checkTimeout]
  split
  · refine ⟨[], closing s.id s.socket, .inr ⟨rfl, rfl⟩, ?_, ?_⟩
    · simp [hs, List.eraseIdx_append_of_length_le]
    · rw [closeClient_trace, h.id, h.socket]
      rfl
  · refine ⟨_, [], .inl ⟨rfl, rfl⟩, ?_, rfl⟩
    simp [hs]

/-- A turn receives for its own session only. -/
theorem turn_receivedBy :
    receivedBy s.id (turn os conf done.length srv).2.world.trace =
        receivedBy s.id srv.world.trace ++ [os.recv srv.world.n] ∧
      ∀ id, id ≠ s.id → receivedBy id (turn os conf done.length srv).2.world.trace =
        receivedBy id srv.world.trace := by
  obtain ⟨rest, closed, hrest, -, htrace⟩ := @turn_update os conf _ _ _ _ hs
  obtain ⟨es, hupdated⟩ := update_updated os conf (os.recv srv.world.n) ⟨s, srv.world.next⟩
  have hclosed : ∀ e ∈ closed, e.id = s.id ∧ ∀ i fd a, e ≠ .recv i fd a := by
    rcases hrest with ⟨-, rfl⟩ | ⟨-, rfl⟩
    · simp
    · simp [closing, Event.id]
  have hall : (turn os conf done.length srv).2.world.trace =
      (closed ++ es ++ [.recv s.id s.socket (os.recv srv.world.n)]) ++ srv.world.trace := by
    rw [htrace, hupdated.trace]
    simp [World.next]
  rw [hall]
  refine ⟨?_, fun id hid => ?_⟩
  · have hno : receivedBy s.id (closed ++ es) = [] := by
      refine receivedBy_of_no_recv fun i fd a hm => ?_
      rcases List.mem_append.mp hm with hm | hm
      · exact (hclosed _ hm).2 i fd a rfl
      · exact hupdated.events.no_recv i fd a hm
    rw [receivedBy_append, receivedBy_append, hno, List.append_nil]
    simp [receivedBy]
  · have hnone : receivedBy id (closed ++ es ++ [.recv s.id s.socket (os.recv srv.world.n)]) = [] := by
      refine receivedBy_other fun e he => ?_
      rcases List.mem_append.mp he with he | he
      · rcases List.mem_append.mp he with he | he
        · rw [(hclosed e he).1]
          exact hid.symm
        · rw [(hupdated.events.ofSession e he).1]
          exact hid.symm
      · rw [List.mem_singleton.mp he]
        exact hid.symm
    rw [receivedBy_append, hnone, List.append_nil]

end Turn

/-- **A turn leaves every session as it were alone.** -/
theorem turn_apart (os os' : Os) {conf conf' : Conf} {i : Bool} (hconf : Editing i conf)
    (hconf' : Editing i conf') {srv : TelnetServer} (h : Apart os' conf' srv) (hnum : Numbered srv)
    (idx : ℕ) : Apart os' conf' (turn os conf idx srv).2 := by
  by_cases hidx : idx < srv.sessions.length
  · obtain ⟨done, s, todo, hs, rfl⟩ := split_at hidx
    obtain ⟨rest, closed, hrest, hsessions, -⟩ := @turn_update os conf _ _ _ _ hs
    obtain ⟨hreceived, hothers⟩ := @turn_receivedBy os conf _ _ _ _ hs
    obtain ⟨hlinesOwn, hlinesOther⟩ := turn_linesOf os hconf.newLine hs
    set answer := os.recv srv.world.n with hanswer
    set c : Conn := ⟨s, srv.world.next⟩ with hc
    obtain ⟨es, hupdated⟩ := update_updated os conf answer c
    have htyped := h.alone s (by simp [hs])
    -- the update, here and alone
    have halike : Alike (passedLines srv.world.trace)
        (passedLines (aloneRun os' conf' (receivedBy s.id srv.world.trace)).world.trace) c
        (aloneRun os' conf' (receivedBy s.id srv.world.trace)) :=
      ⟨htyped.buffer, htyped.history, htyped.historyCursor, [], by simp [hc, World.next], by simp⟩
    have hnext := update_alike os os' hconf hconf' halike answer
    rw [← aloneRun_concat] at hnext
    refine ⟨fun r hr => ?_, fun id => ?_⟩
    · have hsame : ∀ r ∈ done ++ todo,
          TypedAlone os' conf' (turn os conf done.length srv).2.world.trace r := by
        intro r hr
        refine (h.alone r ?_).of_receivedBy (hothers r.id (others_ne hs hnum.nodup r hr))
        rw [hs]
        rcases List.mem_append.mp hr with hr | hr
        · exact List.mem_append_left _ hr
        · exact List.mem_append_right _ (List.mem_cons_of_mem _ hr)
      rw [hsessions, List.append_assoc, List.mem_append, List.mem_append] at hr
      rcases hr with hr | hr | hr
      · exact hsame r (List.mem_append_left _ hr)
      · rcases hrest with ⟨rfl, -⟩ | ⟨rfl, -⟩
        · rw [List.mem_singleton.mp hr]
          have hid : (TelnetSession.update os conf answer c).session.id = s.id := hupdated.id
          exact ⟨by rw [hid, hreceived]; exact hnext.buffer, by rw [hid, hreceived]; exact hnext.history,
            by rw [hid, hreceived]; exact hnext.historyCursor⟩
        · simp at hr
      · exact hsame r (List.mem_append_right _ hr)
    · by_cases hid : id = s.id
      · obtain ⟨new, hnew, hnew'⟩ := hnext.lines
        have hcomplete := update_passedLines os hconf.newLine answer c
        have hsplit : new = completeLines os conf answer c := by
          rw [hnew] at hcomplete
          exact List.append_cancel_left hcomplete
        rw [hid, hlinesOwn, hreceived, hnew', h.lines, hsplit]
      · rw [hlinesOther id hid, hothers id hid]
        exact h.lines id
  · rw [turn_past os conf (Nat.le_of_not_lt hidx)]
    exact h

/-! ### Runs -/

section Run

variable (os os' : Os) {conf' : Conf} {i : Bool} (hconf' : Editing i conf')

include hconf'

theorem loop_apart {past : List Conf} {conf : Conf} (hconf : Editing i conf)
    (h : Apart os' conf' (ticks os past initialised) ∧ Numbered (ticks os past initialised)) (k : ℕ) :
    Apart os' conf' (loopState os past conf k).2 ∧ Numbered (loopState os past conf k).2 := by
  unfold loopState
  induction k with
  | zero => exact ⟨h.1.startTick os conf h.2, h.2.accept (startTick_spec os conf _).1⟩
  | succ k ih =>
    rw [Function.iterate_succ_apply']
    exact ⟨turn_apart os os' hconf hconf' ih.1 ih.2 _, ih.2.turn os conf _⟩

theorem ticks_apart {past : List Conf} (hpast : ∀ conf ∈ past, Editing i conf) :
    Apart os' conf' (ticks os past initialised) ∧ Numbered (ticks os past initialised) := by
  induction past using List.reverseRecOn with
  | nil => exact ⟨⟨by simp [ticks, initialised], fun id => rfl⟩, numbered_initialised⟩
  | append_singleton past conf ih =>
    have hstart := ih fun c hc => hpast c (List.mem_append_left _ hc)
    obtain ⟨k, hk⟩ := updateSessions_eq_iterate os conf 0 (startTick os conf (ticks os past initialised)).2
    have hend := loop_apart os os' hconf' (hpast conf (by simp)) hstart k
    unfold loopState at hend
    rw [← hk] at hend
    simp only [ticks, List.foldl_append, List.foldl_cons, List.foldl_nil]
    exact ⟨⟨hend.1.alone, hend.1.lines⟩, ⟨hend.2.ids_lt, hend.2.sessions_lt, hend.2.nodup⟩⟩

end Run

/-- In every state of every run the sessions are as they were alone. -/
theorem loopState_apart (os os' : Os) {i : Bool} {past : List Conf} {conf conf' : Conf}
    (hconfs : ∀ c ∈ conf' :: conf :: past, Editing i c) (k : ℕ) :
    Apart os' conf' (loopState os past conf k).2 := by
  have hconf' := hconfs conf' (by simp)
  have hpast : ∀ c ∈ past, Editing i c := fun c hc =>
    hconfs c (List.mem_cons_of_mem _ (List.mem_cons_of_mem _ hc))
  have hticks := ticks_apart os os' hconf' hpast
  exact (loop_apart os os' hconf' (hconfs conf (by simp)) hticks k).1

/-- **Every session is as it were alone with its client**, in every state of
every run: it passed on the lines, and holds the line and the history, of a
session that received the same answers alone. -/
theorem sessions_apart (os os' : Os) (i : Bool) (past : List Conf) (conf conf' : Conf)
    (hconfs : ∀ c ∈ conf' :: conf :: past, Editing i c) (k : ℕ) :
    (∀ id, linesOf id (loopState os past conf k).2.world.trace =
        passedLines (aloneRun os' conf'
          (receivedBy id (loopState os past conf k).2.world.trace)).world.trace) ∧
      ∀ s ∈ (loopState os past conf k).2.sessions,
        TypedAlone os' conf' (loopState os past conf k).2.world.trace s := by
  have h := loopState_apart os os' hconfs k
  exact ⟨h.lines, h.alone⟩

/-- Clients connect one after the other, and a `recv` gives `ab` or the end of a
line, as its number is even or odd. -/
def twoClientsOs : Os :=
  { (default : Os) with
    select := fun _ => true, accept := fun n => some (4 + n)
    recv := fun n => .bytes (if n % 2 = 0 then str "ab" else str "c" ++ crlf) }

/-- The first client's bytes came around those of the second. -/
theorem sessions_apart_two :
    linesOf 0 (loopState twoClientsOs [promptConf, promptConf] promptConf 2).2.world.trace =
        [str "abc"] ∧
      linesOf 1 (loopState twoClientsOs [promptConf, promptConf] promptConf 2).2.world.trace =
        [str "c"] ∧
      (∀ id, linesOf id (loopState twoClientsOs [promptConf, promptConf] promptConf 2).2.world.trace =
        passedLines (aloneRun default promptConf (receivedBy id
          (loopState twoClientsOs [promptConf, promptConf] promptConf 2).2.world.trace)).world.trace) ∧
      ∀ s ∈ (loopState twoClientsOs [promptConf, promptConf] promptConf 2).2.sessions,
        TypedAlone default promptConf
          (loopState twoClientsOs [promptConf, promptConf] promptConf 2).2.world.trace s := by
  refine ⟨by decide +kernel, by decide +kernel,
    sessions_apart twoClientsOs default true [promptConf, promptConf] promptConf promptConf ?_ 2⟩
  intro c hc
  obtain rfl : c = promptConf := by simpa using hc
  exact ⟨by decide, rfl, fun _ => rfl⟩

end Telnet
end RepoInit
