/-
# What the methods of a session can do

Everything a session does besides editing its buffer is sending: `Acted c c'`
says that `c'` is `c` after sends on the session's own socket, counted in
`uploadBytes`, and perhaps a timeout mark and a new log level. It is what a
callback can do (`runActs_acted`), and it leaves the buffer, the history and
the passed lines alone. `Worked c c'` adds the lines handed to the newline
callback: it is what happens in `TelnetSession::update` between its `recv` and
its end (`receive_worked`), so `update` as a whole is described by its events
(`update_updated`): the statistics it leaves are the sums over them.

Key definitions: `Acted`, `Worked`, `UpdatedBy`.
Key theorems: `runActs_acted`, `receive_worked`, `update_updated`.
-/
import Mathlib.Algebra.GroupWithZero.Nat
import RepoInit.Telnet.Session

namespace RepoInit
namespace Telnet

/-! ### Sums over events -/

/-- The bytes an event sends. -/
def Event.sent : Event → ℕ
  | .send _ _ _ r => r.toNat
  | _ => 0

/-- The bytes an event receives. -/
def Event.received : Event → ℕ
  | .recv _ _ (.bytes data) => data.length
  | _ => 0

/-- A line the newline callback answered with `ok`. -/
def Event.answered (ok : Bool) : Event → ℕ
  | .line _ _ b => if b = ok then 1 else 0
  | _ => 0

/-- The sum of a measure over events. -/
def total (f : Event → ℕ) (es : List Event) : ℕ := (es.map f).sum

@[simp] theorem total_nil (f : Event → ℕ) : total f [] = 0 := rfl

@[simp] theorem total_cons (f : Event → ℕ) (e : Event) (es : List Event) :
    total f (e :: es) = f e + total f es := rfl

@[simp] theorem total_append (f : Event → ℕ) (es es' : List Event) :
    total f (es ++ es') = total f es + total f es' := by
  simp [total]

theorem total_eq_zero {f : Event → ℕ} {es : List Event} (h : ∀ e ∈ es, f e = 0) :
    total f es = 0 := by
  induction es with
  | nil => rfl
  | cons e es ih =>
    rw [total_cons, h e List.mem_cons_self, ih fun e' he => h e' (List.mem_cons_of_mem _ he)]

theorem passedLines_append (es t : List Event) :
    passedLines (es ++ t) = passedLines t ++ passedLines es := by
  induction es with
  | nil => simp [passedLines]
  | cons e es ih => cases e <;> simp [passedLines, ih]

/-! ### Sends and callbacks -/

/-- The event is a send of the session `id` on `fd`. -/
def IsSend (id fd : ℕ) (e : Event) : Prop := ∃ data r, e = .send id fd data r

theorem passedLines_sends {id fd : ℕ} : ∀ {es : List Event}, (∀ e ∈ es, IsSend id fd e) →
    passedLines es = []
  | [], _ => rfl
  | e :: es, h => by
    have ih := passedLines_sends fun e' he => h e' (List.mem_cons_of_mem _ he)
    obtain ⟨data, r, rfl⟩ := h e List.mem_cons_self
    exact ih

/-- `c'` is `c` after the events `es`, sends of its session, with what else a
callback may change. -/
structure ActedBy (es : List Event) (c c' : Conn) : Prop where
  sends : ∀ e ∈ es, IsSend c.session.id c.session.socket e
  session : ∃ t, c'.session = { c.session.addUpload (total Event.sent es) with lastSeenTime := t }
  world : ∃ n level, c'.world =
    { c.world with n := n, level := level, trace := es ++ c.world.trace }

/-- `c'` is `c` after sends of its session, and what else a callback may
change. -/
def Acted (c c' : Conn) : Prop := ∃ es, ActedBy es c c'

theorem Acted.refl (c : Conn) : Acted c c :=
  ⟨[], by simp, ⟨c.session.lastSeenTime, rfl⟩, ⟨c.world.n, c.world.level, rfl⟩⟩

theorem Acted.trans {c₁ c₂ c₃ : Conn} (h : Acted c₁ c₂) (h' : Acted c₂ c₃) : Acted c₁ c₃ := by
  obtain ⟨es, hs, ⟨t, ht⟩, n, l, hw⟩ := h
  obtain ⟨es', hs', ⟨t', ht'⟩, n', l', hw'⟩ := h'
  refine ⟨es' ++ es, fun e he => ?_, ⟨t', ?_⟩, n', l', ?_⟩
  · rcases List.mem_append.mp he with he | he
    · have := hs' e he
      rw [ht] at this
      exact this
    · exact hs e he
  · rw [ht', ht, total_append]
    simp only [TelnetSession.addUpload]
    congr 2
    omega
  · rw [hw', hw, List.append_assoc]

section Acted

variable {c c' : Conn} (h : Acted c c')

include h

theorem Acted.id : c'.session.id = c.session.id := by
  obtain ⟨_, _, ⟨_, h⟩, _⟩ := h; rw [h]; rfl
theorem Acted.socket : c'.session.socket = c.session.socket := by
  obtain ⟨_, _, ⟨_, h⟩, _⟩ := h; rw [h]; rfl
theorem Acted.buffer : c'.session.buffer = c.session.buffer := by
  obtain ⟨_, _, ⟨_, h⟩, _⟩ := h; rw [h]; rfl
theorem Acted.history : c'.session.history = c.session.history := by
  obtain ⟨_, _, ⟨_, h⟩, _⟩ := h; rw [h]; rfl
theorem Acted.historyCursor : c'.session.historyCursor = c.session.historyCursor := by
  obtain ⟨_, _, ⟨_, h⟩, _⟩ := h; rw [h]; rfl

theorem Acted.passedLines : passedLines c'.world.trace = passedLines c.world.trace := by
  obtain ⟨es, hs, -, n, l, hw⟩ := h
  rw [hw, passedLines_append, passedLines_sends hs, List.append_nil]

end Acted

section Methods

variable (os : Os) (conf : Conf)

theorem sendCounted_acted (data : Str) (c : Conn) : Acted c (sendCounted os data c) := by
  refine ⟨[.send c.session.id c.session.socket data (os.send c.world.n)], ?_,
    ⟨c.session.lastSeenTime, ?_⟩, c.world.n + 1, c.world.level, ?_⟩
  · intro e he
    exact ⟨data, _, List.mem_singleton.mp he⟩
  · unfold sendCounted send
    dsimp only
    split
    · simp [Event.sent, TelnetSession.addUpload]
    · rename_i hs
      have : (os.send c.world.n).toNat = 0 := Int.toNat_of_nonpos (by omega)
      simp [Event.sent, TelnetSession.addUpload, this]
  · unfold sendCounted send
    dsimp only
    split <;> rfl

theorem eraseLine_acted (c : Conn) : Acted c (eraseLine os c) :=
  (sendCounted_acted os _ c).trans (sendCounted_acted os _ _)

theorem sendPromptAndBuffer_acted (c : Conn) : Acted c (sendPromptAndBuffer os conf c) := by
  unfold sendPromptAndBuffer
  dsimp only
  split
  · exact (sendCounted_acted os _ c).trans (sendCounted_acted os _ _)
  · exact sendCounted_acted os _ c

theorem sendLine_acted (data : Str) (c : Conn) : Acted c (sendLine os conf data c) := by
  unfold sendLine
  dsimp only
  have hErase : Acted c (if conf.interactivePrompt ∨ c.session.buffer ≠ [] then eraseLine os c else c) := by
    split
    · exact eraseLine_acted os c
    · exact Acted.refl c
  have hSend := hErase.trans (sendCounted_acted os (data ++ crlf) _)
  by_cases hi : conf.interactivePrompt = true
  · rw [if_pos hi]
    exact hSend.trans (sendPromptAndBuffer_acted os conf _)
  · rw [if_neg hi]
    exact hSend

theorem echoBack_acted (data : Str) (c : Conn) : Acted c (echoBack os data c) := by
  unfold echoBack
  split
  · exact Acted.refl c
  · exact sendCounted_acted os data c

theorem setLastSeenTime_acted (t : ℤ) (c : Conn) : Acted c (c.setLastSeenTime t) :=
  ⟨[], by simp, ⟨t, rfl⟩, c.world.n, c.world.level, rfl⟩

theorem runAct_acted (a : Act) (c : Conn) : Acted c (runAct os conf a c) := by
  cases a with
  | sendLine data => exact sendLine_acted os conf data c
  | markTimeout => exact setLastSeenTime_acted 0 c
  | setLevel level => exact ⟨[], by simp, ⟨c.session.lastSeenTime, rfl⟩, c.world.n, level, rfl⟩

theorem runActs_acted (acts : List Act) (c : Conn) : Acted c (runActs os conf acts c) := by
  induction acts generalizing c with
  | nil => exact Acted.refl c
  | cons a acts ih => exact (runAct_acted os conf a c).trans (ih _)

/-- Asking a clock. -/
theorem next_acted (c : Conn) : Acted c { c with world := c.world.next } :=
  ⟨[], by simp, ⟨c.session.lastSeenTime, rfl⟩, c.world.n + 1, c.world.level, rfl⟩

/-- Once the time of the connection is noted, `initialise` only sends. -/
theorem initialise_acted (c : Conn) :
    Acted
      { c with
        session := { c.session with
          stats := { c.session.stats with connectTime := os.highResolutionClock c.world.n } } }
      (initialise os conf c) := by
  have hclock := next_acted
    { c with
      session := { c.session with
        stats := { c.session.stats with connectTime := os.highResolutionClock c.world.n } } }
  have hsent := ((hclock.trans (sendCounted_acted os [0xff, 0xfb, 0x01] _)).trans
    (sendCounted_acted os [0xff, 0xfe, 0x01] _)).trans (sendCounted_acted os [0xff, 0xfb, 0x03] _)
  have hseen : ∀ c' : Conn,
      Acted c' { c'.setLastSeenTime (os.systemClock c'.world.n) with world := c'.world.next } :=
    fun c' => (setLastSeenTime_acted _ c').trans (next_acted _)
  unfold initialise
  dsimp only
  cases conf.connectedCallback with
  | none => exact hsent.trans (hseen _)
  | some callback => exact (hsent.trans (runActs_acted os conf _ _)).trans (hseen _)

end Methods

/-! ### Tabs -/

/-- The buffer has no part in what is sent. -/
theorem Acted.setBuffer {c c' : Conn} (h : Acted c c') (buffer : Str) :
    Acted (c.setBuffer buffer) (c'.setBuffer buffer) := by
  obtain ⟨es, hs, ⟨t, ht⟩, hw⟩ := h
  exact ⟨es, hs, ⟨t, by simp only [Conn.setBuffer, ht, TelnetSession.addUpload]⟩, hw⟩

section Tabs

variable (os : Os) (conf : Conf)

/-- A completion sends, and writes the buffer. -/
theorem completeAt_acted (found : ℕ) (c : Conn) :
    Acted (c.setBuffer (completeAt os conf found c).session.buffer) (completeAt os conf found c) := by
  unfold completeAt
  split
  · exact Acted.refl c
  · dsimp only
    split
    · exact (runActs_acted os conf _ c).setBuffer _
    · exact (runActs_acted os conf _ c).setBuffer _

theorem processTabLoop_acted (b : Bool) (c : Conn) :
    Acted (c.setBuffer (processTabLoop os conf b c).2.session.buffer)
      (processTabLoop os conf b c).2 := by
  induction b, c using processTabLoop.induct os conf with
  | case1 b c h =>
    rw [processTabLoop_of_none os conf b h]
    exact Acted.refl c
  | case2 b c found h ih =>
    rw [processTabLoop_of_some os conf b h]
    have hcomplete := completeAt_acted os conf found
      (c.setBuffer (Search.erase c.session.buffer found 1))
    exact (hcomplete.setBuffer _).trans ih

end Tabs

/-! ### Lines and the rest of `update` -/

/-- The event is a send of the session or a line it passed on. -/
def IsWork (id fd : ℕ) (e : Event) : Prop := IsSend id fd e ∨ ∃ l ok, e = .line id l ok

/-- `c'` is `c` after the events `es`, sends and lines of its session, which
its statistics count. -/
structure WorkedBy (es : List Event) (c c' : Conn) : Prop where
  work : ∀ e ∈ es, IsWork c.session.id c.session.socket e
  trace : c'.world.trace = es ++ c.world.trace
  accepted : c'.world.accepted = c.world.accepted
  id : c'.session.id = c.session.id
  socket : c'.session.socket = c.session.socket
  stats : c'.session.stats = { c.session.stats with
    uploadBytes := c.session.stats.uploadBytes + total Event.sent es
    successCmdCtr := c.session.stats.successCmdCtr + total (Event.answered true) es
    failCmdCtr := c.session.stats.failCmdCtr + total (Event.answered false) es }

def Worked (c c' : Conn) : Prop := ∃ es, WorkedBy es c c'

theorem Worked.refl (c : Conn) : Worked c c := ⟨[], by simp, rfl, rfl, rfl, rfl, rfl⟩

theorem Worked.trans {c₁ c₂ c₃ : Conn} (h : Worked c₁ c₂) (h' : Worked c₂ c₃) : Worked c₁ c₃ := by
  obtain ⟨es, h⟩ := h
  obtain ⟨es', h'⟩ := h'
  refine ⟨es' ++ es, fun e he => ?_, ?_, h'.accepted.trans h.accepted, h'.id.trans h.id,
    h'.socket.trans h.socket, ?_⟩
  · rcases List.mem_append.mp he with he | he
    · have := h'.work e he
      rwa [h.id, h.socket] at this
    · exact h.work e he
  · rw [h'.trace, h.trace, List.append_assoc]
  · rw [h'.stats, h.stats]
    simp only [total_append]
    congr 1 <;> omega

theorem answered_sends {id fd : ℕ} {es : List Event} (h : ∀ e ∈ es, IsSend id fd e) (ok : Bool) :
    total (Event.answered ok) es = 0 :=
  total_eq_zero fun e he => by obtain ⟨data, r, rfl⟩ := h e he; rfl

theorem Acted.worked {c c' : Conn} (h : Acted c c') : Worked c c' := by
  obtain ⟨es, hs, ⟨t, ht⟩, n, l, hw⟩ := h
  refine ⟨es, fun e he => Or.inl (hs e he), by rw [hw], by rw [hw], by rw [ht]; rfl,
    by rw [ht]; rfl, ?_⟩
  rw [ht, answered_sends hs, answered_sends hs]
  rfl

/-- A change of the session that leaves the identity, the socket and the
statistics alone. -/
theorem worked_of_session {c : Conn} {s : TelnetSession} (h1 : s.id = c.session.id)
    (h2 : s.socket = c.session.socket) (h3 : s.stats = c.session.stats) :
    Worked c { c with session := s } :=
  ⟨[], by simp, rfl, rfl, h1, h2, h3⟩

theorem setBuffer_worked (c : Conn) (buffer : Str) : Worked c (c.setBuffer buffer) :=
  worked_of_session rfl rfl rfl

section Update

variable (os : Os) (conf : Conf)

theorem counterCursor_worked (cursor : Str) (c : Conn) : Worked c (counterCursor os cursor c).2 := by
  have hwork : ∀ e ∈ [Event.send c.session.id c.session.socket cursor (os.send c.world.n)],
      IsWork c.session.id c.session.socket e := by
    intro e he
    exact Or.inl ⟨cursor, _, List.mem_singleton.mp he⟩
  unfold counterCursor send
  dsimp only
  split
  · rename_i hs
    have : (os.send c.world.n).toNat = 0 := Int.toNat_of_nonpos (by omega)
    refine ⟨_, hwork, rfl, rfl, rfl, rfl, ?_⟩
    simp [Event.sent, Event.answered, this]
  · exact ⟨_, hwork, rfl, rfl, rfl, rfl, rfl⟩

theorem processCommandHistory_worked (c : Conn) :
    Worked c (processCommandHistory os conf c).2 := by
  unfold processCommandHistory
  split_ifs
  · have h : Worked c { c with session := recallUp c.session } := worked_of_session rfl rfl rfl
    exact h.trans (counterCursor_worked os _ _)
  · have h : Worked c { c with session := recallDown c.session } := worked_of_session rfl rfl rfl
    exact h.trans (counterCursor_worked os _ _)
  · exact Worked.refl c
  · exact Worked.refl c

theorem editBuffer_worked (c : Conn) : Worked c (editBuffer os conf c).2 := by
  unfold editBuffer
  split
  · have h1 := processCommandHistory_worked os conf c
    have h2 := h1.trans (setBuffer_worked _ (stripEscapeCharacters
      (processCommandHistory os conf c).2.session.buffer))
    exact (h2.trans (setBuffer_worked _ _)).trans
      ((setBuffer_worked _ _).trans (processTabLoop_acted os conf false _).worked)
  · exact Worked.refl c

theorem processLine_worked (callback : World → TelnetSession → Str → List Act × Bool) (line : Str)
    (c : Conn) : Worked c (processLine os conf callback line c) := by
  unfold processLine
  dsimp only
  set answer := callback c.world c.session line
  set c' := runActs os conf answer.1
    { c with world := c.world.record (.line c.session.id line answer.2) } with hc'
  obtain ⟨es, hs, ⟨t, ht⟩, n, l, hw⟩ := runActs_acted os conf answer.1
    { c with world := c.world.record (.line c.session.id line answer.2) }
  rw [← hc'] at ht hw
  refine ⟨es ++ [.line c.session.id line answer.2], ?_, ?_, by rw [hw]; rfl, ?_, ?_, ?_⟩
  · intro e he
    rcases List.mem_append.mp he with he | he
    · exact Or.inl (hs e he)
    · exact Or.inr ⟨_, _, List.mem_singleton.mp he⟩
  · rw [hw]
    simp [World.record]
  · rw [ht]
    cases answer.2 <;> rfl
  · rw [ht]
    cases answer.2 <;> rfl
  · rw [ht]
    simp only [total_append, answered_sends hs]
    cases answer.2 <;> simp [addToHistory, TelnetSession.addUpload, Event.answered, Event.sent]

theorem processLines_worked (lines : List Str) (c : Conn) :
    Worked c (processLines os conf lines c) := by
  unfold processLines
  split
  · exact Worked.refl c
  · rename_i callback _
    induction lines generalizing c with
    | nil => exact Worked.refl c
    | cons line lines ih => exact (processLine_worked os conf callback line c).trans (ih _)

theorem takeLines_worked (c : Conn) : Worked c (takeLines os conf c) :=
  (setBuffer_worked c _).trans (processLines_worked os conf _ _)

/-- `receive`, once the received bytes are counted. -/
theorem receive_worked (data : Str) (c : Conn) :
    Worked (noteReceived os data c) (receive os conf data c) := by
  have h1 := (echoBack_acted os data (noteReceived os data c)).worked.trans (setBuffer_worked _
    (stripNVT ((echoBack os data (noteReceived os data c)).session.buffer ++ replaceNull data)))
  have h2 : Worked (noteReceived os data c) (takeKeys os conf data c).2 :=
    h1.trans (editBuffer_worked os conf _)
  have h3 := h2.trans (takeLines_worked os conf _)
  unfold receive
  dsimp only
  split
  · exact h3.trans ((eraseLine_acted os _).worked.trans (sendPromptAndBuffer_acted os conf _).worked)
  · exact h3

/-- The answers of `recv` that make `update` close the socket. -/
def Recv.hard : Recv → Prop
  | .fail errno => errno ≠ EAGAIN
  | .bytes _ => False

/-- The bytes an answer of `recv` brings. -/
def Recv.size : Recv → ℕ
  | .fail _ => 0
  | .bytes data => data.length

/-- What `update` does between its `recv` and its end: it closes the socket, or
sends and passes lines on. -/
def UpdateEvents (answer : Recv) (id fd : ℕ) (es : List Event) : Prop :=
  (answer.hard ∧ es = [.close id fd]) ∨ (¬ answer.hard ∧ ∀ e ∈ es, IsWork id fd e)

/-- `c'` is `c` after an update with this answer of `recv` and then the events
`es`, which its statistics count. -/
structure UpdatedBy (answer : Recv) (es : List Event) (c c' : Conn) : Prop where
  events : UpdateEvents answer c.session.id c.session.socket es
  trace : c'.world.trace = es ++ .recv c.session.id c.session.socket answer :: c.world.trace
  accepted : c'.world.accepted = c.world.accepted
  id : c'.session.id = c.session.id
  socket : c'.session.socket = c.session.socket
  stats : c'.session.stats = { c.session.stats with
    uploadBytes := total Event.sent es
    downloadBytes := answer.size
    successCmdCtr := total (Event.answered true) es
    failCmdCtr := total (Event.answered false) es }

/-- **What one update does.** -/
theorem update_updated (answer : Recv) (c : Conn) :
    ∃ es, UpdatedBy answer es c (TelnetSession.update os conf answer c) := by
  unfold TelnetSession.update
  dsimp only
  cases answer with
  | fail errno =>
    dsimp only
    split
    · rename_i h
      exact ⟨[.close c.session.id c.session.socket], Or.inl ⟨h, rfl⟩, rfl, rfl, rfl, rfl, rfl⟩
    · rename_i h
      exact ⟨[], Or.inr ⟨h, by simp⟩, rfl, rfl, rfl, rfl, rfl⟩
  | bytes data =>
    dsimp only
    split
    · obtain ⟨es, h⟩ := receive_worked os conf data
        { session := resetStats c.session
          world := c.world.record (.recv c.session.id c.session.socket (.bytes data)) }
      refine ⟨es, Or.inr ⟨fun h => h, h.work⟩, h.trace, h.accepted, h.id, h.socket, ?_⟩
      rw [h.stats]
      simp [noteReceived, resetStats, Recv.size]
    · rename_i h
      obtain rfl : data = [] := by simpa using h
      exact ⟨[], Or.inr ⟨fun h => h, by simp⟩, rfl, rfl, rfl, rfl, rfl⟩

end Update

end Telnet
end RepoInit
