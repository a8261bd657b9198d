/-
# `TelnetSession`

The session of `TelnetServer.cpp`, method by method, on a session together
with the world it runs in (`Conn`). A search that fails is `none` instead of
`npos`. The list iterator `m_historyCursor` is a position in `0..size`; the
one step C++ leaves undefined, `std::next` of `end()`, goes to the first entry
as it does in libstdc++'s circular list, and `undef` records that it was taken.

The callbacks see a session through its public methods only: a callback
answers with what it does (`Act`), in order, and its return value. It does not
call `closeClient`, which is left to the server; the callbacks of the program
end a session by `markTimeout`. A tab callback never answers with a tab, or
`processTab` would not end (`TabCallback.noTab`).
-/
import RepoInit.Lib.Search
import RepoInit.Telnet.World

namespace RepoInit
namespace Telnet

open Search

/-! ### Constants -/

def TELNET_TIMEOUT : ℕ := 120
def TELNET_HISTORY_LIMIT : ℕ := 50

def asciiLF : Byte := 0x0A
def asciiNull : Byte := 0x00
def asciiNBSP : Byte := 0xFF
def asciiBS : Byte := 0x08
def asciiDEL : Byte := 0x7F
def asciiTab : Byte := 0x09

def ansiEraseLine : Str := str "\x1b[2K"
def ansiArrowUp : Str := [0x1B, 0x5B, 0x41]
def ansiArrowDown : Str := [0x1B, 0x5B, 0x42]
def ansiArrowRight : Str := [0x1B, 0x5B, 0x43]
def ansiArrowLeft : Str := [0x1B, 0x5B, 0x44]
def crlf : Str := [0x0D, 0x0A]

/-! ### Data -/

structure TelnetSessionStats where
  connectTime : ℤ := 0
  disconnectTime : ℤ := 0
  uploadBytes : ℕ := 0
  downloadBytes : ℕ := 0
  successCmdCtr : ℕ := 0
  failCmdCtr : ℕ := 0

structure TelnetSession where
  /-- The number of the connection; it stands for the object's identity. -/
  id : ℕ
  socket : ℕ
  stats : TelnetSessionStats := {}
  /-- Nanoseconds since the epoch. -/
  lastSeenTime : ℤ := 0
  buffer : Str := []
  history : List Str := []
  historyCursor : ℕ := 0
  /-- The cursor was advanced from `end()`. -/
  undef : Bool := false

/-- A session and the world it runs in. -/
structure Conn where
  session : TelnetSession
  world : World

/-- What a callback does to its session, and to the global log level. -/
inductive Act where
  | sendLine (data : Str)
  | markTimeout
  | setLevel (level : Level)
  deriving DecidableEq, Repr

/-- A tab callback: what it does and the text it completes to. -/
structure TabCallback where
  call : World → TelnetSession → Str → List Act × Str
  noTab : ∀ w s line, asciiTab ∉ (call w s line).2

/-- The prompt and the callbacks of the `TelnetServer` a session belongs to. -/
structure Conf where
  promptString : Str
  connectedCallback : Option (World → TelnetSession → List Act)
  newLineCallBack : Option (World → TelnetSession → Str → List Act × Bool)
  tabCallback : Option TabCallback

/-- No prompt and no callbacks. -/
instance : Inhabited Conf := ⟨⟨[], none, none, none⟩⟩

def Conf.interactivePrompt (conf : Conf) : Bool := !conf.promptString.isEmpty

def Conn.setBuffer (c : Conn) (buffer : Str) : Conn :=
  { c with session := { c.session with buffer := buffer } }

def Conn.setLastSeenTime (c : Conn) (t : ℤ) : Conn :=
  { c with session := { c.session with lastSeenTime := t } }

def Conn.setLevel (c : Conn) (level : Level) : Conn :=
  { c with world := { c.world with level := level } }

/-- `stats.uploadBytes += sendBytes`. -/
def TelnetSession.addUpload (s : TelnetSession) (k : ℕ) : TelnetSession :=
  { s with stats := { s.stats with uploadBytes := s.stats.uploadBytes + k } }

section Sending

variable (os : Os) (conf : Conf)

/-! ### Sending -/

/-- The `send` system call on the session's socket. -/
def send (data : Str) (c : Conn) : ℤ × Conn :=
  let sendBytes := os.send c.world.n
  (sendBytes,
    { c with world := c.world.next.record (.send c.session.id c.session.socket data sendBytes) })

/-- `send`, and what it sent is counted: `if (sendBytes > 0) stats.uploadBytes +=
sendBytes`. -/
def sendCounted (data : Str) (c : Conn) : Conn :=
  let (sendBytes, c) := send os data c
  if sendBytes > 0 then { c with session := c.session.addUpload sendBytes.toNat } else c

def sendPromptAndBuffer (c : Conn) : Conn :=
  let c := sendCounted os conf.promptString c
  if c.session.buffer ≠ [] then sendCounted os c.session.buffer c else c

def eraseLine (c : Conn) : Conn :=
  sendCounted os (str "\x1b[80D") (sendCounted os ansiEraseLine c)

def sendLine (data : Str) (c : Conn) : Conn :=
  let c := if conf.interactivePrompt ∨ c.session.buffer ≠ [] then eraseLine os c else c
  let c := sendCounted os (data ++ crlf) c
  if conf.interactivePrompt then sendPromptAndBuffer os conf c else c

/-- A command of the telnet protocol (first byte 255) is not echoed. -/
def echoBack (data : Str) (c : Conn) : Conn :=
  if data.head? = some asciiNBSP then c else sendCounted os data c

def markTimeout (c : Conn) : Conn := c.setLastSeenTime 0

def runAct : Act → Conn → Conn
  | .sendLine data, c => sendLine os conf data c
  | .markTimeout, c => markTimeout c
  | .setLevel level, c => c.setLevel level

def runActs (acts : List Act) (c : Conn) : Conn := acts.foldl (fun c a => runAct os conf a c) c

/-! ### Connecting and closing -/

/-- `shutdown` and `close` of the socket. -/
def closeClient (c : Conn) : Conn :=
  let w := c.world.record (.shutdown c.session.id c.session.socket)
  let w := w.record (.close c.session.id c.session.socket)
  { session := { c.session with
      stats := { c.session.stats with disconnectTime := os.highResolutionClock w.n } }
    world := w.next }

/-- More than `TELNET_TIMEOUT` whole seconds between the clock and the last
time something was seen. -/
def timedOut (now lastSeenTime : ℤ) : Bool :=
  decide ((Int.tdiv (now - lastSeenTime) 1000000000).natAbs > TELNET_TIMEOUT)

def checkTimeout (c : Conn) : Bool × Conn :=
  (timedOut (os.systemClock c.world.n) c.session.lastSeenTime, { c with world := c.world.next })

def initialise (c : Conn) : Conn :=
  let c : Conn :=
    { session := { c.session with
        stats := { c.session.stats with connectTime := os.highResolutionClock c.world.n } }
      world := c.world.next }
  -- WILL ECHO, DONT ECHO, WILL SUPPRESS-GO-AHEAD
  let c := sendCounted os [0xff, 0xfb, 0x01] c
  let c := sendCounted os [0xff, 0xfe, 0x01] c
  let c := sendCounted os [0xff, 0xfb, 0x03] c
  let c := match conf.connectedCallback with
    | some callback => runActs os conf (callback c.world c.session) c
    | none => c
  { c.setLastSeenTime (os.systemClock c.world.n) with world := c.world.next }

end Sending

/-! ### What a callback leaves alone -/

section Frame

variable (os : Os) (conf : Conf)

theorem sendCounted_buffer (data : Str) (c : Conn) :
    (sendCounted os data c).session.buffer = c.session.buffer := by
  unfold sendCounted send
  dsimp only
  split <;> rfl

theorem sendLine_buffer (data : Str) (c : Conn) :
    (sendLine os conf data c).session.buffer = c.session.buffer := by
  unfold sendLine sendPromptAndBuffer eraseLine
  dsimp only
  split_ifs <;> simp [sendCounted_buffer]

theorem runActs_buffer (acts : List Act) (c : Conn) :
    (runActs os conf acts c).session.buffer = c.session.buffer := by
  induction acts generalizing c with
  | nil => rfl
  | cons a acts ih =>
    refine (ih (runAct os conf a c)).trans ?_
    cases a with
    | sendLine data => exact sendLine_buffer os conf data c
    | markTimeout => rfl
    | setLevel level => rfl

end Frame

/-! ### Editing the buffer -/

/-- An 0xFF with two bytes after it goes with them; a later 0xFF without is
left for the next read. When no 0xFF is found, `npos + 2` wraps around to 1 and
both ways out of the loop leave the buffer as it is. -/
def stripNVT (buffer : Str) : Str :=
  match _h : findElem asciiNBSP buffer with
  | some found =>
    if found + 2 ≤ buffer.length - 1 then stripNVT (erase buffer found 3) else buffer
  | none => buffer
termination_by buffer.length
decreasing_by
  have := findElem_lt _h
  have := length_erase buffer found 3 (by omega)
  omega

theorem stripNVT_of_none {buffer : Str} (h : findElem asciiNBSP buffer = none) :
    stripNVT buffer = buffer := by
  rw [stripNVT]
  split
  · simp_all
  · rfl

theorem stripNVT_of_some {buffer : Str} {found : ℕ} (h : findElem asciiNBSP buffer = some found) :
    stripNVT buffer =
      if found + 2 ≤ buffer.length - 1 then stripNVT (erase buffer found 3) else buffer := by
  rw [stripNVT]
  split
  · rename_i i hi
    obtain rfl : i = found := by simpa [h] using hi.symm
    rfl
  · simp_all

/-- One cursor sequence is erased until it is not found. -/
def eraseCursor (cursor : Str) (hc : cursor ≠ []) (buffer : Str) : Str :=
  match _h : find cursor buffer with
  | some found => eraseCursor cursor hc (erase buffer found cursor.length)
  | none => buffer
termination_by buffer.length
decreasing_by
  have := length_erase buffer found cursor.length (find_le _h)
  have := List.length_pos_iff.mpr hc
  omega

theorem eraseCursor_of_none {cursor : Str} (hc : cursor ≠ []) {buffer : Str}
    (h : find cursor buffer = none) : eraseCursor cursor hc buffer = buffer := by
  rw [eraseCursor]
  split
  · simp_all
  · rfl

theorem eraseCursor_of_some {cursor : Str} (hc : cursor ≠ []) {buffer : Str} {found : ℕ}
    (h : find cursor buffer = some found) :
    eraseCursor cursor hc buffer = eraseCursor cursor hc (erase buffer found cursor.length) := by
  conv_lhs => rw [eraseCursor]
  split
  · rename_i i hi
    obtain rfl : i = found := by simpa [h] using hi.symm
    rfl
  · simp_all

def stripEscapeCharacters (buffer : Str) : Str :=
  let buffer := eraseCursor ansiArrowUp (by decide) buffer
  let buffer := eraseCursor ansiArrowDown (by decide) buffer
  let buffer := eraseCursor ansiArrowRight (by decide) buffer
  eraseCursor ansiArrowLeft (by decide) buffer

/-- The position the loop of `processBackspace` works on: the first 0x7F, or
the first 0x08 if there is none. -/
def findBackspace (buffer : Str) : Option ℕ :=
  match findElem asciiDEL buffer with
  | some found => some found
  | none => findElem asciiBS buffer

theorem findBackspace_lt {buffer : Str} {found : ℕ} (h : findBackspace buffer = some found) :
    found < buffer.length := by
  unfold findBackspace at h
  split at h
  · rename_i i hi
    rw [← Option.some.inj h]
    exact findElem_lt hi
  · exact findElem_lt h

def processBackspaceLoop (foundBackspaces : Bool) (buffer : Str) : Bool × Str :=
  match _h : findBackspace buffer with
  | some found =>
    if buffer.length > 1 ∧ found > 0 then processBackspaceLoop true (erase buffer (found - 1) 2)
    else processBackspaceLoop true []
  | none => (foundBackspaces, buffer)
termination_by buffer.length
decreasing_by
  · have := findBackspace_lt _h
    have := length_erase buffer (found - 1) 2 (by omega)
    omega
  · have := findBackspace_lt _h
    simp only [List.length_nil]
    omega

theorem processBackspaceLoop_of_none (b : Bool) {buffer : Str} (h : findBackspace buffer = none) :
    processBackspaceLoop b buffer = (b, buffer) := by
  rw [processBackspaceLoop]
  split
  · simp_all
  · rfl

theorem processBackspaceLoop_of_some (b : Bool) {buffer : Str} {found : ℕ}
    (h : findBackspace buffer = some found) :
    processBackspaceLoop b buffer =
      if buffer.length > 1 ∧ found > 0 then processBackspaceLoop true (erase buffer (found - 1) 2)
      else processBackspaceLoop true [] := by
  conv_lhs => rw [processBackspaceLoop]
  split
  · rename_i i hi
    obtain rfl : i = found := by simpa [h] using hi.symm
    rfl
  · simp_all

def processBackspace (buffer : Str) : Bool × Str := processBackspaceLoop false buffer

/-- What the tab callback is asked about, a buffer without its first tab,
which was at `found`. -/
def completeAt (os : Os) (conf : Conf) (found : ℕ) (c : Conn) : Conn :=
  match conf.tabCallback with
  | none => c
  | some callback =>
    let answer := callback.call c.world c.session (c.session.buffer.take found)
    let c := runActs os conf answer.1 c
    if answer.2 ≠ [] then c.setBuffer (answer.2 ++ erase c.session.buffer 0 found) else c

theorem count_completeAt (os : Os) (conf : Conf) (found : ℕ) (c : Conn) :
    (completeAt os conf found c).session.buffer.count asciiTab ≤
      c.session.buffer.count asciiTab := by
  unfold completeAt
  split
  · exact le_rfl
  · rename_i callback _
    dsimp only
    have hret := List.count_eq_zero.mpr
      (callback.noTab c.world c.session (c.session.buffer.take found))
    split
    · simp only [Conn.setBuffer, List.count_append, hret, runActs_buffer, Nat.zero_add]
      exact (erase_sublist _ _ _).count_le _
    · rw [runActs_buffer]

theorem count_erase_tab {buffer : Str} {found : ℕ} (h : findElem asciiTab buffer = some found) :
    (erase buffer found 1).count asciiTab < buffer.count asciiTab := by
  obtain ⟨x, y, rfl, -, rfl⟩ := findElem_eq_some h
  rw [erase_append_cons]
  simp

/-- Each tab is removed and what stands before it is completed. -/
def processTabLoop (os : Os) (conf : Conf) (foundTabs : Bool) (c : Conn) : Bool × Conn :=
  match _h : findElem asciiTab c.session.buffer with
  | none => (foundTabs, c)
  | some found =>
    processTabLoop os conf true
      (completeAt os conf found (c.setBuffer (erase c.session.buffer found 1)))
termination_by c.session.buffer.count asciiTab
decreasing_by
  exact (count_completeAt os conf found _).trans_lt (count_erase_tab _h)

theorem processTabLoop_of_none (os : Os) (conf : Conf) (b : Bool) {c : Conn}
    (h : findElem asciiTab c.session.buffer = none) : processTabLoop os conf b c = (b, c) := by
  rw [processTabLoop]
  split
  · rfl
  · simp_all

theorem processTabLoop_of_some (os : Os) (conf : Conf) (b : Bool) {c : Conn} {found : ℕ}
    (h : findElem asciiTab c.session.buffer = some found) :
    processTabLoop os conf b c = processTabLoop os conf true
      (completeAt os conf found (c.setBuffer (erase c.session.buffer found 1))) := by
  conv_lhs => rw [processTabLoop]
  split
  · simp_all
  · rename_i i hi
    obtain rfl : i = found := by simpa [h] using hi.symm
    rfl

def processTab (os : Os) (conf : Conf) (c : Conn) : Bool × Conn := processTabLoop os conf false c

/-! ### History -/

/-- `m_history` after a line: the last entry is not repeated, empty lines are
not kept, and the oldest entry goes beyond the limit. -/
def pushHistory (history : List Str) (line : Str) : List Str :=
  if line ≠ history.getLast?.getD [] ∧ line ≠ [] then
    let history := history ++ [line]
    if history.length > TELNET_HISTORY_LIMIT then history.tail else history
  else history

def addToHistory (line : Str) (s : TelnetSession) : TelnetSession :=
  { s with
    history := pushHistory s.history line
    historyCursor := (pushHistory s.history line).length }

/-- `std::next` of a list iterator, from `end()` to the first entry. -/
def nextCursor (s : TelnetSession) : ℕ :=
  if s.historyCursor < s.history.length then s.historyCursor + 1 else 0

/-- The cursor one entry back, if there is one, and the buffer is its entry. -/
def recallUp (s : TelnetSession) : TelnetSession :=
  let cursor := if s.historyCursor ≠ 0 then s.historyCursor - 1 else s.historyCursor
  { s with historyCursor := cursor, buffer := s.history.getD cursor [] }

/-- The cursor one entry on, unless that is `end()`, and the buffer is its
entry. -/
def recallDown (s : TelnetSession) : TelnetSession :=
  let cursor := if nextCursor s ≠ s.history.length then nextCursor s else s.historyCursor
  { s with
    historyCursor := cursor
    buffer := s.history.getD cursor []
    undef := s.undef || decide (s.historyCursor = s.history.length) }

/-- A cursor command is sent to counter the arrow key; `false` if that
fails. -/
def counterCursor (os : Os) (cursor : Str) (c : Conn) : Bool × Conn :=
  let (sendBytes, c) := send os cursor c
  if sendBytes < 0 then (false, c)
  else (true, { c with session := c.session.addUpload sendBytes.toNat })

def processCommandHistory (os : Os) (conf : Conf) (c : Conn) : Bool × Conn :=
  if conf.interactivePrompt then
    if (find ansiArrowUp c.session.buffer).isSome ∧ c.session.history ≠ [] then
      counterCursor os ansiArrowDown { c with session := recallUp c.session }
    else if (find ansiArrowDown c.session.buffer).isSome ∧ c.session.history ≠ [] then
      counterCursor os ansiArrowUp { c with session := recallDown c.session }
    else
      -- left and right only have the buffer printed again
      ((find ansiArrowLeft c.session.buffer).isSome || (find ansiArrowRight c.session.buffer).isSome,
        c)
  else (false, c)

/-! ### Lines -/

def getCompleteLinesLoop (lines : List Str) (buffer : Str) : List Str × Str :=
  match _h : find crlf buffer with
  | some found => getCompleteLinesLoop (lines ++ [buffer.take found]) (erase buffer 0 (found + 2))
  | none => (lines, buffer)
termination_by buffer.length
decreasing_by
  have h := find_le _h
  simp only [crlf, List.length_cons, List.length_nil] at h
  have := length_erase buffer 0 (found + 2) (by omega)
  omega

theorem getCompleteLinesLoop_of_none (lines : List Str) {buffer : Str}
    (h : find crlf buffer = none) : getCompleteLinesLoop lines buffer = (lines, buffer) := by
  rw [getCompleteLinesLoop]
  split
  · simp_all
  · rfl

theorem getCompleteLinesLoop_of_some (lines : List Str) {buffer : Str} {found : ℕ}
    (h : find crlf buffer = some found) :
    getCompleteLinesLoop lines buffer =
      getCompleteLinesLoop (lines ++ [buffer.take found]) (erase buffer 0 (found + 2)) := by
  conv_lhs => rw [getCompleteLinesLoop]
  split
  · rename_i i hi
    obtain rfl : i = found := by simpa [h] using hi.symm
    rfl
  · simp_all

/-- The complete lines of the buffer, and the buffer without them. -/
def getCompleteLines (buffer : Str) : List Str × Str := getCompleteLinesLoop [] buffer

/-- A line goes to the newline callback, is counted and goes into the
history. -/
def processLine (os : Os) (conf : Conf)
    (callback : World → TelnetSession → Str → List Act × Bool) (line : Str) (c : Conn) : Conn :=
  let answer := callback c.world c.session line
  let c := runActs os conf answer.1 { c with world := c.world.record (.line c.session.id line answer.2) }
  let s := c.session
  let s := if answer.2 then
      { s with stats := { s.stats with successCmdCtr := s.stats.successCmdCtr + 1 } }
    else { s with stats := { s.stats with failCmdCtr := s.stats.failCmdCtr + 1 } }
  { c with session := addToHistory line s }

def processLines (os : Os) (conf : Conf) (lines : List Str) (c : Conn) : Conn :=
  match conf.newLineCallBack with
  | none => c
  | some callback => lines.foldl (fun c line => processLine os conf callback line c) c

/-! ### `TelnetSession::update` -/

/-- The keys of an interactive session, on the whole buffer; whether the prompt
has to be printed again. -/
def editBuffer (os : Os) (conf : Conf) (c : Conn) : Bool × Conn :=
  if conf.interactivePrompt then
    let (fromHistory, c) := processCommandHistory os conf c
    let c := c.setBuffer (stripEscapeCharacters c.session.buffer)
    let (foundBackspaces, buffer) := processBackspace c.session.buffer
    let (foundTabs, c) := processTab os conf (c.setBuffer buffer)
    (fromHistory || foundBackspaces || foundTabs, c)
  else (false, c)

/-- NULs are swapped for LFs in what was received. -/
def replaceNull (data : Str) : Str := data.map fun chr => if chr = asciiNull then asciiLF else chr

def resetStats (s : TelnetSession) : TelnetSession :=
  { s with stats := { s.stats with
      uploadBytes := 0, downloadBytes := 0, successCmdCtr := 0, failCmdCtr := 0 } }

/-- The received bytes are counted and the session was seen now. -/
def noteReceived (os : Os) (data : Str) (c : Conn) : Conn :=
  { session := { c.session with
      stats := { c.session.stats with downloadBytes := c.session.stats.downloadBytes + data.length }
      lastSeenTime := os.systemClock c.world.n }
    world := c.world.next }

/-- The received bytes are echoed, appended to the buffer, stripped of
negotiation sequences and edited. -/
def takeKeys (os : Os) (conf : Conf) (data : Str) (c : Conn) : Bool × Conn :=
  let c := echoBack os data (noteReceived os data c)
  editBuffer os conf (c.setBuffer (stripNVT (c.session.buffer ++ replaceNull data)))

/-- The complete lines leave the buffer and are processed. -/
def takeLines (os : Os) (conf : Conf) (c : Conn) : Conn :=
  let (lines, buffer) := getCompleteLines c.session.buffer
  processLines os conf lines (c.setBuffer buffer)

/-- The branch of `update` for received bytes. -/
def receive (os : Os) (conf : Conf) (data : Str) (c : Conn) : Conn :=
  let (requirePromptReprint, c) := takeKeys os conf data c
  let c := takeLines os conf c
  if requirePromptReprint ∧ conf.interactivePrompt then sendPromptAndBuffer os conf (eraseLine os c)
  else c

/-- `TelnetSession::update`, with the answer of its `recv`. -/
def TelnetSession.update (os : Os) (conf : Conf) (answer : Recv) (c : Conn) : Conn :=
  let c : Conn :=
    { session := resetStats c.session
      world := c.world.record (.recv c.session.id c.session.socket answer) }
  match answer with
  | .fail errno =>
    if errno ≠ EAGAIN then
      { c with world := c.world.record (.close c.session.id c.session.socket) }
    else c
  | .bytes data => if data ≠ [] then receive os conf data c else c

end Telnet
end RepoInit
