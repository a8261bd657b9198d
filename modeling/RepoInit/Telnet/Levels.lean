/-
# The log level and the lines

The only thing that changes the log level is the newline callback: a connection,
a completion and everything the server sends leave it alone. So over a tick the
level goes from line to line, in the order in which the lines of all sessions were
passed on (`update_heard`).

Key definitions: `actsLevel`, `Conf.Sets`, `World.Heard`.
Key theorems: `update_heard`, `telnetMessageCallback_sets`.
-/
import RepoInit.Lib.Prefixes
import RepoInit.Telnet.Commands
import RepoInit.Telnet.Server

namespace RepoInit
namespace Telnet

/-! ### What acts and lines set -/

def Act.level : Act → Level → Level
  | .setLevel level, _ => level
  | _, level => level

/-- The level after these acts. -/
def actsLevel (acts : List Act) (level : Level) : Level := acts.foldl (fun level a => a.level level) level

/-- The newline callback sets the level as `sets` says, and no other callback
does. -/
structure Conf.Sets (conf : Conf) (sets : Str → Level → Level) : Prop where
  line : ∀ callback, conf.newLineCallBack = some callback →
    ∀ w s line level, actsLevel (callback w s line).1 level = sets line level
  connected : ∀ callback, conf.connectedCallback = some callback →
    ∀ w s level, actsLevel (callback w s) level = level
  tab : ∀ callback, conf.tabCallback = some callback →
    ∀ w s line level, actsLevel (callback.call w s line).1 level = level

/-- Between the worlds lines were passed on, and the level went with them. -/
def World.Heard (sets : Str → Level → Level) (w w' : World) : Prop :=
  ∃ lines, passedLines w'.trace = passedLines w.trace ++ lines ∧
    w'.level = lines.foldl (fun level line => sets line level) w.level

section Heard

variable {sets : Str → Level → Level}

theorem World.heard_of_same {w w' : World} (hlines : passedLines w'.trace = passedLines w.trace)
    (hlevel : w'.level = w.level) : w.Heard sets w' :=
  ⟨[], by simp [hlines], hlevel⟩

theorem World.Heard.trans {w₁ w₂ w₃ : World} (h : w₁.Heard sets w₂) (h' : w₂.Heard sets w₃) :
    w₁.Heard sets w₃ := by
  obtain ⟨lines, htrace, hlevel⟩ := h
  obtain ⟨lines', htrace', hlevel'⟩ := h'
  refine ⟨lines ++ lines', ?_, ?_⟩
  · rw [htrace', htrace, List.append_assoc]
  · rw [hlevel', hlevel, List.foldl_append]

end Heard

/-! ### A session -/

section Session

variable (os : Os) {conf : Conf} {sets : Str → Level → Level}

theorem runActs_level_eq (conf : Conf) (acts : List Act) (c : Conn) :
    (runActs os conf acts c).world.level = actsLevel acts c.world.level := by
  induction acts generalizing c with
  | nil => rfl
  | cons a acts ih =>
    have hact : (runAct os conf a c).world.level = a.level c.world.level := by
      cases a with
      | sendLine data => exact (sendLine_quiet os conf data c).1
      | markTimeout => rfl
      | setLevel level => rfl
    rw [runActs, List.foldl_cons, ← runActs, ih, hact]
    rfl

theorem sendCounted_heard (data : Str) (c : Conn) : c.world.Heard sets (sendCounted os data c).world :=
  World.heard_of_same (sendCounted_acted os data c).passedLines (sendCounted_quiet os data c).1

theorem eraseLine_heard (c : Conn) : c.world.Heard sets (eraseLine os c).world :=
  (sendCounted_heard os _ c).trans (sendCounted_heard os _ _)

theorem sendPromptAndBuffer_heard (conf : Conf) (c : Conn) :
    c.world.Heard sets (sendPromptAndBuffer os conf c).world := by
  unfold sendPromptAndBuffer
  dsimp only
  split
  · exact (sendCounted_heard os _ c).trans (sendCounted_heard os _ _)
  · exact sendCounted_heard os _ c

/-- Acts that leave the level. -/
theorem runActs_heard (conf : Conf) {acts : List Act} {c : Conn}
    (h : actsLevel acts c.world.level = c.world.level) :
    c.world.Heard sets (runActs os conf acts c).world :=
  World.heard_of_same (runActs_acted os conf acts c).passedLines
    ((runActs_level_eq os conf acts c).trans h)

variable (hconf : conf.Sets sets)

include hconf

theorem initialise_heard (c : Conn) : c.world.Heard sets (initialise os conf c).world := by
  have hlevel : (initialise os conf c).world.level = c.world.level := by
    unfold initialise
    dsimp only
    cases hcallback : conf.connectedCallback with
    | none => simp [sendCounted_quiet, World.next]
    | some callback =>
      dsimp only [Conn.setLastSeenTime, World.next]
      rw [runActs_level_eq, hconf.connected callback hcallback]
      simp [sendCounted_quiet]
  exact World.heard_of_same (initialise_acted os conf c).passedLines hlevel

theorem completeAt_heard (found : ℕ) (c : Conn) :
    c.world.Heard sets (completeAt os conf found c).world := by
  unfold completeAt
  split
  · exact World.heard_of_same rfl rfl
  · rename_i callback hcallback
    have hacts := @runActs_heard os sets conf _ c
      (hconf.tab callback hcallback c.world c.session (c.session.buffer.take found) c.world.level)
    dsimp only
    split
    · exact hacts
    · exact hacts

theorem processTabLoop_heard (b : Bool) (c : Conn) :
    c.world.Heard sets (processTabLoop os conf b c).2.world := by
  induction b, c using processTabLoop.induct os conf with
  | case1 b c h =>
    rw [processTabLoop_of_none os conf b h]
    exact World.heard_of_same rfl rfl
  | case2 b c found h ih =>
    rw [processTabLoop_of_some os conf b h]
    exact (completeAt_heard os hconf found (c.setBuffer (Search.erase c.session.buffer found 1))).trans ih

theorem editBuffer_heard (c : Conn) : c.world.Heard sets (editBuffer os conf c).2.world := by
  have hcounter : ∀ cursor (c' : Conn), c'.world.Heard sets (counterCursor os cursor c').2.world := by
    intro cursor c'
    unfold counterCursor send
    dsimp only
    split <;> exact World.heard_of_same rfl rfl
  have hhistory : c.world.Heard sets (processCommandHistory os conf c).2.world := by
    unfold processCommandHistory
    split_ifs
    · exact hcounter ansiArrowDown { c with session := recallUp c.session }
    · exact hcounter ansiArrowUp { c with session := recallDown c.session }
    · exact World.heard_of_same rfl rfl
    · exact World.heard_of_same rfl rfl
  unfold editBuffer
  split
  · exact hhistory.trans (processTabLoop_heard os hconf false _)
  · exact World.heard_of_same rfl rfl

/-- A line is heard. -/
theorem processLine_heard {callback : World → TelnetSession → Str → List Act × Bool}
    (hcallback : conf.newLineCallBack = some callback) (line : Str) (c : Conn) :
    c.world.Heard sets (processLine os conf callback line c).world := by
  set answer := callback c.world c.session line with hanswer
  set c' : Conn := { c with world := c.world.record (.line c.session.id line answer.2) } with hc'
  have hlines : passedLines c'.world.trace = passedLines c.world.trace ++ [line] := rfl
  refine ⟨[line], ?_, ?_⟩
  · show passedLines (runActs os conf answer.1 c').world.trace = _
    rw [(runActs_acted os conf answer.1 c').passedLines, hlines]
  · show (runActs os conf answer.1 c').world.level = _
    rw [runActs_level_eq, hanswer, hconf.line callback hcallback]
    rfl

theorem takeLines_heard (c : Conn) : c.world.Heard sets (takeLines os conf c).world := by
  have hlines : ∀ lines (c' : Conn), c'.world.Heard sets (processLines os conf lines c').world := by
    intro lines
    unfold processLines
    split
    · exact fun c' => World.heard_of_same rfl rfl
    · rename_i callback hcallback
      induction lines with
      | nil => exact fun c' => World.heard_of_same rfl rfl
      | cons line lines ih =>
        exact fun c' => (processLine_heard os hconf hcallback line c').trans (ih _)
  exact hlines _ (c.setBuffer (getCompleteLines c.session.buffer).2)

theorem receive_heard (data : Str) (c : Conn) : c.world.Heard sets (receive os conf data c).world := by
  have hecho : c.world.Heard sets (echoBack os data (noteReceived os data c)).world := by
    unfold echoBack
    split
    · exact World.heard_of_same rfl rfl
    · exact World.Heard.trans (World.heard_of_same rfl rfl)
        (sendCounted_heard os data (noteReceived os data c))
  have hkeys : c.world.Heard sets (takeKeys os conf data c).2.world :=
    hecho.trans (editBuffer_heard os hconf _)
  have hlines := hkeys.trans (takeLines_heard os hconf _)
  unfold receive
  dsimp only
  split
  · exact hlines.trans ((eraseLine_heard os _).trans (sendPromptAndBuffer_heard os conf _))
  · exact hlines

theorem sessionUpdate_heard (answer : Recv) (c : Conn) :
    c.world.Heard sets (TelnetSession.update os conf answer c).world := by
  unfold TelnetSession.update
  cases answer with
  | fail errno =>
    dsimp only
    split <;> exact World.heard_of_same rfl rfl
  | bytes data =>
    dsimp only
    split
    · exact World.Heard.trans (World.heard_of_same rfl rfl) (receive_heard os hconf data _)
    · exact World.heard_of_same rfl rfl

/-! ### The server -/

theorem acceptConnection_heard (srv : TelnetServer) :
    srv.world.Heard sets (acceptConnection os conf srv).2.world := by
  unfold acceptConnection
  split
  · exact World.heard_of_same rfl rfl
  · rename_i clientSocket _
    dsimp only
    set c₀ : Conn := ⟨{ id := srv.world.accepted, socket := clientSocket },
      { srv.world.next.record (.accept srv.world.accepted clientSocket
          (decide (srv.sessions.length < MAX_AVAILABLE_SESSION))) with
        accepted := srv.world.accepted + 1 }⟩
    have hstart : srv.world.Heard sets (initialise os conf c₀).world :=
      World.Heard.trans (World.heard_of_same rfl rfl) (initialise_heard os hconf c₀)
    split
    · refine hstart.trans (World.heard_of_same ?_ ?_)
      · exact (sendLine_acted os conf _ (initialise os conf c₀)).passedLines
      · exact (sendLine_quiet os conf _ (initialise os conf c₀)).1
    · exact hstart

theorem turn_heard (idx : ℕ) (srv : TelnetServer) :
    srv.world.Heard sets (turn os conf idx srv).2.world := by
  unfold turn
  cases hsession : srv.sessions[idx]? with
  | none => exact World.heard_of_same rfl rfl
  | some session =>
    have hupdate : srv.world.Heard sets
        (TelnetSession.update os conf (os.recv srv.world.n) ⟨session, srv.world.next⟩).world :=
      World.Heard.trans (World.heard_of_same rfl rfl)
        (sessionUpdate_heard os hconf _ ⟨session, srv.world.next⟩)
    dsimp only [checkTimeout]
    split
    · exact hupdate.trans (World.heard_of_same rfl rfl)
    · exact hupdate.trans (World.heard_of_same rfl rfl)

theorem updateSessions_heard (idx : ℕ) (srv : TelnetServer) :
    srv.world.Heard sets (updateSessions os conf idx srv).world := by
  induction idx, srv using updateSessions.induct os conf with
  | case1 idx srv hidx ih =>
    rw [updateSessions, if_pos hidx]
    exact (turn_heard os hconf idx srv).trans ih
  | case2 idx srv hidx =>
    rw [updateSessions, if_neg hidx]
    exact World.heard_of_same rfl rfl

/-- **A tick takes the level from line to line.** -/
theorem update_heard (srv : TelnetServer) :
    srv.world.Heard sets (TelnetServer.update os conf srv).world := by
  have hpoll : ∀ srv : TelnetServer, srv.world.Heard sets (startTick os conf srv).2.world := by
    intro srv
    unfold startTick pollConnection
    dsimp only
    split
    · exact World.Heard.trans (World.heard_of_same rfl rfl) (acceptConnection_heard os hconf _)
    · exact World.heard_of_same rfl rfl
  exact (hpoll srv).trans ((updateSessions_heard os hconf 0 _).trans (World.heard_of_same rfl rfl))

end Session

/-! ### The program's callbacks -/

/-- The level an act sets. -/
def Act.sets : Act → Option Level
  | .setLevel level => some level
  | _ => none

/-- The last act that sets the level decides it. -/
theorem actsLevel_eq (acts : List Act) (level : Level) :
    actsLevel acts level = ((acts.filterMap Act.sets).getLast?).getD level :=
  Prefixes.foldl_eq_last (fun _ a => by cases a <;> rfl) level acts

/-- The level a line sets: that of the case it comes to. -/
def lineLevel (build : Build) (line : Str) (level : Level) : Level :=
  actsLevel (telnetMessageCallback build [] line).1 level

theorem actsLevel_sendLines (lines : List Str) : actsLevel (lines.map .sendLine) = id := by
  funext level
  induction lines with
  | nil => rfl
  | cons line lines ih => exact ih

/-- What the services are has no part in it. -/
theorem telnetMessageCallback_sets (build : Build) (vCheckFlag : CheckFlags) (line : Str)
    (level : Level) :
    actsLevel (telnetMessageCallback build vCheckFlag line).1 level = lineLevel build line level := by
  have hstatus : actsLevel (vCheckFlag.map fun service => .sendLine (statusLine service)) =
      actsLevel [] := by
    have hlines := actsLevel_sendLines (vCheckFlag.map statusLine)
    rw [List.map_map] at hlines
    exact hlines
  have hcases : (switchCases build vCheckFlag).map (fun case => (case.1, actsLevel case.2)) =
      (switchCases build []).map fun case => (case.1, actsLevel case.2) := by
    simp only [switchCases, List.map_cons, List.map_nil, hstatus]
  have hfind : ∀ v : CheckFlags,
      ((switchCases build v).find? fun case => constHasher line = constHasher case.1).map
          (fun case => (case.1, actsLevel case.2)) =
        ((switchCases build v).map fun case => (case.1, actsLevel case.2)).find? fun case =>
          constHasher line = constHasher case.1 := by
    intro v
    rw [List.find?_map]
    rfl
  have hsame := (hfind vCheckFlag).trans (hcases ▸ (hfind []).symm)
  unfold lineLevel telnetMessageCallback
  split
  · rfl
  · cases h : (switchCases build vCheckFlag).find? fun case => constHasher line = constHasher case.1 with
    | none =>
      rw [h] at hsame
      rw [Option.map_eq_none_iff.mp hsame.symm]
    | some case =>
      rw [h] at hsame
      obtain ⟨case', h', heq⟩ := Option.map_eq_some_iff.mp hsame.symm
      rw [h']
      exact congrFun (Prod.mk.inj heq).2.symm level

end Telnet
end RepoInit
