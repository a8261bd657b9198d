/-
# The callbacks the program installs

`TelnetConnectedCallback`, `TelnetMessageCallback` and `TelnetTabCallback`.
The message callback switches on `constHasher` of the line and never compares
the text, so it answers exactly the command strings if and only if no other
line it is given has the hash of one (`exactlyDispatched_iff`); one such line
is `Pvit`, which quits (`not_exactlyDispatched_pvit`).

Key definitions: `telnetCommands`, `switchCases`, `telnetMessageCallback`,
`telnetTabCallback`, `ExactlyDispatched`.
Key theorems: `exactlyDispatched_iff`, `tabAnswer_cases`.
-/
import Mathlib.Data.List.Nodup
import RepoInit.Hasher
import RepoInit.Telnet.Session

namespace RepoInit
namespace Telnet

def KEY_WIDTH : ℕ := 30
def VAL_WIDTH : ℕ := 15

/-- The text, and `fill` up to the width. -/
def padRight (fill : Byte) (width : ℕ) (text : Str) : Str :=
  text ++ List.replicate (width - text.length) fill

/-- `fill` up to the width, and the text. -/
def padLeft (fill : Byte) (width : ℕ) (text : Str) : Str :=
  List.replicate (width - text.length) fill ++ text

def telnetCommands : List (Str × Str) :=
  [(str "clear", str "Clears the terminal screen"),
   (str "disable log", str "Resets logger level"),
   (str "enable log",
    str "Enable specified logger level. Level can be \"v\" (info), \"vv\" (debug) and \"vvv\" (trace)"),
   (str "help", str "Prints available commands"),
   (str "ping", str "Pings the server"),
   (str "status", str "Checks the internal status"),
   (str "version", str "Displays the current version"),
   (str "quit", str "Ends the connection")]

/-! ### Greeting and help -/

def telnetPrintAvailableCommands : List Act :=
  [.sendLine [], .sendLine (str "Available commands:"), .sendLine []] ++
    telnetCommands.map fun command =>
      .sendLine (padRight 0x20 25 command.1 ++ str " : " ++ command.2)

def telnetConnectedCallback : List Act :=
  .sendLine (str ("\r\n" ++ "𝑲𝒆𝒆𝒑 𝒚𝒐𝒖𝒓 𝒆𝒚𝒆𝒔 𝒐𝒏 𝒕𝒉𝒆 𝒔𝒕𝒂𝒓𝒔 " ++ "𝒂𝒏𝒅 𝒚𝒐𝒖𝒓 𝒇𝒆𝒆𝒕 𝒐𝒏 𝒕𝒉𝒆 𝒈𝒓𝒐𝒖𝒏𝒅 " ++ "\r\n")) ::
    telnetPrintAvailableCommands

/-! ### Tab completion -/

/-- The suggestions as the stream prints them: `setw` applies to the next
command. -/
def suggestions : List Str → Str
  | [] => []
  | command :: commands => command ++ (commands.map (padLeft 0x20 KEY_WIDTH)).flatten

/-- The commands a text is the beginning of. -/
def matching (line : Str) : List Str := (telnetCommands.map (·.1)).filter fun c => line <+: c

/-- `TelnetTabCallback`: several commands are suggested, a single one is the
completion. -/
def tabAnswer (line : Str) : List Act × Str :=
  if (matching line).length ≠ 1 ∧ suggestions (matching line) ≠ [] then
    ([.sendLine (suggestions (matching line))], [])
  else ([], (matching line).getLast?.getD [])

theorem mem_matching {line c : Str} (h : c ∈ matching line) :
    c ∈ telnetCommands.map (·.1) ∧ line <+: c := by
  simpa [matching] using h

/-- A completion is a command that begins with the text. -/
theorem tabAnswer_cases (line : Str) :
    (tabAnswer line).2 = [] ∨
      ((tabAnswer line).2 ∈ telnetCommands.map (·.1) ∧ line <+: (tabAnswer line).2) := by
  unfold tabAnswer
  split
  · exact Or.inl rfl
  · cases h : (matching line).getLast? with
    | none => exact Or.inl rfl
    | some c => exact Or.inr (mem_matching (List.mem_of_getLast? h))

theorem command_bytes : ∀ c ∈ telnetCommands.map (·.1), ∀ b ∈ c, 0x20 ≤ b ∧ b < 0x7F := by
  decide +kernel

/-- A completion consists of printable characters. -/
theorem tabAnswer_printable (line : Str) : ∀ b ∈ (tabAnswer line).2, 0x20 ≤ b ∧ b < 0x7F := by
  rcases tabAnswer_cases line with h | ⟨h, -⟩
  · simp [h]
  · exact command_bytes _ h

def telnetTabCallback : TabCallback where
  call _ _ line := tabAnswer line
  noTab _ _ line h := by
    have := tabAnswer_printable line _ h
    revert this
    decide

/-! ### Commands -/

/-- The answer to `status` for one service. -/
def statusLine (service : Str × Bool) : Str :=
  padRight 0x2E KEY_WIDTH (service.1 ++ str " ") ++
    padLeft 0x2E VAL_WIDTH (if service.2 then str " OK" else str " Not Active") ++ str " "

/-- The cases of the switch in `TelnetMessageCallback`: the string whose hash
is the label, and what the case does. -/
def switchCases (build : Build) (vCheckFlag : CheckFlags) : List (Str × List Act) :=
  [(str "Test Message", [.sendLine (str "OK")]),
   (str "help", telnetPrintAvailableCommands),
   (str "disable log",
    [.sendLine (str "Default log mode enabled"), .setLevel build.defaultLevel]),
   (str "disable log all", [.sendLine (str "Disabling all logs"), .setLevel .off]),
   (str "enable log v", [.sendLine (str "Info log mode enabled"), .setLevel .info]),
   (str "enable log vv", [.sendLine (str "Debug log mode enabled"), .setLevel .debug]),
   (str "enable log vvv", [.sendLine (str "Trace log mode enabled"), .setLevel .trace]),
   (str "ping", [.sendLine (str "pong")]),
   (str "version", [.sendLine build.projectFullVersionString]),
   (str "clear", [.sendLine (str "\x1b[2J")]),
   (str "status", vCheckFlag.map fun service => .sendLine (statusLine service)),
   (str "quit",
    [.sendLine (str "Closing connection"), .sendLine (str "Goodbye!"), .markTimeout])]

/-- What a line that is no command gets after its echo. -/
def unknownCommand : Act := .sendLine (str "Unknown command received")

/-- `TelnetMessageCallback`: the case whose label is the hash of the line. -/
def telnetMessageCallback (build : Build) (vCheckFlag : CheckFlags) (line : Str) :
    List Act × Bool :=
  if line = [] then ([.sendLine line], true)
  else
    match (switchCases build vCheckFlag).find? fun case => constHasher line = constHasher case.1 with
    | some case => (.sendLine line :: case.2, true)
    | none => ([.sendLine line, unknownCommand], false)

def commandStrings : List Str :=
  [str "Test Message", str "help", str "disable log", str "disable log all", str "enable log v",
   str "enable log vv", str "enable log vvv", str "ping", str "version", str "clear", str "status",
   str "quit"]

theorem switchCases_fst (build : Build) (vCheckFlag : CheckFlags) :
    (switchCases build vCheckFlag).map (·.1) = commandStrings := rfl

theorem commandStrings_nodup : commandStrings.Nodup := by decide

/-- The labels of the switch are distinct. -/
theorem constHasher_commandStrings :
    ∀ a ∈ commandStrings, ∀ b ∈ commandStrings, constHasher a = constHasher b → a = b := by
  decide +kernel

theorem constHasher_nil_commandStrings : ∀ a ∈ commandStrings, constHasher [] ≠ constHasher a := by
  decide

/-- The callback treats the line by its text: an empty line and the command
strings get their answers and `true`, any other line is unknown, and changes
neither the log level nor the timeout mark. -/
structure ExactlyDispatched (build : Build) (vCheckFlag : CheckFlags) (line : Str) : Prop where
  empty : line = [] → telnetMessageCallback build vCheckFlag line = ([.sendLine []], true)
  command : ∀ case ∈ switchCases build vCheckFlag, line = case.1 →
    telnetMessageCallback build vCheckFlag line = (.sendLine line :: case.2, true)
  unknown : line ≠ [] → line ∉ commandStrings →
    telnetMessageCallback build vCheckFlag line = ([.sendLine line, unknownCommand], false) ∧
      ∀ (os : Os) (conf : Conf) (c : Conn),
        (runActs os conf (telnetMessageCallback build vCheckFlag line).1 c).world.level =
            c.world.level ∧
          (runActs os conf (telnetMessageCallback build vCheckFlag line).1 c).session.lastSeenTime =
            c.session.lastSeenTime

section Sends

variable (os : Os) (conf : Conf)

theorem sendCounted_quiet (data : Str) (c : Conn) :
    (sendCounted os data c).world.level = c.world.level ∧
      (sendCounted os data c).session.lastSeenTime = c.session.lastSeenTime := by
  unfold sendCounted send
  dsimp only
  split <;> exact ⟨rfl, rfl⟩

/-- Sending a line changes neither the log level nor the timeout mark. -/
theorem sendLine_quiet (data : Str) (c : Conn) :
    (sendLine os conf data c).world.level = c.world.level ∧
      (sendLine os conf data c).session.lastSeenTime = c.session.lastSeenTime := by
  unfold sendLine sendPromptAndBuffer eraseLine
  dsimp only
  split_ifs <;> simp [sendCounted_quiet]

end Sends

theorem runActs_unknown (os : Os) (conf : Conf) (line : Str) (c : Conn) :
    (runActs os conf [.sendLine line, unknownCommand] c).world.level = c.world.level ∧
      (runActs os conf [.sendLine line, unknownCommand] c).session.lastSeenTime =
        c.session.lastSeenTime := by
  simp [runActs, runAct, unknownCommand, sendLine_quiet]

theorem mem_commandStrings {build : Build} {vCheckFlag : CheckFlags} {case : Str × List Act}
    (h : case ∈ switchCases build vCheckFlag) : case.1 ∈ commandStrings := by
  rw [← switchCases_fst build vCheckFlag]
  exact List.mem_map_of_mem h

/-- A command string reaches its own case. -/
theorem telnetMessageCallback_command {build : Build} {vCheckFlag : CheckFlags}
    {case : Str × List Act} (h : case ∈ switchCases build vCheckFlag) :
    telnetMessageCallback build vCheckFlag case.1 = (.sendLine case.1 :: case.2, true) := by
  have hne : case.1 ≠ [] := fun h0 =>
    constHasher_nil_commandStrings _ (mem_commandStrings h) (by rw [h0])
  cases hf : (switchCases build vCheckFlag).find? fun c => constHasher case.1 = constHasher c.1 with
  | none =>
    have := List.find?_eq_none.mp hf case h
    simp at this
  | some found =>
    have hmem := List.mem_of_find?_eq_some hf
    have hhash : constHasher case.1 = constHasher found.1 := by
      simpa using List.find?_some hf
    have hkey := constHasher_commandStrings _ (mem_commandStrings h) _ (mem_commandStrings hmem) hhash
    have hnd : ((switchCases build vCheckFlag).map (·.1)).Nodup := commandStrings_nodup
    have hcase : case = found := List.inj_on_of_nodup_map hnd h hmem hkey
    rw [telnetMessageCallback, if_neg hne, hf, hcase]

/-- **The callback answers exactly the command strings, as long as the line
collides with none.** -/
theorem exactlyDispatched_iff (build : Build) (vCheckFlag : CheckFlags) (line : Str) :
    ExactlyDispatched build vCheckFlag line ↔
      ∀ command ∈ commandStrings, constHasher line = constHasher command → line = command := by
  constructor
  · intro h command hc hhash
    by_contra hne
    have hline : line ≠ [] := by
      rintro rfl
      exact constHasher_nil_commandStrings command hc hhash
    have hout : line ∉ commandStrings := fun hm =>
      hne (constHasher_commandStrings line hm command hc hhash)
    have hans := (h.unknown hline hout).1
    rw [← switchCases_fst build vCheckFlag] at hc
    obtain ⟨case, hcase, rfl⟩ := List.mem_map.mp hc
    -- the case is found by its hash, and its answer is `true`
    cases hf : (switchCases build vCheckFlag).find? fun c => constHasher line = constHasher c.1 with
    | none =>
      have := List.find?_eq_none.mp hf case hcase
      simp [hhash] at this
    | some found => simp [telnetMessageCallback, hline, hf] at hans
  · intro h
    refine ⟨?_, ?_, ?_⟩
    · rintro rfl
      rfl
    · rintro case hcase rfl
      exact telnetMessageCallback_command hcase
    · intro hline hout
      have hf : (switchCases build vCheckFlag).find?
          (fun c => constHasher line = constHasher c.1) = none := by
        rw [List.find?_eq_none]
        intro case hcase
        have hm := mem_commandStrings hcase
        simp only [decide_eq_true_eq]
        intro hhash
        exact hout (h _ hm hhash ▸ hm)
      have hans : telnetMessageCallback build vCheckFlag line =
          ([.sendLine line, unknownCommand], false) := by
        simp [telnetMessageCallback, hline, hf]
      refine ⟨hans, fun os conf c => ?_⟩
      rw [hans]
      exact runActs_unknown os conf line c

/-- `Pvit` is no command, and quits. -/
theorem not_exactlyDispatched_pvit :
    ¬ ExactlyDispatched ⟨false, []⟩ [] (str "Pvit") ∧
      telnetMessageCallback ⟨false, []⟩ [] (str "Pvit") =
        ([.sendLine (str "Pvit"), .sendLine (str "Closing connection"),
          .sendLine (str "Goodbye!"), .markTimeout], true) := by
  have hans : telnetMessageCallback ⟨false, []⟩ [] (str "Pvit") =
      ([.sendLine (str "Pvit"), .sendLine (str "Closing connection"),
        .sendLine (str "Goodbye!"), .markTimeout], true) := by decide +kernel
  refine ⟨fun h => ?_, hans⟩
  have := (h.unknown (by decide) (by decide)).1
  rw [hans] at this
  simp at this

end Telnet
end RepoInit
