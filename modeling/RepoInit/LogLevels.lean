/-
# The two ways to set the log level

A two-part `LOGL` request and the Telnet command `enable log` take the same three
levels. Telnet calls any other text unknown, but for the hashes, and the request
compares the text with each level and succeeds whether it was one or not
(`zeroMQ_logLevel`). So the two agree exactly on the levels
(`channelsAgree_iff`), and a request for any other is answered as applied.

Key definitions: `ChannelsAgree`.
Key theorems: `zeroMQ_logLevel`, `telnet_logLevel`, `channelsAgree_iff`.
-/
import RepoInit.Telnet.Commands
import RepoInit.ZeroMQ.Requests

namespace RepoInit
namespace LogLevels

variable (build : Build) (vCheckFlag : CheckFlags)

/-! ### The request -/

/-- What the callback makes of `[LOGL, s]`. -/
def request (w : ZeroMQ.World) (s : Str) : ZeroMQ.Answer :=
  ZeroMQ.zeroMQServerMessageCallback build vCheckFlag w [str "LOGL", s]

def Succeeds (s : Str) : Prop :=
  ∀ w, ∃ body, (request build vCheckFlag w s).reply =
    some ([ZeroMQ.intBytes ZeroMQ.ZMQ_EVENT_HANDSHAKE_SUCCEEDED, body], true)

/-- The request sets the level, whatever it was. -/
def RequestSets (s : Str) (level : Level) : Prop :=
  ∀ w, (request build vCheckFlag w s).level = level

/-! ### The command -/

def command (s : Str) : Str := str "enable log " ++ s

/-- The command sets the level, whatever it was. -/
def CommandSets (s : Str) (level : Level) : Prop :=
  ∀ (os : Telnet.Os) (conf : Telnet.Conf) (c : Telnet.Conn),
    (Telnet.runActs os conf (Telnet.telnetMessageCallback build vCheckFlag (command s)).1
      c).world.level = level

/-- The request is granted if and only if the command is known, both set one
level then, and a request that is not granted leaves the level. -/
structure ChannelsAgree (s : Str) : Prop where
  granted : Succeeds build vCheckFlag s ↔
    (Telnet.telnetMessageCallback build vCheckFlag (command s)).2 = true
  sets : Succeeds build vCheckFlag s →
    ∃ level, RequestSets build vCheckFlag s level ∧ CommandSets build vCheckFlag s level
  refused : ¬ Succeeds build vCheckFlag s →
    ∀ w, (request build vCheckFlag w s).level = w.level

/-! ### When they agree -/

/-- Every text is granted. -/
theorem zeroMQ_logLevel (w : ZeroMQ.World) (s : Str) :
    request build vCheckFlag w s =
      { level := ZeroMQ.changeLevel build s w.level
        reply := some ([ZeroMQ.intBytes ZeroMQ.ZMQ_EVENT_HANDSHAKE_SUCCEEDED, []], true) } := rfl

theorem succeeds (s : Str) : Succeeds build vCheckFlag s := fun w =>
  ⟨[], by rw [zeroMQ_logLevel]⟩

/-- The levels both channels know. -/
def levels : List (Str × Level) := [(str "v", .info), (str "vv", .debug), (str "vvv", .trace)]

theorem mem_levels {entry : Str × Level} (h : entry ∈ levels) :
    entry = (str "v", .info) ∨ entry = (str "vv", .debug) ∨ entry = (str "vvv", .trace) := by
  simpa [levels] using h

theorem changeLevel_known {entry : Str × Level} (h : entry ∈ levels) (level : Level) :
    ZeroMQ.changeLevel build entry.1 level = entry.2 := by
  rcases mem_levels h with rfl | rfl | rfl <;> rfl

theorem changeLevel_unknown {s : Str} (hr : s ≠ str "r") (h : s ∉ levels.map (·.1)) (level : Level) :
    ZeroMQ.changeLevel build s level = level := by
  simp only [levels, List.map_cons, List.map_nil, List.mem_cons, List.not_mem_nil, or_false,
    not_or] at h
  simp [ZeroMQ.changeLevel, h, hr]

/-- A level the command knows is the text of its case. -/
theorem mem_switchCases {entry : Str × Level} (h : entry ∈ levels) :
    ∃ text, (command entry.1, [.sendLine text, .setLevel entry.2]) ∈
      Telnet.switchCases build vCheckFlag := by
  rcases mem_levels h with rfl | rfl | rfl
  · exact ⟨str "Info log mode enabled", List.mem_of_getElem? (i := 4) rfl⟩
  · exact ⟨str "Debug log mode enabled", List.mem_of_getElem? (i := 5) rfl⟩
  · exact ⟨str "Trace log mode enabled", List.mem_of_getElem? (i := 6) rfl⟩

theorem telnet_logLevel {entry : Str × Level} (h : entry ∈ levels) :
    ∃ text, Telnet.telnetMessageCallback build vCheckFlag (command entry.1) =
      ([.sendLine (command entry.1), .sendLine text, .setLevel entry.2], true) := by
  obtain ⟨text, hmem⟩ := mem_switchCases build vCheckFlag h
  have hcall := Telnet.telnetMessageCallback_command hmem
  exact ⟨text, hcall⟩

theorem commandSets {entry : Str × Level} (h : entry ∈ levels) :
    CommandSets build vCheckFlag entry.1 entry.2 := by
  intro os conf c
  obtain ⟨text, hcall⟩ := telnet_logLevel build vCheckFlag h
  rw [hcall]
  rfl

/-- **When the channels agree.** -/
theorem channelsAgree_iff {s : Str} (hr : s ≠ str "r") :
    ChannelsAgree build vCheckFlag s ↔ s = str "v" ∨ s = str "vv" ∨ s = str "vvv" := by
  have hlevels : s = str "v" ∨ s = str "vv" ∨ s = str "vvv" ↔ s ∈ levels.map (·.1) := by
    simp [levels]
  rw [hlevels]
  constructor
  · intro h
    by_contra hs
    obtain ⟨level, hsets, -⟩ := h.sets (succeeds build vCheckFlag s)
    -- the request leaves one level and the other
    have hleaves : ∀ w, (request build vCheckFlag w s).level = w.level := fun w => by
      rw [zeroMQ_logLevel]
      exact changeLevel_unknown build hr hs w.level
    have hinfo : Level.info = level := (hleaves { level := .info }).symm.trans (hsets _)
    have hdebug : Level.debug = level := (hleaves { level := .debug }).symm.trans (hsets _)
    cases hinfo.trans hdebug.symm
  · intro hs
    obtain ⟨entry, hentry, rfl⟩ := List.mem_map.mp hs
    obtain ⟨text, hcall⟩ := telnet_logLevel build vCheckFlag hentry
    refine ⟨?_, fun _ => ⟨entry.2, ?_, commandSets build vCheckFlag hentry⟩, ?_⟩
    · rw [hcall]
      exact iff_of_true (succeeds build vCheckFlag _) rfl
    · intro w
      rw [zeroMQ_logLevel]
      exact changeLevel_known build hentry w.level
    · exact fun hn => absurd (succeeds build vCheckFlag _) hn

theorem channelsAgree_vv :
    ChannelsAgree ⟨true, str "1.0"⟩ [] (str "vv") ↔
      str "vv" = str "v" ∨ str "vv" = str "vv" ∨ str "vv" = str "vvv" :=
  channelsAgree_iff ⟨true, str "1.0"⟩ [] (by decide)

/-- A request for the level `x` succeeds and leaves the level, and Telnet does not
know the command. -/
theorem not_channelsAgree_x :
    (∀ w, (request ⟨true, str "1.0"⟩ [] w (str "x")).reply =
        some ([ZeroMQ.intBytes ZeroMQ.ZMQ_EVENT_HANDSHAKE_SUCCEEDED, []], true) ∧
      (request ⟨true, str "1.0"⟩ [] w (str "x")).level = w.level) ∧
      (Telnet.telnetMessageCallback ⟨true, str "1.0"⟩ [] (command (str "x"))).2 = false := by
  refine ⟨fun w => ⟨rfl, rfl⟩, ?_⟩
  decide +kernel

end LogLevels
end RepoInit
