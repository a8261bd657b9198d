/-
# The running services

`main` adds a flag for each service to `vCheckFlag` and starts those that are
asked for. Each service runs in its own thread and sets its flag at the end of
every round that does not throw, and the handler of SIGALRM clears all flags. Both
servers answer a request for the status from the flags. Rounds are taken as wholes
and come in any order, with alarms between them.

So a status answer lists exactly the services whose rounds ended since the last
alarm (`status_answers`), the crash handler as soon as crashpad could be asked for it
(`crashpad_lives_iff`), a ZeroMQ server that owes a reply is not listed as running from
the next alarm on (`wedged_listed`), and the log level, which both servers set, is
that of the last request that sets it (`level_requests`).

Key definitions: `Service`, `System`, `Round`, `work`, `step`, `Lives`.
Key theorems: `flag_iff`, `crashpad_lives_iff`, `status_answers`, `wedged_listed`,
`level_requests`.
-/
import RepoInit.InputParser
import RepoInit.Metrics.ProcessMetrics
import RepoInit.Telnet.Levels
import RepoInit.Tracer
import RepoInit.ZeroMQ.Lockstep
import RepoInit.ZeroMQ.Status

namespace RepoInit
namespace Running

open Prefixes

/-! ### The services -/

inductive Service where
  | crashpadHandler
  | selfMonitor
  | zeroMQServer
  | telnetServer
  deriving DecidableEq, Repr

def Service.name : Service → Str
  | .crashpadHandler => str "Crashpad Handler"
  | .selfMonitor => str "Self Monitor"
  | .zeroMQServer => str "ZeroMQ Server"
  | .telnetServer => str "Telnet Server"

/-- In the order in which `main` adds their flags. -/
def services : List Service := [.crashpadHandler, .selfMonitor, .zeroMQServer, .telnetServer]

/-- What the services run on. -/
structure Host where
  build : Build
  input : InputParser
  net : ZeroMQ.Net
  os : Telnet.Os

namespace Host

variable (h : Host)

/-- Does `main` start the service? -/
def starts : Service → Bool
  | .crashpadHandler => true
  | .selfMonitor => h.input.getCmdOption (str "--enable-prometheus") ≠ []
  | .zeroMQServer => h.input.getCmdOption (str "--enable-zeromq") ≠ []
  | .telnetServer => h.input.cmdOptionExists (str "--enable-telnet")

/-- The level after the constructor of `MainLogger` and the options of `main`. -/
def startLevel : Level :=
  let level := h.build.defaultLevel
  let level := if h.input.cmdOptionExists (str "-v") then .info else level
  let level := if h.input.cmdOptionExists (str "-vv") then .debug else level
  if h.input.cmdOptionExists (str "-vvv") then .trace else level

end Host

/-- What a callback of a server was asked. -/
inductive Request where
  | call (recvMsgs : List Str)
  | line (line : Str)
  deriving DecidableEq, Repr

/-- The services and what they share. -/
structure System where
  vCheckFlag : List (Service × Bool) := []
  level : Level
  /-- The counter of the tracer's loop, `none` once that has returned. -/
  stopCounter : Option ℕ := some 0
  monitor : ProcessMetrics.Monitor := {}
  zmq : ZeroMQ.ZeroMQServer
  telnet : Telnet.TelnetServer
  /-- What both servers were asked, oldest first. -/
  requests : List Request := []

namespace System

variable (sys : System)

/-- `vCheckFlag` with the names. -/
def checkFlags : CheckFlags := sys.vCheckFlag.map fun entry => (entry.1.name, entry.2)

def setFlag (s : Service) : System :=
  { sys with vCheckFlag := sys.vCheckFlag.map fun entry => if entry.1 = s then (s, true) else entry }

end System

/-! ### The steps -/

/-- A round of a service, with what the system answers to it. -/
inductive Round where
  | crashpadHandler (probe : Tracer.Probe)
  | selfMonitor (readings : ProcessMetrics.Readings)
  | zeroMQServer
  | telnetServer

def Round.service : Round → Service
  | .crashpadHandler _ => .crashpadHandler
  | .selfMonitor _ => .selfMonitor
  | .zeroMQServer => .zeroMQServer
  | .telnetServer => .telnetServer

inductive Event where
  /-- `main` adds the flag of the next service. -/
  | emplaceBack
  /-- `alarmFunc`. -/
  | alarm
  | round (r : Round)

/-- The request, if the event is a call of the message callback. -/
def requestOf : ZeroMQ.Event → Option Request
  | .call recvMsgs => some (.call recvMsgs)
  | _ => none

section Steps

variable (h : Host)

/-- `ZeroMQServerMessageCallback` in this system. -/
def zeroMQCallback (sys : System) : ZeroMQ.Callback :=
  ZeroMQ.zeroMQServerMessageCallback h.build sys.checkFlags

/-- The callbacks and the prompt `main` gives the Telnet server. -/
def telnetConf (sys : System) : Telnet.Conf where
  promptString := str "> "
  connectedCallback := some fun _ _ => Telnet.telnetConnectedCallback
  newLineCallBack := some fun _ _ line => Telnet.telnetMessageCallback h.build sys.checkFlags line
  tabCallback := some Telnet.telnetTabCallback

/-- The ZeroMQ server, with the level of the process. -/
def zmqOf (sys : System) : ZeroMQ.ZeroMQServer :=
  { sys.zmq with world := { sys.zmq.world with level := sys.level } }

def telnetOf (sys : System) : Telnet.TelnetServer :=
  { sys.telnet with world := { sys.telnet.world with level := sys.level } }

/-- A round: whether it comes to the flag, and what it leaves. -/
def work (sys : System) : Round → Bool × System
  | .crashpadHandler probe =>
    match sys.stopCounter with
    | none => (false, sys)
    | some stopCounter =>
      let (next, effects) := Tracer.iteration true (Tracer.isRunning probe) stopCounter
      (effects.contains .testAndSet, { sys with stopCounter := next })
  | .selfMonitor readings =>
    let (thrown, monitor) := ProcessMetrics.update readings sys.monitor
    (thrown.isNone, { sys with monitor := monitor })
  | .zeroMQServer =>
    let (o, zmq) := (zmqOf sys).update h.net (some (zeroMQCallback h sys))
    (o ≠ .threw,
      { sys with
        zmq := zmq
        level := zmq.world.level
        requests := sys.requests ++
          (zmq.world.trace.drop sys.zmq.world.trace.length).filterMap requestOf })
  | .telnetServer =>
    let telnet := Telnet.TelnetServer.update h.os (telnetConf h sys) (telnetOf sys)
    (true,
      { sys with
        telnet := telnet
        level := telnet.world.level
        requests := sys.requests ++
          ((Telnet.passedLines telnet.world.trace).drop
            (Telnet.passedLines sys.telnet.world.trace).length).map .line })

/-- The service was started, which is after its flag was added. -/
def Runs (sys : System) (s : Service) : Prop := h.starts s = true ∧ s ∈ sys.vCheckFlag.map Prod.fst

instance (sys : System) (s : Service) : Decidable (Runs h sys s) := inferInstanceAs (Decidable (_ ∧ _))

def step (sys : System) : Event → System
  | .emplaceBack =>
    { sys with
      vCheckFlag := sys.vCheckFlag ++ (services[sys.vCheckFlag.length]?.map (·, false)).toList }
  | .alarm => { sys with vCheckFlag := sys.vCheckFlag.map fun entry => (entry.1, false) }
  | .round r =>
    if Runs h sys r.service then
      let (well, sys) := work h sys r
      if well then sys.setFlag r.service else sys
    else sys

/-- Before the first flag; with a registry the servers keep statistics. -/
def start : System where
  level := h.startLevel
  zmq := { stats := if h.starts .selfMonitor then some {} else none }
  telnet := { stats := if h.starts .selfMonitor then some {} else none }

def run (events : List Event) : System := events.foldl (step h) (start h)

@[simp] theorem run_nil : run h [] = start h := rfl

@[simp] theorem run_append_singleton (events : List Event) (e : Event) :
    run h (events ++ [e]) = step h (run h events) e := by
  simp [run]

end Steps

/-! ### What a flag says -/

section Flags

variable {h : Host}

/-- The round of a service that runs comes to the flag. -/
def EndsWell (h : Host) (s : Service) (before : List Event) (e : Event) : Prop :=
  ∃ r, e = .round r ∧ r.service = s ∧ Runs h (run h before) s ∧ (work h (run h before) r).1 = true

/-- A round of the service ended well since the last alarm. -/
def Lives (h : Host) (s : Service) (events : List Event) : Prop :=
  Since (EndsWell h s) (· = .alarm) events

theorem work_vCheckFlag (h : Host) (sys : System) (r : Round) :
    (work h sys r).2.vCheckFlag = sys.vCheckFlag := by
  cases r with
  | crashpadHandler probe => cases hs : sys.stopCounter <;> simp [work, hs]
  | _ => rfl

@[simp] theorem setFlag_fst (sys : System) (s : Service) :
    (sys.setFlag s).vCheckFlag.map Prod.fst = sys.vCheckFlag.map Prod.fst := by
  simp only [System.setFlag, List.map_map]
  refine List.map_congr_left fun entry _ => ?_
  by_cases he : entry.1 = s <;> simp [he]

theorem mem_setFlag {sys : System} {s s' : Service} : (s', true) ∈ (sys.setFlag s).vCheckFlag ↔
    (s' = s ∧ s ∈ sys.vCheckFlag.map Prod.fst) ∨ (s', true) ∈ sys.vCheckFlag := by
  simp only [System.setFlag, List.mem_map]
  constructor
  · rintro ⟨entry, hentry, heq⟩
    by_cases hs : entry.1 = s
    · rw [if_pos hs] at heq
      obtain ⟨rfl, -⟩ := Prod.mk.inj heq
      exact .inl ⟨rfl, entry, hentry, hs⟩
    · rw [if_neg hs] at heq
      exact .inr (heq ▸ hentry)
  · rintro (⟨rfl, entry, hentry, rfl⟩ | hmem)
    · exact ⟨entry, hentry, if_pos rfl⟩
    · refine ⟨(s', true), hmem, ?_⟩
      by_cases hs : s' = s
      · simp [hs]
      · simp [hs]

theorem step_round_eq (h : Host) (sys : System) (r : Round) :
    step h sys (.round r) =
      if Runs h sys r.service then
        if (work h sys r).1 then (work h sys r).2.setFlag r.service else (work h sys r).2
      else sys := rfl

/-- A round leaves the other flags, and sets its own if it ends well. -/
theorem step_round (h : Host) (sys : System) (r : Round) (s : Service) :
    (s, true) ∈ (step h sys (.round r)).vCheckFlag ↔
      (r.service = s ∧ Runs h sys s ∧ (work h sys r).1 = true) ∨ (s, true) ∈ sys.vCheckFlag := by
  rw [step_round_eq]
  split
  · rename_i hruns
    have hflags := work_vCheckFlag h sys r
    split
    · rename_i hwell
      rw [mem_setFlag, hflags]
      constructor
      · rintro (⟨rfl, -⟩ | hmem)
        · exact .inl ⟨rfl, hruns, hwell⟩
        · exact .inr hmem
      · rintro (⟨rfl, -, -⟩ | hmem)
        · exact .inl ⟨rfl, hruns.2⟩
        · exact .inr hmem
    · rename_i hwell
      rw [hflags]
      simp [hwell]
  · rename_i hruns
    constructor
    · exact .inr
    · rintro (⟨rfl, hruns', -⟩ | hmem)
      · exact absurd hruns' hruns
      · exact hmem

/-- **A flag is set if and only if a round of its service ended well since the last
alarm.** -/
theorem flag_iff (h : Host) (s : Service) (events : List Event) :
    (s, true) ∈ (run h events).vCheckFlag ↔ Lives h s events := by
  induction events using List.reverseRecOn with
  | nil => exact iff_of_false (by simp [start]) since_nil
  | append_singleton events e ih =>
    rw [run_append_singleton, Lives, since_append, ← Lives, ← ih]
    cases e with
    | emplaceBack =>
      simp only [step, List.mem_append, Option.mem_toList, Option.map_eq_some_iff]
      simp [EndsWell]
    | alarm => simp [step, EndsWell]
    | round r =>
      rw [step_round]
      simp only [EndsWell, Event.round.injEq, exists_eq_left', reduceCtorEq, not_false_eq_true,
        true_and]

instance (h : Host) (s : Service) (events : List Event) : Decidable (Lives h s events) :=
  decidable_of_iff _ (flag_iff h s events)

def Event.adds : Event → Bool
  | .emplaceBack => true
  | _ => false

/-- The services whose flags were added. -/
def added (events : List Event) : List Service := services.take (events.countP Event.adds)

theorem vCheckFlag_fst (h : Host) (events : List Event) :
    (run h events).vCheckFlag.map Prod.fst = added events := by
  induction events using List.reverseRecOn with
  | nil => rfl
  | append_singleton events e ih =>
    have hcount : (events ++ [e]).countP Event.adds = events.countP Event.adds + e.adds.toNat := by
      cases e <;> simp [List.countP_append, Event.adds]
    rw [run_append_singleton, added, hcount]
    cases e with
    | emplaceBack =>
      have hlength : (run h events).vCheckFlag.length = min (events.countP Event.adds) 4 := by
        rw [← List.length_map (f := Prod.fst), ih, added, List.length_take]
        rfl
      have hnext : services[min (events.countP Event.adds) 4]? = services[events.countP Event.adds]? := by
        rcases Nat.lt_or_ge (events.countP Event.adds) 4 with hlt | hge
        · rw [Nat.min_eq_left hlt.le]
        · have hnone : ∀ n, 4 ≤ n → services[n]? = none := fun n hn => List.getElem?_eq_none hn
          rw [Nat.min_eq_right hge, hnone _ hge, hnone 4 le_rfl]
      simp only [step, List.map_append, ih, hlength, hnext, Event.adds, Bool.toNat_true,
        List.take_add_one, added]
      cases services[events.countP Event.adds]? <;> rfl
    | alarm =>
      have hsame : (Prod.fst ∘ fun entry : Service × Bool => (entry.1, false)) = Prod.fst := rfl
      simpa [step, Event.adds, added, hsame] using ih
    | round r =>
      have hflags := work_vCheckFlag h (run h events) r
      rw [step_round_eq]
      split_ifs <;> simp [hflags, ih, Event.adds, added]

/-- Each flag with what it says. -/
theorem vCheckFlag_eq (h : Host) (events : List Event) :
    (run h events).vCheckFlag = (added events).map fun s => (s, decide (Lives h s events)) := by
  have hnodup : ((run h events).vCheckFlag.map Prod.fst).Nodup := by
    rw [vCheckFlag_fst]
    exact List.Nodup.sublist (List.take_sublist _ _) (by decide : services.Nodup)
  have hvalue : ∀ entry ∈ (run h events).vCheckFlag, entry = (entry.1, decide (Lives h entry.1 events)) := by
    rintro ⟨s, flag⟩ hmem
    rw [Prod.mk.injEq]
    refine ⟨rfl, ?_⟩
    cases flag with
    | true => exact (decide_eq_true ((flag_iff h s events).mp hmem)).symm
    | false =>
      -- the service has one entry only
      refine (decide_eq_false fun hlives => ?_).symm
      have hset := (flag_iff h s events).mpr hlives
      cases List.inj_on_of_nodup_map hnodup hmem hset rfl
  calc (run h events).vCheckFlag
      = (run h events).vCheckFlag.map fun entry => (entry.1, decide (Lives h entry.1 events)) := by
        conv_lhs => rw [← List.map_id (run h events).vCheckFlag]
        exact List.map_congr_left hvalue
    _ = (added events).map fun s => (s, decide (Lives h s events)) := by
        rw [← vCheckFlag_fst h events, List.map_map]
        rfl

/-- The tracer's loop goes on, with the counter at zero. -/
theorem stopCounter_run (h : Host) (events : List Event) : (run h events).stopCounter = some 0 := by
  induction events using List.reverseRecOn with
  | nil => rfl
  | append_singleton events e ih =>
    have hwork : ∀ r, (work h (run h events) r).2.stopCounter = some 0 := by
      intro r
      cases r with
      | crashpadHandler probe => simp [work, ih, Tracer.iteration_eq]
      | _ => exact ih
    rw [run_append_singleton]
    cases e with
    | emplaceBack => exact ih
    | alarm => exact ih
    | round r =>
      rw [step_round_eq]
      split_ifs
      · exact hwork r
      · exact hwork r
      · exact ih

/-- **The crash handler passes for running** if and only if crashpad could be asked
since the last alarm, whether it had a handler then or not, and whatever became of
that. -/
theorem crashpad_lives_iff (h : Host) (events : List Event) : Lives h .crashpadHandler events ↔
    Since (fun before e => ∃ probe handler, e = .round (.crashpadHandler probe) ∧
      probe.getHandlerSocket = .ok handler ∧ .crashpadHandler ∈ added before) (· = .alarm) events := by
  have hends : ∀ before e, EndsWell h .crashpadHandler before e ↔
      ∃ probe handler, e = .round (.crashpadHandler probe) ∧ probe.getHandlerSocket = .ok handler ∧
        .crashpadHandler ∈ added before := by
    intro before e
    have hruns : Runs h (run h before) .crashpadHandler ↔ .crashpadHandler ∈ added before := by
      rw [Runs, vCheckFlag_fst]
      exact and_iff_right rfl
    have hwork : ∀ probe, (work h (run h before) (.crashpadHandler probe)).1 = true ↔
        ∃ handler, probe.getHandlerSocket = .ok handler := by
      intro probe
      have hflag := Tracer.testAndSet_effectsOf probe
      simpa [work, stopCounter_run, Tracer.iteration_eq] using hflag
    constructor
    · rintro ⟨r, rfl, hservice, hrun, hwell⟩
      cases r <;> try cases hservice
      rename_i probe
      obtain ⟨handler, hhandler⟩ := (hwork probe).mp hwell
      exact ⟨probe, handler, rfl, hhandler, hruns.mp hrun⟩
    · rintro ⟨probe, handler, rfl, hhandler, hadded⟩
      exact ⟨_, rfl, rfl, hruns.mpr hadded, (hwork probe).mpr ⟨handler, hhandler⟩⟩
  simp only [Lives, Since, hends]

end Flags

/-! ### The status -/

section Status

variable (h : Host) (events : List Event)

/-- The services whose flags were added, and which of them live. -/
def statusOf : CheckFlags := (added events).map fun s => (s.name, decide (Lives h s events))

theorem checkFlags_run : (run h events).checkFlags = statusOf h events := by
  rw [System.checkFlags, vCheckFlag_eq, List.map_map]
  rfl

theorem plain_statusOf : ∀ service ∈ statusOf h events, Json.Plain service.1 := by
  have hplain : ∀ s : Service, Json.Plain s.name := by
    intro s
    cases s <;> decide +kernel
  intro service hservice
  obtain ⟨s, -, rfl⟩ := List.mem_map.mp hservice
  exact hplain s

variable {h events}

/-- What the ZeroMQ server makes of a request for the status. -/
theorem replyTo_status (sys : System) :
    ZeroMQ.replyTo (some (zeroMQCallback h sys)) (zmqOf sys) (str "SCHK") [] =
      some ([ZeroMQ.intBytes ZeroMQ.ZMQ_EVENT_HANDSHAKE_SUCCEEDED, ZeroMQ.statusBody sys.checkFlags],
        true) := rfl

theorem run_zeroMQ (hruns : Runs h (run h events) .zeroMQServer) :
    (run h (events ++ [.round .zeroMQServer])).zmq =
      ((zmqOf (run h events)).update h.net (some (zeroMQCallback h (run h events)))).2 := by
  have hruns' : Runs h (run h events) Round.zeroMQServer.service := hruns
  rw [run_append_singleton, step_round_eq, if_pos hruns']
  split <;> rfl

/-- The ZeroMQ server replies with the JSON object of the services. -/
theorem zeroMQ_status (hruns : Runs h (run h events) .zeroMQServer)
    (harrives : ZeroMQ.Arrives h.net (run h events).zmq (str "SCHK") []) :
    ∃ body answer, (run h (events ++ [.round .zeroMQServer])).zmq.world.trace =
        (run h events).zmq.world.trace ++ [.recv (.parts (str "SCHK") []), .call [str "SCHK"],
          .send [ZeroMQ.intBytes ZeroMQ.ZMQ_EVENT_HANDSHAKE_SUCCEEDED, body] answer] ∧
      Json.decode body = some (ZeroMQ.statusValue (statusOf h events)) := by
  set sys := run h events with hsys
  have hmem : statusOf h events ≠ [] := by
    intro hnil
    have hnone : added events = [] := List.map_eq_nil_iff.mp hnil
    rw [Runs, hsys, vCheckFlag_fst, hnone] at hruns
    simp at hruns
  have hdecode : Json.decode (ZeroMQ.statusBody sys.checkFlags) =
      some (ZeroMQ.statusValue (statusOf h events)) := by
    rw [hsys, checkFlags_run]
    exact (ZeroMQ.decode_statusBody (plain_statusOf h events)).mpr hmem
  have hunique : ∀ {first rest}, ZeroMQ.Arrives h.net (zmqOf sys) first rest →
      first = str "SCHK" ∧ rest = [] := fun h' => ZeroMQ.Arrives.unique harrives h'
  refine ⟨ZeroMQ.statusBody sys.checkFlags, h.net.send (sys.zmq.world.n + 2), ?_, hdecode⟩
  obtain ⟨o, srv, hupdate, hround⟩ :=
    ZeroMQ.update_round h.net (some (zeroMQCallback h sys)) (zmqOf sys)
  rw [run_zeroMQ hruns, ← hsys, hupdate]
  have hreply := replyTo_status (h := h) sys
  have hcall : ZeroMQ.callEvents (some (zeroMQCallback h sys)) (str "SCHK") [] =
      [.call [str "SCHK"]] := if_pos ⟨rfl, rfl⟩
  cases hround with
  | refused hdue =>
    have hfree : (zmqOf sys).world.mustReply = false := harrives.1
    simp [hfree] at hdue
  | nothing o answer ho hdue hanswer hparts => exact absurd (hanswer ▸ harrives.2) (hparts _ _)
  | dropped first rest harr hnone =>
    obtain ⟨rfl, rfl⟩ := hunique harr
    rw [hreply] at hnone
    cases hnone
  | failed first rest replyMsgs ok harr hsome hne hsend htrace =>
    obtain ⟨rfl, rfl⟩ := hunique harr
    rw [hreply] at hsome
    obtain ⟨rfl, -⟩ := Prod.mk.inj (Option.some.inj hsome)
    have hsent : h.net.send (sys.zmq.world.n + 2) = .error := hsend
    rw [htrace, hcall, hsent, List.append_assoc]
    rfl
  | handled first rest replyMsgs ok answer serverStats harr hsome hempty hsend hanswer htrace =>
    obtain ⟨rfl, rfl⟩ := hunique harr
    rw [hreply] at hsome
    obtain ⟨rfl, -⟩ := Prod.mk.inj (Option.some.inj hsome)
    have hsent : h.net.send (sys.zmq.world.n + 2) = answer := hsend (by simp)
    rw [htrace, hcall, hsent, List.append_assoc]
    rfl

/-- The Telnet server answers with a line for each service. -/
theorem telnet_status (h : Host) (events : List Event) : ∃ callback,
    (telnetConf h (run h events)).newLineCallBack = some callback ∧ ∀ w s,
      callback w s (str "status") = (.sendLine (str "status") ::
        (statusOf h events).map fun service => .sendLine (Telnet.statusLine service), true) := by
  refine ⟨_, rfl, fun w s => ?_⟩
  have hcase : (str "status", (run h events).checkFlags.map fun service =>
      Telnet.Act.sendLine (Telnet.statusLine service)) ∈
        Telnet.switchCases h.build (run h events).checkFlags := List.mem_of_getElem? (i := 10) rfl
  rw [← checkFlags_run]
  exact Telnet.telnetMessageCallback_command hcase

/-- **Both status answers list which services live**, after any events. If a request
for the status arrives, the ZeroMQ server replies with the JSON object of the
services. The Telnet server answers the command with a line for each, whatever the
other server does. -/
theorem status_answers (h : Host) (events : List Event) :
    (Runs h (run h events) .zeroMQServer →
      ZeroMQ.Arrives h.net (run h events).zmq (str "SCHK") [] →
        ∃ body answer, (run h (events ++ [.round .zeroMQServer])).zmq.world.trace =
            (run h events).zmq.world.trace ++ [.recv (.parts (str "SCHK") []), .call [str "SCHK"],
              .send [ZeroMQ.intBytes ZeroMQ.ZMQ_EVENT_HANDSHAKE_SUCCEEDED, body] answer] ∧
          Json.decode body = some (ZeroMQ.statusValue (statusOf h events))) ∧
    ∃ callback, (telnetConf h (run h events)).newLineCallBack = some callback ∧ ∀ w s,
      callback w s (str "status") = (.sendLine (str "status") ::
        (statusOf h events).map fun service => .sendLine (Telnet.statusLine service), true) :=
  ⟨zeroMQ_status, telnet_status h events⟩

/-- Both servers, and a request for the status. -/
def statusHost : Host where
  build := ⟨true, str "1.0"⟩
  input := ⟨[str "--enable-zeromq", str "tcp://*:8300", str "--enable-telnet", str "23000"]⟩
  net := { (default : ZeroMQ.Net) with recv := fun _ => .parts (str "SCHK") [] }
  os := default

/-- Crashpad has the handler's socket and process, and both answer. -/
def aliveHandler : Tracer.Probe where
  getHandlerSocket := .ok (some (5, 4711))
  getsockopt := (0, 0)
  recv := -1
  kill := 0

/-- The flags are added, and all but the crashpad handler are idle after an alarm. -/
def oneRound : List Event :=
  List.replicate 4 .emplaceBack ++ [.round .telnetServer, .alarm, .round (.crashpadHandler aliveHandler)]

theorem status_answers_one : ∃ body answer,
    (run statusHost (oneRound ++ [.round .zeroMQServer])).zmq.world.trace =
        [.recv (.parts (str "SCHK") []), .call [str "SCHK"],
          .send [ZeroMQ.intBytes ZeroMQ.ZMQ_EVENT_HANDSHAKE_SUCCEEDED, body] answer] ∧
      Json.decode body = some (ZeroMQ.statusValue
        [(str "Crashpad Handler", true), (str "Self Monitor", false), (str "ZeroMQ Server", false),
          (str "Telnet Server", false)]) := by
  have hruns : Runs statusHost (run statusHost oneRound) .zeroMQServer := by decide +kernel
  obtain ⟨body, answer, htrace, hdecode⟩ := (status_answers statusHost oneRound).1 hruns ⟨rfl, rfl⟩
  have hstatus : statusOf statusHost oneRound =
      [(str "Crashpad Handler", true), (str "Self Monitor", false), (str "ZeroMQ Server", false),
        (str "Telnet Server", false)] := by decide +kernel
  refine ⟨body, answer, htrace, ?_⟩
  rw [hdecode, hstatus]

end Status

/-! ### A server that owes a reply -/

section Wedged

variable {h : Host}

/-- Its rounds are refused, and the other steps leave it alone. -/
theorem step_wedged {sys : System} (hdue : sys.zmq.world.mustReply = true) (e : Event) :
    (step h sys e).zmq.world.mustReply = true ∧
      ∃ k, (step h sys e).zmq.world.trace = sys.zmq.world.trace ++ List.replicate k .refused := by
  have hround : ∀ r, (work h sys r).2.zmq.world.mustReply = true ∧
      ∃ k, (work h sys r).2.zmq.world.trace = sys.zmq.world.trace ++ List.replicate k .refused := by
    intro r
    have hsame : sys.zmq.world.trace = sys.zmq.world.trace ++ List.replicate 0 .refused := by simp
    cases r with
    | zeroMQServer =>
      have hdue' : (zmqOf sys).world.mustReply = true := hdue
      simp only [work, ZeroMQ.update_wedged hdue']
      exact ⟨hdue, 1, rfl⟩
    | crashpadHandler probe =>
      cases hs : sys.stopCounter <;> simp only [work, hs] <;> exact ⟨hdue, 0, hsame⟩
    | selfMonitor readings => exact ⟨hdue, 0, hsame⟩
    | telnetServer => exact ⟨hdue, 0, hsame⟩
  cases e with
  | emplaceBack => exact ⟨hdue, 0, by simp [step]⟩
  | alarm => exact ⟨hdue, 0, by simp [step]⟩
  | round r =>
    rw [step_round_eq]
    split_ifs
    · exact hround r
    · exact hround r
    · exact ⟨hdue, 0, by simp⟩

/-- **A server that owes a reply is found out.** It answers nothing any more, and
from the next alarm on no status lists it as running. -/
theorem wedged_listed {before after : List Event} (hdue : (run h before).zmq.world.mustReply = true) :
    (∃ k, (run h (before ++ after)).zmq.world.trace =
        (run h before).zmq.world.trace ++ List.replicate k .refused) ∧
      (.alarm ∈ after → (Service.zeroMQServer.name, true) ∉ statusOf h (before ++ after)) := by
  have hstays : (run h (before ++ after)).zmq.world.mustReply = true ∧
      (∃ k, (run h (before ++ after)).zmq.world.trace =
        (run h before).zmq.world.trace ++ List.replicate k .refused) ∧
      (.alarm ∈ after → ¬ Lives h .zeroMQServer (before ++ after)) := by
    induction after using List.reverseRecOn with
    | nil => exact ⟨by simpa using hdue, ⟨0, by simp⟩, by simp⟩
    | append_singleton after e ih =>
      obtain ⟨hdue', ⟨k, htrace⟩, hlives⟩ := ih
      obtain ⟨hdue'', k', htrace'⟩ := step_wedged (h := h) hdue' e
      rw [← List.append_assoc, run_append_singleton]
      refine ⟨hdue'', ⟨k + k', ?_⟩, ?_⟩
      · rw [htrace', htrace, List.append_assoc, List.replicate_append_replicate]
      · intro halarm
        rw [Lives, since_append, ← Lives]
        rintro (⟨r, rfl, hservice, -, hwell⟩ | ⟨hne, hlast⟩)
        · -- a round of the server throws
          cases r <;> try cases hservice
          have hdue₁ : (zmqOf (run h (before ++ after))).world.mustReply = true := hdue'
          simp [work, ZeroMQ.update_wedged hdue₁] at hwell
        · refine hlives ?_ hlast
          rcases List.mem_append.mp halarm with hm | hm
          · exact hm
          · exact absurd (List.mem_singleton.mp hm).symm hne
  refine ⟨hstays.2.1, fun halarm hmem => ?_⟩
  obtain ⟨s, -, hs⟩ := List.mem_map.mp hmem
  obtain ⟨hname, hlives⟩ := Prod.mk.inj hs
  have hinj : ∀ s : Service, s.name = Service.zeroMQServer.name → s = .zeroMQServer := by
    intro s
    cases s <;> decide +kernel
  rw [hinj s hname] at hlives
  exact hstays.2.2 halarm (of_decide_eq_true hlives)

/-- The reply to the first ping does not go out. -/
def wedgedHost : Host :=
  { statusHost with net := { ZeroMQ.pingNet with send := fun _ => .timeout } }

theorem wedged_listed_ping :
    (∃ k, (run wedgedHost (List.replicate 4 .emplaceBack ++ [.round .zeroMQServer] ++
        [.alarm, .round .zeroMQServer])).zmq.world.trace =
      (run wedgedHost (List.replicate 4 .emplaceBack ++ [.round .zeroMQServer])).zmq.world.trace ++
        List.replicate k .refused) ∧
      (str "ZeroMQ Server", true) ∉ statusOf wedgedHost
        (List.replicate 4 .emplaceBack ++ [.round .zeroMQServer] ++ [.alarm, .round .zeroMQServer]) := by
  have hdue : (run wedgedHost
      (List.replicate 4 .emplaceBack ++ [.round .zeroMQServer])).zmq.world.mustReply = true := by
    decide +kernel
  exact ⟨(wedged_listed hdue).1, (wedged_listed hdue).2 List.mem_cons_self⟩

end Wedged

/-! ### The log level -/

/-- The level a request sets. -/
def Request.level (build : Build) : Request → Level → Level
  | .call recvMsgs, level =>
    (ZeroMQ.zeroMQServerMessageCallback build [] { level := level } recvMsgs).level
  | .line text, level => Telnet.lineLevel build text level

/-- The level a request sets, if it sets one: a two-part `LOGL` request for one it
knows, or a line whose case does. -/
def Request.sets (build : Build) : Request → Option Level
  | .call recvMsgs => ZeroMQ.levelSet build recvMsgs
  | .line text => ((Telnet.telnetMessageCallback build [] text).1.filterMap Telnet.Act.sets).getLast?

/-- It sets that level whatever it was, or leaves it. -/
theorem Request.level_eq (build : Build) (request : Request) (level : Level) :
    request.level build level = (request.sets build).getD level := by
  cases request with
  | call recvMsgs => exact ZeroMQ.callback_level build [] { level := level } recvMsgs
  | line text => exact Telnet.actsLevel_eq _ level

/-- The level after the requests. -/
def levelAfter (build : Build) (requests : List Request) (level : Level) : Level :=
  requests.foldl (fun level request => request.level build level) level

theorem levelAfter_append (build : Build) (rs rs' : List Request) (level : Level) :
    levelAfter build (rs ++ rs') level = levelAfter build rs' (levelAfter build rs level) :=
  List.foldl_append

def Request.isCall : Request → Bool
  | .call _ => true
  | .line _ => false

section Levels

variable {h : Host}

theorem callback_level (build : Build) (vCheckFlag : CheckFlags) (w : ZeroMQ.World)
    (recvMsgs : List Str) : (ZeroMQ.zeroMQServerMessageCallback build vCheckFlag w recvMsgs).level =
      (Request.call recvMsgs).level build w.level := by
  rw [ZeroMQ.callback_level, Request.level_eq]
  rfl

/-- A round of the ZeroMQ server takes the level from call to call. -/
theorem zeroMQ_heard (sys : System) : ∃ es,
    ((zmqOf sys).update h.net (some (zeroMQCallback h sys))).2.world.trace = sys.zmq.world.trace ++ es ∧
      ((zmqOf sys).update h.net (some (zeroMQCallback h sys))).2.world.level =
        levelAfter h.build (es.filterMap requestOf) sys.level := by
  have hcall : ∀ first rest, ZeroMQ.levelAfter (some (zeroMQCallback h sys)) (zmqOf sys) first rest =
      levelAfter h.build ((ZeroMQ.callEvents (some (zeroMQCallback h sys)) first rest).filterMap requestOf)
        sys.level := by
    intro first rest
    unfold ZeroMQ.levelAfter ZeroMQ.handle ZeroMQ.callEvents
    by_cases hid : first.length = 4
    · simp only [hid, ne_eq, not_true_eq_false, if_false, Option.isSome_some, and_self, if_true]
      exact callback_level h.build sys.checkFlags _ (first :: rest)
    · simp [hid, levelAfter, ZeroMQ.requestWorld, zmqOf]
  have hfilter : ∀ (calls : List ZeroMQ.Event) answer replyMsgs result,
      (ZeroMQ.Event.recv answer :: (calls ++ [.send replyMsgs result])).filterMap requestOf =
        calls.filterMap requestOf := by
    intro calls answer replyMsgs result
    simp [List.filterMap_cons, List.filterMap_append, requestOf]
  obtain ⟨o, srv, hupdate, hround⟩ :=
    ZeroMQ.update_round h.net (some (zeroMQCallback h sys)) (zmqOf sys)
  rw [hupdate]
  cases hround with
  | refused hdue htrace hdue' hlevel => exact ⟨_, htrace, hlevel⟩
  | nothing o answer ho hdue hanswer hparts htrace hdue' hlevel => exact ⟨_, htrace, hlevel⟩
  | dropped first rest harrives hreply htrace hdue' hlevel =>
    refine ⟨_, htrace, ?_⟩
    rw [hlevel, hcall]
    rfl
  | failed first rest replyMsgs ok harrives hreply hne hsend htrace hdue' hlevel =>
    rw [List.append_assoc, List.cons_append] at htrace
    refine ⟨_, htrace, ?_⟩
    rw [hlevel, hcall, hfilter]
  | handled first rest replyMsgs ok answer serverStats harrives hreply hempty hsend hanswer htrace hdue'
      hlevel =>
    rw [List.append_assoc, List.cons_append] at htrace
    refine ⟨_, htrace, ?_⟩
    rw [hlevel, hcall, hfilter]

theorem telnetConf_sets (sys : System) :
    (telnetConf h sys).Sets (Telnet.lineLevel h.build) := by
  have hsaid : ∀ (lines : List Str) (level : Level),
      Telnet.actsLevel (lines.map .sendLine) level = level := by
    intro lines level
    rw [Telnet.actsLevel_sendLines]
    rfl
  refine ⟨?_, ?_, ?_⟩
  · rintro callback hcallback w s line level
    obtain rfl := Option.some.inj hcallback
    exact Telnet.telnetMessageCallback_sets h.build sys.checkFlags line level
  · rintro callback hcallback w s level
    obtain rfl := Option.some.inj hcallback
    rfl
  · rintro callback hcallback w s line level
    obtain rfl := Option.some.inj hcallback
    show Telnet.actsLevel (Telnet.tabAnswer line).1 level = level
    unfold Telnet.tabAnswer
    split <;> rfl

/-- The requests of the servers make up those of the system, and the level is the
one they lead to. -/
structure Heard (h : Host) (sys : System) : Prop where
  calls : sys.requests.filter Request.isCall = sys.zmq.world.trace.filterMap requestOf
  lines : sys.requests.filter (fun r => !r.isCall) =
    (Telnet.passedLines sys.telnet.world.trace).map .line
  level : sys.level = levelAfter h.build sys.requests h.startLevel

theorem work_heard {sys : System} (hsys : Heard h sys) (r : Round) : Heard h (work h sys r).2 := by
  cases r with
  | crashpadHandler probe =>
    cases hs : sys.stopCounter <;> simp only [work, hs] <;> exact ⟨hsys.calls, hsys.lines, hsys.level⟩
  | selfMonitor readings => exact ⟨hsys.calls, hsys.lines, hsys.level⟩
  | zeroMQServer =>
    obtain ⟨es, htrace, hlevel⟩ := zeroMQ_heard (h := h) sys
    have hcalls : ∀ r ∈ es.filterMap requestOf, r.isCall = true := by
      intro r hr
      obtain ⟨e, -, he⟩ := List.mem_filterMap.mp hr
      cases e <;> cases he
      rfl
    have hnew : (work h sys .zeroMQServer).2.requests = sys.requests ++ es.filterMap requestOf := by
      simp only [work, htrace, List.drop_left]
    refine ⟨?_, ?_, ?_⟩
    · rw [hnew, List.filter_append, hsys.calls, List.filter_eq_self.mpr hcalls]
      simp only [work, htrace, List.filterMap_append]
    · rw [hnew, List.filter_append, hsys.lines, List.filter_eq_nil_iff.mpr (by simpa using hcalls),
        List.append_nil]
      rfl
    · rw [hnew, levelAfter_append, ← hsys.level]
      exact hlevel
  | telnetServer =>
    obtain ⟨lines, hpassed, hlevel⟩ :=
      Telnet.update_heard h.os (telnetConf_sets (h := h) sys) (telnetOf sys)
    have hnew : (work h sys .telnetServer).2.requests = sys.requests ++ lines.map .line := by
      have hold : Telnet.passedLines (telnetOf sys).world.trace =
          Telnet.passedLines sys.telnet.world.trace := rfl
      simp only [work, hpassed, hold, List.drop_left]
    refine ⟨?_, ?_, ?_⟩
    · rw [hnew, List.filter_append, hsys.calls, List.filter_eq_nil_iff.mpr (by simp [Request.isCall]),
        List.append_nil]
      rfl
    · rw [hnew, List.filter_append, hsys.lines, List.filter_eq_self.mpr (by simp [Request.isCall])]
      simp only [work, hpassed, List.map_append]
      rfl
    · rw [hnew, levelAfter_append, ← hsys.level, levelAfter, List.foldl_map]
      exact hlevel

theorem run_heard (h : Host) (events : List Event) : Heard h (run h events) := by
  induction events using List.reverseRecOn with
  | nil => exact ⟨rfl, rfl, rfl⟩
  | append_singleton events e ih =>
    rw [run_append_singleton]
    cases e with
    | emplaceBack => exact ⟨ih.calls, ih.lines, ih.level⟩
    | alarm => exact ⟨ih.calls, ih.lines, ih.level⟩
    | round r =>
      have hwork := work_heard ih r
      rw [step_round_eq]
      split_ifs
      · exact ⟨hwork.calls, hwork.lines, hwork.level⟩
      · exact hwork
      · exact ih

/-- **The level is that of the last request that sets it**, to either server,
after any rounds and alarms. A request sets a level of its own, or none. -/
theorem level_requests (h : Host) (events : List Event) :
    Heard h (run h events) ∧
      (∀ (request : Request) level, request.level h.build level = (request.sets h.build).getD level) ∧
      (run h events).level =
        (((run h events).requests.filterMap (Request.sets h.build)).getLast?).getD h.startLevel := by
  have hheard := run_heard h events
  refine ⟨hheard, Request.level_eq h.build, ?_⟩
  rw [hheard.level]
  exact foldl_eq_last (fun level request => Request.level_eq h.build request level) h.startLevel _

end Levels

end Running
end RepoInit
