/-
# `main`

`main` holds its services in nested scopes and leaves them by `return`; what
throws where nothing catches it ends the process as it is. The objects, the
threads they start and what those use give a `Block`. Between the operations of
`main` the threads run in any order: no thread and no destructor ever uses an
object that is gone, except where `main` returns success and either a Loki
address is configured, since `curl_global_cleanup` comes before the logger that
holds an HTTP client, or a Telnet session is left, which keeps the server and its
thread (`main_safe_iff`). `vCheckFlag` is extended while a thread may read it exactly
if the run starts the ZeroMQ server, whose thread is the one that reads
(`main_races_iff`). The handler of SIGALRM is left out. What is taken for a Telnet
port is in `telnetPort_eq_some_iff`.

Key definitions: `Env`, `main`, `process`, `uses`.
Key theorems: `telnetPort_eq_some_iff`, `main_safe_iff`, `main_races_iff`.
-/
import RepoInit.ConfigParser
import RepoInit.InputParser
import RepoInit.Lib.Lifetimes
import RepoInit.Metrics.DiskIO

namespace RepoInit
namespace Main

open Lifetimes

inductive Object where
  /-- `vCheckFlag`, which is global. -/
  | checkFlags
  | config
  /-- What `curl_global_init` sets up. -/
  | curl
  | logger
  | tracer
  | prometheusServer
  | selfMonitor
  | zmqController
  | telnetController
  deriving DecidableEq, Repr

inductive Thread where
  /-- spdlog's, which flushes the loggers from time to time. -/
  | flusher
  | tracer
  | selfMonitor
  | zmqMonitor
  | zmqServer
  | telnetServer
  deriving DecidableEq, Repr

inductive Exit where
  | success
  | failure
  /-- An exception that is not caught: `std::terminate`. -/
  | terminate
  deriving DecidableEq, Repr

/-- A return destroys the objects, `std::terminate` does not. -/
def Exit.unwinds : Exit → Bool
  | .terminate => false
  | _ => true

/-- What becomes of a server that `main` constructs and initialises. -/
inductive Start where
  /-- The constructor throws. -/
  | noObject
  /-- `initialise` throws. -/
  | throws
  /-- `initialise` returns false, which is not looked at. -/
  | fails
  | starts
  deriving DecidableEq, Repr

/-- The arguments, the files, and what the constructors and the system do. -/
structure Env where
  input : InputParser
  rapidJson : RapidJson
  file : Str → Option Str
  /-- Whether the constructor returns, here and below. -/
  logger : Bool
  /-- `std::signal` does not return `SIG_ERR`. -/
  sigint : Bool
  sigterm : Bool
  sigalrm : Bool
  tracer : Bool
  prometheusServer : Bool
  selfMonitor : Bool
  zmqController : Start
  telnetController : Start
  /-- The Telnet sessions when `main` stops waiting. -/
  sessions : ℕ

namespace Env

variable (env : Env)

def config : ConfigParser :=
  let path := if env.input.cmdOptionExists (str "--config") then
    env.input.getCmdOption (str "--config") else str "config.json"
  ConfigParser.new env.rapidJson path (env.file path)

def lokiAddress : Str := env.config.get (str "LOKI_ADDRESS")
def prometheusAddr : Str := env.input.getCmdOption (str "--enable-prometheus")
def zeromqServerAddr : Str := env.input.getCmdOption (str "--enable-zeromq")

/-- `std::stoul` and the check of the range; `none` if either throws. -/
def telnetPort : Option UInt64 :=
  match ProcessMetrics.stoull (env.input.getCmdOption (str "--enable-telnet")) with
  | .error _ => none
  | .ok port => if port < 1 ∨ port > 65535 then none else some port

end Env

/-- **The ports that are taken.** White space, a sign and digits, whatever follows
them: the number from 1 to 65535, or 2^64 less the number behind a minus. -/
theorem telnetPort_eq_some_iff (env : Env) (port : UInt64) : env.telnetPort = some port ↔
    1 ≤ port.toNat ∧ port.toNat ≤ 65535 ∧ ∃ sign digits,
      ProcessMetrics.IsNumber (env.input.getCmdOption (str "--enable-telnet")) sign digits ∧
      ProcessMetrics.digitsValue digits =
        if sign = [0x2D] then UInt64.size - port.toNat else port.toNat := by
  have hrange : ¬ (port < 1 ∨ port > 65535) ↔ 1 ≤ port.toNat ∧ port.toNat ≤ 65535 := by
    simp only [UInt64.lt_iff_toNat_lt, gt_iff_lt, not_or, Nat.not_lt]
    rfl
  have hvalue : ∀ (sign : Str) (n : ℕ), 1 ≤ port.toNat →
      ((n < 2 ^ 64 ∧ port = if sign = [0x2D] then -UInt64.ofNat n else UInt64.ofNat n) ↔
        n = if sign = [0x2D] then UInt64.size - port.toNat else port.toNat) := by
    intro sign n hpos
    have hlt : port.toNat < UInt64.size := port.toNat_lt
    have hsize : 2 ^ 64 = UInt64.size := rfl
    split
    · rw [← UInt64.toNat_inj, UInt64.toNat_neg, UInt64.toNat_ofNat', hsize]
      simp only [UInt64.size] at hlt ⊢
      omega
    · rw [← UInt64.toNat_inj, UInt64.toNat_ofNat', hsize]
      simp only [UInt64.size] at hlt ⊢
      omega
  have htaken : env.telnetPort = some port ↔
      ProcessMetrics.stoull (env.input.getCmdOption (str "--enable-telnet")) = .ok port ∧
        ¬ (port < 1 ∨ port > 65535) := by
    unfold Env.telnetPort
    cases ProcessMetrics.stoull (env.input.getCmdOption (str "--enable-telnet")) with
    | error e => simp
    | ok v =>
      simp only [Except.ok.injEq]
      constructor
      · intro h
        split at h
        · cases h
        · rename_i hv
          obtain rfl := Option.some.inj h
          exact ⟨rfl, hv⟩
      · rintro ⟨rfl, hv⟩
        rw [if_neg hv]
  rw [htaken, hrange, ProcessMetrics.stoull_eq_ok_iff]
  constructor
  · rintro ⟨⟨sign, digits, hnumber, hport⟩, hpos, hle⟩
    exact ⟨hpos, hle, sign, digits, hnumber, (hvalue sign _ hpos).mp hport⟩
  · rintro ⟨hpos, hle, sign, digits, hnumber, hport⟩
    exact ⟨⟨sign, digits, hnumber, (hvalue sign _ hpos).mpr hport⟩, hpos, hle⟩

/-- What a thread uses. It logs through the default logger of spdlog, which is
never missing. -/
def uses (env : Env) : Thread → List Object
  | .flusher => .logger :: if env.lokiAddress ≠ [] then [.curl] else []
  | .tracer => [.tracer]
  | .selfMonitor => [.selfMonitor, .prometheusServer]
  | .zmqMonitor => [.zmqController]
  | .zmqServer =>
    [.zmqController, .checkFlags] ++ if env.prometheusAddr ≠ [] then [.prometheusServer] else []
  | .telnetServer =>
    [.telnetController, .checkFlags] ++ if env.prometheusAddr ≠ [] then [.prometheusServer] else []

abbrev Body := Block Object Thread Exit

section Main

variable (env : Env)

/-- The loop that waits for `interruptFlag`, and `curl_global_cleanup`. -/
def wait : Body := .op (.drop .curl) (.exit .success)

/-- The Telnet server is held by its sessions too. -/
def startTelnet : Body :=
  .op (.write .checkFlags) <|
  if env.input.cmdOptionExists (str "--enable-telnet") then
    match env.telnetPort with
    | none => .exit .failure
    | some _ =>
      match env.telnetController with
      | .noObject => .exit .failure
      | .throws => .scope .telnetController [] [] false (.exit .failure)
      | .fails => .scope .telnetController [] [] false wait
      | .starts => .scope .telnetController [.telnetServer] [] (env.sessions ≠ 0) wait
  else wait

/-- The constructor starts the monitor, and `initialise` the server; that returns
false only for a server that is active. -/
def startZeroMQ : Body :=
  .op (.write .checkFlags) <|
  if env.zeromqServerAddr = [] then startTelnet env
  else
    match env.zmqController with
    | .noObject => .exit .failure
    | .throws => .scope .zmqController [.zmqMonitor] [] false (.exit .failure)
    | .fails => .scope .zmqController [.zmqMonitor] [] false (startTelnet env)
    | .starts => .scope .zmqController [.zmqMonitor, .zmqServer] [] false (startTelnet env)

def startSelfMonitor : Body :=
  .op (.write .checkFlags) <|
  if env.prometheusAddr = [] then startZeroMQ env
  else if env.selfMonitor then .scope .selfMonitor [.selfMonitor] [] false (startZeroMQ env)
  else .exit .terminate

def startPrometheus : Body :=
  if env.prometheusAddr = [] then startSelfMonitor env
  else if env.prometheusServer then .scope .prometheusServer [] [] false (startSelfMonitor env)
  else .exit .failure

def startTracer : Body :=
  .op (.write .checkFlags) <|
  if env.tracer then .scope .tracer [.tracer] [] false (startPrometheus env) else .exit .terminate

/-- The destructor of the logger goes through its sinks, and a Loki sink holds a
curl handle. The result of `curl_global_init` is unsigned, and is never found to
be below zero. -/
def main : Body :=
  .scope .config [] [] false <|
  .op (.make .curl) <|
  if env.config.isValid = false ∨ env.logger = false then .exit .terminate
  else
    .scope .logger [.flusher] (if env.lokiAddress ≠ [] then [.curl] else []) false <|
    if env.sigint = false ∨ env.sigterm = false ∨ env.sigalrm = false then .exit .failure
    else startTracer env

/-- `main`, with what is global around it. -/
def process : Body := .scope .checkFlags [] [] false (main env)

/-- The operations of a run. -/
def run : List (Op Object Thread) := (process env).ops Exit.unwinds

/-- The Telnet server that was started is kept by a session. -/
def TelnetKept : Prop :=
  env.input.cmdOptionExists (str "--enable-telnet") = true ∧ env.telnetPort.isSome ∧
    env.telnetController = .starts ∧ env.sessions ≠ 0

instance : Decidable (TelnetKept env) := inferInstanceAs (Decidable (_ ∧ _ ∧ _ ∧ _))

end Main

/-- Before the first object. -/
def start : State Object Thread := { alive := [], running := [] }

/-! ### Safe runs -/

section Nested

variable {env : Env} {free objs : List Object}

/-- What is around when the servers start; only curl may go early. -/
structure Serving (env : Env) (free objs : List Object) : Prop where
  free : ∀ r ∈ free, r = .curl
  checkFlags : .checkFlags ∈ objs
  curl : .curl ∈ objs
  prometheusServer : env.prometheusAddr ≠ [] → .prometheusServer ∈ objs

theorem wait_nested (h : Serving env free objs) (hcurl : .curl ∈ free) :
    wait.Nested (uses env) free objs :=
  ⟨⟨h.curl, hcurl⟩, trivial⟩

/-- One more object around. -/
theorem Serving.cons (h : Serving env free objs) (r : Object) : Serving env free (r :: objs) :=
  ⟨h.free, List.mem_cons_of_mem _ h.checkFlags, List.mem_cons_of_mem _ h.curl,
    fun hp => List.mem_cons_of_mem _ (h.prometheusServer hp)⟩

theorem Serving.not_free (h : Serving env free objs) {r : Object} (hr : r ≠ .curl) : r ∉ free :=
  fun hm => hr (h.free r hm)

/-- What the threads of the servers use is around. -/
theorem Serving.server (h : Serving env free objs) {r : Object} {x : Object} (hr : r ≠ .curl)
    (hx : x ∈ [r, .checkFlags] ++ if env.prometheusAddr ≠ [] then [.prometheusServer] else []) :
    x ∈ r :: objs ∧ x ∉ free := by
  rcases List.mem_append.mp hx with hx | hx
  · simp only [List.mem_cons, List.not_mem_nil, or_false] at hx
    rcases hx with rfl | rfl
    · exact ⟨List.mem_cons_self, h.not_free hr⟩
    · exact ⟨List.mem_cons_of_mem _ h.checkFlags, h.not_free (by decide)⟩
  · split at hx
    · rename_i hp
      rw [List.mem_singleton.mp hx]
      exact ⟨List.mem_cons_of_mem _ (h.prometheusServer hp), h.not_free (by decide)⟩
    · simp at hx

theorem startTelnet_nested (h : Serving env free objs) (hnew : .telnetController ∉ objs)
    (hend : (startTelnet env).result = .success → .curl ∈ free ∧ ¬ TelnetKept env) :
    (startTelnet env).Nested (uses env) free objs := by
  refine ⟨⟨h.checkFlags, h.not_free (by decide)⟩, ?_⟩
  have hout : .telnetController ∉ free := h.not_free (by decide)
  unfold startTelnet Block.result at hend
  split at hend
  · rename_i hexists
    rw [if_pos hexists]
    cases hport : env.telnetPort with
    | none => trivial
    | some port =>
      rw [hport] at hend
      cases hstart : env.telnetController with
      | noObject => trivial
      | throws => exact ⟨⟨rfl, hnew, hout⟩, by simp, by simp, trivial⟩
      | fails =>
        rw [hstart] at hend
        exact ⟨⟨rfl, hnew, hout⟩, by simp, by simp, wait_nested (h.cons _) (hend rfl).1⟩
      | starts =>
        rw [hstart] at hend
        have hsessions : env.sessions = 0 := by
          by_contra hne
          exact (hend rfl).2 ⟨hexists, by simp [hport], hstart, hne⟩
        refine ⟨⟨by simp [hsessions], hnew, hout⟩, ?_, by simp, wait_nested (h.cons _) (hend rfl).1⟩
        intro w hw x hx
        rw [List.mem_singleton.mp hw] at hx
        exact h.server (by decide) hx
  · rename_i hexists
    rw [if_neg hexists]
    exact wait_nested h (hend rfl).1

theorem startZeroMQ_nested (h : Serving env free objs)
    (hnew : .telnetController ∉ objs ∧ .zmqController ∉ objs)
    (hend : (startZeroMQ env).result = .success → .curl ∈ free ∧ ¬ TelnetKept env) :
    (startZeroMQ env).Nested (uses env) free objs := by
  refine ⟨⟨h.checkFlags, h.not_free (by decide)⟩, ?_⟩
  have hout : .zmqController ∉ free := h.not_free (by decide)
  have hnew' : .telnetController ∉ Object.zmqController :: objs := by simp [hnew.1]
  unfold startZeroMQ Block.result at hend
  split at hend
  · rename_i haddr
    rw [if_pos haddr]
    exact startTelnet_nested h hnew.1 hend
  · rename_i haddr
    rw [if_neg haddr]
    cases hstart : env.zmqController with
    | noObject => trivial
    | throws =>
      refine ⟨⟨rfl, hnew.2, hout⟩, ?_, by simp, trivial⟩
      simp [uses, hout]
    | fails =>
      rw [hstart] at hend
      refine ⟨⟨rfl, hnew.2, hout⟩, ?_, by simp, startTelnet_nested (h.cons _) hnew' hend⟩
      simp [uses, hout]
    | starts =>
      rw [hstart] at hend
      refine ⟨⟨rfl, hnew.2, hout⟩, ?_, by simp, startTelnet_nested (h.cons _) hnew' hend⟩
      intro w hw x hx
      simp only [List.mem_cons, List.not_mem_nil, or_false] at hw
      rcases hw with rfl | rfl
      · rw [List.mem_singleton.mp hx]
        exact ⟨List.mem_cons_self, hout⟩
      · exact h.server (by decide) hx

theorem startSelfMonitor_nested (h : Serving env free objs)
    (hnew : ∀ r ∈ [Object.telnetController, .zmqController, .selfMonitor], r ∉ objs)
    (hend : (startSelfMonitor env).result = .success → .curl ∈ free ∧ ¬ TelnetKept env) :
    (startSelfMonitor env).Nested (uses env) free objs := by
  refine ⟨⟨h.checkFlags, h.not_free (by decide)⟩, ?_⟩
  have hout : ∀ r ∈ [Object.selfMonitor, .prometheusServer], r ∉ free := fun r hr =>
    h.not_free fun he => by simp [he] at hr
  unfold startSelfMonitor Block.result at hend
  split at hend
  · rename_i haddr
    rw [if_pos haddr]
    exact startZeroMQ_nested h ⟨hnew _ (by simp), hnew _ (by simp)⟩ hend
  · rename_i haddr
    rw [if_neg haddr]
    split at hend
    · rename_i hself
      rw [if_pos hself]
      refine ⟨⟨rfl, hnew _ (by simp), hout _ (by simp)⟩, ?_, by simp,
        startZeroMQ_nested (h.cons _) ?_ hend⟩
      · intro w hw x hx
        rw [List.mem_singleton.mp hw] at hx
        refine ⟨?_, hout x hx⟩
        simp only [uses, List.mem_cons, List.not_mem_nil, or_false] at hx
        rcases hx with rfl | rfl
        · exact List.mem_cons_self
        · exact List.mem_cons_of_mem _ (h.prometheusServer haddr)
      · simpa using ⟨hnew _ (by simp), hnew _ (by simp)⟩
    · rename_i hself
      rw [if_neg hself]
      trivial

end Nested

section Start

variable {env : Env} {free objs : List Object}

theorem startPrometheus_nested (hfree : ∀ r ∈ free, r = .curl) (hflags : .checkFlags ∈ objs)
    (hcurlObj : .curl ∈ objs)
    (hnew : ∀ r ∈ [Object.telnetController, .zmqController, .selfMonitor, .prometheusServer], r ∉ objs)
    (hend : (startPrometheus env).result = .success → .curl ∈ free ∧ ¬ TelnetKept env) :
    (startPrometheus env).Nested (uses env) free objs := by
  have hout : .prometheusServer ∉ free := fun hm => absurd (hfree _ hm) (by decide)
  have hothers : ∀ r ∈ [Object.telnetController, .zmqController, .selfMonitor], r ∉ objs :=
    fun r hr => hnew r (by simp at hr ⊢; tauto)
  unfold startPrometheus at hend ⊢
  split at hend
  · rename_i haddr
    rw [if_pos haddr]
    exact startSelfMonitor_nested ⟨hfree, hflags, hcurlObj, fun hne => absurd haddr hne⟩ hothers hend
  · rename_i haddr
    rw [if_neg haddr]
    split at hend
    · rename_i hstart
      rw [if_pos hstart]
      refine ⟨⟨rfl, hnew _ (by simp), hout⟩, by simp, by simp,
        startSelfMonitor_nested ⟨hfree, List.mem_cons_of_mem _ hflags, List.mem_cons_of_mem _ hcurlObj,
          fun _ => List.mem_cons_self⟩ (fun r hr => ?_) hend⟩
      refine List.not_mem_cons_of_ne_of_not_mem ?_ (hothers r hr)
      rintro rfl
      simp at hr
    · rename_i hstart
      rw [if_neg hstart]
      trivial

theorem process_nested (hfree : ∀ r ∈ free, r = .curl)
    (hloki : env.lokiAddress ≠ [] → .curl ∉ free)
    (hend : (process env).result = .success → .curl ∈ free ∧ ¬ TelnetKept env) :
    (process env).Nested (uses env) free [] := by
  have hout : ∀ r, r ≠ .curl → r ∉ free := fun r hne hm => hne (hfree r hm)
  refine ⟨⟨rfl, by simp, hout _ (by decide)⟩, by simp, by simp, ?_⟩
  refine ⟨⟨rfl, by simp, hout _ (by decide)⟩, by simp, by simp, by simp, ?_⟩
  unfold process main Block.result Block.result Block.result at hend
  split at hend
  · rename_i hbad
    rw [if_pos hbad]
    trivial
  · rename_i hgood
    rw [if_neg hgood]
    refine ⟨⟨rfl, by simp, hout _ (by decide)⟩, ?_, ?_, ?_⟩
    · intro w hw x hx
      rw [List.mem_singleton.mp hw] at hx
      rcases List.mem_cons.mp hx with rfl | hx
      · exact ⟨List.mem_cons_self, hout _ (by decide)⟩
      · split at hx
        · rename_i hne
          rw [List.mem_singleton.mp hx]
          exact ⟨by simp, hloki hne⟩
        · simp at hx
    · intro x hx
      split at hx
      · rename_i hne
        rw [List.mem_singleton.mp hx]
        exact ⟨by simp, hloki hne⟩
      · simp at hx
    · unfold Block.result at hend
      split at hend
      · rename_i hsignal
        rw [if_pos hsignal]
        trivial
      · rename_i hsignal
        rw [if_neg hsignal]
        refine ⟨⟨by simp, hout _ (by decide)⟩, ?_⟩
        unfold startTracer Block.result at hend
        split at hend
        · rename_i htracer
          rw [if_pos htracer]
          refine ⟨⟨rfl, by simp, hout _ (by decide)⟩, ?_, by simp,
            startPrometheus_nested hfree (by simp) (by simp) (by simp) hend⟩
          intro w hw x hx
          rw [List.mem_singleton.mp hw] at hx
          rw [List.mem_singleton.mp hx]
          exact ⟨List.mem_cons_self, hout _ (by decide)⟩
        · rename_i htracer
          rw [if_neg htracer]
          trivial

end Start

/-! ### Runs that are not safe -/

section Reaches

variable {env : Env} {w : Thread}

theorem startZeroMQ_reaches (hmonitor : w ≠ .zmqMonitor) (hserver : w ≠ .zmqServer)
    (h : (startZeroMQ env).result = .success) :
    Block.Reaches w (startTelnet env) (startZeroMQ env) := by
  refine .op (by simp) ?_
  unfold startZeroMQ Block.result at h
  split at h
  · rename_i haddr
    rw [if_pos haddr]
    exact .here
  · rename_i haddr
    rw [if_neg haddr]
    cases hstart : env.zmqController with
    | noObject => rw [hstart] at h; cases h
    | throws => rw [hstart] at h; cases h
    | fails => exact .scope (by simpa using hmonitor) .here
    | starts => exact .scope (by simpa using ⟨hmonitor, hserver⟩) .here

theorem startSelfMonitor_reaches (hself : w ≠ .selfMonitor) (hmonitor : w ≠ .zmqMonitor)
    (hserver : w ≠ .zmqServer) (h : (startSelfMonitor env).result = .success) :
    Block.Reaches w (startTelnet env) (startSelfMonitor env) := by
  refine .op (by simp) ?_
  unfold startSelfMonitor Block.result at h
  split at h
  · rename_i haddr
    rw [if_pos haddr]
    exact startZeroMQ_reaches hmonitor hserver h
  · rename_i haddr
    rw [if_neg haddr]
    split at h
    · rename_i hstart
      rw [if_pos hstart]
      exact .scope (by simpa using hself) (startZeroMQ_reaches hmonitor hserver h)
    · cases h

/-- A run that succeeds comes to the start of the Telnet server. -/
theorem startTracer_reaches (hw : w ∉ [Thread.tracer, .selfMonitor, .zmqMonitor, .zmqServer])
    (h : (startTracer env).result = .success) : Block.Reaches w (startTelnet env) (startTracer env) := by
  simp only [List.mem_cons, List.not_mem_nil, or_false, not_or] at hw
  obtain ⟨htracer, hself, hmonitor, hserver⟩ := hw
  refine .op (by simp) ?_
  unfold startTracer Block.result at h
  split at h
  · rename_i hstart
    rw [if_pos hstart]
    refine .scope (by simpa using htracer) ?_
    unfold startPrometheus at h ⊢
    split at h
    · rename_i haddr
      rw [if_pos haddr]
      exact startSelfMonitor_reaches hself hmonitor hserver h
    · rename_i haddr
      rw [if_neg haddr]
      split at h
      · rename_i hprom
        rw [if_pos hprom]
        exact .scope (by simp) (startSelfMonitor_reaches hself hmonitor hserver h)
      · cases h
  · cases h

/-- From there it comes to the end of the wait. -/
theorem startTelnet_reaches (hw : w ≠ .telnetServer) (h : (startTelnet env).result = .success) :
    Block.Reaches w wait (startTelnet env) := by
  refine .op (by simp) ?_
  unfold startTelnet Block.result at h
  split at h
  · rename_i hexists
    rw [if_pos hexists]
    cases hport : env.telnetPort with
    | none => rw [hport] at h; cases h
    | some port =>
      rw [hport] at h
      cases hstart : env.telnetController with
      | noObject => rw [hstart] at h; cases h
      | throws => rw [hstart] at h; cases h
      | fails => exact .scope (by simp) .here
      | starts => exact .scope (by simpa using hw) .here
  · rename_i hexists
    rw [if_neg hexists]
    exact .here

/-- The logger is around it. -/
theorem process_success (h : (process env).result = .success) :
    (startTracer env).result = .success ∧
      process env = .scope .checkFlags [] [] false (.scope .config [] [] false (.op (.make .curl)
        (.scope .logger [.flusher] (if env.lokiAddress ≠ [] then [.curl] else []) false
          (startTracer env)))) := by
  unfold process main Block.result Block.result Block.result at h
  split at h
  · cases h
  · rename_i hgood
    unfold Block.result at h
    split at h
    · cases h
    · rename_i hsignal
      refine ⟨h, ?_⟩
      unfold process main
      rw [if_neg hgood, if_neg hsignal]

end Reaches

section Unsafe

variable {env : Env} (h : (process env).result = .success)

include h

/-- With a Loki address the flusher runs when curl goes. -/
theorem not_sound_of_loki (hloki : env.lokiAddress ≠ []) : ¬ Sound (uses env) start (run env) := by
  intro hs
  obtain ⟨htracer, heq⟩ := process_success h
  have hreach : Block.Reaches .flusher (startTelnet env) (startTracer env) :=
    startTracer_reaches (by decide) htracer
  have hwait : Block.Reaches .flusher wait (startTracer env) :=
    hreach.trans (startTelnet_reaches (by decide) (hreach.result_eq ▸ htracer))
  rw [run, heq] at hs
  obtain ⟨s, hrunning, -, -, hcovered⟩ :=
    hwait.sound (by simp) (Block.sound_body (Block.sound_body (Block.sound_body hs)).2.2)
  have hcurl := hcovered .flusher hrunning .curl (by simp [uses, hloki])
  exact absurd (List.mem_filter.mp hcurl).2 (by simp)

/-- A server that is kept has its thread run on when the check flags go. -/
theorem not_sound_of_kept (hkept : TelnetKept env) : ¬ Sound (uses env) start (run env) := by
  intro hs
  obtain ⟨htracer, heq⟩ := process_success h
  obtain ⟨hexists, hport, hstarts, hsessions⟩ := hkept
  obtain ⟨port, hport⟩ := Option.isSome_iff_exists.mp hport
  have htelnet : startTelnet env = .op (.write .checkFlags)
      (.scope .telnetController [.telnetServer] [] true wait) := by
    simp [startTelnet, hexists, hport, hstarts, hsessions]
  have hreach : Block.Reaches .telnetServer (startTelnet env) (process env) := by
    rw [heq]
    refine .scope (by simp) (.scope (by simp) (.op (by simp) (.scope (by simp) ?_)))
    exact startTracer_reaches (by decide) htracer
  have hrunning : .telnetServer ∈ (after start (run env)).running := by
    refine hreach.running fun s => ?_
    rw [htelnet]
    exact List.mem_cons_self
  have hgone : .checkFlags ∉ (after start (run env)).alive :=
    Block.not_mem_alive_of_left start .checkFlags [] [] (by
      show Exit.unwinds (process env).result = true
      rw [h]
      rfl)
  exact hgone (hs.last .telnetServer hrunning .checkFlags (by simp [uses]))

end Unsafe

/-- **No thread and no destructor of `main` uses an object that is gone**, in any
order of the threads, except where `main` succeeds with a Loki address configured
or with a Telnet session left. -/
theorem main_safe_iff (env : Env) : (∀ es, Schedule (uses env) start (run env) es → Safe start es) ↔
    ¬ ((process env).result = .success ∧ (env.lokiAddress ≠ [] ∨ TelnetKept env)) := by
  rw [safe_iff_sound]
  constructor
  · rintro hs ⟨hsuccess, hloki | hkept⟩
    · exact not_sound_of_loki hsuccess hloki hs
    · exact not_sound_of_kept hsuccess hkept hs
  · intro hno
    have haround : ∀ free, Block.Around (uses env) free [] start := fun free =>
      ⟨by simp, by simp [start]⟩
    by_cases hsuccess : (process env).result = .success
    · have hloki : env.lokiAddress = [] := by
        by_contra hne
        exact hno ⟨hsuccess, .inl hne⟩
      have hnested : (process env).Nested (uses env) [.curl] [] :=
        process_nested (by simp) (fun hne => absurd hloki hne)
          fun _ => ⟨List.mem_cons_self, fun hkept => hno ⟨hsuccess, .inr hkept⟩⟩
      exact (Block.nested_sound Exit.unwinds hnested (haround _)).1
    · have hnested : (process env).Nested (uses env) [] [] :=
        process_nested (by simp) (by simp) fun h => absurd h hsuccess
      exact (Block.nested_sound Exit.unwinds hnested (haround _)).1

/-- Everything starts. -/
def startingEnv (args : List Str) (members : List (Str × Json.Value)) (sessions : ℕ) : Env where
  input := ⟨args⟩
  rapidJson := { parse := fun _ => .ok (.object members), write := fun _ => [] }
  file := fun _ => some []
  logger := true
  sigint := true
  sigterm := true
  sigalrm := true
  tracer := true
  prometheusServer := true
  selfMonitor := true
  zmqController := .starts
  telnetController := .starts
  sessions := sessions

def allServers : List Str :=
  [str "--enable-prometheus", str "localhost:8200", str "--enable-zeromq", str "tcp://*:8300",
    str "--enable-telnet", str "23000"]

example : Sound (uses (startingEnv allServers [] 0)) start (run (startingEnv allServers [] 0)) := by
  decide

-- a session is left
example : ¬ Sound (uses (startingEnv allServers [] 1)) start (run (startingEnv allServers [] 1)) := by
  decide

/-! ### Races on the check flags -/

section Races

-- what the threads use, or a part of it
variable {env : Env} {s : State Object Thread} {u : Thread → List Object}

/-- No thread that runs reads the check flags. -/
def Unread (u : Thread → List Object) (ws : List Thread) : Prop := ∀ w ∈ ws, .checkFlags ∉ u w

/-- Only the servers that answer requests read the check flags. -/
structure ServersRead (u : Thread → List Object) : Prop where
  flusher : .checkFlags ∉ u .flusher
  tracer : .checkFlags ∉ u .tracer
  selfMonitor : .checkFlags ∉ u .selfMonitor
  zmqMonitor : .checkFlags ∉ u .zmqMonitor

theorem serversRead_uses (env : Env) : ServersRead (uses env) := by constructor <;> simp [uses]

theorem unread_nil : Unread u [] := fun _ hw => absurd hw List.not_mem_nil

theorem unread_singleton {w : Thread} (h : .checkFlags ∉ u w) : Unread u [w] := by
  intro w' hw
  rwa [List.mem_singleton.mp hw]

theorem Unread.quiet_write (h : Unread u s.running) {next : Body} :
    Quiet u s ((Block.op (.write .checkFlags) next).ops Exit.unwinds) ↔
      Quiet u s (next.ops Exit.unwinds) := by
  constructor
  · exact fun hq => hq.2
  · refine fun hq => ⟨?_, hq⟩
    rintro r hr w hw
    cases hr
    exact h w hw

theorem wait_quiet : Quiet u s (wait.ops Exit.unwinds) := ⟨by simp, trivial⟩

/-- Only the first operation writes. -/
theorem startTelnet_quiet : Quiet u s ((startTelnet env).ops Exit.unwinds) ↔ Unread u s.running := by
  have hrest : ∀ next, startTelnet env = .op (.write .checkFlags) next →
      Quiet u s (next.ops Exit.unwinds) := by
    rintro next h
    obtain ⟨-, rfl⟩ := Block.op.inj h
    split
    · split
      · exact quiet_nil _
      · split
        · exact quiet_nil _
        · exact Block.quiet_scope.mpr (quiet_nil _)
        · exact Block.quiet_scope.mpr wait_quiet
        · exact Block.quiet_scope.mpr wait_quiet
    · exact wait_quiet
  constructor
  · exact fun h w hw => h.1 _ rfl w hw
  · intro h
    exact h.quiet_write.mpr (hrest _ rfl)

theorem startTelnet_spawn : .spawn .zmqServer ∉ (startTelnet env).ops Exit.unwinds := by
  unfold startTelnet
  split
  · split
    · simp
    · split <;> simp [wait]
  · simp [wait]

/-- The block is quiet exactly if it does not start the ZeroMQ server where that
reads the flags. -/
def QuietUnlessStarted (u : Thread → List Object) (b : Body) : Prop :=
  ∀ s, Unread u s.running → (Quiet u s (b.ops Exit.unwinds) ↔
    (.checkFlags ∈ u .zmqServer → .spawn .zmqServer ∉ b.ops Exit.unwinds))

theorem quietUnlessStarted_exit (e : Exit) : QuietUnlessStarted u (.exit e) := fun s _ => by simp

theorem QuietUnlessStarted.write {next : Body} (h : QuietUnlessStarted u next) :
    QuietUnlessStarted u (.op (.write .checkFlags) next) := by
  intro s hs
  rw [hs.quiet_write, h s hs]
  simp

theorem QuietUnlessStarted.make {next : Body} (h : QuietUnlessStarted u next) (r : Object) :
    QuietUnlessStarted u (.op (.make r) next) := by
  intro s hs
  have hmade := h ((Op.make r).apply s) hs
  simpa [Block.ops, Quiet] using hmade

/-- A scope whose threads do not read the flags. -/
theorem QuietUnlessStarted.scope {body : Body} (h : QuietUnlessStarted u body) (r : Object)
    {ws : List Thread} (closing : List Object) (held : Bool) (hws : Unread u ws) :
    QuietUnlessStarted u (.scope r ws closing held body) := by
  intro s hs
  have hinside : Unread u (ws.reverse ++ s.running) := by
    intro w hw
    rcases List.mem_append.mp hw with hw | hw
    · exact hws w (List.mem_reverse.mp hw)
    · exact hs w hw
  have hserver : .checkFlags ∈ u .zmqServer → .zmqServer ∉ ws := fun hread hm => hws _ hm hread
  rw [Block.quiet_scope, h { alive := r :: s.alive, running := ws.reverse ++ s.running } hinside,
    Block.spawn_mem_scope]
  constructor
  · exact fun hno hread hm => hm.elim (hserver hread) (hno hread)
  · exact fun hno hread hm => hno hread (.inr hm)

theorem startTelnet_quietUnlessStarted : QuietUnlessStarted u (startTelnet env) := by
  intro s hs
  rw [startTelnet_quiet]
  exact ⟨fun _ _ => startTelnet_spawn, fun _ => hs⟩

section

variable (hread : ServersRead u)

include hread

/-- Its thread reads the check flags when those of the Telnet server are added. -/
theorem startZeroMQ_quietUnlessStarted : QuietUnlessStarted u (startZeroMQ env) := by
  have hmonitor : Unread u [.zmqMonitor] := unread_singleton hread.zmqMonitor
  refine .write ?_
  split
  · exact startTelnet_quietUnlessStarted
  · cases env.zmqController with
    | noObject => exact quietUnlessStarted_exit _
    | throws => exact (quietUnlessStarted_exit _).scope _ _ _ hmonitor
    | fails => exact startTelnet_quietUnlessStarted.scope _ _ _ hmonitor
    | starts =>
      intro s hs
      have hrunning : Unread u (.zmqServer :: .zmqMonitor :: s.running) ↔
          .checkFlags ∉ u .zmqServer := by
        constructor
        · exact fun hu => hu _ List.mem_cons_self
        · intro hserver w hw
          obtain rfl | hw := List.mem_cons.mp hw
          · exact hserver
          · obtain rfl | hw := List.mem_cons.mp hw
            · exact hread.zmqMonitor
            · exact hs w hw
      simp [Block.quiet_scope, startTelnet_quiet, hrunning]

theorem startSelfMonitor_quietUnlessStarted : QuietUnlessStarted u (startSelfMonitor env) := by
  have hzeroMQ : QuietUnlessStarted u (startZeroMQ env) := startZeroMQ_quietUnlessStarted hread
  refine .write ?_
  split
  · exact hzeroMQ
  · split
    · exact hzeroMQ.scope _ _ _ (unread_singleton hread.selfMonitor)
    · exact quietUnlessStarted_exit _

theorem startTracer_quietUnlessStarted : QuietUnlessStarted u (startTracer env) := by
  have hselfMonitor : QuietUnlessStarted u (startSelfMonitor env) :=
    startSelfMonitor_quietUnlessStarted hread
  have hprometheus : QuietUnlessStarted u (startPrometheus env) := by
    unfold startPrometheus
    split
    · exact hselfMonitor
    · split
      · exact hselfMonitor.scope _ _ _ unread_nil
      · exact quietUnlessStarted_exit _
  refine .write ?_
  split
  · exact hprometheus.scope _ _ _ (unread_singleton hread.tracer)
  · exact quietUnlessStarted_exit _

theorem process_quietUnlessStarted : QuietUnlessStarted u (process env) := by
  have hmain : QuietUnlessStarted u (main env) := by
    refine .scope (.make ?_ _) _ _ _ unread_nil
    split
    · exact quietUnlessStarted_exit _
    · refine .scope ?_ _ _ _ (unread_singleton hread.flusher)
      split
      · exact quietUnlessStarted_exit _
      · exact startTracer_quietUnlessStarted hread
  exact hmain.scope _ _ _ unread_nil

end

/-- What the threads but the ZeroMQ server's use. -/
def usesOfOthers (env : Env) (w : Thread) : List Object := if w = .zmqServer then [] else uses env w

/-- The other threads read no flags while `main` still extends them. -/
theorem quiet_usesOfOthers (env : Env) : Quiet (usesOfOthers env) start (run env) := by
  have hread : ServersRead (usesOfOthers env) := by constructor <;> simp [usesOfOthers, uses]
  have hserver : Object.checkFlags ∉ usesOfOthers env .zmqServer := by simp [usesOfOthers]
  exact (process_quietUnlessStarted hread start unread_nil).mpr fun h => absurd h hserver

/-- **`vCheckFlag` is extended while a thread may read it** in some order of the
threads, if and only if the run starts the ZeroMQ server, and in every order that
thread is the one that reads. -/
theorem main_races_iff (env : Env) :
    (Races (uses env) start (run env) ↔ .spawn .zmqServer ∈ run env) ∧
      ∀ es w r, Schedule (uses env) start (run env) (es ++ [.use w r, .main (.write r)]) →
        w = .zmqServer := by
  constructor
  · rw [← not_iff_not, raceFree_iff_quiet]
    have hquiet : QuietUnlessStarted (uses env) (process env) :=
      process_quietUnlessStarted (serversRead_uses env)
    exact (hquiet start unread_nil).trans ⟨fun h => h (by simp [uses]), fun h _ => h⟩
  · intro es w r hes
    by_contra hw
    have hothers : r ∉ usesOfOthers env w := (quiet_usesOfOthers env).not_mem hes
    rw [usesOfOthers, if_neg hw] at hothers
    exact hothers (hes.mem_uses (by simp))

example : .spawn .zmqServer ∈ run (startingEnv allServers [] 0) := by decide

end Races

end Main
end RepoInit
