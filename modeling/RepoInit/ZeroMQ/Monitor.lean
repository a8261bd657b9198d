/-
# `ZeroMQMonitor`

The monitor of a socket gets its events through one override each, and counts
peers by two of them: `CONNECTED` adds one and `DISCONNECTED` takes one away. A
bound socket announces its connections as `ACCEPTED`, and the override for that
only logs. The count is the number of open connections exactly if no connection
is accepted, and an `int` can hold the number (`countsPeers_iff`).

Key definitions: `check_event`, `openConnections`, `WellFormed`, `CountsPeers`.
Key theorems: `run_peerCount`, `countsPeers_iff`.
-/
import Mathlib.Algebra.GroupWithZero.Nat
import Mathlib.Data.List.Induction
import Mathlib.Data.List.Infix
import RepoInit.BaseServerStats

namespace RepoInit
namespace Monitor

/-! ### Data -/

/-- The events `zmq::monitor_t` has an override for. -/
inductive EventKind where
  | monitor_started
  | connected
  | connect_delayed
  | connect_retried
  | listening
  | bind_failed
  | accepted
  | accept_failed
  | closed
  | close_failed
  | disconnected
  | handshake_failed_no_detail
  | handshake_failed_protocol
  | handshake_failed_auth
  | handshake_succeeded
  | unknown
  deriving DecidableEq, Repr

/-- A `zmq_event_t` and its address. `value` tells which connection the event is
about; the overrides do not read it. -/
structure Event where
  kind : EventKind
  value : ℤ
  addr : Option Str

structure ZeroMQMonitor where
  peerCount : ℤ := 0
  /-- What was logged, oldest first. -/
  log : List (Level × Str) := []

/-! ### The overrides -/

/-- `std::atomic_int` wraps around. -/
def fetch_add (n : ℤ) (m : ZeroMQMonitor) : ZeroMQMonitor :=
  { m with peerCount := (m.peerCount + n).bmod (2 ^ 32) }

def fetch_sub (n : ℤ) (m : ZeroMQMonitor) : ZeroMQMonitor :=
  { m with peerCount := (m.peerCount - n).bmod (2 ^ 32) }

def on_event (messageStr : Str) (level : Level) (addr : Option Str) (m : ZeroMQMonitor) :
    ZeroMQMonitor :=
  match level with
  | .debug | .info | .warn =>
    { m with log := m.log ++ [(level, messageStr ++ str " " ++ addr.getD [])] }
  | _ => m

section Overrides

variable (addr : Option Str) (m : ZeroMQMonitor)

def on_monitor_started : ZeroMQMonitor := on_event (str "Monitor started") .info none m

def on_event_connected : ZeroMQMonitor :=
  on_event (str "Connected") .info addr (fetch_add 1 m)

def on_event_connect_delayed : ZeroMQMonitor := on_event (str "Connect delayed") .debug addr m

def on_event_connect_retried : ZeroMQMonitor := on_event (str "Connect retried") .debug addr m

def on_event_listening : ZeroMQMonitor := on_event (str "Listening") .debug addr m

def on_event_bind_failed : ZeroMQMonitor := on_event (str "Bind failed") .warn addr m

def on_event_accepted : ZeroMQMonitor := on_event (str "Accepted") .info addr m

def on_event_accept_failed : ZeroMQMonitor := on_event (str "Accept failed") .warn addr m

def on_event_closed : ZeroMQMonitor := on_event (str "Closed") .debug addr m

def on_event_close_failed : ZeroMQMonitor := on_event (str "Close failed") .warn addr m

def on_event_disconnected : ZeroMQMonitor :=
  on_event (str "Disconnected") .info addr (fetch_sub 1 m)

def on_event_handshake_failed_no_detail : ZeroMQMonitor :=
  on_event (str "Handshake failed (no detail)") .warn addr m

def on_event_handshake_failed_protocol : ZeroMQMonitor :=
  on_event (str "Handshake failed (protocol)") .warn addr m

def on_event_handshake_failed_auth : ZeroMQMonitor :=
  on_event (str "Handshake failed (auth)") .warn addr m

def on_event_handshake_succeeded : ZeroMQMonitor :=
  on_event (str "Handshake succeeded") .info addr m

def on_event_unknown : ZeroMQMonitor := on_event (str "Unknown event") .warn addr m

end Overrides

/-- `monitor_t::check_event` hands an event to its override. -/
def check_event (m : ZeroMQMonitor) (e : Event) : ZeroMQMonitor :=
  match e.kind with
  | .monitor_started => on_monitor_started m
  | .connected => on_event_connected e.addr m
  | .connect_delayed => on_event_connect_delayed e.addr m
  | .connect_retried => on_event_connect_retried e.addr m
  | .listening => on_event_listening e.addr m
  | .bind_failed => on_event_bind_failed e.addr m
  | .accepted => on_event_accepted e.addr m
  | .accept_failed => on_event_accept_failed e.addr m
  | .closed => on_event_closed e.addr m
  | .close_failed => on_event_close_failed e.addr m
  | .disconnected => on_event_disconnected e.addr m
  | .handshake_failed_no_detail => on_event_handshake_failed_no_detail e.addr m
  | .handshake_failed_protocol => on_event_handshake_failed_protocol e.addr m
  | .handshake_failed_auth => on_event_handshake_failed_auth e.addr m
  | .handshake_succeeded => on_event_handshake_succeeded e.addr m
  | .unknown => on_event_unknown e.addr m

def run (events : List Event) : ZeroMQMonitor := events.foldl check_event {}

def getPeerCount (m : ZeroMQMonitor) : ℤ := m.peerCount

/-! ### Connections -/

/-- The connections that are open after an event. -/
def nextConnections (connections : List ℤ) (e : Event) : List ℤ :=
  match e.kind with
  | .connected | .accepted => e.value :: connections
  | .disconnected => connections.erase e.value
  | _ => connections

/-- The connections opened and not yet ended. -/
def openConnections (events : List Event) : List ℤ := events.foldl nextConnections []

/-- What ends is open. -/
def EndsOpen : List ℤ → List Event → Prop
  | _, [] => True
  | connections, e :: events =>
    (e.kind = .disconnected → e.value ∈ connections) ∧
      EndsOpen (nextConnections connections e) events

instance : ∀ connections events, Decidable (EndsOpen connections events)
  | _, [] => inferInstanceAs (Decidable True)
  | connections, e :: events =>
    have := instDecidableEndsOpen (nextConnections connections e) events
    inferInstanceAs (Decidable (_ ∧ _))

/-- Every `DISCONNECTED` ends a connection that was opened before. -/
abbrev WellFormed (events : List Event) : Prop := EndsOpen [] events

/-- After every event the count is the number of open connections. -/
def CountsPeers (events : List Event) : Prop :=
  ∀ before, before <+: events →
    getPeerCount (run before) = (openConnections before).length ∧ 0 ≤ getPeerCount (run before)

/-- The connections that were accepted. -/
def acceptedCount (events : List Event) : ℕ := events.countP (·.kind = .accepted)

/-! ### One event -/

@[simp] theorem on_event_peerCount (messageStr : Str) (level : Level) (addr : Option Str)
    (m : ZeroMQMonitor) : (on_event messageStr level addr m).peerCount = m.peerCount := by
  unfold on_event
  split <;> rfl

/-- What an override does to the count. -/
theorem check_event_peerCount (m : ZeroMQMonitor) (e : Event) :
    (check_event m e).peerCount =
      if e.kind = .connected then (m.peerCount + 1).bmod (2 ^ 32)
      else if e.kind = .disconnected then (m.peerCount - 1).bmod (2 ^ 32)
      else m.peerCount := by
  obtain ⟨kind, value, addr⟩ := e
  cases kind <;> exact on_event_peerCount ..

theorem run_snoc (before : List Event) (e : Event) :
    run (before ++ [e]) = check_event (run before) e := by
  simp [run]

theorem openConnections_snoc (before : List Event) (e : Event) :
    openConnections (before ++ [e]) = nextConnections (openConnections before) e := by
  simp [openConnections]

theorem acceptedCount_snoc (before : List Event) (e : Event) :
    acceptedCount (before ++ [e]) =
      acceptedCount before + if e.kind = .accepted then 1 else 0 := by
  simp [acceptedCount, List.countP_cons]

/-- An event opens a connection, ends one that is open, or does neither. -/
theorem length_nextConnections {connections : List ℤ} {e : Event}
    (h : e.kind = .disconnected → e.value ∈ connections) :
    ((nextConnections connections e).length : ℤ) = connections.length +
      if e.kind = .connected ∨ e.kind = .accepted then 1
      else if e.kind = .disconnected then -1 else 0 := by
  obtain ⟨kind, value, addr⟩ := e
  cases kind
  case connected | accepted => simp [nextConnections]
  case disconnected =>
    have hmem : value ∈ connections := h rfl
    have hpos := List.length_pos_of_mem hmem
    have herase := List.length_erase_of_mem hmem
    show (((connections.erase value).length : ℕ) : ℤ) = connections.length + -1
    omega
  all_goals simp [nextConnections]

/-! ### Runs -/

theorem endsOpen_append (connections : List ℤ) (before after : List Event) :
    EndsOpen connections (before ++ after) ↔
      EndsOpen connections before ∧ EndsOpen (before.foldl nextConnections connections) after := by
  induction before generalizing connections with
  | nil => simp [EndsOpen]
  | cons e before ih => simp [EndsOpen, ih, and_assoc]

/-- **The count** is the number of open connections less those that were
accepted. -/
theorem run_peerCount {events : List Event} (h : WellFormed events) :
    (run events).peerCount =
      ((openConnections events).length - acceptedCount events : ℤ).bmod (2 ^ 32) := by
  induction events using List.reverseRecOn with
  | nil => rfl
  | append_singleton before e ih =>
    obtain ⟨hbefore, hends⟩ := (endsOpen_append [] before [e]).mp h
    have hends : e.kind = .disconnected → e.value ∈ openConnections before := hends.1
    rw [run_snoc, check_event_peerCount, ih hbefore, openConnections_snoc,
      length_nextConnections hends, acceptedCount_snoc]
    by_cases hc : e.kind = .connected
    · rw [if_pos hc, if_pos (.inl hc), if_neg (by simp [hc]), Int.bmod_add_bmod]
      congr 1
      omega
    · by_cases hd : e.kind = .disconnected
      · rw [if_neg hc, if_pos hd, if_neg (by simp [hd]), if_pos hd, if_neg (by simp [hd]),
          Int.bmod_sub_bmod]
        congr 1
        omega
      · rw [if_neg hc, if_neg hd]
        by_cases ha : e.kind = .accepted
        · rw [if_pos (.inr ha), if_pos ha]
          congr 1
          omega
        · rw [if_neg (by simp [hc, ha]), if_neg hd, if_neg ha]
          simp

theorem run_peerCount_le {events : List Event} (h : WellFormed events) :
    (run events).peerCount ≤ INT_MAX := by
  rw [run_peerCount h, INT_MAX]
  have := @Int.bmod_lt ((openConnections events).length - acceptedCount events) (2 ^ 32) (by omega)
  omega

/-- An accepted connection is not counted. -/
theorem not_countsPeers_of_accepted {before after : List Event} {e : Event}
    (he : e.kind = .accepted) : ¬ CountsPeers (before ++ e :: after) := by
  intro h
  have hbefore := (h before (List.prefix_append _ _)).1
  have hafter := (h (before ++ [e]) ⟨after, by simp⟩).1
  have hcount : (run (before ++ [e])).peerCount = (run before).peerCount := by
    rw [run_snoc, check_event_peerCount, if_neg (by simp [he]), if_neg (by simp [he])]
  have hopen : (openConnections (before ++ [e])).length = (openConnections before).length + 1 := by
    rw [openConnections_snoc, nextConnections]
    simp [he]
  unfold getPeerCount at hbefore hafter
  omega

/-- **The peers are counted** exactly if no connection is accepted and there are
never more than an `int` can count. -/
theorem countsPeers_iff {events : List Event} (h : WellFormed events) :
    CountsPeers events ↔ (∀ e ∈ events, e.kind ≠ .accepted) ∧
      ∀ before, before <+: events → (openConnections before).length ≤ INT_MAX := by
  have hwell : ∀ before, before <+: events → WellFormed before := by
    rintro before ⟨after, rfl⟩
    exact ((endsOpen_append [] before after).mp h).1
  constructor
  · intro hcounts
    refine ⟨fun e he haccepted => ?_, fun before hbefore => ?_⟩
    · obtain ⟨before, after, rfl⟩ := List.append_of_mem he
      exact not_countsPeers_of_accepted haccepted hcounts
    · rw [← (hcounts before hbefore).1]
      exact run_peerCount_le (hwell before hbefore)
  · rintro ⟨haccepted, hfew⟩ before hbefore
    have hnone : acceptedCount before = 0 := by
      refine List.countP_eq_zero.mpr fun e he => ?_
      simpa using haccepted e (hbefore.subset he)
    have hmax := hfew before hbefore
    have hcount : getPeerCount (run before) = (openConnections before).length := by
      rw [getPeerCount, run_peerCount (hwell before hbefore), hnone]
      unfold INT_MAX at hmax
      rw [Int.bmod_eq_of_le (by omega) (by omega)]
      simp
    refine ⟨hcount, ?_⟩
    rw [hcount]
    omega

/-- A connecting socket: its connection opens and ends. -/
theorem countsPeers_connect :
    CountsPeers [⟨.connected, 7, none⟩, ⟨.handshake_succeeded, 7, none⟩,
      ⟨.disconnected, 7, none⟩] := by
  refine (countsPeers_iff (by decide)).mpr ⟨by decide, ?_⟩
  simp only [← List.mem_inits]
  decide

/-- A bound socket: its client connects and leaves, and the count is negative. -/
theorem acceptedClient_not_countsPeers :
    WellFormed [⟨.accepted, 7, none⟩, ⟨.disconnected, 7, none⟩] ∧
      ¬ CountsPeers [⟨.accepted, 7, none⟩, ⟨.disconnected, 7, none⟩] := by
  refine ⟨by decide, fun h => ?_⟩
  have hcount : getPeerCount (run [⟨.accepted, 7, none⟩, ⟨.disconnected, 7, none⟩]) = -1 := by
    decide
  have hpos := (h _ (List.prefix_refl _)).2
  rw [hcount] at hpos
  exact absurd hpos (by decide)

end Monitor
end RepoInit
