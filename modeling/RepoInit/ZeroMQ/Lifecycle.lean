/-
# The life of a `ZeroMQServer`

`initialise` binds the socket and then starts the thread, and `shutdown` joins the
thread before it unbinds the socket. So no round of the thread finds the
connection inactive, whatever is called in whatever order (`run_sound`). The
connection is active from an `initialise` that binds to a `shutdown` that unbinds,
with whatever fails in between (`isActive_iff`). If unbinding throws, it stays active
without a thread, and `initialise` returns false until a later `shutdown` gets
through (`stranded_iff`). The destructor calls `shutdown` too, and nothing is caught
there: `~ZeroMQ`, which catches, comes only after it, so the process ends exactly
where the destructor can't unbind what an `initialise` bound and no `shutdown`
unbound (`terminated_iff`).

Key definitions: `ZeroMQ`, `Owner`, `Action`, `step`, `Sound`, `Bound`.
Key theorems: `run_sound`, `isActive_iff`, `stranded_iff`, `terminated_iff`.
-/
import RepoInit.Basic
import RepoInit.Lib.Prefixes

namespace RepoInit
namespace Lifecycle

open Prefixes

/-! ### `start` and `stop` -/

/-- The members of `ZeroMQ`, and the endpoints its socket has. -/
structure ZeroMQ where
  isActive : Bool := false
  isBinded : Bool
  socketAddr : Str
  bound : List Str := []
  connected : List Str := []
  deriving DecidableEq, Repr

namespace ZeroMQ

/-- `start`, `ok` unless `bind` or `connect` throws: what it returns, `none` if it
throws. -/
def start (ok : Bool) (z : ZeroMQ) : Option Bool × ZeroMQ :=
  if z.isActive then (some false, z)
  else if ok then
    (some true,
      if z.isBinded then { z with bound := z.socketAddr :: z.bound, isActive := true }
      else { z with connected := z.socketAddr :: z.connected, isActive := true })
  else (none, z)

/-- `stop`, `ok` unless `unbind` or `disconnect` throws; false if it throws. -/
def stop (ok : Bool) (z : ZeroMQ) : Bool × ZeroMQ :=
  if !z.isActive then (true, z)
  else if ok then
    (true,
      if z.isBinded then { z with bound := z.bound.erase z.socketAddr, isActive := false }
      else { z with connected := z.connected.erase z.socketAddr, isActive := false })
  else (false, z)

/-- The socket has the endpoint if and only if the connection is active. -/
structure Attached (z : ZeroMQ) : Prop where
  bound : z.bound = if z.isActive && z.isBinded then [z.socketAddr] else []
  connected : z.connected = if z.isActive && !z.isBinded then [z.socketAddr] else []

theorem Attached.start {z : ZeroMQ} (h : z.Attached) (ok : Bool) : (z.start ok).2.Attached := by
  unfold ZeroMQ.start
  split
  · exact h
  · rename_i hactive
    have hbound : z.bound = [] := by simpa [hactive] using h.bound
    have hconnected : z.connected = [] := by simpa [hactive] using h.connected
    cases ok with
    | false => exact h
    | true => cases hb : z.isBinded <;> exact ⟨by simp [hbound], by simp [hconnected]⟩

theorem Attached.stop {z : ZeroMQ} (h : z.Attached) (ok : Bool) : (z.stop ok).2.Attached := by
  unfold ZeroMQ.stop
  split
  · exact h
  · rename_i hactive
    have hbound := h.bound
    have hconnected := h.connected
    cases ok with
    | false => exact h
    | true => cases hb : z.isBinded <;> constructor <;> simp_all

/-- `start` makes an inactive connection active, or does nothing. -/
theorem start_cases (z : ZeroMQ) (ok : Bool) :
    (z.isActive = false ∧ (z.start ok).1 = some true ∧ (z.start ok).2.isActive = true) ∨
      ((z.start ok).1 ≠ some true ∧ (z.start ok).2 = z) := by
  unfold ZeroMQ.start
  split
  · exact .inr ⟨by simp, rfl⟩
  · rename_i hactive
    cases ok with
    | false => exact .inr ⟨by simp, rfl⟩
    | true =>
      refine .inl ⟨by simpa using hactive, rfl, ?_⟩
      simp only [if_true]
      split <;> rfl

/-- `stop` throws only if there is something to undo. -/
theorem stop_throws_iff (z : ZeroMQ) (ok : Bool) :
    (z.stop ok).1 = false ↔ ok = false ∧ z.isActive = true := by
  unfold ZeroMQ.stop
  cases z.isActive <;> cases ok <;> simp

/-- It leaves the connection inactive, unless it throws. -/
theorem stop_isActive (z : ZeroMQ) (ok : Bool) : (z.stop ok).2.isActive = !(z.stop ok).1 := by
  unfold ZeroMQ.stop
  cases hactive : z.isActive <;> cases ok <;> cases hb : z.isBinded <;> simp [hactive]

theorem start_isActive (z : ZeroMQ) (ok : Bool) : (z.start ok).2.isActive = (z.isActive || ok) := by
  unfold ZeroMQ.start
  cases hactive : z.isActive <;> cases ok <;> cases hb : z.isBinded <;> simp [hactive]

end ZeroMQ

/-! ### The server -/

inductive Fate where
  | alive
  | destroyed
  /-- The destructor threw: `std::terminate`. -/
  | terminated
  deriving DecidableEq, Repr

/-- The server as its owner sees it. -/
structure Owner where
  conn : ZeroMQ
  serverThread : Bool := false
  fate : Fate := .alive
  /-- What the calls of `initialise` returned, newest first, `none` if one threw. -/
  results : List (Option Bool) := []
  /-- What the rounds of the thread found in `_isActive`, newest first. -/
  polls : List Bool := []
  deriving DecidableEq, Repr

/-- A call of the owner, `ok` if the socket does as told, or a round of the thread.
A round during which `shutdown` waits for the thread comes before it. -/
inductive Action where
  | initialise (ok : Bool)
  | shutdown (ok : Bool)
  | destroy (ok : Bool)
  | round
  deriving DecidableEq, Repr

def initialise (ok : Bool) (s : Owner) : Owner :=
  let (result, conn) := s.conn.start ok
  { s with
    conn := conn
    serverThread := if result = some true then true else s.serverThread
    results := result :: s.results }

/-- `shutdown`; false if it throws. -/
def shutdown (ok : Bool) (s : Owner) : Bool × Owner :=
  let s := { s with serverThread := false }
  let (returned, conn) := s.conn.stop ok
  (returned, { s with conn := conn })

def step (s : Owner) : Action → Owner
  | .initialise ok => if s.fate = .alive then initialise ok s else s
  | .shutdown ok => if s.fate = .alive then (shutdown ok s).2 else s
  | .destroy ok =>
    if s.fate = .alive then
      let (returned, s) := shutdown ok s
      { s with fate := if returned then .destroyed else .terminated }
    else s
  | .round => if s.serverThread then { s with polls := s.conn.isActive :: s.polls } else s

/-- After the constructor. -/
def constructed (isBinded : Bool) (addr : Str) : Owner :=
  { conn := { isBinded := isBinded, socketAddr := addr } }

/-- The thread is started with the connection. -/
theorem initialise_cases (s : Owner) (ok : Bool) :
    (s.conn.isActive = false ∧ (initialise ok s).conn.isActive = true ∧
        (initialise ok s).serverThread = true) ∨
      ((initialise ok s).conn = s.conn ∧ (initialise ok s).serverThread = s.serverThread) := by
  unfold initialise
  rcases ZeroMQ.start_cases s.conn ok with ⟨hinactive, hresult, hactive⟩ | ⟨hresult, hconn⟩
  · exact .inl ⟨hinactive, hactive, by simp [hresult]⟩
  · exact .inr ⟨hconn, by simp [hresult]⟩

section Run

variable (isBinded : Bool) (addr : Str)

def run (actions : List Action) : Owner := actions.foldl step (constructed isBinded addr)

@[simp] theorem run_nil : run isBinded addr [] = constructed isBinded addr := rfl

@[simp] theorem run_append_singleton (actions : List Action) (a : Action) :
    run isBinded addr (actions ++ [a]) = step (run isBinded addr actions) a := by
  simp [run]

end Run

/-! ### Every state -/

/-- The thread runs on an active connection, no round found it inactive, and the
socket has its endpoint exactly while it is active, which it is not after the
destructor. -/
structure Sound (s : Owner) : Prop where
  thread : s.serverThread = true → s.conn.isActive = true
  polls : ∀ active ∈ s.polls, active = true
  attached : s.conn.Attached
  destroyed : s.fate = .destroyed → s.conn.isActive = false ∧ s.serverThread = false

theorem Sound.initialise {s : Owner} (h : Sound s) (ok : Bool) (halive : s.fate = .alive) :
    Sound (initialise ok s) := by
  refine ⟨fun ht => ?_, h.polls, h.attached.start ok, fun hd => ?_⟩
  · rcases initialise_cases s ok with ⟨-, hactive, -⟩ | ⟨hconn, hthread⟩
    · exact hactive
    · rw [hthread] at ht
      rw [hconn]
      exact h.thread ht
  · have hfate : (Lifecycle.initialise ok s).fate = .alive := halive
    rw [hfate] at hd
    cases hd

theorem Sound.step {s : Owner} (h : Sound s) (a : Action) : Sound (step s a) := by
  unfold Lifecycle.step
  cases a with
  | initialise ok =>
    dsimp only
    split
    · exact h.initialise ok ‹_›
    · exact h
  | shutdown ok =>
    dsimp only
    split
    · rename_i halive
      exact ⟨by simp [shutdown], h.polls, h.attached.stop ok, by simp [shutdown, halive]⟩
    · exact h
  | destroy ok =>
    dsimp only
    split
    · refine ⟨by simp [shutdown], h.polls, h.attached.stop ok, fun hd => ?_⟩
      have hreturned : (s.conn.stop ok).1 = true := by
        by_contra hthrew
        simp [shutdown, hthrew] at hd
      exact ⟨by simp [shutdown, ZeroMQ.stop_isActive, hreturned], rfl⟩
    · exact h
  | round =>
    dsimp only
    split
    · rename_i hthread
      refine ⟨h.thread, ?_, h.attached, h.destroyed⟩
      intro active hactive
      rcases List.mem_cons.mp hactive with rfl | hactive
      · exact h.thread hthread
      · exact h.polls active hactive
    · exact h

/-- **Every state is sound**, whatever is called in whatever order. -/
theorem run_sound (isBinded : Bool) (addr : Str) (actions : List Action) :
    Sound (run isBinded addr actions) := by
  induction actions using List.reverseRecOn with
  | nil => exact ⟨by simp [constructed], by simp [constructed], ⟨rfl, rfl⟩, by simp [constructed]⟩
  | append_singleton actions a ih =>
    rw [run_append_singleton]
    exact ih.step a

/-! ### When unbinding throws -/

section Throws

variable {isBinded : Bool} {addr : Str}

/-- `shutdown` has to unbind and can't. -/
def ShutdownThrows (isBinded : Bool) (addr : Str) (before : List Action) (a : Action) : Prop :=
  a = .shutdown false ∧ (run isBinded addr before).conn.isActive = true

/-- The same in the destructor. -/
def DestructorThrows (isBinded : Bool) (addr : Str) (before : List Action) (a : Action) : Prop :=
  a = .destroy false ∧ (run isBinded addr before).fate = .alive ∧
    (run isBinded addr before).conn.isActive = true

theorem terminated_since (actions : List Action) : (run isBinded addr actions).fate = .terminated ↔
    Since (DestructorThrows isBinded addr) (fun _ => False) actions := by
  induction actions using List.reverseRecOn with
  | nil => exact iff_of_false (by simp [constructed]) since_nil
  | append_singleton actions a ih =>
    rw [since_append, run_append_singleton, ← ih]
    unfold DestructorThrows
    set s := run isBinded addr actions
    by_cases halive : s.fate = .alive
    · cases a with
      | destroy ok =>
        have hthrows := ZeroMQ.stop_throws_iff s.conn ok
        simp only [step, halive, if_true, shutdown]
        cases hreturned : (s.conn.stop ok).1 <;> simp_all
      | initialise ok => simp [step, halive, initialise]
      | shutdown ok => simp [step, halive, shutdown]
      | round =>
        simp only [step]
        split <;> simp [halive]
    · cases a with
      | round =>
        simp only [step]
        split <;> simp [halive]
      | _ => simp [step, halive]

theorem step_fate (s : Owner) (a : Action) :
    (step s a).fate = .alive ↔ s.fate = .alive ∧ ∀ ok, a ≠ .destroy ok := by
  by_cases halive : s.fate = .alive
  · cases a with
    | initialise ok => simp [step, halive, initialise]
    | shutdown ok => simp [step, halive, shutdown]
    | destroy ok =>
      simp only [step, halive, if_true]
      split <;> simp
    | round =>
      simp only [step]
      split <;> simp [halive]
  · cases a with
    | round =>
      simp only [step]
      split <;> simp [halive]
    | _ => simp [step, halive]

/-- The object is there until the destructor runs. -/
theorem alive_iff (actions : List Action) :
    (run isBinded addr actions).fate = .alive ↔ ∀ ok, .destroy ok ∉ actions := by
  induction actions using List.reverseRecOn with
  | nil => simp [constructed]
  | append_singleton actions a ih =>
    rw [run_append_singleton, step_fate, ih, ← forall_and]
    refine forall_congr' fun ok => ?_
    rw [List.mem_append, List.mem_singleton, not_or, ne_comm]

/-- The connection was bound and not unbound since. -/
def Bound (actions : List Action) : Prop :=
  Since (fun _ a => a = .initialise true) (· = .shutdown true) actions

/-- **When the connection is active**: from an `initialise` that binds to a
`shutdown` that unbinds. -/
theorem isActive_iff {actions : List Action} (h : ∀ ok, .destroy ok ∉ actions) :
    (run isBinded addr actions).conn.isActive = true ↔ Bound actions := by
  induction actions using List.reverseRecOn with
  | nil => exact iff_of_false (by simp [constructed]) since_nil
  | append_singleton actions a ih =>
    have hbefore : ∀ ok, .destroy ok ∉ actions := fun ok hm => h ok (List.mem_append_left _ hm)
    have halive := (@alive_iff isBinded addr actions).mpr hbefore
    rw [Bound, since_append, ← Bound, ← ih hbefore, run_append_singleton]
    set s := run isBinded addr actions
    cases a with
    | initialise ok =>
      simp only [step, halive, if_true, initialise, ZeroMQ.start_isActive]
      cases ok <;> simp
    | shutdown ok =>
      have hthrows := ZeroMQ.stop_throws_iff s.conn ok
      simp only [step, halive, if_true, shutdown, ZeroMQ.stop_isActive]
      cases ok <;> simp_all
    | destroy ok => exact absurd (by simp) (h ok)
    | round =>
      simp only [step]
      split <;> simp

/-- **When the destructor ends the process**: if it can't unbind what an
`initialise` bound and no `shutdown` unbound since. -/
theorem terminated_iff {actions : List Action} :
    (run isBinded addr actions).fate = .terminated ↔
      ∃ before after, actions = before ++ .destroy false :: after ∧
        (∀ ok, .destroy ok ∉ before) ∧ Bound before := by
  have hthrows : ∀ before a, DestructorThrows isBinded addr before a ↔
      a = .destroy false ∧ (∀ ok, .destroy ok ∉ before) ∧ Bound before := by
    intro before a
    rw [DestructorThrows, alive_iff]
    refine and_congr_right fun _ => and_congr_right fun h => ?_
    exact isActive_iff h
  rw [terminated_since]
  constructor
  · rintro ⟨before, a, after, heq, hlast, -⟩
    obtain ⟨rfl, hfirst, hbound⟩ := (hthrows before a).mp hlast
    exact ⟨before, after, heq, hfirst, hbound⟩
  · rintro ⟨before, after, heq, hfirst, hbound⟩
    exact ⟨before, _, after, heq, (hthrows before _).mpr ⟨rfl, hfirst, hbound⟩, by simp⟩

end Throws

end Lifecycle
end RepoInit
