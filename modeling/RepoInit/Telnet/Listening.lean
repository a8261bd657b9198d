/-
# The listening socket of an `initialise` that failed

If `setsockopt`, `bind` or `listen` fails, `initialise` closes the socket it has
obtained and leaves its number in `m_listenSocket`. The next `shutdown`, which
the destructor calls too, closes the number again, and by then the rest of the
program may own it (`not_closesRight_bindFailure`). Every descriptor is closed
once exactly if no `shutdown` comes while such a number is in the member
(`closesRight_iff`), and no failed `initialise` leaves a number there exactly if
none fails after `socket` (`holdsNone_iff`).

The sockets of the clients count as the rest of the program here; who owns them
is in `RepoInit.Telnet.Descriptors`.

Key definitions: `initialise`, `shutdown`, `Phase.next`, `ClosesRight`,
`HoldsNone`, `NoStaleShutdown`, `NeverDropped`.
Key theorems: `initialise_eq`, `Standing.step`, `listenSocket_iff`,
`others_keep`.
-/
import RepoInit.Lib.Prefixes
import RepoInit.Telnet.Shutdown

namespace RepoInit
namespace Telnet
namespace Listening

/-! ### The calls -/

/-- Who has opened a descriptor. -/
inductive Owner where
  | server
  | others
  deriving DecidableEq, Repr

/-- What the server asks the system for. A `socket` that fails gives no
descriptor and is left out. -/
inductive FdCall where
  | socket (fd : ℤ)
  | close (fd : ℤ)
  deriving DecidableEq, Repr

/-- The members of `TelnetServer` that `initialise` and `shutdown` set. -/
structure Listener where
  listenPort : UInt64 := 0
  listenSocket : ℤ := -1
  initialised : Bool := false
  promptString : Str := []
  /-- Is there a thread? -/
  serverThread : Bool := false
  deriving DecidableEq, Repr

/-- A server and the descriptors of its process. -/
structure Program where
  server : Listener := {}
  owner : ℤ → Option Owner := fun _ => none
  /-- The newest call is first. -/
  trace : List FdCall := []

/-- What the five calls of `initialise` return, if it gets to them. -/
structure Answers where
  getaddrinfo : ℤ := 0
  socket : ℤ
  setsockopt : ℤ := 0
  bind : ℤ := 0
  listen : ℤ := 0
  deriving DecidableEq, Repr

/-- `m_listenSocket = socket(...)`. -/
def Program.socket (fd : ℤ) (p : Program) : Program :=
  { server := { p.server with listenSocket := fd }
    owner := if fd = INVALID_SOCKET then p.owner else Function.update p.owner fd (some .server)
    trace := if fd = INVALID_SOCKET then p.trace else .socket fd :: p.trace }

/-- The system closes the descriptor of whoever has the number. -/
def Program.close (fd : ℤ) (p : Program) : Program :=
  { p with owner := Function.update p.owner fd none, trace := .close fd :: p.trace }

def initialise (listenPort : UInt64) (promptString : Str) (a : Answers) (p : Program) :
    Bool × Program :=
  if p.server.initialised then (false, p)
  else
    let p :=
      { p with server := { p.server with listenPort := listenPort, promptString := promptString } }
    if a.getaddrinfo ≠ 0 then (false, p)
    else
      let p := p.socket a.socket
      if p.server.listenSocket = INVALID_SOCKET then (false, p)
      else if a.setsockopt < 0 then (false, p.close p.server.listenSocket)
      else if a.bind < 0 then (false, p.close p.server.listenSocket)
      else if a.listen < 0 then (false, p.close p.server.listenSocket)
      else (true, { p with server := { p.server with serverThread := true, initialised := true } })

def shutdown (p : Program) : Program :=
  let p := p.close p.server.listenSocket
  { p with server := { p.server with
      listenSocket := INVALID_SOCKET, initialised := false, serverThread := false } }

/-- A call on the server, or what the rest of the program does in between. -/
inductive Call where
  | initialise (listenPort : UInt64) (promptString : Str) (a : Answers)
  | shutdown
  /-- `~TelnetServer`. -/
  | destroy
  | othersOpen (fd : ℤ)
  | othersClose (fd : ℤ)
  deriving DecidableEq, Repr

def step (p : Program) : Call → Program
  | .initialise listenPort promptString a => (initialise listenPort promptString a p).2
  | .shutdown => shutdown p
  | .destroy => shutdown p
  | .othersOpen fd => { p with owner := Function.update p.owner fd (some .others) }
  | .othersClose fd => { p with owner := Function.update p.owner fd none }

def run (calls : List Call) : Program := calls.foldl step {}

@[simp] theorem run_nil : run [] = {} := rfl

@[simp] theorem run_append (calls : List Call) (c : Call) :
    run (calls ++ [c]) = step (run calls) c := by
  simp [run]

/-! ### What is asked of a run -/

/-- How often the server closed `fd` since `socket` last gave it; `none` if it
never did. -/
def closesSince (fd : ℤ) : List FdCall → Option ℕ
  | [] => none
  | .socket fd' :: t => if fd' = fd then some 0 else closesSince fd t
  | .close fd' :: t => if fd' = fd then (closesSince fd t).map (· + 1) else closesSince fd t

/-- No descriptor is closed twice, and a server that does not run has closed
every descriptor it was given. -/
structure ClosesRight (calls : List Call) : Prop where
  atMostOnce : ∀ before, before <+: calls → ∀ fd k,
    closesSince fd (run before).trace = some k → k ≤ 1
  exactlyOnce : ∀ before, before <+: calls → (run before).server.initialised = false →
    ∀ fd k, closesSince fd (run before).trace = some k → k = 1

/-- An `initialise` that returns false on a server that does not run leaves no
number in `m_listenSocket`. -/
def HoldsNone (calls : List Call) : Prop :=
  ∀ before port prompt a, before ++ [.initialise port prompt a] <+: calls →
    (run before).server.initialised = false → (initialise port prompt a (run before)).1 = false →
      (run (before ++ [.initialise port prompt a])).server.listenSocket = INVALID_SOCKET

/-! ### When the code meets it -/

/-- How far an `initialise` gets on a server that does not run. -/
inductive Outcome where
  | unresolved
  | noSocket
  /-- There was a socket, and `setsockopt`, `bind` or `listen` failed. -/
  | dropped
  | listening
  deriving DecidableEq, Repr

def Answers.outcome (a : Answers) : Outcome :=
  if a.getaddrinfo ≠ 0 then .unresolved
  else if a.socket = INVALID_SOCKET then .noSocket
  else if a.setsockopt < 0 ∨ a.bind < 0 ∨ a.listen < 0 then .dropped
  else .listening

/-- Does the server run, and if not, was the last socket dropped? -/
inductive Phase where
  | idle
  | stale
  | running
  deriving DecidableEq, Repr

def Phase.next : Phase → Call → Phase
  | .running, .initialise .. => .running
  | ph, .initialise _ _ a =>
    match a.outcome with
    | .unresolved => ph
    | .noSocket => .idle
    | .dropped => .stale
    | .listening => .running
  | _, .shutdown => .idle
  | _, .destroy => .idle
  | ph, .othersOpen _ => ph
  | ph, .othersClose _ => ph

/-- Where the calls lead to, read off their answers alone. -/
def phase (calls : List Call) : Phase := calls.foldl Phase.next .idle

def Call.shutsDown : Call → Prop
  | .shutdown => True
  | .destroy => True
  | _ => False

/-- No `shutdown` comes while the last socket was dropped and there is no newer
one. -/
def NoStaleShutdown (calls : List Call) : Prop :=
  ∀ before c, before ++ [c] <+: calls → c.shutsDown → phase before ≠ .stale

/-- No `initialise` of a server that does not run drops a socket. -/
def NeverDropped (calls : List Call) : Prop :=
  ∀ before port prompt a, before ++ [.initialise port prompt a] <+: calls →
    phase before ≠ .running → a.outcome ≠ .dropped

/-! ### Calls -/

@[simp] theorem phase_append (calls : List Call) (c : Call) :
    phase (calls ++ [c]) = (phase calls).next c := by
  simp [phase]

@[simp] theorem Phase.next_shutdown (ph : Phase) : ph.next .shutdown = .idle := by
  cases ph <;> rfl

@[simp] theorem Phase.next_destroy (ph : Phase) : ph.next .destroy = .idle := by
  cases ph <;> rfl

@[simp] theorem Phase.next_othersOpen (ph : Phase) (fd : ℤ) : ph.next (.othersOpen fd) = ph := by
  cases ph <;> rfl

@[simp] theorem Phase.next_othersClose (ph : Phase) (fd : ℤ) : ph.next (.othersClose fd) = ph := by
  cases ph <;> rfl

/-- The members after `initialise` has stored its arguments. -/
def Listener.configure (port : UInt64) (prompt : Str) (l : Listener) : Listener :=
  { l with listenPort := port, promptString := prompt }

theorem initialise_eq (port : UInt64) (prompt : Str) (a : Answers) (p : Program) :
    initialise port prompt a p =
      if p.server.initialised then (false, p)
      else
        let p := { p with server := p.server.configure port prompt }
        match a.outcome with
        | .unresolved => (false, p)
        | .noSocket => (false, p.socket a.socket)
        | .dropped => (false, (p.socket a.socket).close a.socket)
        | .listening =>
          (true, { p.socket a.socket with
            server := { (p.socket a.socket).server with serverThread := true, initialised := true } }) := by
  unfold initialise Answers.outcome
  by_cases hi : p.server.initialised = true
  · simp [hi]
  · by_cases hg : a.getaddrinfo = 0
    · by_cases hs : a.socket = INVALID_SOCKET
      · simp [hi, hg, hs, Program.socket, Listener.configure]
      · by_cases h₁ : a.setsockopt < 0 <;> by_cases h₂ : a.bind < 0 <;>
          by_cases h₃ : a.listen < 0 <;> simp [hi, hg, hs, h₁, h₂, h₃, Program.socket,
            Program.close, Listener.configure]
    · simp [hi, hg, Listener.configure]

theorem Answers.socket_of_noSocket {a : Answers} (h : a.outcome = .noSocket) :
    a.socket = INVALID_SOCKET := by
  unfold outcome at h
  split_ifs at h with h₁ h₂
  exact h₂

theorem Answers.socket_ne {a : Answers} (h : a.outcome = .dropped ∨ a.outcome = .listening) :
    a.socket ≠ INVALID_SOCKET := by
  intro hs
  unfold outcome at h
  rw [if_pos hs] at h
  split_ifs at h <;> simp at h

/-! ### What the descriptors are at every moment -/

/-- What the members and the trace are in a phase. -/
structure Standing (ph : Phase) (p : Program) : Prop where
  running : p.server.initialised = true ↔ ph = .running
  invalid : p.server.listenSocket = INVALID_SOCKET ↔ ph = .idle
  /-- Only the listening socket of a running server is open. -/
  held : ∀ fd, closesSince fd p.trace = some 0 ↔ ph = .running ∧ fd = p.server.listenSocket
  stale : ph = .stale → ∃ k, closesSince p.server.listenSocket p.trace = some (k + 1)
  none : closesSince INVALID_SOCKET p.trace = none

theorem Standing.start : Standing .idle {} :=
  ⟨by simp, by simp [INVALID_SOCKET], by simp [closesSince], by simp, rfl⟩

theorem closesSince_close (fd fd' : ℤ) (t : List FdCall) :
    closesSince fd (.close fd' :: t) = some 0 ↔ fd' ≠ fd ∧ closesSince fd t = some 0 := by
  rw [closesSince]
  split
  · next h => cases closesSince fd t <;> simp [h]
  · next h => simp [h]

theorem Standing.shutdown {ph : Phase} {p : Program} (h : Standing ph p) :
    Standing .idle (shutdown p) where
  running := by simp [Listening.shutdown]
  invalid := by simp [Listening.shutdown]
  held fd := by
    simp only [Listening.shutdown, Program.close, closesSince_close, h.held]
    tauto
  stale := by simp
  none := by
    simp only [Listening.shutdown, Program.close, closesSince]
    split
    · rw [h.none]; rfl
    · exact h.none

section Attempt

variable {ph : Phase} {p : Program} {port : UInt64} {prompt : Str} {a : Answers}

/-- A server that does not run holds nothing. -/
theorem Standing.closed (h : Standing ph p) (hph : ph ≠ .running) (fd : ℤ) :
    closesSince fd p.trace ≠ some 0 :=
  fun hfd => hph ((h.held fd).mp hfd).1

theorem Standing.configure (h : Standing ph p) (port : UInt64) (prompt : Str) :
    Standing ph { p with server := p.server.configure port prompt } :=
  ⟨h.running, h.invalid, h.held, h.stale, h.none⟩

theorem Standing.noSocket (h : Standing ph p) (hph : ph ≠ .running) :
    Standing .idle (p.socket INVALID_SOCKET) where
  running := by
    have : p.server.initialised ≠ true := fun hi => hph (h.running.mp hi)
    simpa [Program.socket] using this
  invalid := by simp [Program.socket]
  held fd := by simpa [Program.socket] using h.closed hph fd
  stale := by simp
  none := by simpa [Program.socket] using h.none

theorem Standing.dropped (h : Standing ph p) (hph : ph ≠ .running) {fd : ℤ}
    (hfd : fd ≠ INVALID_SOCKET) : Standing .stale ((p.socket fd).close fd) where
  running := by
    have : p.server.initialised ≠ true := fun hi => hph (h.running.mp hi)
    simpa [Program.socket, Program.close] using this
  invalid := by simpa [Program.socket, Program.close] using hfd
  held fd' := by
    have := h.closed hph fd'
    simp only [Program.socket, Program.close, if_neg hfd, closesSince]
    by_cases hf : fd = fd' <;> simp [hf, this]
  stale := fun _ => ⟨0, by simp [Program.socket, Program.close, hfd, closesSince]⟩
  none := by simpa [Program.socket, Program.close, hfd, closesSince] using h.none

theorem Standing.listening (h : Standing ph p) (hph : ph ≠ .running) {fd : ℤ}
    (hfd : fd ≠ INVALID_SOCKET) :
    Standing .running { p.socket fd with
      server := { (p.socket fd).server with serverThread := true, initialised := true } } where
  running := by simp
  invalid := by simpa [Program.socket] using hfd
  held fd' := by
    have := h.closed hph fd'
    simp only [Program.socket, if_neg hfd, closesSince, true_and]
    by_cases hf : fd = fd'
    · simp [hf]
    · simpa [hf, Ne.symm hf] using this
  stale := by simp
  none := by simpa [Program.socket, hfd, closesSince] using h.none

theorem Phase.next_initialise (hph : ph ≠ .running) :
    ph.next (.initialise port prompt a) =
      match a.outcome with
      | .unresolved => ph
      | .noSocket => .idle
      | .dropped => .stale
      | .listening => .running := by
  cases ph with
  | running => exact absurd rfl hph
  | idle => rfl
  | stale => rfl

theorem Standing.initialise (h : Standing ph p) :
    Standing (ph.next (.initialise port prompt a)) (initialise port prompt a p).2 := by
  rw [initialise_eq]
  by_cases hph : ph = .running
  · rw [if_pos (h.running.mpr hph)]
    subst hph
    exact h
  · rw [if_neg fun hi => hph (h.running.mp hi), Phase.next_initialise hph]
    have hc := h.configure port prompt
    cases ho : a.outcome with
    | unresolved => exact hc
    | noSocket => simpa [Answers.socket_of_noSocket ho] using hc.noSocket hph
    | dropped => exact hc.dropped hph (Answers.socket_ne (.inl ho))
    | listening => exact hc.listening hph (Answers.socket_ne (.inr ho))

end Attempt

theorem Standing.step {ph : Phase} {p : Program} (h : Standing ph p) (c : Call) :
    Standing (ph.next c) (step p c) := by
  cases c with
  | initialise port prompt a => exact h.initialise
  | shutdown =>
    rw [Phase.next_shutdown]
    exact h.shutdown
  | destroy =>
    rw [Phase.next_destroy]
    exact h.shutdown
  | othersOpen fd =>
    rw [Phase.next_othersOpen]
    exact ⟨h.running, h.invalid, h.held, h.stale, h.none⟩
  | othersClose fd =>
    rw [Phase.next_othersClose]
    exact ⟨h.running, h.invalid, h.held, h.stale, h.none⟩

theorem standing (calls : List Call) : Standing (phase calls) (run calls) := by
  induction calls using List.reverseRecOn with
  | nil => exact Standing.start
  | append_singleton calls c ih =>
    rw [phase_append, run_append]
    exact ih.step c

/-! ### No descriptor is closed twice -/

def AtMostOnce (t : List FdCall) : Prop := ∀ fd k, closesSince fd t = some k → k ≤ 1

theorem AtMostOnce.socket {t : List FdCall} (h : AtMostOnce t) (fd : ℤ) :
    AtMostOnce (.socket fd :: t) := by
  intro fd' k hk
  rw [closesSince] at hk
  split at hk
  · cases hk
    exact Nat.zero_le 1
  · exact h fd' k hk

theorem AtMostOnce.close {t : List FdCall} (h : AtMostOnce t) {fd : ℤ}
    (hfd : closesSince fd t = none ∨ closesSince fd t = some 0) : AtMostOnce (.close fd :: t) := by
  intro fd' k hk
  rw [closesSince] at hk
  split at hk
  · next heq =>
    subst heq
    rcases hfd with hn | h0
    · simp [hn] at hk
    · simp [h0] at hk
      omega
  · exact h fd' k hk

theorem AtMostOnce.initialise {p : Program} (h : AtMostOnce p.trace) (port : UInt64) (prompt : Str)
    (a : Answers) : AtMostOnce (initialise port prompt a p).2.trace := by
  rw [initialise_eq]
  split
  · exact h
  · cases ho : a.outcome with
    | unresolved => exact h
    | noSocket => simpa [Program.socket, Answers.socket_of_noSocket ho] using h
    | dropped =>
      have hs := Answers.socket_ne (.inl ho)
      have : AtMostOnce (.close a.socket :: .socket a.socket :: p.trace) :=
        (h.socket a.socket).close (.inr (by simp [closesSince]))
      simpa [Program.socket, Program.close, hs] using this
    | listening =>
      have hs := Answers.socket_ne (.inr ho)
      simpa [Program.socket, hs] using h.socket a.socket

theorem atMostOnce_shutdown {ph : Phase} {p : Program} (hp : Standing ph p)
    (h : AtMostOnce p.trace) : AtMostOnce (shutdown p).trace ↔ ph ≠ .stale := by
  constructor
  · intro hs hph
    obtain ⟨k, hk⟩ := hp.stale hph
    have := hs p.server.listenSocket (k + 2) (by simp [shutdown, Program.close, closesSince, hk])
    omega
  · intro hph
    apply h.close
    cases ph with
    | idle =>
      rw [hp.invalid.mpr rfl]
      exact .inl hp.none
    | stale => exact absurd rfl hph
    | running => exact .inr ((hp.held _).mpr ⟨rfl, rfl⟩)

theorem atMostOnce_step {ph : Phase} {p : Program} (hp : Standing ph p) (h : AtMostOnce p.trace)
    (c : Call) : AtMostOnce (step p c).trace ↔ (c.shutsDown → ph ≠ .stale) := by
  cases c with
  | initialise port prompt a => simpa [step, Call.shutsDown] using h.initialise port prompt a
  | shutdown => simpa [step, Call.shutsDown] using atMostOnce_shutdown hp h
  | destroy => simpa [step, Call.shutsDown] using atMostOnce_shutdown hp h
  | othersOpen fd => simpa [step, Call.shutsDown] using h
  | othersClose fd => simpa [step, Call.shutsDown] using h

/-- A server that does not run holds nothing, so what was not closed twice was
closed once. -/
theorem closesRight_iff_atMostOnce {calls : List Call} :
    ClosesRight calls ↔ ∀ before, before <+: calls → AtMostOnce (run before).trace := by
  constructor
  · exact fun h => h.atMostOnce
  · refine fun h => ⟨h, fun before hb hi fd k hk => ?_⟩
    have hle := h before hb fd k hk
    have hph : phase before ≠ .running := fun hr => by
      rw [(standing before).running.mpr hr] at hi
      cases hi
    have : k ≠ 0 := by
      rintro rfl
      exact (standing before).closed hph fd hk
    omega

theorem closesRight_iff (calls : List Call) : ClosesRight calls ↔ NoStaleShutdown calls := by
  rw [closesRight_iff_atMostOnce]
  induction calls using List.reverseRecOn with
  | nil => simp [NoStaleShutdown, AtMostOnce, closesSince]
  | append_singleton calls c ih =>
    unfold NoStaleShutdown at ih ⊢
    rw [Prefixes.forall_prefix_append, Prefixes.forall_step_append, ← ih]
    refine and_congr_right fun h => ?_
    rw [run_append]
    exact atMostOnce_step (standing calls) (h calls List.prefix_rfl) c

/-! ### What a failed `initialise` leaves behind -/

theorem NeverDropped.phase_ne {calls : List Call} (h : NeverDropped calls) :
    ∀ before, before <+: calls → phase before ≠ .stale := by
  refine Prefixes.prefix_induction (by simp [phase]) fun before c hb hne => ?_
  rw [phase_append]
  cases c with
  | initialise port prompt a =>
    by_cases hr : phase before = .running
    · rw [hr]
      exact Phase.noConfusion
    · have := h before port prompt a hb hr
      rw [Phase.next_initialise hr]
      cases ho : a.outcome with
      | dropped => exact absurd ho this
      | unresolved => exact hne
      | noSocket => exact Phase.noConfusion
      | listening => exact Phase.noConfusion
  | shutdown => simp
  | destroy => simp
  | othersOpen fd => simpa using hne
  | othersClose fd => simpa using hne

theorem initialise_fst {p : Program} (hp : p.server.initialised = false) {port : UInt64}
    {prompt : Str} {a : Answers} :
    (initialise port prompt a p).1 = false ↔ a.outcome ≠ .listening := by
  rw [initialise_eq, if_neg (by simp [hp])]
  cases a.outcome <;> simp

theorem holdsNone_iff (calls : List Call) : HoldsNone calls ↔ NeverDropped calls := by
  constructor
  · intro h before port prompt a hb hph ho
    have hi : (run before).server.initialised = false := by
      have := mt (standing before).running.mp hph
      simpa using this
    have hinv := h before port prompt a hb hi ((initialise_fst hi).mpr (by rw [ho]; decide))
    have hidle := (standing (before ++ [.initialise port prompt a])).invalid.mp hinv
    rw [phase_append, Phase.next_initialise hph, ho] at hidle
    cases hidle
  · intro h before port prompt a hb hi hf
    have hph : phase before ≠ .running := fun hr => by
      rw [(standing before).running.mpr hr] at hi
      cases hi
    refine (standing _).invalid.mpr ?_
    have hs := h.phase_ne _ hb
    rw [phase_append, Phase.next_initialise hph] at hs ⊢
    have ho := (initialise_fst hi).mp hf
    cases hout : a.outcome with
    | unresolved =>
      have hne := h.phase_ne before ((List.prefix_append before _).trans hb)
      show phase before = .idle
      cases hb' : phase before with
      | idle => rfl
      | stale => exact absurd hb' hne
      | running => exact absurd hb' hph
    | noSocket => rfl
    | dropped => simp [hout] at hs
    | listening => exact absurd hout ho

theorem NeverDropped.noStaleShutdown {calls : List Call} (h : NeverDropped calls) :
    NoStaleShutdown calls :=
  fun before c hb _ => h.phase_ne before ((List.prefix_append before [c]).trans hb)

/-- **When the listening socket is handled right.** The descriptors are closed
once and no failed `initialise` leaves a number behind exactly if no socket is
dropped; they are closed once exactly if no `shutdown` follows a dropped one. -/
theorem listenSocket_iff (calls : List Call) :
    (ClosesRight calls ∧ HoldsNone calls ↔ NeverDropped calls) ∧
      (ClosesRight calls ↔ NoStaleShutdown calls) := by
  refine ⟨?_, closesRight_iff calls⟩
  rw [closesRight_iff, holdsNone_iff]
  exact ⟨And.right, fun h => ⟨h.noStaleShutdown, h⟩⟩

/-! ### The descriptors of the rest of the program -/

/-- What can happen: a new descriptor gets a number that is not open, perhaps
one that was closed, and the rest of the program closes its own. -/
def Allowed (p : Program) : Call → Prop
  | .initialise _ _ a =>
    p.server.initialised = false → a.getaddrinfo = 0 → a.socket ≠ INVALID_SOCKET →
      0 ≤ a.socket ∧ p.owner a.socket = none
  | .shutdown => True
  | .destroy => True
  | .othersOpen fd => 0 ≤ fd ∧ p.owner fd = none
  | .othersClose fd => p.owner fd = some .others

def Possible (calls : List Call) : Prop :=
  ∀ before c, before ++ [c] <+: calls → Allowed (run before) c

def Call.byServer : Call → Prop
  | .othersOpen _ => False
  | .othersClose _ => False
  | _ => True

/-- What the server holds is its own. -/
structure Owned (p : Program) : Prop where
  held : ∀ fd, closesSince fd p.trace = some 0 → p.owner fd = some .server
  invalid : p.owner INVALID_SOCKET = none

theorem Owned.close {p : Program} (h : Owned p) (fd : ℤ) : Owned (p.close fd) where
  held fd' := by
    simp only [Program.close, closesSince_close]
    rintro ⟨hne, h0⟩
    rw [Function.update_of_ne (Ne.symm hne)]
    exact h.held fd' h0
  invalid := by
    simp only [Program.close, Function.update_apply, h.invalid]
    split <;> rfl

theorem Owned.socket {p : Program} (h : Owned p) (fd : ℤ) : Owned (p.socket fd) where
  held fd' := by
    simp only [Program.socket]
    split
    · exact h.held fd'
    · rw [closesSince]
      split
      · next heq => simp [heq]
      · next hne =>
        rw [Function.update_of_ne (Ne.symm hne)]
        exact h.held fd'
  invalid := by
    simp only [Program.socket]
    split
    · exact h.invalid
    · next hne =>
      rw [Function.update_of_ne (Ne.symm hne)]
      exact h.invalid

theorem Owned.step {p : Program} (h : Owned p) {c : Call} (hc : Allowed p c) :
    Owned (step p c) := by
  cases c with
  | initialise port prompt a =>
    simp only [Listening.step, initialise_eq]
    split
    · exact h
    · have hconf : Owned { p with server := p.server.configure port prompt } := ⟨h.held, h.invalid⟩
      have hs := hconf.socket a.socket
      cases a.outcome with
      | unresolved => exact hconf
      | noSocket => exact hs
      | dropped => exact hs.close a.socket
      | listening => exact ⟨hs.held, hs.invalid⟩
  | shutdown => exact ⟨(h.close p.server.listenSocket).held, (h.close _).invalid⟩
  | destroy => exact ⟨(h.close p.server.listenSocket).held, (h.close _).invalid⟩
  | othersOpen fd =>
    refine ⟨fun fd' h0 => ?_, ?_⟩
    · have hown := h.held fd' h0
      have hne : fd' ≠ fd := by
        rintro rfl
        rw [hc.2] at hown
        cases hown
      simpa [Listening.step, hne] using hown
    · have : INVALID_SOCKET ≠ fd := by
        rintro rfl
        exact absurd hc.1 (by decide)
      simpa [Listening.step, this] using h.invalid
  | othersClose fd =>
    refine ⟨fun fd' h0 => ?_, ?_⟩
    · have hown := h.held fd' h0
      have hne : fd' ≠ fd := by
        rintro rfl
        rw [show p.owner fd' = some .others from hc] at hown
        cases hown
      simpa [Listening.step, hne] using hown
    · simp only [Listening.step, Function.update_apply, h.invalid]
      split <;> rfl

theorem possible_append {calls : List Call} {c : Call} :
    Possible (calls ++ [c]) ↔ Possible calls ∧ Allowed (run calls) c :=
  Prefixes.forall_step_append

theorem owned {calls : List Call} (h : Possible calls) : Owned (run calls) := by
  induction calls using List.reverseRecOn with
  | nil => exact ⟨by simp [closesSince], rfl⟩
  | append_singleton calls c ih =>
    obtain ⟨hbefore, hc⟩ := possible_append.mp h
    rw [run_append]
    exact (ih hbefore).step hc

theorem shutdown_others {ph : Phase} {p : Program} (hp : Standing ph p) (ho : Owned p)
    (hph : ph ≠ .stale) {fd : ℤ} (hfd : p.owner fd = some .others) :
    (shutdown p).owner fd = some .others := by
  have hne : fd ≠ p.server.listenSocket := by
    rintro rfl
    cases ph with
    | idle =>
      rw [hp.invalid.mpr rfl, ho.invalid] at hfd
      cases hfd
    | stale => exact hph rfl
    | running =>
      rw [ho.held _ ((hp.held _).mpr ⟨rfl, rfl⟩)] at hfd
      cases hfd
  simpa [shutdown, Program.close, hne] using hfd

theorem initialise_others {p : Program} {port : UInt64} {prompt : Str} {a : Answers}
    (hc : Allowed p (.initialise port prompt a)) {fd : ℤ} (hfd : p.owner fd = some .others) :
    (initialise port prompt a p).2.owner fd = some .others := by
  rw [initialise_eq]
  split
  · exact hfd
  · next hi =>
    have hne : a.outcome = .dropped ∨ a.outcome = .listening → fd ≠ a.socket := by
      rintro ho rfl
      have hg : a.getaddrinfo = 0 := by
        by_contra hg
        simp [Answers.outcome, hg] at ho
      have := (hc (by simpa using hi) hg (Answers.socket_ne ho)).2
      rw [hfd] at this
      cases this
    cases ho : a.outcome with
    | unresolved => exact hfd
    | noSocket => simpa [Program.socket, Answers.socket_of_noSocket ho] using hfd
    | dropped =>
      have hs := Answers.socket_ne (.inl ho)
      simpa [Program.socket, Program.close, hs, hne (.inl ho)] using hfd
    | listening =>
      have hs := Answers.socket_ne (.inr ho)
      simpa [Program.socket, hs, hne (.inr ho)] using hfd

/-- **The server leaves the others' descriptors open** as long as no `shutdown`
follows a dropped socket. -/
theorem others_keep {calls : List Call} (hp : Possible calls) (hs : NoStaleShutdown calls)
    {before : List Call} {c : Call} (hb : before ++ [c] <+: calls) (hc : c.byServer) {fd : ℤ}
    (hfd : (run before).owner fd = some .others) :
    (run (before ++ [c])).owner fd = some .others := by
  have hposs : Possible before := fun b c' hb' =>
    hp b c' (hb'.trans ((List.prefix_append before [c]).trans hb))
  rw [run_append]
  cases c with
  | initialise port prompt a => exact initialise_others (hp before _ hb) hfd
  | shutdown => exact shutdown_others (standing before) (owned hposs) (hs before _ hb trivial) hfd
  | destroy => exact shutdown_others (standing before) (owned hposs) (hs before _ hb trivial) hfd
  | othersOpen fd' => exact hc.elim
  | othersClose fd' => exact hc.elim

/-- `bind` fails, the rest of the program opens a descriptor and gets the number
3 again, and the destructor closes it. -/
def bindFailure : List Call :=
  [.initialise 23 [] { socket := 3, bind := -1 }, .othersOpen 3, .destroy]

theorem not_closesRight_bindFailure :
    Possible bindFailure ∧ ¬ ClosesRight bindFailure ∧ ¬ HoldsNone bindFailure ∧
      (run (bindFailure.take 2)).owner 3 = some .others ∧ (run bindFailure).owner 3 = none := by
  refine ⟨?_, fun h => ?_, fun h => ?_, rfl, rfl⟩
  · have hnil : Possible [] := fun before c hb => by simp at hb
    have h₁ := possible_append.mpr ⟨hnil, show Allowed (run []) (.initialise 23 []
      { socket := 3, bind := -1 }) from fun _ _ _ => ⟨by decide, rfl⟩⟩
    have h₂ := possible_append.mpr ⟨h₁, show Allowed _ (.othersOpen 3) from ⟨by decide, rfl⟩⟩
    exact possible_append.mpr ⟨h₂, show Allowed _ .destroy from trivial⟩
  · exact absurd (h.atMostOnce _ List.prefix_rfl 3 2 rfl) (by decide)
  · exact absurd (h [] 23 [] { socket := 3, bind := -1 } ⟨_, rfl⟩ rfl rfl) (by decide)

end Listening
end Telnet
end RepoInit
