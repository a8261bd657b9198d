/-
# The life of a `FileMonitor`

A constructor opens an inotify descriptor, closes it again if a later call fails,
and starts a thread; the destructor joins the thread and closes the descriptor. So
the open inotify descriptors are those of the monitors, in every run
(`monitors_accounted`).

The thread asks how many bytes of events there are and reads as many. More may have
been queued in between, but inotify gives whole events only. So every turn reads a
batch of whole events, every event is read once and in order, and the callback is
called once for each batch with an event that was asked for (`events_accounted`). An
event that was asked for and is queued while there is a callback has called it by
the end of the next turn that reads (`notified`). One that is read before
`notifyCallback` is given its function, as in the window after the constructor, calls
nothing.

Key definitions: `Monitor`, `Monitor.turn`, `Monitor.step`, `Action`, `step`.
Key theorems: `turn_spec`, `monitors_accounted`, `events_accounted`, `notified`.
-/
import Mathlib.Data.List.Induction
import RepoInit.FileMonitor
import RepoInit.Lib.Resources

namespace RepoInit
namespace FileMonitor

open Records Resources

/-! ### The thread of a monitor -/

/-- A `FileMonitor` with the events that inotify has for it, those it has read, and
the calls it made, each with the user pointer. -/
structure Monitor where
  fDescriptor : ℕ
  wDescriptor : ℕ
  filePath : Str
  notifyEvents : UInt32
  notifyCallback : Option ℕ := none
  userPtr : ℕ := 0
  queue : List InotifyEvent := []
  taken : List InotifyEvent := []
  calls : List (ℕ × ℕ) := []
  /-- The thread has read outside its buffer. -/
  outside : Bool := false

/-- The callback, called once. -/
def Monitor.call (m : Monitor) : List (ℕ × ℕ) :=
  (m.notifyCallback.map fun f => (f, m.userPtr)).toList

/-- A turn of `threadFunc`. `ioctl` and `read` may fail, and events may be queued
between the two; `read` gives no event if there is none or the first does not fit. -/
def Monitor.turn (ioctl read : Bool) (late : List InotifyEvent) (m : Monitor) : Monitor :=
  let nBytes := if ioctl then (m.queue.map InotifyEvent.size).sum else 0
  let queue := m.queue ++ late
  let (got, rest) := if read then fitting InotifyEvent.size nBytes queue else ([], queue)
  let data := if got.isEmpty then none else some (batch got)
  match threadTurn m.notifyCallback.isSome m.notifyEvents nBytes data with
  | none => { m with queue := rest, taken := m.taken ++ got, outside := true }
  | some s =>
    { m with
      queue := rest
      taken := m.taken ++ got
      calls := m.calls ++ (List.replicate s.invoked m.call).flatten }

inductive Step where
  | arrive (e : InotifyEvent)
  | notifyCallback (f : Option ℕ)
  | userPtr (p : ℕ)
  | turn (ioctl read : Bool) (late : List InotifyEvent)

def Monitor.step (m : Monitor) : Step → Monitor
  | .arrive e => { m with queue := m.queue ++ [e] }
  | .notifyCallback f => { m with notifyCallback := f }
  | .userPtr p => { m with userPtr := p }
  | .turn ioctl read late => m.turn ioctl read late

def Monitor.after (m : Monitor) (steps : List Step) : Monitor := steps.foldl Monitor.step m

theorem Monitor.after_append (m : Monitor) (before : List Step) (x : Step) :
    m.after (before ++ [x]) = (m.after before).step x := by
  simp [Monitor.after]

/-- The calls that a batch makes. -/
def Monitor.callsFor (m : Monitor) (got : List InotifyEvent) : List (ℕ × ℕ) :=
  if ∃ e ∈ got, e.Matches m.notifyEvents then m.call else []

/-- The bytes of whole events are scanned inside the buffer. -/
theorem threadTurn_got (callback : Bool) (notifyEvents : UInt32) (nBytes : ℕ)
    (got : List InotifyEvent) :
    ∃ s, threadTurn callback notifyEvents nBytes
        (if got.isEmpty then none else some (batch got)) = some s ∧
      s.invoked = if callback = true ∧ ∃ e ∈ got, e.Matches notifyEvents then 1 else 0 := by
  cases got with
  | nil =>
    refine ⟨{}, ?_, by simp⟩
    rw [List.isEmpty_nil, if_pos rfl, threadTurn, scan, dif_neg (by simp)]
  | cons e es =>
    rw [List.isEmpty_cons, if_neg Bool.false_ne_true]
    cases callback with
    | false =>
      refine ⟨{}, ?_, by simp⟩
      rw [threadTurn, scan, dif_neg (by simp)]
    | true =>
      obtain ⟨s, hs, hvisits⟩ := scan_visits notifyEvents
        (List.replicate (nBytes + 1 - (batch (e :: es)).length) 0) (e :: es) []
      refine ⟨s, hs, ?_⟩
      rw [hvisits.invoked]
      simp only [true_and]

/-- What a turn does: it reads events from the front of the queue, and makes the
calls for them. -/
theorem turn_spec (m : Monitor) (ioctl read : Bool) (late : List InotifyEvent) :
    ∃ got rest, got ++ rest = m.queue ++ late ∧
      (ioctl = true → read = true → got = m.queue) ∧
      m.turn ioctl read late =
        { m with queue := rest, taken := m.taken ++ got, calls := m.calls ++ m.callsFor got } := by
  have hcalls : ∀ (s : Scan) (got : List InotifyEvent),
      (s.invoked = if m.notifyCallback.isSome = true ∧ ∃ e ∈ got, e.Matches m.notifyEvents
        then 1 else 0) → (List.replicate s.invoked m.call).flatten = m.callsFor got := by
    intro s got hs
    rw [hs, Monitor.callsFor, Monitor.call]
    cases m.notifyCallback with
    | none => simp
    | some f =>
      by_cases hmatch : ∃ e ∈ got, e.Matches m.notifyEvents
      · simp [hmatch]
      · simp [hmatch]
  cases read with
  | false =>
    obtain ⟨s, hs, hinvoked⟩ := threadTurn_got m.notifyCallback.isSome m.notifyEvents
      (if ioctl then (m.queue.map InotifyEvent.size).sum else 0) []
    refine ⟨[], m.queue ++ late, rfl, by simp, ?_⟩
    simp only [Monitor.turn, Bool.false_eq_true, if_false]
    rw [hs]
    simp only [hcalls s [] hinvoked]
  | true =>
    generalize hn : (if ioctl then (m.queue.map InotifyEvent.size).sum else 0) = nBytes
    obtain ⟨s, hs, hinvoked⟩ := threadTurn_got m.notifyCallback.isSome m.notifyEvents nBytes
      (fitting InotifyEvent.size nBytes (m.queue ++ late)).1
    refine ⟨_, _, fitting_append InotifyEvent.size nBytes (m.queue ++ late), ?_, ?_⟩
    · rintro rfl -
      rw [← hn, if_pos rfl, fitting_total InotifyEvent.size]
      intro e
      show 0 < headerSize + e.header.len.toNat
      simp only [headerSize]
      omega
    · simp only [Monitor.turn, if_true, hn]
      rw [hs]
      simp only [hcalls s _ hinvoked]

/-! ### Every event is read once -/

/-- The events that a step queues. -/
def Step.arrivals : Step → List InotifyEvent
  | .arrive e => [e]
  | .turn _ _ late => late
  | _ => []

/-- What a step keeps: nothing is read outside the buffer, and the events queued so
far are those read and those that wait. -/
theorem step_accounted (m : Monitor) (x : Step) : (m.step x).outside = m.outside ∧
    (m.step x).taken ++ (m.step x).queue = m.taken ++ m.queue ++ x.arrivals := by
  cases x with
  | arrive e => exact ⟨rfl, (List.append_assoc m.taken m.queue [e]).symm⟩
  | notifyCallback f => exact ⟨rfl, (List.append_nil _).symm⟩
  | userPtr p => exact ⟨rfl, (List.append_nil _).symm⟩
  | turn ioctl read late =>
    obtain ⟨got, rest, hqueue, -, hturn⟩ := turn_spec m ioctl read late
    rw [Monitor.step, hturn]
    refine ⟨rfl, ?_⟩
    show m.taken ++ got ++ rest = m.taken ++ m.queue ++ late
    rw [List.append_assoc, hqueue, List.append_assoc]

theorem after_accounted (m : Monitor) (steps : List Step) : (m.after steps).outside = m.outside ∧
    (m.after steps).taken ++ (m.after steps).queue =
      m.taken ++ m.queue ++ steps.flatMap Step.arrivals := by
  induction steps using List.reverseRecOn with
  | nil => simp [Monitor.after]
  | append_singleton steps x ih =>
    obtain ⟨houtside, hqueue⟩ := step_accounted (m.after steps) x
    rw [Monitor.after_append]
    refine ⟨houtside.trans ih.1, ?_⟩
    rw [hqueue, ih.2, List.flatMap_append, List.flatMap_singleton, List.append_assoc]

/-! ### The open descriptors -/

/-- What the calls of a constructor do. -/
structure Kernel where
  /-- Does `inotify_init` give a descriptor? -/
  inotifyInit : Bool
  /-- The watch descriptor, or `none` if `inotify_add_watch` fails. -/
  inotifyAddWatch : Str → UInt32 → Option ℕ
  /-- Do `F_GETFL` and `F_SETFL` succeed? -/
  getFlags : Bool
  setFlags : Bool

/-- The constructor, with the open inotify descriptors and the other descriptors of
the process: those that are open after it, and the monitor or what was thrown. -/
def Monitor.new (k : Kernel) (filePath : Str) (notifyEvents : UInt32) (opened others : List ℕ) :
    List ℕ × Except Str Monitor :=
  if !k.inotifyInit then (opened, .error (str "Failed to initialize inotify"))
  else
    let fd := lowest (opened ++ others)
    let opened := fd :: opened
    match k.inotifyAddWatch (cString filePath) notifyEvents with
    | none => (opened.erase fd, .error (str "Failed to add watch descriptor"))
    | some wd =>
      if !k.getFlags || !k.setFlags then
        (opened.erase fd, .error (str "Failed to set file descriptor to non-blocking mode"))
      else
        (opened, .ok { fDescriptor := fd, wDescriptor := wd, filePath := filePath,
                       notifyEvents := notifyEvents })

/-- A constructor that throws leaves the descriptors as they were. -/
theorem new_descriptors (k : Kernel) (filePath : Str) (notifyEvents : UInt32)
    (opened others : List ℕ) :
    (∃ what, Monitor.new k filePath notifyEvents opened others = (opened, .error what)) ∨
      ∃ m : Monitor, Monitor.new k filePath notifyEvents opened others =
          (lowest (opened ++ others) :: opened, .ok m) ∧
        m.fDescriptor = lowest (opened ++ others) := by
  unfold Monitor.new
  split
  · exact .inl ⟨_, rfl⟩
  · simp only [List.erase_cons_head]
    split
    · exact .inl ⟨_, rfl⟩
    · split
      · exact .inl ⟨_, rfl⟩
      · exact .inr ⟨_, rfl, rfl⟩

/-- The program makes monitors, uses them and destroys them, and their threads take
turns. -/
inductive Action where
  | new (k : Kernel) (others : List ℕ) (filePath : Str) (notifyEvents : UInt32)
  | step (i : ℕ) (x : Step)
  | destroy (i : ℕ)

def step (p : Pool Monitor) : Action → Pool Monitor
  | .new k others filePath notifyEvents =>
    match Monitor.new k filePath notifyEvents p.opened others with
    | (opened, .ok m) => { opened := opened, objects := p.objects ++ [m] }
    | (opened, .error _) => { p with opened := opened }
  | .step i x => p.use i fun m => m.step x
  | .destroy i => p.destroy Monitor.fDescriptor i

def run (actions : List Action) : Pool Monitor := actions.foldl step {}

theorem step_fDescriptor (m : Monitor) (x : Step) : (m.step x).fDescriptor = m.fDescriptor := by
  cases x with
  | turn ioctl read late =>
    obtain ⟨got, rest, -, -, hturn⟩ := turn_spec m ioctl read late
    rw [Monitor.step, hturn]
  | _ => rfl

theorem step_owned {p : Pool Monitor} (h : Owned Monitor.fDescriptor [] p) (x : Action) :
    Owned Monitor.fDescriptor [] (step p x) := by
  cases x with
  | new k others filePath notifyEvents =>
    simp only [step]
    rcases new_descriptors k filePath notifyEvents p.opened others with
      ⟨what, hnew⟩ | ⟨m, hnew, hfd⟩
    · rw [hnew]
      exact h
    · rw [hnew]
      exact h.make hfd fun hmem => lowest_notMem (p.opened ++ others) (List.mem_append_left _ hmem)
  | step i x => exact h.use i fun m => step_fDescriptor m x
  | destroy i => exact h.destroy i

theorem run_owned (actions : List Action) : Owned Monitor.fDescriptor [] (run actions) := by
  induction actions using List.reverseRecOn with
  | nil => exact .empty
  | append_singleton actions x ih =>
    rw [run, List.foldl_append]
    exact step_owned ih x

/-- **The open inotify descriptors** are those of the monitors, one each, in every
run: a constructor that fails leaves none open, and no monitor ever reads from the
descriptor of another. -/
theorem monitors_accounted (actions : List Action) :
    (run actions).opened.Perm ((run actions).objects.map Monitor.fDescriptor) ∧
      ((run actions).objects.map Monitor.fDescriptor).Nodup := by
  have h := run_owned actions
  exact ⟨by simpa using h.perm, by simpa using h.nodup_append⟩

/-! ### The calls of a monitor -/

/-- **The events of a monitor.** From the constructor on, in any order of events,
turns and settings, the thread reads inside its buffer, the events queued are those
it has read and those that wait, in order, and every turn calls the callback once if
it reads an event that was asked for and not at all otherwise. -/
theorem events_accounted (k : Kernel) (filePath : Str) (notifyEvents : UInt32)
    (opened others : List ℕ) (m : Monitor)
    (h : (Monitor.new k filePath notifyEvents opened others).2 = .ok m) (steps : List Step) :
    (m.after steps).outside = false ∧
      (m.after steps).taken ++ (m.after steps).queue = steps.flatMap Step.arrivals ∧
      ∀ ioctl read late, ∃ got,
        (m.after (steps ++ [.turn ioctl read late])).taken = (m.after steps).taken ++ got ∧
        (m.after (steps ++ [.turn ioctl read late])).calls =
          (m.after steps).calls ++ (m.after steps).callsFor got := by
  have hm : m.outside = false ∧ m.taken = [] ∧ m.queue = [] := by
    unfold Monitor.new at h
    split at h
    · simp at h
    · dsimp only at h
      split at h
      · simp at h
      · split at h
        · simp at h
        · obtain rfl := Except.ok.inj h
          exact ⟨rfl, rfl, rfl⟩
  obtain ⟨houtside, hqueue⟩ := after_accounted m steps
  refine ⟨houtside.trans hm.1, by rw [hqueue, hm.2.1, hm.2.2]; rfl, ?_⟩
  intro ioctl read late
  obtain ⟨got, rest, -, -, hturn⟩ := turn_spec (m.after steps) ioctl read late
  refine ⟨got, ?_, ?_⟩
  · rw [Monitor.after_append, Monitor.step, hturn]
  · rw [Monitor.after_append, Monitor.step, hturn]

def watching : Kernel := ⟨true, fun _ _ => some 1, true, true⟩

/-- A monitor for `IN_MODIFY`. -/
def watched : Monitor :=
  { fDescriptor := 3, wDescriptor := 1, filePath := str "config.json", notifyEvents := 2 }

/-- An event of the watched file, which has no name. -/
def modified : InotifyEvent := ⟨⟨1, 2, 0, 0⟩, [], rfl⟩

/-- Two events, one of them between `ioctl` and `read`, and another turn. -/
theorem events_accounted_watched :
    let steps : List Step := [.notifyCallback (some 7), .arrive modified, .turn true true [modified]]
    (watched.after steps).outside = false ∧
      (watched.after steps).taken ++ (watched.after steps).queue = [modified, modified] ∧
      ∀ ioctl read late, ∃ got,
        (watched.after (steps ++ [.turn ioctl read late])).taken =
          (watched.after steps).taken ++ got ∧
        (watched.after (steps ++ [.turn ioctl read late])).calls =
          (watched.after steps).calls ++ (watched.after steps).callsFor got :=
  events_accounted watching (str "config.json") 2 [] [0, 1, 2] watched rfl
    [.notifyCallback (some 7), .arrive modified, .turn true true [modified]]

/-- A step adds calls at most. -/
theorem step_calls (m : Monitor) (x : Step) : m.calls <+: (m.step x).calls := by
  cases x with
  | turn ioctl read late =>
    obtain ⟨got, rest, -, -, hturn⟩ := turn_spec m ioctl read late
    rw [Monitor.step, hturn]
    exact List.prefix_append m.calls _
  | _ => exact List.prefix_rfl

theorem after_calls (m : Monitor) (steps : List Step) : m.calls <+: (m.after steps).calls := by
  induction steps using List.reverseRecOn with
  | nil => exact List.prefix_rfl
  | append_singleton steps x ih =>
    rw [Monitor.after_append]
    exact ih.trans (step_calls (m.after steps) x)

/-- The step does not take the callback away. -/
def Step.keepsCallback : Step → Prop
  | .notifyCallback f => f ≠ none
  | _ => True

theorem callsFor_ne_nil {m : Monitor} (hcallback : m.notifyCallback ≠ none)
    {got : List InotifyEvent} {e : InotifyEvent} (he : e ∈ got) (hmatch : e.Matches m.notifyEvents) :
    m.callsFor got ≠ [] := by
  obtain ⟨f, hf⟩ := Option.ne_none_iff_exists'.mp hcallback
  rw [Monitor.callsFor, if_pos ⟨e, he, hmatch⟩, Monitor.call, hf]
  simp

/-- A step after which a waiting event still waits, or has been called for. -/
theorem step_waiting {m : Monitor} {e : InotifyEvent} (he : e ∈ m.queue)
    (hmatch : e.Matches m.notifyEvents) (hcallback : m.notifyCallback ≠ none) {x : Step}
    (hx : x.keepsCallback) :
    m.calls.length < (m.step x).calls.length ∨
      (e ∈ (m.step x).queue ∧ (m.step x).notifyEvents = m.notifyEvents ∧
        (m.step x).notifyCallback ≠ none ∧ (m.step x).calls = m.calls) := by
  cases x with
  | arrive e' => exact .inr ⟨List.mem_append_left _ he, rfl, hcallback, rfl⟩
  | notifyCallback f => exact .inr ⟨he, rfl, hx, rfl⟩
  | userPtr p => exact .inr ⟨he, rfl, hcallback, rfl⟩
  | turn ioctl read late =>
    obtain ⟨got, rest, hqueue, -, hturn⟩ := turn_spec m ioctl read late
    rw [Monitor.step, hturn]
    by_cases hcalls : m.callsFor got = []
    · refine .inr ⟨?_, rfl, hcallback, by simp [hcalls]⟩
      have hmem : e ∈ got ++ rest := hqueue ▸ List.mem_append_left _ he
      exact (List.mem_append.mp hmem).resolve_left fun hgot =>
        callsFor_ne_nil hcallback hgot hmatch hcalls
    · left
      have := List.length_pos_of_ne_nil hcalls
      simp only [List.length_append]
      omega

/-- A waiting event is called for by the end of the next turn that reads. -/
theorem waiting_notified (late : List InotifyEvent) {e : InotifyEvent} : ∀ {steps : List Step}
    {m : Monitor}, (∀ x ∈ steps, x.keepsCallback) → e ∈ m.queue → e.Matches m.notifyEvents →
    m.notifyCallback ≠ none →
    m.calls.length < (m.after (steps ++ [.turn true true late])).calls.length
  | [], m, _, he, hmatch, hcallback => by
    obtain ⟨got, rest, -, hgot, hturn⟩ := turn_spec m true true late
    have hcalls := callsFor_ne_nil hcallback (hgot rfl rfl ▸ he) hmatch
    show m.calls.length < (m.turn true true late).calls.length
    rw [hturn, List.length_append]
    have := List.length_pos_of_ne_nil hcalls
    omega
  | x :: steps, m, hsteps, he, hmatch, hcallback => by
    have hx := hsteps x List.mem_cons_self
    have hrest : ∀ y ∈ steps, y.keepsCallback := fun y hy => hsteps y (List.mem_cons_of_mem _ hy)
    show m.calls.length < ((m.step x).after (steps ++ [.turn true true late])).calls.length
    rcases step_waiting he hmatch hcallback hx with hlt | ⟨he', hevents, hcallback', hcalls⟩
    · exact Nat.lt_of_lt_of_le hlt (after_calls (m.step x) _).length_le
    · rw [← hcalls]
      exact waiting_notified late hrest he' (hevents ▸ hmatch) hcallback'

/-- **No event is missed.** An event that was asked for and is queued while there is
a callback has led to a call by the end of the next turn in which `ioctl` and `read`
succeed, whatever else happens in between, unless the callback is taken away. -/
theorem notified (m : Monitor) (e : InotifyEvent) (steps : List Step) (late : List InotifyEvent)
    (hmatch : e.Matches m.notifyEvents) (hcallback : m.notifyCallback ≠ none)
    (hsteps : ∀ x ∈ steps, x.keepsCallback) :
    m.calls.length < (m.after (.arrive e :: steps ++ [.turn true true late])).calls.length :=
  waiting_notified late (m := m.step (.arrive e)) hsteps (List.mem_append_right _ (by simp)) hmatch
    hcallback

/-- An event that comes with a turn that can't read it, and another callback before
the next turn. -/
theorem notified_modified :
    0 < ((watched.step (.notifyCallback (some 7))).after (.arrive modified ::
      [.turn false true [], .notifyCallback (some 8)] ++ [.turn true true []])).calls.length :=
  notified (watched.step (.notifyCallback (some 7))) modified
    [.turn false true [], .notifyCallback (some 8)] [] (by decide) (by simp [Monitor.step])
    (by simp [Step.keepsCallback])

end FileMonitor
end RepoInit
