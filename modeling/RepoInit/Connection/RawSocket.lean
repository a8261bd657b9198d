/-
# `RawSocket`

The constructor looks up the interface, opens a socket, binds it and, in write
mode, sets an option of it. Its destructor closes the socket; but if the
constructor throws there is no object, and what it opened stays open. So the open
sockets are those of the objects and one for each constructor that failed after
`socket` (`sockets_accounted`): a program that tries again and again on an
interface it can't bind runs out of descriptors.

An object moves bytes one way only, and the bytes its calls said they moved are in
exactly one of the reports that reset the statistics, or still in the object. The
time, which is a `double`, is what the durations of the calls since the last reset
come to when they are added one by one, those of calls that failed as well
(`bytes_accounted`).

Key definitions: `Kernel`, `RawSocket.new`, `LeavesOpen`, `Use`, `step`, `history`,
`timeOf`, `Accounted`.
Key theorems: `new_cases`, `sockets_accounted`, `bytes_accounted`.
-/
import Mathlib.Algebra.GroupWithZero.Nat
import Mathlib.Data.List.Induction
import RepoInit.Basic
import RepoInit.Lib.Resources

namespace RepoInit
namespace Connection

open Resources

/-! ### The constructor -/

structure RawSocketStats where
  sentBytes : UInt64 := 0
  receivedBytes : UInt64 := 0
  processingTime : Float := 0

structure RawSocket where
  isReady : Bool := false
  writeMode : Bool
  sockFd : ℕ
  iFace : Str
  stats : RawSocketStats := {}

/-- `sockaddr_ll`. -/
structure SockaddrLl where
  family : ℕ
  protocol : UInt16
  ifindex : Int32
  deriving DecidableEq, Repr

/-- `AF_PACKET` and `PF_PACKET`. -/
def afPacket : ℕ := 17

def sockRaw : ℕ := 3

def ipprotoRaw : ℕ := 255

def ethPAll : UInt16 := 3

/-- On a little-endian host. -/
def htons (w : UInt16) : UInt16 := (w <<< 8) ||| (w >>> 8)

/-- `IFNAMSIZ` -/
def ifNameSize : ℕ := 16

/-- What the calls of a constructor do, and the text of `errno` after the one that
fails. -/
structure Kernel where
  ifNametoindex : Str → UInt32
  /-- Does `socket` give a descriptor? -/
  socket : ℕ → ℕ → ℕ → Bool
  bind : ℕ → SockaddrLl → Bool
  setsockopt : ℕ → Str → Bool
  errnoString : Str

/-- `ifr.ifr_name`, which was zeroed. -/
def ifrName (iFace : Str) : Str :=
  let ifaceNameLen := min iFace.length (ifNameSize - 1)
  iFace.take ifaceNameLen ++ List.replicate (ifNameSize - ifaceNameLen) 0

/-- `init`, if the kernel has the number `fd` for it: the descriptor that was
opened, and what was thrown. -/
def init (k : Kernel) (fd : ℕ) (addr : SockaddrLl) (domain type protocol : ℕ) :
    Option ℕ × Except Str Unit :=
  if !k.socket domain type protocol then (none, .error k.errnoString)
  else if !k.bind fd addr then (some fd, .error (str "Bind failed: " ++ k.errnoString))
  else (some fd, .ok ())

/-- The address that is bound. -/
def address (k : Kernel) (iFace : Str) : SockaddrLl where
  family := afPacket
  protocol := htons ethPAll
  ifindex := (k.ifNametoindex (cString iFace)).toInt32

/-- The constructor: the descriptor that was opened, and the object or what was
thrown. -/
def RawSocket.new (k : Kernel) (fd : ℕ) (iFace : Str) (isWrite : Bool) :
    Option ℕ × Except Str RawSocket :=
  let addr := address k iFace
  let ready : RawSocket := { isReady := true, writeMode := isWrite, sockFd := fd, iFace := iFace }
  if addr.ifindex = 0 then (none, .error (str "Can't find interface: " ++ k.errnoString))
  else if isWrite then
    match init k fd addr afPacket sockRaw ipprotoRaw with
    | (opened, .error what) => (opened, .error what)
    | (opened, .ok ()) =>
      if !k.setsockopt fd (ifrName iFace) then
        (opened, .error (str "Can't set socket options: " ++ k.errnoString))
      else (opened, .ok ready)
  else
    match init k fd addr afPacket sockRaw (htons ethPAll).toNat with
    | (opened, .error what) => (opened, .error what)
    | (opened, .ok ()) => (opened, .ok ready)

/-- The third argument of `socket`. -/
def protocolOf (isWrite : Bool) : ℕ := if isWrite then ipprotoRaw else (htons ethPAll).toNat

/-- `socket` gives a descriptor, and a later call fails. -/
def LeavesOpen (k : Kernel) (fd : ℕ) (iFace : Str) (isWrite : Bool) : Prop :=
  (address k iFace).ifindex ≠ 0 ∧ k.socket afPacket sockRaw (protocolOf isWrite) = true ∧
    (k.bind fd (address k iFace) = false ∨
      isWrite = true ∧ k.setsockopt fd (ifrName iFace) = false)

instance (k : Kernel) (fd : ℕ) (iFace : Str) (isWrite : Bool) :
    Decidable (LeavesOpen k fd iFace isWrite) :=
  inferInstanceAs (Decidable (_ ∧ _ ∧ (_ ∨ _ ∧ _)))

/-- A constructor makes an object that owns what was opened, opens nothing, or
leaves a descriptor open. -/
theorem new_cases (k : Kernel) (fd : ℕ) (iFace : Str) (isWrite : Bool) :
    (¬ LeavesOpen k fd iFace isWrite ∧ RawSocket.new k fd iFace isWrite =
        (some fd, .ok { isReady := true, writeMode := isWrite, sockFd := fd, iFace := iFace })) ∨
      (¬ LeavesOpen k fd iFace isWrite ∧
        ∃ what, RawSocket.new k fd iFace isWrite = (none, .error what)) ∨
      (LeavesOpen k fd iFace isWrite ∧
        ∃ what, RawSocket.new k fd iFace isWrite = (some fd, .error what)) := by
  unfold LeavesOpen RawSocket.new init protocolOf
  by_cases hindex : (address k iFace).ifindex = 0
  · simp [hindex]
  · cases isWrite with
    | true =>
      cases hsocket : k.socket afPacket sockRaw ipprotoRaw <;>
        cases hbind : k.bind fd (address k iFace) <;>
        cases k.setsockopt fd (ifrName iFace) <;> simp [hindex, hsocket, hbind]
    | false =>
      cases hsocket : k.socket afPacket sockRaw (htons ethPAll).toNat <;>
        cases hbind : k.bind fd (address k iFace) <;> simp [hindex, hsocket, hbind]

/-! ### Calls -/

/-- The `int` an `ssize_t` is cast to. -/
def toInt (n : ℤ) : ℤ := n.bmod (2 ^ 32)

def eperm : ℤ := 1

namespace RawSocket

/-- `writeData`, with what `write` returns and the nanoseconds it takes. -/
def writeData (result : ℤ) (time : Int64) (s : RawSocket) : ℤ × RawSocket :=
  if !s.isReady || !s.writeMode then (-eperm, s)
  else
    let retval := toInt result
    let stats := { s.stats with processingTime := s.stats.processingTime + time.toFloat }
    let stats := if retval > 0 then
        { stats with sentBytes := stats.sentBytes + UInt64.ofNat retval.toNat } else stats
    (retval, { s with stats := stats })

/-- `readData`, with what `recvfrom` returns and the nanoseconds it takes. -/
def readData (result : ℤ) (time : Int64) (s : RawSocket) : ℤ × RawSocket :=
  if !s.isReady || s.writeMode then (-eperm, s)
  else
    let retval := toInt result
    let stats := { s.stats with processingTime := s.stats.processingTime + time.toFloat }
    let stats := if retval > 0 then
        { stats with receivedBytes := stats.receivedBytes + UInt64.ofNat retval.toNat } else stats
    (retval, { s with stats := stats })

def getStats (resetInternalStats : Bool) (s : RawSocket) : RawSocketStats × RawSocket :=
  if resetInternalStats then (s.stats, { s with stats := {} }) else (s.stats, s)

end RawSocket

inductive Use where
  | writeData (result : ℤ) (time : Int64)
  | readData (result : ℤ) (time : Int64)
  | getStats (resetInternalStats : Bool)
  deriving DecidableEq, Repr

inductive Reply where
  | moved (retval : ℤ)
  | stats (stats : RawSocketStats)

def RawSocket.call (s : RawSocket) : Use → Reply × RawSocket
  | .writeData result time => let (retval, s) := s.writeData result time; (.moved retval, s)
  | .readData result time => let (retval, s) := s.readData result time; (.moved retval, s)
  | .getStats reset => let (stats, s) := s.getStats reset; (.stats stats, s)

/-- A call changes nothing but the statistics. -/
theorem RawSocket.call_frame (s : RawSocket) (u : Use) :
    (s.call u).2 = { s with stats := (s.call u).2.stats } := by
  cases u with
  | writeData result time =>
    simp only [RawSocket.call, RawSocket.writeData]
    split <;> rfl
  | readData result time =>
    simp only [RawSocket.call, RawSocket.readData]
    split <;> rfl
  | getStats reset => cases reset <;> rfl

theorem RawSocket.call_sockFd (s : RawSocket) (u : Use) : (s.call u).2.sockFd = s.sockFd := by
  rw [RawSocket.call_frame]

/-! ### The open sockets of a program -/

/-- The program makes, uses and destroys objects. The kernel has the lowest number
that neither a raw socket nor anything else in the process has. -/
inductive Action where
  | new (k : Kernel) (others : List ℕ) (iFace : Str) (isWrite : Bool)
  | call (i : ℕ) (u : Use)
  | destroy (i : ℕ)

/-- The number that `socket` gives. -/
def number (others : List ℕ) (p : Pool RawSocket) : ℕ := lowest (p.opened ++ others)

def step (p : Pool RawSocket) : Action → Pool RawSocket
  | .new k others iFace isWrite =>
    match RawSocket.new k (number others p) iFace isWrite with
    | (opened, .ok s) => { opened := opened.toList ++ p.opened, objects := p.objects ++ [s] }
    | (opened, .error _) => { p with opened := opened.toList ++ p.opened }
  | .call i u => p.use i fun s => (s.call u).2
  | .destroy i => p.destroy RawSocket.sockFd i

def run (actions : List Action) : Pool RawSocket := actions.foldl step {}

/-- How many descriptors the action leaves open without an object. -/
def lost (p : Pool RawSocket) : Action → ℕ
  | .new k others iFace isWrite => if LeavesOpen k (number others p) iFace isWrite then 1 else 0
  | _ => 0

/-- How many a run leaves open that begins at `p`. -/
def lostAlong (p : Pool RawSocket) : List Action → ℕ
  | [] => 0
  | x :: actions => lost p x + lostAlong (step p x) actions

/-- A step leaves one more descriptor behind, or none. -/
theorem step_owned {left : List ℕ} {p : Pool RawSocket} (h : Owned RawSocket.sockFd left p)
    (x : Action) : ∃ left', Owned RawSocket.sockFd left' (step p x) ∧
      left'.length = left.length + lost p x := by
  cases x with
  | new k others iFace isWrite =>
    have hfree : number others p ∉ p.opened := fun hmem =>
      lowest_notMem (p.opened ++ others) (List.mem_append_left _ hmem)
    simp only [step, lost]
    rcases new_cases k (number others p) iFace isWrite with
      ⟨hnot, hnew⟩ | ⟨hnot, what, hnew⟩ | ⟨hleaves, what, hnew⟩
    · rw [hnew, if_neg hnot]
      exact ⟨left, h.make rfl hfree, rfl⟩
    · rw [hnew, if_neg hnot]
      exact ⟨left, h, rfl⟩
    · rw [hnew, if_pos hleaves]
      exact ⟨number others p :: left, h.leave hfree, rfl⟩
  | call i u => exact ⟨left, h.use i fun s => s.call_sockFd u, rfl⟩
  | destroy i => exact ⟨left, h.destroy i, rfl⟩

theorem foldl_owned (actions : List Action) : ∀ {left : List ℕ} {p : Pool RawSocket},
    Owned RawSocket.sockFd left p → ∃ left', Owned RawSocket.sockFd left' (actions.foldl step p) ∧
      left'.length = left.length + lostAlong p actions := by
  induction actions with
  | nil => exact fun h => ⟨_, h, rfl⟩
  | cons x actions ih =>
    intro left p h
    obtain ⟨left₁, h₁, hlength₁⟩ := step_owned h x
    obtain ⟨left₂, h₂, hlength₂⟩ := ih h₁
    refine ⟨left₂, h₂, ?_⟩
    rw [hlength₂, hlength₁, lostAlong, Nat.add_assoc]

/-- **The open sockets.** After any run of constructors, calls and destructors,
the open descriptors are those of the objects and one for each constructor that
failed after `socket`; each is open once, so that no object has the descriptor of
another or one that was left behind. -/
theorem sockets_accounted (actions : List Action) :
    ∃ left : List ℕ, (run actions).opened.Perm ((run actions).objects.map RawSocket.sockFd ++ left) ∧
      ((run actions).objects.map RawSocket.sockFd ++ left).Nodup ∧
      left.length = lostAlong {} actions := by
  obtain ⟨left, h, hlength⟩ := @foldl_owned actions [] {} .empty
  refine ⟨left, h.perm, h.nodup_append, ?_⟩
  rw [hlength, List.length_nil, Nat.zero_add]

/-- An interface that is there, and can't be bound. -/
def unbound : Kernel where
  ifNametoindex _ := 2
  socket _ _ _ := true
  bind _ _ := false
  setsockopt _ _ := true
  errnoString := str "Operation not permitted"

example : (run (List.replicate 3 (.new unbound [0, 1, 2] (str "eth0") false))).opened = [5, 4, 3] := by
  decide +kernel

/-! ### The statistics of an object -/

/-- The bytes that went either way. -/
structure Traffic where
  sentBytes : UInt64 := 0
  receivedBytes : UInt64 := 0
  deriving DecidableEq, Repr

namespace Traffic

instance : Add Traffic := ⟨fun a b => ⟨a.sentBytes + b.sentBytes, a.receivedBytes + b.receivedBytes⟩⟩

theorem add_def (a b : Traffic) :
    a + b = ⟨a.sentBytes + b.sentBytes, a.receivedBytes + b.receivedBytes⟩ := rfl

protected theorem add_assoc (a b c : Traffic) : a + b + c = a + (b + c) := by
  simp only [add_def, UInt64.add_assoc]

protected theorem add_comm (a b : Traffic) : a + b = b + a := by
  simp only [add_def, UInt64.add_comm]

protected theorem zero_add (a : Traffic) : {} + a = a := by
  simp [add_def]

end Traffic

def RawSocketStats.traffic (stats : RawSocketStats) : Traffic := ⟨stats.sentBytes, stats.receivedBytes⟩

/-- The calls to an object with their replies, and the object after them. -/
def history (s : RawSocket) : List Use → List (Use × Reply) × RawSocket
  | [] => ([], s)
  | u :: uses =>
    let (replies, s') := history (s.call u).2 uses
    ((u, (s.call u).1) :: replies, s')

theorem history_append (uses : List Use) (u : Use) : ∀ s : RawSocket,
    history s (uses ++ [u]) =
      ((history s uses).1 ++ [(u, ((history s uses).2.call u).1)], ((history s uses).2.call u).2) := by
  induction uses with
  | nil => exact fun s => rfl
  | cons v uses ih =>
    intro s
    rw [List.cons_append, history, ih]
    rfl

theorem length_history (uses : List Use) (s : RawSocket) : (history s uses).1.length = uses.length := by
  induction uses generalizing s with
  | nil => rfl
  | cons u uses ih => exact congrArg (· + 1) (ih _)

/-! What is reported and what is left. -/

/-- The bytes that a return value tells of. -/
def bytesMoved (retval : ℤ) : UInt64 := if retval > 0 then UInt64.ofNat retval.toNat else 0

/-- What the caller was told that a call moved. -/
def moved : Use × Reply → Traffic
  | (.writeData _ _, .moved retval) => { sentBytes := bytesMoved retval }
  | (.readData _ _, .moved retval) => { receivedBytes := bytesMoved retval }
  | _ => {}

/-- What a report hands over. -/
def reported : Use × Reply → Traffic
  | (.getStats true, .stats stats) => stats.traffic
  | _ => {}

def totalOf (f : Use × Reply → Traffic) (h : List (Use × Reply)) : Traffic :=
  (h.map f).foldr (· + ·) {}

/-- The calls since the last report that reset. -/
def sinceReset (uses : List Use) : List Use :=
  (uses.reverse.takeWhile (· ≠ .getStats true)).reverse

/-- How long a call took that came to the socket, whatever it returned. -/
def duration (isWrite : Bool) : Use → Option Int64
  | .writeData _ time => if isWrite then some time else none
  | .readData _ time => if isWrite then none else some time
  | .getStats _ => none

/-- The durations since the last reset, added one by one. -/
def timeOf (isWrite : Bool) (uses : List Use) : Float :=
  ((sinceReset uses).filterMap (duration isWrite)).foldl (fun sum time => sum + time.toFloat) 0

/-- What the calls to an object come to, with their replies. -/
structure Accounted (isWrite : Bool) (uses : List Use) (h : List (Use × Reply)) (s : RawSocket) :
    Prop where
  bytes : totalOf reported h + s.stats.traffic = totalOf moved h
  noneReceived : isWrite = true → (totalOf moved h).receivedBytes = 0
  noneSent : isWrite = false → (totalOf moved h).sentBytes = 0
  time : s.stats.processingTime = timeOf isWrite uses
  reports : ∀ before reset, before ++ [.getStats reset] <+: uses → ∃ stats,
    h[before.length]? = some (.getStats reset, .stats stats) ∧
      stats.processingTime = timeOf isWrite before

theorem bytesMoved_eperm : bytesMoved (-eperm) = 0 := rfl

/-- One call: what is reported and what is left is what there was and what was
moved. -/
theorem call_accounted {s : RawSocket} (h : s.isReady = true) (u : Use) :
    reported (u, (s.call u).1) + (s.call u).2.stats.traffic =
      s.stats.traffic + moved (u, (s.call u).1) := by
  obtain ⟨ready, mode, fd, iFace, stats⟩ := s
  obtain rfl : ready = true := h
  cases u with
  | writeData result time =>
    cases mode with
    | true =>
      by_cases hpos : toInt result > 0 <;>
        simp [RawSocket.call, RawSocket.writeData, reported, moved, bytesMoved, hpos,
          RawSocketStats.traffic, Traffic.add_def]
    | false =>
      simp [RawSocket.call, RawSocket.writeData, reported, moved, bytesMoved_eperm,
        RawSocketStats.traffic, Traffic.add_def]
  | readData result time =>
    cases mode with
    | true =>
      simp [RawSocket.call, RawSocket.readData, reported, moved, bytesMoved_eperm,
        RawSocketStats.traffic, Traffic.add_def]
    | false =>
      by_cases hpos : toInt result > 0 <;>
        simp [RawSocket.call, RawSocket.readData, reported, moved, bytesMoved, hpos,
          RawSocketStats.traffic, Traffic.add_def]
  | getStats reset =>
    cases reset with
    | true => rfl
    | false => exact Traffic.add_comm _ _

/-- In write mode nothing is received, in read mode nothing is sent. -/
theorem call_oneWay {s : RawSocket} (u : Use) :
    (s.writeMode = true → (moved (u, (s.call u).1)).receivedBytes = 0) ∧
      (s.writeMode = false → (moved (u, (s.call u).1)).sentBytes = 0) := by
  obtain ⟨ready, mode, fd, iFace, stats⟩ := s
  cases u with
  | writeData result time =>
    refine ⟨fun _ => rfl, ?_⟩
    rintro rfl
    cases ready <;> rfl
  | readData result time =>
    refine ⟨?_, fun _ => rfl⟩
    rintro rfl
    cases ready <;> rfl
  | getStats reset => cases reset <;> exact ⟨fun _ => rfl, fun _ => rfl⟩

/-- What a run of calls hands over, and leaves. -/
theorem history_accounted (uses : List Use) : ∀ {s : RawSocket}, s.isReady = true →
    totalOf reported (history s uses).1 + (history s uses).2.stats.traffic =
      s.stats.traffic + totalOf moved (history s uses).1 := by
  induction uses with
  | nil => exact fun _ => by rw [Traffic.add_comm]; rfl
  | cons u uses ih =>
    intro s h
    have hready : (s.call u).2.isReady = true := by rw [s.call_frame u]; exact h
    have hcall := call_accounted h u
    have hrest := ih hready
    show (reported (u, (s.call u).1) + totalOf reported (history (s.call u).2 uses).1) +
        (history (s.call u).2 uses).2.stats.traffic =
      s.stats.traffic + (moved (u, (s.call u).1) + totalOf moved (history (s.call u).2 uses).1)
    rw [Traffic.add_assoc, hrest, ← Traffic.add_assoc, hcall, Traffic.add_assoc]

theorem history_oneWay (uses : List Use) : ∀ s : RawSocket,
    (s.writeMode = true → (totalOf moved (history s uses).1).receivedBytes = 0) ∧
      (s.writeMode = false → (totalOf moved (history s uses).1).sentBytes = 0) := by
  induction uses with
  | nil => exact fun _ => ⟨fun _ => rfl, fun _ => rfl⟩
  | cons u uses ih =>
    intro s
    have hmode : (s.call u).2.writeMode = s.writeMode := by rw [s.call_frame u]
    have hcall := @call_oneWay s u
    have hrest := ih (s.call u).2
    rw [hmode] at hrest
    constructor
    · intro hw
      show (moved (u, (s.call u).1)).receivedBytes +
        (totalOf moved (history (s.call u).2 uses).1).receivedBytes = 0
      rw [hcall.1 hw, hrest.1 hw]
      rfl
    · intro hr
      show (moved (u, (s.call u).1)).sentBytes +
        (totalOf moved (history (s.call u).2 uses).1).sentBytes = 0
      rw [hcall.2 hr, hrest.2 hr]
      rfl

/-! The time. -/

theorem sinceReset_append (uses : List Use) (u : Use) :
    sinceReset (uses ++ [u]) = if u = .getStats true then [] else sinceReset uses ++ [u] := by
  by_cases hu : u = .getStats true <;> simp [sinceReset, hu]

theorem timeOf_append (isWrite : Bool) (uses : List Use) (u : Use) :
    timeOf isWrite (uses ++ [u]) =
      if u = .getStats true then 0
      else match duration isWrite u with
        | some time => timeOf isWrite uses + time.toFloat
        | none => timeOf isWrite uses := by
  unfold timeOf
  rw [sinceReset_append]
  split
  · rfl
  · rw [List.filterMap_append, List.foldl_append]
    cases hd : duration isWrite u <;> simp [hd]

/-- A call adds its duration if it comes to the socket, and a reset starts anew. -/
theorem call_time {s : RawSocket} (h : s.isReady = true) (u : Use) :
    (s.call u).2.stats.processingTime =
      if u = .getStats true then 0
      else match duration s.writeMode u with
        | some time => s.stats.processingTime + time.toFloat
        | none => s.stats.processingTime := by
  obtain ⟨ready, mode, fd, iFace, stats⟩ := s
  obtain rfl : ready = true := h
  cases u with
  | writeData result time =>
    cases mode with
    | true => by_cases hpos : toInt result > 0 <;> simp [RawSocket.call, RawSocket.writeData, duration, hpos]
    | false => simp [RawSocket.call, RawSocket.writeData, duration]
  | readData result time =>
    cases mode with
    | true => simp [RawSocket.call, RawSocket.readData, duration]
    | false => by_cases hpos : toInt result > 0 <;> simp [RawSocket.call, RawSocket.readData, duration, hpos]
  | getStats reset => cases reset <;> rfl

theorem history_frame (uses : List Use) : ∀ s : RawSocket,
    (history s uses).2.isReady = s.isReady ∧ (history s uses).2.writeMode = s.writeMode := by
  induction uses with
  | nil => exact fun s => ⟨rfl, rfl⟩
  | cons u uses ih =>
    intro s
    obtain ⟨hready, hmode⟩ := ih (s.call u).2
    have hframe := s.call_frame u
    exact ⟨hready.trans (by rw [hframe]), hmode.trans (by rw [hframe])⟩

/-- The object holds the time since the last reset. -/
theorem history_time (uses : List Use) {s : RawSocket} (h : s.isReady = true)
    (hzero : s.stats.processingTime = 0) :
    (history s uses).2.stats.processingTime = timeOf s.writeMode uses := by
  induction uses using List.reverseRecOn with
  | nil => exact hzero
  | append_singleton uses u ih =>
    obtain ⟨hready, hmode⟩ := history_frame uses s
    rw [history_append, timeOf_append, call_time (hready.trans h), hmode, ih]

/-- A report tells what the object holds. -/
theorem history_report (s : RawSocket) {uses before : List Use} {reset : Bool}
    (h : before ++ [.getStats reset] <+: uses) :
    (history s uses).1[before.length]? =
      some (.getStats reset, .stats (history s before).2.stats) := by
  induction uses using List.reverseRecOn with
  | nil => simp at h
  | append_singleton uses u ih =>
    rw [history_append]
    rcases List.prefix_concat_iff.mp h with heq | h
    · obtain ⟨rfl, hu⟩ := List.append_inj' heq rfl
      obtain rfl := List.singleton_inj.mp hu
      rw [List.getElem?_append_right (length_history before s).le, length_history, Nat.sub_self]
      cases reset <;> rfl
    · have hlt : before.length < (history s uses).1.length := by
        have hle := h.length_le
        rw [List.length_append, List.length_singleton] at hle
        rwa [length_history]
      rw [List.getElem?_append_left hlt]
      exact ih h

/-- **The statistics of a socket.** Over any calls to an object that a constructor
made, the bytes the reports hand over and those the object still has add up to
what the calls said they moved, one direction is never used, and the time is that
of the calls since the last reset, in the object and in every report. -/
theorem bytes_accounted (k : Kernel) (fd : ℕ) (iFace : Str) (isWrite : Bool) (s : RawSocket)
    (h : RawSocket.new k fd iFace isWrite = (some fd, .ok s)) (uses : List Use) :
    Accounted isWrite uses (history s uses).1 (history s uses).2 := by
  obtain rfl : s = { isReady := true, writeMode := isWrite, sockFd := fd, iFace := iFace } := by
    rcases new_cases k fd iFace isWrite with ⟨-, hnew⟩ | ⟨-, what, hnew⟩ | ⟨-, what, hnew⟩
    · rw [hnew] at h
      simpa using h.symm
    · simp [hnew] at h
    · simp [hnew] at h
  set s : RawSocket := { isReady := true, writeMode := isWrite, sockFd := fd, iFace := iFace }
  obtain ⟨hreceived, hsent⟩ := history_oneWay uses s
  refine ⟨(history_accounted uses rfl).trans (Traffic.zero_add _), hreceived, hsent,
    history_time uses rfl rfl, fun before reset hbefore => ?_⟩
  exact ⟨_, history_report s hbefore, history_time before rfl rfl⟩

/-- An interface on which everything succeeds. -/
def bindable : Kernel := { unbound with bind := fun _ _ => true }

/-- A write of 60 bytes, one that fails, a read in the wrong mode and a report. -/
theorem bytes_accounted_write :
    let s : RawSocket := { isReady := true, writeMode := true, sockFd := 3, iFace := str "eth0" }
    let uses := [.writeData 60 5, .writeData (-1) 2, .readData 60 5, .getStats true]
    Accounted true uses (history s uses).1 (history s uses).2 :=
  bytes_accounted bindable 3 (str "eth0") true _ (by rfl)
    [.writeData 60 5, .writeData (-1) 2, .readData 60 5, .getStats true]

end Connection
end RepoInit
