/-
# The events of `FileMonitor`

What is read from inotify are events of different sizes, back to back: a header
of four words and the bytes of a name, whose number is in the header. The loop of
`threadFunc` goes from header to header and calls the callback at the first event
that was asked for. It reads no bytes but those of headers
(`Visits.headers`), stops, and calls the callback once if there is such an event
and not at all if there is none (`threadFunc_batch`).

Key definitions: `InotifyEvent`, `scan`, `threadTurn`, `Visits`.
Key theorems: `header_bytes`, `scan_event`, `scan_visits`, `threadFunc_batch`.
-/
import RepoInit.Basic
import RepoInit.Lib.Records

namespace RepoInit
namespace FileMonitor

open Records

/-! ### Events -/

/-- The header of an `inotify_event`. -/
structure Header where
  wd : UInt32
  mask : UInt32
  cookie : UInt32
  len : UInt32
  deriving DecidableEq, Repr

/-- `sizeof(inotify_event)`. -/
def headerSize : ℕ := 16

/-- The header at the beginning of these bytes; `none` if they end before it
does. -/
def header (s : Str) : Option Header := do
  let (wd, s) ← readLe32 s
  let (mask, s) ← readLe32 s
  let (cookie, s) ← readLe32 s
  let (len, _) ← readLe32 s
  return ⟨wd, mask, cookie, len⟩

/-- An event, with as many bytes of name as its header says. -/
structure InotifyEvent where
  header : Header
  name : Str
  length_name : name.length = header.len.toNat

def InotifyEvent.bytes (e : InotifyEvent) : Str :=
  le32 e.header.wd ++ (le32 e.header.mask ++ (le32 e.header.cookie ++ (le32 e.header.len ++ e.name)))

def InotifyEvent.size (e : InotifyEvent) : ℕ := headerSize + e.header.len.toNat

/-- The bytes of a batch. -/
def batch (events : List InotifyEvent) : Str := events.flatMap InotifyEvent.bytes

/-- The event shares a bit with the ones asked for. -/
def InotifyEvent.Matches (notifyEvents : UInt32) (e : InotifyEvent) : Prop :=
  e.header.mask &&& notifyEvents ≠ 0

instance (notifyEvents : UInt32) : DecidablePred (InotifyEvent.Matches notifyEvents) :=
  fun _ => inferInstanceAs (Decidable (_ ≠ _))

/-! ### The loop -/

/-- Where headers were read, in order, and how often the callback was called. -/
structure Scan where
  headers : List ℕ := []
  invoked : ℕ := 0
  deriving DecidableEq, Repr

/-- The inner loop from `idx` on; `none` if it reads outside the buffer. -/
def scan (notifyCallback : Bool) (notifyEvents : UInt32) (buffer : Str) (nRead : ℤ) (idx : ℕ) :
    Option Scan :=
  if _h : notifyCallback ∧ (idx : ℤ) < nRead then
    match header (buffer.drop idx) with
    | none => none
    | some event =>
      if event.mask &&& notifyEvents ≠ 0 then some { headers := [idx], invoked := 1 }
      else
        (scan notifyCallback notifyEvents buffer nRead (idx + (headerSize + event.len.toNat))).map
          fun s => { s with headers := idx :: s.headers }
  else some {}
termination_by (nRead - idx).toNat
decreasing_by
  have := _h.2
  simp only [headerSize]
  omega

/-- A turn of `threadFunc` with `nBytes` available: what `read` gives, or nothing
if it fails, lies at the beginning of a buffer of `nBytes + 1` bytes. -/
def threadTurn (notifyCallback : Bool) (notifyEvents : UInt32) (nBytes : ℕ) (data : Option Str) :
    Option Scan :=
  match data with
  | none => scan notifyCallback notifyEvents (List.replicate (nBytes + 1) 0) (-1) 0
  | some bytes =>
    scan notifyCallback notifyEvents (bytes ++ List.replicate (nBytes + 1 - bytes.length) 0)
      bytes.length 0

/-! ### A batch of events -/

theorem length_bytes (e : InotifyEvent) : e.bytes.length = e.size := by
  simp only [InotifyEvent.bytes, List.length_append, length_le32, InotifyEvent.size, headerSize,
    e.length_name]
  omega

theorem header_bytes (e : InotifyEvent) (s : Str) : header (e.bytes ++ s) = some e.header := by
  simp only [header, InotifyEvent.bytes, List.append_assoc, readLe32_le32, Option.bind_eq_bind,
    Option.bind_some]
  rfl

theorem batch_cons (e : InotifyEvent) (es : List InotifyEvent) :
    batch (e :: es) = e.bytes ++ batch es := List.flatMap_cons

/-- What the scan does with the events from a position on: it reads headers at
their beginnings only, inside the bytes read, and calls the callback once if one
of them matches. -/
structure Visits (notifyEvents : UInt32) (start : ℕ) (events : List InotifyEvent) (s : Scan) :
    Prop where
  headers : s.headers <+: offsets InotifyEvent.size start events
  inside : ∀ idx ∈ s.headers, idx + headerSize ≤ start + (batch events).length
  invoked : s.invoked = if ∃ e ∈ events, e.Matches notifyEvents then 1 else 0

theorem length_batch (events : List InotifyEvent) :
    (batch events).length = (events.map InotifyEvent.size).sum := by
  rw [batch, List.length_flatMap]
  exact congrArg List.sum (List.map_congr_left fun e _ => length_bytes e)

/-- A header at the beginning of an event lies inside the bytes. -/
theorem offset_inside {start idx : ℕ} {events : List InotifyEvent}
    (h : idx ∈ offsets InotifyEvent.size start events) :
    idx + headerSize ≤ start + (batch events).length := by
  obtain ⟨before, e, after, rfl, rfl⟩ := mem_offsets h
  rw [length_batch, List.map_append, List.map_cons, List.sum_append, List.sum_cons,
    InotifyEvent.size]
  omega

/-- Without a match in front, the events behind are scanned. -/
theorem Visits.cons {notifyEvents : UInt32} {start : ℕ} {e : InotifyEvent}
    {es : List InotifyEvent} {s : Scan} (h : Visits notifyEvents (start + e.size) es s)
    (he : ¬ e.Matches notifyEvents) :
    Visits notifyEvents start (e :: es) { s with headers := start :: s.headers } := by
  have hheaders : start :: s.headers <+: offsets InotifyEvent.size start (e :: es) :=
    List.cons_prefix_cons.mpr ⟨rfl, h.headers⟩
  refine ⟨hheaders, fun idx hidx => offset_inside (hheaders.subset hidx), ?_⟩
  simpa [he] using h.invoked

/-- The loop ends at the first match. -/
theorem Visits.first {notifyEvents : UInt32} (start : ℕ) {e : InotifyEvent}
    (es : List InotifyEvent) (he : e.Matches notifyEvents) :
    Visits notifyEvents start (e :: es) { headers := [start], invoked := 1 } := by
  have hheaders : [start] <+: offsets InotifyEvent.size start (e :: es) :=
    ⟨offsets InotifyEvent.size (start + e.size) es, rfl⟩
  refine ⟨hheaders, fun idx hidx => offset_inside (hheaders.subset hidx), ?_⟩
  rw [if_pos ⟨e, List.mem_cons_self, he⟩]

/-- A turn of the inner loop at the beginning of an event. -/
theorem scan_event (notifyEvents : UInt32) (before rest : Str) (e : InotifyEvent) {nRead : ℤ}
    (h : (before.length : ℤ) < nRead) :
    scan true notifyEvents (before ++ (e.bytes ++ rest)) nRead before.length =
      if e.Matches notifyEvents then some { headers := [before.length], invoked := 1 }
      else (scan true notifyEvents (before ++ (e.bytes ++ rest)) nRead (before.length + e.size)).map
        fun s => { s with headers := before.length :: s.headers } := by
  rw [scan, dif_pos ⟨rfl, h⟩, List.drop_left, header_bytes]
  rfl

theorem scan_visits (notifyEvents : UInt32) (rest : Str) : ∀ (events : List InotifyEvent)
    (before : Str), ∃ s, scan true notifyEvents (before ++ (batch events ++ rest))
        (before ++ batch events).length before.length = some s ∧
      Visits notifyEvents before.length events s
  | [], before => by
    refine ⟨{}, ?_, List.nil_prefix, by simp, by simp⟩
    rw [scan, dif_neg (by simp [batch])]
  | e :: es, before => by
    have hlt : ((before.length : ℕ) : ℤ) < ((before ++ batch (e :: es)).length : ℕ) := by
      rw [batch_cons, List.length_append, List.length_append, length_bytes, InotifyEvent.size,
        headerSize]
      omega
    have hbuffer : before ++ (batch (e :: es) ++ rest) = before ++ (e.bytes ++ (batch es ++ rest)) := by
      rw [batch_cons, List.append_assoc]
    rw [hbuffer, scan_event notifyEvents before _ e hlt]
    by_cases he : e.Matches notifyEvents
    · rw [if_pos he]
      exact ⟨_, rfl, Visits.first before.length es he⟩
    · obtain ⟨s, hs, hvisits⟩ := scan_visits notifyEvents rest es (before ++ e.bytes)
      have hnext : (before ++ e.bytes).length = before.length + e.size := by
        rw [List.length_append, length_bytes]
      rw [hnext] at hs hvisits
      rw [List.append_assoc, List.append_assoc, ← batch_cons] at hs
      rw [if_neg he, hs]
      exact ⟨_, rfl, hvisits.cons he⟩

/-- **A batch of events.** Headers are read at the beginnings of events only,
inside the bytes read, and with a callback it is called exactly once if an event
matches. Without one nothing is read or called. -/
theorem threadFunc_batch (notifyEvents : UInt32) (nBytes : ℕ) (events : List InotifyEvent) :
    (∃ s, threadTurn true notifyEvents nBytes (some (batch events)) = some s ∧
        Visits notifyEvents 0 events s) ∧
      threadTurn false notifyEvents nBytes (some (batch events)) = some {} ∧
      threadTurn true notifyEvents nBytes none = some {} := by
  refine ⟨?_, ?_, ?_⟩
  · exact scan_visits notifyEvents (List.replicate (nBytes + 1 - (batch events).length) 0) events []
  · rw [threadTurn, scan, dif_neg (by simp)]
  · rw [threadTurn, scan, dif_neg (by simp)]

end FileMonitor
end RepoInit
