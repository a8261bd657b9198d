/-
# The loop over the sessions, with its index

`TelnetServer::update` goes over `m_sessions` with a `size_t` index, erases the
sessions that timed out as it goes and decrements the index for them, below zero
for the first one. `sweep` is that loop (`EraseLoop`) with the body of the
source; every session is visited once, in order, and what is left, reported and
closed can be read off the visits (`sweep_visits`). `updateSessions`, on which
the runs of the server are built, is the same loop (`sweep_updateSessions`).

Key definitions: `visit`, `sweep`, `Visited`, `visits`.
Key theorems: `visitEach_visits`, `visits_trace`, `sweep_visits`, `sweep_updateSessions`.
-/
import RepoInit.Lib.EraseLoop
import RepoInit.Telnet.Server

namespace RepoInit
namespace Telnet

open EraseLoop

section Sweep

variable (os : Os) (conf : Conf)

/-- The body of the loop on one session: `none` if it is closed and erased. -/
def visit (session : TelnetSession) (p : Option TelnetStats × World) :
    Option TelnetSession × Option TelnetStats × World :=
  let c := TelnetSession.update os conf (os.recv p.2.n) ⟨session, p.2.next⟩
  let (timeout, c) := checkTimeout os c
  if timeout then
    let c := closeClient os c
    (none, p.1.map (TelnetStats.consumeStats c.session.stats true), c.world)
  else (some c.session, p.1.map (TelnetStats.consumeStats c.session.stats false), c.world)

/-- The loop of `update`, for less than the given number of turns. -/
def sweep (turns : ℕ) (srv : TelnetServer) : Outcome TelnetServer :=
  match loop (visit os conf) turns 0 srv.sessions (srv.stats, srv.world) with
  | .ended (sessions, stats, world) => .ended { sessions, stats, world }
  | .outside => .outside
  | .running => .running

/-! ### What it is for -/

/-- A session as the loop found it, as its update left it, and whether it had
timed out then and was closed. -/
structure Visited where
  session : TelnetSession
  updated : TelnetSession
  timeout : Bool

/-- An update, the look at the clock, and the end of a session that timed out. -/
def visited (session : TelnetSession) (w : World) : Visited × World :=
  let c := TelnetSession.update os conf (os.recv w.n) ⟨session, w.next⟩
  let (timeout, c) := checkTimeout os c
  let c := if timeout then closeClient os c else c
  (⟨session, c.session, timeout⟩, c.world)

/-- Every session of the list once, in order. -/
def visits : List TelnetSession → World → List Visited × World
  | [], w => ([], w)
  | session :: sessions, w =>
    let p := visited os conf session w
    let q := visits sessions p.2
    (p.1 :: q.1, q.2)

/-- What the visit of a session reports to the statistics. -/
def Visited.report (stats : Option TelnetStats) (v : Visited) : Option TelnetStats :=
  stats.map (TelnetStats.consumeStats v.updated.stats v.timeout)

theorem visit_eq (session : TelnetSession) (stats : Option TelnetStats) (w : World) :
    visit os conf session (stats, w) =
      (if (visited os conf session w).1.timeout then none
        else some (visited os conf session w).1.updated,
        Visited.report stats (visited os conf session w).1, (visited os conf session w).2) := by
  unfold visit visited Visited.report
  dsimp only [checkTimeout]
  split
  · rename_i h
    simp [h]
  · rename_i h
    simp [h]

/-- The traversal, read off the visits. -/
theorem visitEach_visits (sessions : List TelnetSession) (stats : Option TelnetStats) (w : World) :
    visitEach (visit os conf) sessions (stats, w) =
      (((visits os conf sessions w).1.filter (!·.timeout)).map (·.updated),
        (visits os conf sessions w).1.foldl Visited.report stats, (visits os conf sessions w).2) := by
  induction sessions generalizing stats w with
  | nil => rfl
  | cons session sessions ih =>
    simp only [visitEach, visit_eq, ih, visits, List.foldl_cons, List.filter_cons]
    cases (visited os conf session w).1.timeout with
    | true => simp
    | false => simp

theorem visits_sessions (sessions : List TelnetSession) (w : World) :
    (visits os conf sessions w).1.map (·.session) = sessions := by
  induction sessions generalizing w with
  | nil => rfl
  | cons session sessions ih =>
    simp only [visits, List.map_cons, ih]
    rfl

/-! ### The events of the visits -/

/-- The session whose update an event begins. -/
def Event.updates : Event → Option ℕ
  | .recv id _ _ => some id
  | _ => none

/-- The session whose end, by `closeClient`, an event begins. -/
def Event.ends : Event → Option ℕ
  | .shutdown id _ => some id
  | _ => none

theorem updateEvents_quiet {answer : Recv} {id fd : ℕ} {es : List Event}
    (h : UpdateEvents answer id fd es) :
    es.filterMap Event.updates = [] ∧ es.filterMap Event.ends = [] := by
  have hquiet : ∀ e ∈ es, e.updates = none ∧ e.ends = none := by
    intro e he
    rcases h with ⟨-, rfl⟩ | ⟨-, hwork⟩
    · rw [List.mem_singleton.mp he]
      exact ⟨rfl, rfl⟩
    · rcases hwork e he with ⟨data, r, rfl⟩ | ⟨l, ok, rfl⟩
      · exact ⟨rfl, rfl⟩
      · exact ⟨rfl, rfl⟩
  exact ⟨List.filterMap_eq_nil_iff.mpr fun e he => (hquiet e he).1,
    List.filterMap_eq_nil_iff.mpr fun e he => (hquiet e he).2⟩

/-- One visit updates its session, and ends it if it timed out. -/
theorem visited_trace (session : TelnetSession) (w : World) :
    ∃ es, (visited os conf session w).2.trace = es ++ w.trace ∧
      es.filterMap Event.updates = [session.id] ∧
      ((visited os conf session w).1.timeout = true → es.filterMap Event.ends = [session.id]) ∧
      ((visited os conf session w).1.timeout = false → es.filterMap Event.ends = []) := by
  obtain ⟨es, h⟩ := update_updated os conf (os.recv w.n) ⟨session, w.next⟩
  obtain ⟨hupdates, hends⟩ := updateEvents_quiet h.events
  unfold visited
  dsimp only [checkTimeout]
  set c := TelnetSession.update os conf (os.recv w.n) ⟨session, w.next⟩ with hc
  have htrace : c.world.trace = es ++ [.recv session.id session.socket (os.recv w.n)] ++ w.trace := by
    rw [h.trace, List.append_assoc]
    rfl
  -- the session's `recv` begins the update, and its `shutdown` the end
  have hrecv : (es ++ [Event.recv session.id session.socket (os.recv w.n)]).filterMap Event.updates =
        [session.id] ∧
      (es ++ [Event.recv session.id session.socket (os.recv w.n)]).filterMap Event.ends = [] := by
    rw [List.filterMap_append, List.filterMap_append, hupdates, hends]
    exact ⟨rfl, rfl⟩
  split
  · rename_i htimeout
    refine ⟨closing session.id session.socket ++
      (es ++ [.recv session.id session.socket (os.recv w.n)]), ?_, ?_, fun _ => ?_, fun hopen => ?_⟩
    · rw [closeClient_trace, h.id, h.socket, List.append_assoc]
      exact congrArg _ htrace
    · rw [List.filterMap_append, hrecv.1]
      rfl
    · rw [List.filterMap_append, hrecv.2]
      rfl
    · simp [htimeout] at hopen
  · rename_i htimeout
    exact ⟨_, htrace, hrecv.1, fun h => absurd h htimeout, fun _ => hrecv.2⟩

/-- Oldest first, the visits update every session once, in order, and end those
that timed out. -/
theorem visits_trace (sessions : List TelnetSession) (w : World) :
    ∃ es, (visits os conf sessions w).2.trace = es ++ w.trace ∧
      es.reverse.filterMap Event.updates = sessions.map (·.id) ∧
      es.reverse.filterMap Event.ends =
        ((visits os conf sessions w).1.filter (·.timeout)).map (·.session.id) := by
  induction sessions generalizing w with
  | nil => exact ⟨[], rfl, rfl, rfl⟩
  | cons session sessions ih =>
    obtain ⟨es, htrace, hupdates, hclosed, hopen⟩ := visited_trace os conf session w
    obtain ⟨es', htrace', hupdates', hends'⟩ := ih (visited os conf session w).2
    refine ⟨es' ++ es, ?_, ?_, ?_⟩
    · simp only [visits, htrace', htrace, List.append_assoc]
    · rw [List.reverse_append, List.filterMap_append, hupdates', List.filterMap_reverse, hupdates]
      rfl
    · rw [List.reverse_append, List.filterMap_append, hends', List.filterMap_reverse]
      simp only [visits, List.filter_cons]
      cases ht : (visited os conf session w).1.timeout with
      | true =>
        rw [hclosed ht, if_pos rfl, List.map_cons]
        rfl
      | false =>
        rw [hopen ht, if_neg (by simp)]
        rfl

/-! ### The loop -/

/-- The index stays within the vector, and the loop is the traversal. -/
theorem sweep_visitEach {srv : TelnetServer} (hlen : srv.sessions.length ≤ 2 ^ 31) :
    sweep os conf (srv.sessions.length + 1) srv = .ended
      { sessions := (visitEach (visit os conf) srv.sessions (srv.stats, srv.world)).1
        stats := (visitEach (visit os conf) srv.sessions (srv.stats, srv.world)).2.1
        world := (visitEach (visit os conf) srv.sessions (srv.stats, srv.world)).2.2 } := by
  have hloop := @loop_eq_visitEach _ _ (visit os conf) 0 [] srv.sessions
    (srv.stats, srv.world) rfl hlen
  rw [List.nil_append, List.nil_append] at hloop
  rw [sweep, hloop]

/-- **The sweep.** On every list of sessions an `int` can index the loop ends
within the vector. It has visited every session once, in order: an update and
the look at the clock, for the timed-out ones also the closing. The others are
left, in their order, and each visit is reported once, as that of a closed or of
an open session. -/
theorem sweep_visits {srv : TelnetServer} (hlen : srv.sessions.length ≤ 2 ^ 31) :
    sweep os conf (srv.sessions.length + 1) srv = .ended
        { sessions := ((visits os conf srv.sessions srv.world).1.filter (!·.timeout)).map (·.updated)
          stats := (visits os conf srv.sessions srv.world).1.foldl Visited.report srv.stats
          world := (visits os conf srv.sessions srv.world).2 } ∧
      (visits os conf srv.sessions srv.world).1.map (·.session) = srv.sessions ∧
      ∃ es, (visits os conf srv.sessions srv.world).2.trace = es ++ srv.world.trace ∧
        es.reverse.filterMap Event.updates = srv.sessions.map (·.id) ∧
        es.reverse.filterMap Event.ends =
          ((visits os conf srv.sessions srv.world).1.filter (·.timeout)).map (·.session.id) := by
  refine ⟨?_, visits_sessions os conf _ _, visits_trace os conf _ _⟩
  rw [sweep_visitEach os conf hlen, visitEach_visits]

end Sweep

/-- The first and the last of three sessions were not seen for too long. -/
def outerTimedOut : TelnetServer :=
  { sessions := [{ id := 0, socket := 4, lastSeenTime := -121000000000 }, { id := 1, socket := 5 },
      { id := 2, socket := 6, lastSeenTime := 121000000000 }] }

theorem sweep_visits_outer :
    ∃ srv, sweep default default 4 outerTimedOut = .ended srv ∧ srv.sessions.map (·.id) = [1] :=
  ⟨_, (@sweep_visits default default outerTimedOut (by decide)).1, by decide +kernel⟩

/-! ### The runs of the server -/

section Runs

variable (os : Os) (conf : Conf)

/-- A turn of `updateSessions` is a visit. -/
theorem turn_visit (done todo : List TelnetSession) (session : TelnetSession)
    (stats : Option TelnetStats) (w : World) :
    turn os conf done.length { sessions := done ++ session :: todo, stats := stats, world := w } =
      ((done ++ (visit os conf session (stats, w)).1.toList).length,
        { sessions := done ++ (visit os conf session (stats, w)).1.toList ++ todo
          stats := (visit os conf session (stats, w)).2.1
          world := (visit os conf session (stats, w)).2.2 }) := by
  have hget : (done ++ session :: todo)[done.length]? = some session := by simp
  unfold turn visit
  simp only [hget]
  split
  · simp [List.eraseIdx_append_of_length_le]
  · simp

/-- The loop without an index below zero. -/
theorem updateSessions_eq_visitEach (done todo : List TelnetSession) (stats : Option TelnetStats)
    (w : World) :
    updateSessions os conf done.length { sessions := done ++ todo, stats := stats, world := w } =
      { sessions := done ++ (visitEach (visit os conf) todo (stats, w)).1
        stats := (visitEach (visit os conf) todo (stats, w)).2.1
        world := (visitEach (visit os conf) todo (stats, w)).2.2 } := by
  induction todo generalizing done stats w with
  | nil =>
    rw [updateSessions, if_neg (by simp)]
    rfl
  | cons session todo ih =>
    rw [updateSessions, if_pos (by simp), turn_visit, ih, visitEach]
    simp only [List.append_assoc]

/-- The loop of the source is the one the runs of the server are built on. -/
theorem sweep_updateSessions {srv : TelnetServer} (hlen : srv.sessions.length ≤ 2 ^ 31) :
    sweep os conf (srv.sessions.length + 1) srv = .ended (updateSessions os conf 0 srv) := by
  rw [sweep_visitEach os conf hlen]
  exact congrArg Outcome.ended
    (updateSessions_eq_visitEach os conf [] srv.sessions srv.stats srv.world).symm

end Runs

end Telnet
end RepoInit
