/-
# What the server's counters count

The books of a run, kept in every turn of every tick (`Books`): connections,
received bytes, commands and uploaded bytes. The first three are right
(`counters_conserved`). The upload counter misses what a session sends before
its first `recv`, which resets its statistics: the negotiation and the
greeting. It is right exactly when these sent nothing (`uploaded_eq_iff`).

Key definitions: `keptSent`, `greetings`, `Books`.
Key theorems: `Books.turn`, `Books.update`, `counters_conserved`,
`uploaded_eq_iff`.
-/
import RepoInit.Telnet.Server

namespace RepoInit
namespace Telnet

/-! ### Sums over a trace -/

/-- The session an event belongs to. -/
def Event.id : Event → ℕ
  | .accept id _ _ => id
  | .recv id _ _ => id
  | .send id _ _ _ => id
  | .shutdown id _ => id
  | .close id _ => id
  | .line id _ _ => id

/-- The session `id` enters `m_sessions`. -/
def Event.keeps (id : ℕ) : Event → Bool
  | .accept id' _ kept => id' == id && kept
  | _ => false

/-- The session `id` calls `recv`. -/
def Event.receives (id : ℕ) : Event → Bool
  | .recv id' _ _ => id' == id
  | _ => false

/-- The session is or was in `m_sessions`. -/
def isKept (id : ℕ) (trace : List Event) : Bool := trace.any (Event.keeps id)

def hasReceived (id : ℕ) (trace : List Event) : Bool := trace.any (Event.receives id)

/-- The bytes that the sessions with `kept` sent in these events. -/
def sentBy (kept : ℕ → Bool) (es : List Event) : ℕ :=
  total (fun e => if kept e.id then e.sent else 0) es

/-- The bytes sent by the sessions that are or were in `m_sessions`. -/
def keptSent (trace : List Event) : ℕ := sentBy (fun id => isKept id trace) trace

/-- The events of each session before its first `recv`. -/
def greetings : List Event → List Event
  | [] => []
  | e :: t => if hasReceived e.id t then greetings t else e :: greetings t

/-- The bytes that kept sessions sent before their first `recv`. -/
def greetingSent (trace : List Event) : ℕ := sentBy (fun id => isKept id trace) (greetings trace)

theorem sentBy_append (kept : ℕ → Bool) (es es' : List Event) :
    sentBy kept (es ++ es') = sentBy kept es + sentBy kept es' := total_append _ _ _

theorem sentBy_congr {kept kept' : ℕ → Bool} {es : List Event}
    (h : ∀ e ∈ es, kept e.id = kept' e.id) : sentBy kept es = sentBy kept' es := by
  induction es with
  | nil => rfl
  | cons e es ih =>
    have ih := ih fun e' he => h e' (List.mem_cons_of_mem _ he)
    unfold sentBy at ih ⊢
    rw [total_cons, total_cons, ih, h e List.mem_cons_self]

theorem sentBy_kept {kept : ℕ → Bool} {es : List Event} (h : ∀ e ∈ es, kept e.id = true) :
    sentBy kept es = total Event.sent es := by
  induction es with
  | nil => rfl
  | cons e es ih =>
    have ih := ih fun e' he => h e' (List.mem_cons_of_mem _ he)
    unfold sentBy at ih ⊢
    rw [total_cons, total_cons, ih, if_pos (h e List.mem_cons_self)]

theorem sentBy_eq_zero {kept : ℕ → Bool} {es : List Event} :
    sentBy kept es = 0 ↔ ∀ e ∈ es, kept e.id = true → e.sent = 0 := by
  induction es with
  | nil => simp [sentBy]
  | cons e es ih =>
    have hcons : sentBy kept (e :: es) = (if kept e.id then e.sent else 0) + sentBy kept es := rfl
    rw [hcons, Nat.add_eq_zero_iff, ih, List.forall_mem_cons]
    by_cases h : kept e.id = true <;> simp [h]

theorem greetings_subset (trace : List Event) : ∀ e ∈ greetings trace, e ∈ trace := by
  induction trace with
  | nil => simp [greetings]
  | cons e t ih =>
    intro e' he
    rw [greetings] at he
    split at he
    · exact List.mem_cons_of_mem _ (ih e' he)
    · rcases List.mem_cons.mp he with rfl | he
      · exact List.mem_cons_self
      · exact List.mem_cons_of_mem _ (ih e' he)

theorem hasReceived_append (id : ℕ) (es t : List Event) :
    hasReceived id (es ++ t) = (hasReceived id es || hasReceived id t) := by
  simp [hasReceived]

/-- Once a session has received, its events are no greetings. -/
theorem greetings_append_of_received {id : ℕ} {es t : List Event} (h : ∀ e ∈ es, e.id = id)
    (ht : hasReceived id t = true) : greetings (es ++ t) = greetings t := by
  induction es with
  | nil => rfl
  | cons e es ih =>
    have ih := ih fun e' he => h e' (List.mem_cons_of_mem _ he)
    have hr : hasReceived e.id (es ++ t) = true := by
      rw [hasReceived_append, h e List.mem_cons_self, ht, Bool.or_true]
    rw [List.cons_append, greetings, if_pos hr, ih]

/-- Events of a session that has not received and does not. -/
theorem greetings_append_of_not_received (id : ℕ) {es t : List Event}
    (h : ∀ e ∈ es, e.id = id ∧ e.receives id = false) (ht : hasReceived id t = false) :
    greetings (es ++ t) = es ++ greetings t := by
  induction es with
  | nil => rfl
  | cons e es ih =>
    have ih := ih fun e' he => h e' (List.mem_cons_of_mem _ he)
    have hr : hasReceived e.id (es ++ t) = false := by
      rw [hasReceived_append, (h e List.mem_cons_self).1, ht, Bool.or_false, hasReceived,
        List.any_eq_false]
      intro e' he
      simp [(h e' (List.mem_cons_of_mem _ he)).2]
    rw [List.cons_append, greetings, if_neg (by simp [hr]), ih]
    rfl

theorem length_passedLines (es : List Event) :
    (passedLines es).length = total (Event.answered true) es + total (Event.answered false) es := by
  induction es with
  | nil => rfl
  | cons e es ih =>
    cases e with
    | line id l ok =>
      cases ok <;> simp [passedLines, Event.answered, ih] <;> omega
    | _ => simp [passedLines, Event.answered, ih]

theorem isKept_lt {n id : ℕ} {trace : List Event} (hlt : ∀ e ∈ trace, e.id < n)
    (h : isKept id trace = true) : id < n := by
  obtain ⟨e, he, hk⟩ := List.any_eq_true.mp h
  cases e with
  | accept id' fd kept =>
    simp only [Event.keeps, Bool.and_eq_true, beq_iff_eq] at hk
    exact hk.1 ▸ hlt _ he
  | _ => simp [Event.keeps] at hk

theorem hasReceived_lt {n id : ℕ} {trace : List Event} (hlt : ∀ e ∈ trace, e.id < n)
    (h : hasReceived id trace = true) : id < n := by
  obtain ⟨e, he, hk⟩ := List.any_eq_true.mp h
  cases e with
  | recv id' fd answer =>
    simp only [Event.receives, beq_iff_eq] at hk
    exact hk ▸ hlt _ he
  | _ => simp [Event.receives] at hk

/-! ### The events of a turn -/

/-- An event of the session that neither accepts nor receives. -/
def OfSession (id : ℕ) (e : Event) : Prop :=
  e.id = id ∧ (∀ i, e.keeps i = false) ∧ (∀ i, e.receives i = false) ∧ e.received = 0

theorem IsSend.ofSession {id fd : ℕ} {e : Event} (h : IsSend id fd e) : OfSession id e := by
  obtain ⟨data, r, rfl⟩ := h
  exact ⟨rfl, fun _ => rfl, fun _ => rfl, rfl⟩

theorem UpdateEvents.ofSession {answer : Recv} {id fd : ℕ} {es : List Event}
    (h : UpdateEvents answer id fd es) : ∀ e ∈ es, OfSession id e := by
  rcases h with ⟨-, rfl⟩ | ⟨-, h⟩
  · intro e he
    rw [List.mem_singleton.mp he]
    exact ⟨rfl, fun _ => rfl, fun _ => rfl, rfl⟩
  · intro e he
    rcases h e he with hs | ⟨l, ok, rfl⟩
    · exact hs.ofSession
    · exact ⟨rfl, fun _ => rfl, fun _ => rfl, rfl⟩

theorem closing_ofSession {id fd : ℕ} : ∀ e ∈ closing id fd, OfSession id e := by
  intro e he
  simp only [closing, List.mem_cons, List.not_mem_nil, or_false] at he
  rcases he with rfl | rfl <;> exact ⟨rfl, fun _ => rfl, fun _ => rfl, rfl⟩

/-- The events of a turn are its session's. -/
theorem Turn.own {done todo rest : List TelnetSession} {s : TelnetSession} {srv : TelnetServer}
    {answer : Recv} {es closed : List Event} {stat : TelnetSessionStats} {p : ℕ × TelnetServer}
    (h : Turn done s todo srv answer es stat rest closed p) :
    ∃ es', p.2.world.trace = es' ++ srv.world.trace ∧ ∀ e ∈ es', e.id = s.id := by
  refine ⟨closed ++ es ++ [.recv s.id s.socket answer], by simp [h.trace], fun e he => ?_⟩
  simp only [List.mem_append, List.mem_singleton] at he
  rcases he with (he | he) | rfl
  · rcases h.outcome with ⟨-, -, -, -, rfl⟩ | ⟨-, rfl⟩
    · simp at he
    · exact (closing_ofSession e he).1
  · exact (h.events.ofSession e he).1
  · rfl

theorem Turn.ids_lt {done todo rest : List TelnetSession} {s : TelnetSession} {srv : TelnetServer}
    {answer : Recv} {es closed : List Event} {stat : TelnetSessionStats} {p : ℕ × TelnetServer}
    (h : Turn done s todo srv answer es stat rest closed p) (hs : s.id < srv.world.accepted)
    (hlt : ∀ e ∈ srv.world.trace, e.id < srv.world.accepted) :
    ∀ e ∈ p.2.world.trace, e.id < p.2.world.accepted := by
  obtain ⟨es', htrace, hown⟩ := h.own
  rw [htrace, h.accepted]
  intro e he
  rcases List.mem_append.mp he with he | he
  · rw [hown e he]
    exact hs
  · exact hlt e he

/-- The events of a new session have its number. -/
theorem Accepts.ids_lt {srv srv' : TelnetServer} {b : Bool} (h : Accepts srv srv' b)
    (hlt : ∀ e ∈ srv.world.trace, e.id < srv.world.accepted) :
    ∀ e ∈ srv'.world.trace, e.id < srv'.world.accepted := by
  have hold : ∀ e ∈ srv.world.trace, e.id < srv.world.accepted + 1 := fun e he =>
    (hlt e he).trans (Nat.lt_succ_self _)
  have hnew : ∀ e : Event, e.id = srv.world.accepted → e.id < srv.world.accepted + 1 := fun e he =>
    he ▸ Nat.lt_succ_self _
  cases h with
  | failed hs ht ha =>
    rw [ht, ha]
    exact hlt
  | refused fd es hmax hsends hs ht ha =>
    rw [ht, ha]
    intro e he
    simp only [List.mem_append, List.mem_cons] at he
    rcases he with (he | he) | rfl | he
    · exact hnew e (closing_ofSession e he).1
    · exact hnew e (hsends e he).ofSession.1
    · exact hnew _ rfl
    · exact hold e he
  | kept s es hmax hid hsends hs ht ha =>
    rw [ht, ha]
    intro e he
    simp only [List.mem_append, List.mem_cons] at he
    rcases he with he | rfl | he
    · exact hnew e ((hsends e he).ofSession.1.trans hid)
    · exact hnew _ hid
    · exact hold e he

theorem isKept_append {id : ℕ} {es t : List Event} (h : ∀ e ∈ es, OfSession id e) (i : ℕ) :
    isKept i (es ++ t) = isKept i t := by
  have hes : es.any (Event.keeps i) = false := by
    rw [List.any_eq_false]
    intro e he
    simp [(h e he).2.1 i]
  rw [isKept, List.any_append, hes, Bool.false_or, isKept]

/-! ### The metrics after a session's statistics -/

section Consume

variable (stat : TelnetSessionStats) (closed : Bool) (st : TelnetStats)

theorem consumeStats_base :
    (st.consumeStats stat closed).base =
      st.base.consumeBaseStats stat.successCmdCtr stat.failCmdCtr 0 := by
  unfold TelnetStats.consumeStats
  dsimp only
  split <;> rfl

theorem consumeStats_totalUploadBytes :
    (st.consumeStats stat closed).totalUploadBytes = st.totalUploadBytes + stat.uploadBytes := by
  unfold TelnetStats.consumeStats
  dsimp only
  split <;> rfl

theorem consumeStats_totalDownloadBytes :
    (st.consumeStats stat closed).totalDownloadBytes =
      st.totalDownloadBytes + stat.downloadBytes := by
  unfold TelnetStats.consumeStats
  dsimp only
  split <;> rfl

theorem consumeStats_totalConnection :
    (st.consumeStats stat closed).totalConnection = st.totalConnection := by
  unfold TelnetStats.consumeStats
  dsimp only
  split <;> rfl

theorem consumeStats_sessionDuration :
    (st.consumeStats stat closed).sessionDuration.length =
      st.sessionDuration.length + closed.toNat := by
  unfold TelnetStats.consumeStats
  dsimp only
  cases closed <;> rfl

end Consume

/-! ### The books -/

/-- What the metrics and the trace agree on; `pending` connections are accepted
and not yet counted. -/
structure Books (pending : ℕ) (srv : TelnetServer) (st : TelnetStats) : Prop where
  stats : srv.stats = some st
  ids_lt : ∀ e ∈ srv.world.trace, e.id < srv.world.accepted
  kept : ∀ s ∈ srv.sessions, isKept s.id srv.world.trace = true
  sessions_le : srv.sessions.length ≤ MAX_AVAILABLE_SESSION
  connections : st.totalConnection + pending = srv.sessions.length + st.sessionDuration.length
  download : st.totalDownloadBytes = total Event.received srv.world.trace
  balanced : st.base.Balanced
  commands : st.base.totalCommand = (passedLines srv.world.trace).length
  upload : st.totalUploadBytes + greetingSent srv.world.trace = keptSent srv.world.trace

theorem books_initialised : Books 0 initialised {} := by
  constructor <;> simp [initialised, BaseServerStats.Balanced, passedLines, greetingSent, keptSent,
    greetings, sentBy, total]

/-- After a `recv` the events of a kept session are counted, and are no
greetings. -/
theorem sent_append_of_received {id : ℕ} (fd : ℕ) (answer : Recv) {es t : List Event}
    (h : ∀ e ∈ es, OfSession id e) (hkept : isKept id t = true) :
    keptSent (es ++ .recv id fd answer :: t) = keptSent t + total Event.sent es ∧
      greetingSent (es ++ .recv id fd answer :: t) = greetingSent t := by
  have hk : ∀ i, isKept i (es ++ .recv id fd answer :: t) = isKept i t := fun i => by
    rw [isKept_append h]
    rfl
  have hrecv : hasReceived id (.recv id fd answer :: t) = true := by
    simp [hasReceived, Event.receives]
  constructor
  · unfold keptSent
    simp only [hk]
    rw [sentBy_append, sentBy_kept fun e he => by rw [(h e he).1, hkept]]
    have : sentBy (fun i => isKept i t) (.recv id fd answer :: t) = sentBy (fun i => isKept i t) t := by
      unfold sentBy
      rw [total_cons]
      simp [Event.sent]
    rw [this, Nat.add_comm]
  · unfold greetingSent
    simp only [hk]
    rw [greetings_append_of_received (fun e he => (h e he).1) hrecv, greetings]
    split
    · rfl
    · unfold sentBy
      rw [total_cons]
      simp [Event.sent]

/-- Events of a new session, up to its first `recv`. -/
theorem sent_append_of_accept {id : ℕ} (fd : ℕ) (kept : Bool) {es t : List Event}
    (h : ∀ e ∈ es, OfSession id e) (hlt : ∀ e ∈ t, e.id < id) :
    keptSent (es ++ .accept id fd kept :: t) =
        keptSent t + (if kept then total Event.sent es else 0) ∧
      greetingSent (es ++ .accept id fd kept :: t) =
        greetingSent t + (if kept then total Event.sent es else 0) := by
  have hk : ∀ i, isKept i (es ++ .accept id fd kept :: t) = (id == i && kept || isKept i t) :=
    fun i => by
      rw [isKept_append h]
      rfl
  have hfresh : isKept id t = false := by
    cases hc : isKept id t with
    | false => rfl
    | true => exact absurd (isKept_lt hlt hc) (lt_irrefl _)
  have hrecv : hasReceived id t = false := by
    cases hc : hasReceived id t with
    | false => rfl
    | true => exact absurd (hasReceived_lt hlt hc) (lt_irrefl _)
  -- the events of earlier sessions are counted as before
  have hold : ∀ es' : List Event, (∀ e ∈ es', e ∈ t) →
      sentBy (fun i => id == i && kept || isKept i t) es' = sentBy (fun i => isKept i t) es' := by
    intro es' hsub
    refine sentBy_congr fun e he => ?_
    have hne : (id == e.id) = false := by
      have := hlt e (hsub e he)
      simp only [beq_eq_false_iff_ne]
      omega
    simp [hne]
  have hnew : sentBy (fun i => id == i && kept || isKept i t) (es ++ [.accept id fd kept]) =
      if kept then total Event.sent es else 0 := by
    have hall : ∀ e ∈ es ++ [Event.accept id fd kept], e.id = id := by
      intro e he
      rcases List.mem_append.mp he with he | he
      · exact (h e he).1
      · rw [List.mem_singleton.mp he]
        rfl
    cases kept with
    | true =>
      rw [sentBy_kept fun e he => by simp [hall e he]]
      simp [Event.sent]
    | false => exact sentBy_eq_zero.mpr fun e he hf => by simp [hall e he, hfresh] at hf
  have hsplit : es ++ .accept id fd kept :: t = (es ++ [.accept id fd kept]) ++ t := by simp
  constructor
  · unfold keptSent
    simp only [hk]
    rw [hsplit, sentBy_append, hnew, hold t fun e he => he, Nat.add_comm]
  · unfold greetingSent
    simp only [hk]
    rw [hsplit, greetings_append_of_not_received id (fun e he => ?_) hrecv, sentBy_append,
      hnew, hold _ (greetings_subset t), Nat.add_comm]
    rcases List.mem_append.mp he with he | he
    · exact ⟨(h e he).1, (h e he).2.2.1 id⟩
    · rw [List.mem_singleton.mp he]
      exact ⟨rfl, rfl⟩

theorem sends_total {id fd : ℕ} {es : List Event} (h : ∀ e ∈ es, IsSend id fd e) :
    total Event.received es = 0 ∧ passedLines es = [] :=
  ⟨total_eq_zero fun e he => (h e he).ofSession.2.2.2, passedLines_sends h⟩

/-- A connection is accepted, or refused, or none came. -/
theorem Books.accept {srv srv' : TelnetServer} {st : TelnetStats} {b : Bool}
    (ha : Accepts srv srv' b) (hst : srv'.stats = srv.stats) (h : Books 0 srv st) :
    Books b.toNat srv' st := by
  have hevents := ha.ids_lt h.ids_lt
  cases ha with
  | failed hs ht ha =>
    refine ⟨hst.trans h.stats, hevents, ?_, ?_, ?_, ?_, h.balanced, ?_, ?_⟩
    · rw [hs, ht]
      exact h.kept
    · rw [hs]
      exact h.sessions_le
    · rw [hs]
      exact h.connections
    · rw [ht]
      exact h.download
    · rw [ht]
      exact h.commands
    · rw [ht]
      exact h.upload
  | refused fd es hmax hsends hs ht ha =>
    obtain ⟨hrecv, hlines⟩ := sends_total hsends
    have hof : ∀ e ∈ closing srv.world.accepted fd ++ es, OfSession srv.world.accepted e := by
      intro e he
      rcases List.mem_append.mp he with he | he
      · exact closing_ofSession e he
      · exact (hsends e he).ofSession
    obtain ⟨hkept, hgreet⟩ := sent_append_of_accept fd false hof h.ids_lt
    refine ⟨hst.trans h.stats, hevents, ?_, ?_, ?_, ?_, h.balanced, ?_, ?_⟩
    · rw [hs, ht]
      intro s hs
      rw [isKept_append hof]
      simpa [isKept, Event.keeps] using h.kept s hs
    · rw [hs]
      exact h.sessions_le
    · rw [hs]
      exact h.connections
    · rw [ht, h.download]
      simp [closing, Event.received, hrecv]
    · rw [ht, h.commands]
      simp [closing, passedLines_append, passedLines, hlines]
    · rw [ht, hkept, hgreet]
      exact h.upload
  | kept s es hmax hid hsends hs ht ha =>
    obtain ⟨hrecv, hlines⟩ := sends_total hsends
    have hof : ∀ e ∈ es, OfSession s.id e := fun e he => (hsends e he).ofSession
    obtain ⟨hkept, hgreet⟩ := sent_append_of_accept s.socket true hof
      (fun e he => hid ▸ h.ids_lt e he)
    have hadd := h.upload
    have hconn := h.connections
    refine ⟨hst.trans h.stats, hevents, ?_, ?_, ?_, ?_, h.balanced, ?_, ?_⟩
    · rw [hs, ht]
      intro s' hs'
      rw [isKept_append hof]
      rcases List.mem_append.mp hs' with hs' | hs'
      · have := h.kept s' hs'
        simp_all [isKept]
      · simp [isKept, Event.keeps, List.mem_singleton.mp hs']
    · rw [hs, List.length_append, List.length_singleton]
      exact hmax
    · rw [hs, List.length_append, List.length_singleton]
      simp only [Bool.toNat_true]
      omega
    · rw [ht, h.download]
      simp [Event.received, hrecv]
    · rw [ht, h.commands]
      simp [passedLines_append, passedLines, hlines]
    · rw [ht, hkept, hgreet]
      omega

/-- One turn of the loop. -/
theorem Books.turn {pending : ℕ} {srv : TelnetServer} {st : TelnetStats}
    {done todo rest : List TelnetSession} {s : TelnetSession} {answer : Recv}
    {es closed : List Event} {stat : TelnetSessionStats} {p : ℕ × TelnetServer}
    (hs : srv.sessions = done ++ s :: todo)
    (ht : Turn done s todo srv answer es stat rest closed p) (h : Books pending srv st) :
    Books pending p.2 (st.consumeStats stat rest.isEmpty) := by
  have hes := ht.events.ofSession
  have hclosed : (∀ e ∈ closed, OfSession s.id e) ∧ total Event.sent closed = 0 ∧
      passedLines closed = [] := by
    rcases ht.outcome with ⟨-, -, -, -, rfl⟩ | ⟨-, rfl⟩
    · exact ⟨by simp, rfl, rfl⟩
    · exact ⟨closing_ofSession, rfl, rfl⟩
  have hof : ∀ e ∈ closed ++ es, OfSession s.id e := by
    intro e he
    rcases List.mem_append.mp he with he | he
    · exact hclosed.1 e he
    · exact hes e he
  have hrest : (∀ r ∈ rest, r.id = s.id) ∧ rest.length + rest.isEmpty.toNat = 1 := by
    rcases ht.outcome with ⟨s', hid, -, rfl, -⟩ | ⟨rfl, -⟩
    · exact ⟨by simp [hid], rfl⟩
    · exact ⟨by simp, rfl⟩
  have hmem : s ∈ srv.sessions := by simp [hs]
  have hkept_s := h.kept s hmem
  obtain ⟨hkept, hgreet⟩ := sent_append_of_received s.socket answer hof hkept_s
  have hlen : srv.sessions.length = done.length + todo.length + 1 := by
    simp [hs]
    omega
  have hlen' : p.2.sessions.length = done.length + rest.length + todo.length := by
    simp [ht.sessions, Nat.add_assoc]
  have hreceived : total Event.received (closed ++ es) = 0 :=
    total_eq_zero fun e he => (hof e he).2.2.2
  refine ⟨by rw [ht.stats, h.stats]; rfl, ht.ids_lt (isKept_lt h.ids_lt hkept_s) h.ids_lt, ?_, ?_,
    ?_, ?_, ?_, ?_, ?_⟩
  · rw [ht.trace]
    intro r hr
    rw [isKept_append hof]
    show isKept r.id srv.world.trace = true
    simp only [ht.sessions, List.mem_append] at hr
    rcases hr with (hr | hr) | hr
    · exact h.kept r (by simp [hs, hr])
    · rw [hrest.1 r hr]
      exact hkept_s
    · exact h.kept r (by simp [hs, hr])
  · have := h.sessions_le
    have := hrest.2
    omega
  · have hconn := h.connections
    have := hrest.2
    rw [consumeStats_totalConnection, consumeStats_sessionDuration]
    omega
  · rw [consumeStats_totalDownloadBytes, ht.trace, h.download, ht.counted.download, total_append,
      hreceived, total_cons]
    cases answer <;> simp [Event.received, Recv.size, Nat.add_comm]
  · rw [consumeStats_base]
    exact h.balanced.consumeBaseStats _ _ _
  · rw [consumeStats_base, consumeBaseStats_totalCommand, ht.trace, h.commands,
      ht.counted.success, ht.counted.fail, ← length_passedLines]
    simp [passedLines_append, passedLines, hclosed.2.2]
  · have hup := h.upload
    rw [consumeStats_totalUploadBytes, ht.trace, hkept, hgreet, ht.counted.upload, total_append,
      hclosed.2.1]
    omega

theorem consumeServerStats_base (stat : TelnetServerStats) (st : TelnetStats) :
    (st.consumeServerStats stat).base = st.base ∨ ∃ t,
      (st.consumeServerStats stat).base = st.base.consumeBaseStats 0 0 t := by
  unfold TelnetStats.consumeServerStats
  dsimp only
  split
  · exact Or.inr ⟨_, rfl⟩
  · exact Or.inl rfl

/-- The end of a tick. -/
theorem Books.finish {pending : ℕ} {srv : TelnetServer} {st : TelnetStats} (n : ℕ)
    (stat : TelnetServerStats) (hstat : stat.acceptedConnectionCtr = pending)
    (h : Books pending srv st) :
    Books 0 { sessions := srv.sessions
              stats := srv.stats.map (TelnetStats.consumeServerStats stat)
              world := { srv.world with n := n } } (st.consumeServerStats stat) := by
  have hfields : (st.consumeServerStats stat).totalConnection =
        st.totalConnection + stat.acceptedConnectionCtr ∧
      (st.consumeServerStats stat).sessionDuration = st.sessionDuration ∧
      (st.consumeServerStats stat).totalDownloadBytes = st.totalDownloadBytes ∧
      (st.consumeServerStats stat).totalUploadBytes = st.totalUploadBytes := by
    unfold TelnetStats.consumeServerStats
    dsimp only
    split <;> exact ⟨rfl, rfl, rfl, rfl⟩
  obtain ⟨f1, f2, f3, f4⟩ := hfields
  refine ⟨by rw [h.stats]; rfl, h.ids_lt, h.kept, h.sessions_le, ?_, ?_, ?_, ?_, ?_⟩
  · rw [f1, f2, hstat]
    exact h.connections
  · rw [f3]
    exact h.download
  · rcases consumeServerStats_base stat st with hb | ⟨t, hb⟩
    · rw [hb]
      exact h.balanced
    · rw [hb]
      exact h.balanced.consumeBaseStats _ _ _
  · rcases consumeServerStats_base stat st with hb | ⟨t, hb⟩
    · rw [hb]
      exact h.commands
    · rw [hb, consumeBaseStats_totalCommand]
      exact h.commands
  · rw [f4]
    exact h.upload

theorem consumeServerStats_activeConnection (stat : TelnetServerStats) (st : TelnetStats) :
    (st.consumeServerStats stat).activeConnection = stat.activeConnectionCtr := by
  unfold TelnetStats.consumeServerStats
  dsimp only
  split <;> rfl

/-- A tick keeps the books and sets the gauge. -/
theorem Books.update {srv : TelnetServer} {st : TelnetStats} (os : Os) (conf : Conf)
    (h : Books 0 srv st) :
    ∃ st', Books 0 (srv.update os conf) st' ∧
      st'.activeConnection = (srv.update os conf).sessions.length := by
  obtain ⟨ha, hst⟩ := startTick_spec os conf srv
  have hfirst := h.accept ha hst
  have hturns : TurnsKeep fun srv' => ∃ st', Books (startTick os conf srv).1.1.toNat srv' st' := by
    rintro done s todo srv' answer es stat rest closed p hs ht ⟨st', hbooks⟩
    exact ⟨_, hbooks.turn hs ht⟩
  obtain ⟨st', hloop⟩ := updateSessions_rule os conf hturns 0 ⟨st, hfirst⟩
  refine ⟨_, hloop.finish _ (serverStats _ _ _ (startTick os conf srv).1.2 _) rfl, ?_⟩
  exact consumeServerStats_activeConnection _ _

/-- The books of a run, after every tick. -/
theorem books_ticks (os : Os) (confs : List Conf) :
    ∃ st, Books 0 (ticks os confs initialised) st ∧
      st.activeConnection = (ticks os confs initialised).sessions.length := by
  induction confs using List.reverseRecOn with
  | nil => exact ⟨{}, books_initialised, rfl⟩
  | append_singleton confs conf ih =>
    obtain ⟨st, hbooks, -⟩ := ih
    simp only [ticks, List.foldl_append, List.foldl_cons, List.foldl_nil]
    exact hbooks.update os conf

/-- **Sessions and counters are conserved.** After every tick of a run with
statistics. -/
theorem counters_conserved (os : Os) (confs : List Conf) :
    ∃ st, (ticks os confs initialised).stats = some st ∧
      (ticks os confs initialised).sessions.length ≤ MAX_AVAILABLE_SESSION ∧
      st.activeConnection = (ticks os confs initialised).sessions.length ∧
      st.activeConnection + st.sessionDuration.length = st.totalConnection ∧
      st.totalDownloadBytes = total Event.received (ticks os confs initialised).world.trace ∧
      st.base.totalCommand = st.base.succeededCommand + st.base.failedCommand ∧
      st.base.totalCommand = (passedLines (ticks os confs initialised).world.trace).length := by
  obtain ⟨st, h, hactive⟩ := books_ticks os confs
  have hconn := h.connections
  exact ⟨st, h.stats, h.sessions_le, hactive, by omega, h.download, h.balanced, h.commands⟩

/-! ### Uploads -/

/-- **Uploads are counted exactly if greetings send nothing.** After every tick
of a run with statistics, `uploaded_bytes` is what the sessions that are or
were in `m_sessions` sent, if and only if none of their sends before their
first `recv` (the negotiation and the connected callback) sent anything. -/
theorem uploaded_eq_iff (os : Os) (confs : List Conf) :
    ∃ st, (ticks os confs initialised).stats = some st ∧
      (st.totalUploadBytes = keptSent (ticks os confs initialised).world.trace ↔
        ∀ id fd data r, .send id fd data r ∈ greetings (ticks os confs initialised).world.trace →
          isKept id (ticks os confs initialised).world.trace = true → r ≤ 0) := by
  obtain ⟨st, h, -⟩ := books_ticks os confs
  refine ⟨st, h.stats, ?_⟩
  have hup := h.upload
  have hzero : st.totalUploadBytes = keptSent (ticks os confs initialised).world.trace ↔
      greetingSent (ticks os confs initialised).world.trace = 0 := by
    omega
  rw [hzero, greetingSent, sentBy_eq_zero]
  constructor
  · intro hall id fd data r hm hk
    have := hall _ hm hk
    simpa [Event.sent] using this
  · intro hall e he hk
    cases e with
    | send id fd data r => simpa [Event.sent] using hall id fd data r he hk
    | _ => rfl

/-- A client connects in the first tick and every send goes out. -/
def greetOs : Os :=
  { (default : Os) with
    select := fun n => n == 1, accept := fun _ => some 5, recv := fun _ => .fail EAGAIN,
    send := fun _ => 3 }

/-- The nine bytes of the negotiation are not counted. -/
theorem uploaded_ne_greetOs :
    (ticks greetOs [default] initialised).stats.map (·.totalUploadBytes) = some 0 ∧
      keptSent (ticks greetOs [default] initialised).world.trace = 9 := by
  decide +kernel

end Telnet
end RepoInit
