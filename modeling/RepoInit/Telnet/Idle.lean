/-
# Sessions that receive nothing

Nothing but the timeout takes a session out of `m_sessions`: the end of a stream and
an error of `recv` leave it there. So a session whose `recv` calls return no bytes
keeps its place for `TELNET_TIMEOUT` seconds and a part of one, and loses it in the
next tick after them (`silent_present`), if the clock does not go back. Until then
`MAX_AVAILABLE_SESSION` of them keep everybody else out (`silent_keepOut`).

Key definitions: `Steady`, `Aged`, `timeLimit`, `Idle`.
Key theorems: `Idle.ticks`, `updateSessions_late`, `silent_present`, `silent_keepOut`.
-/
import Mathlib.Data.Int.Order.Basic
import Mathlib.Data.List.Perm.Subperm
import RepoInit.Telnet.Service

namespace RepoInit
namespace Telnet

/-- The clock is not before the epoch and never goes back. -/
structure Steady (os : Os) : Prop where
  epoch : 0 ≤ os.systemClock 0
  mono {m n : ℕ} (h : m ≤ n) : os.systemClock m ≤ os.systemClock n

/-! ### When a session was seen -/

/-- Answers were used up, and a session that was not seen later than now is not
seen later than now. -/
def Aged (os : Os) (c c' : Conn) : Prop :=
  c.world.n ≤ c'.world.n ∧
    (c.session.lastSeenTime ≤ os.systemClock c.world.n →
      c'.session.lastSeenTime ≤ os.systemClock c'.world.n)

section Session

variable {os : Os} {conf : Conf}

theorem Aged.refl (c : Conn) : Aged os c c := ⟨le_rfl, id⟩

theorem Aged.trans {c₁ c₂ c₃ : Conn} (h : Aged os c₁ c₂) (h' : Aged os c₂ c₃) : Aged os c₁ c₃ :=
  ⟨h.1.trans h'.1, h'.2 ∘ h.2⟩

theorem Aged.setBuffer {c c' : Conn} (h : Aged os c c') (buffer : Str) :
    Aged os c (c'.setBuffer buffer) := h

variable (hos : Steady os)

include hos

theorem Steady.nonneg (n : ℕ) : 0 ≤ os.systemClock n := hos.epoch.trans (hos.mono (Nat.zero_le n))

theorem aged_of_same {c c' : Conn} (hn : c.world.n ≤ c'.world.n)
    (hseen : c'.session.lastSeenTime = c.session.lastSeenTime) : Aged os c c' :=
  ⟨hn, fun h => hseen ▸ h.trans (hos.mono hn)⟩

theorem sendCounted_aged (data : Str) (c : Conn) : Aged os c (sendCounted os data c) := by
  refine aged_of_same hos ?_ (sendCounted_quiet os data c).2
  unfold sendCounted send
  dsimp only
  split <;> exact Nat.le_succ _

theorem eraseLine_aged (c : Conn) : Aged os c (eraseLine os c) :=
  (sendCounted_aged hos _ c).trans (sendCounted_aged hos _ _)

theorem sendPromptAndBuffer_aged (c : Conn) : Aged os c (sendPromptAndBuffer os conf c) := by
  unfold sendPromptAndBuffer
  dsimp only
  split
  · exact (sendCounted_aged hos _ c).trans (sendCounted_aged hos _ _)
  · exact sendCounted_aged hos _ c

theorem sendLine_aged (data : Str) (c : Conn) : Aged os c (sendLine os conf data c) := by
  have herase : Aged os c
      (if conf.interactivePrompt ∨ c.session.buffer ≠ [] then eraseLine os c else c) := by
    split
    · exact eraseLine_aged hos c
    · exact Aged.refl c
  have hsend := herase.trans (sendCounted_aged hos (data ++ crlf) _)
  unfold sendLine
  dsimp only
  split
  · exact hsend.trans (sendPromptAndBuffer_aged hos _)
  · exact hsend

theorem runActs_aged (acts : List Act) (c : Conn) : Aged os c (runActs os conf acts c) := by
  induction acts generalizing c with
  | nil => exact Aged.refl c
  | cons a acts ih =>
    have hact : Aged os c (runAct os conf a c) := by
      cases a with
      | sendLine data => exact sendLine_aged hos data c
      | markTimeout => exact ⟨le_rfl, fun _ => hos.nonneg _⟩
      | setLevel level => exact ⟨le_rfl, id⟩
    exact hact.trans (ih _)

/-- The session is seen when `initialise` ends. -/
theorem initialise_aged (c : Conn) : Aged os c (initialise os conf c) := by
  have hclock : Aged os c
      { session := { c.session with
          stats := { c.session.stats with connectTime := os.highResolutionClock c.world.n } }
        world := c.world.next } := aged_of_same hos (Nat.le_succ _) rfl
  have hsent := ((hclock.trans (sendCounted_aged hos [0xff, 0xfb, 0x01] _)).trans
    (sendCounted_aged hos [0xff, 0xfe, 0x01] _)).trans (sendCounted_aged hos [0xff, 0xfb, 0x03] _)
  have hseen : ∀ c' : Conn,
      Aged os c' { c'.setLastSeenTime (os.systemClock c'.world.n) with world := c'.world.next } :=
    fun c' => ⟨Nat.le_succ _, fun _ => hos.mono (Nat.le_succ _)⟩
  unfold initialise
  dsimp only
  cases conf.connectedCallback with
  | none => exact hsent.trans (hseen _)
  | some callback => exact (hsent.trans (runActs_aged hos _ _)).trans (hseen _)

theorem editBuffer_aged (c : Conn) : Aged os c (editBuffer os conf c).2 := by
  have hcounter : ∀ cursor (c' : Conn), c'.session.lastSeenTime = c.session.lastSeenTime →
      c'.world = c.world → Aged os c (counterCursor os cursor c').2 := by
    intro cursor c' hseen hworld
    unfold counterCursor send
    dsimp only
    split <;> exact aged_of_same hos (hworld ▸ Nat.le_succ _) hseen
  have hhistory : Aged os c (processCommandHistory os conf c).2 := by
    unfold processCommandHistory
    split_ifs
    · exact hcounter ansiArrowDown _ rfl rfl
    · exact hcounter ansiArrowUp _ rfl rfl
    · exact Aged.refl c
    · exact Aged.refl c
  have hcomplete : ∀ found (c' : Conn), Aged os c' (completeAt os conf found c') := by
    intro found c'
    unfold completeAt
    split
    · exact Aged.refl c'
    · dsimp only
      split
      · exact runActs_aged hos _ c'
      · exact runActs_aged hos _ c'
  have htab : ∀ b (c' : Conn), Aged os c' (processTabLoop os conf b c').2 := by
    intro b c'
    induction b, c' using processTabLoop.induct os conf with
    | case1 b c' h =>
      rw [processTabLoop_of_none os conf b h]
      exact Aged.refl c'
    | case2 b c' found h ih =>
      rw [processTabLoop_of_some os conf b h]
      exact (hcomplete found (c'.setBuffer (Search.erase c'.session.buffer found 1))).trans ih
  unfold editBuffer
  split
  · exact ((hhistory.setBuffer _).setBuffer _).trans (htab false _)
  · exact Aged.refl c

theorem takeLines_aged (c : Conn) : Aged os c (takeLines os conf c) := by
  have hlines : ∀ lines (c' : Conn), Aged os c' (processLines os conf lines c') := by
    intro lines
    unfold processLines
    split
    · exact Aged.refl
    · rename_i callback _
      induction lines with
      | nil => exact Aged.refl
      | cons line lines ih =>
        intro c'
        have hline : Aged os c' (processLine os conf callback line c') := by
          have hacts := @runActs_aged os conf hos (callback c'.world c'.session line).1
            { c' with world :=
              c'.world.record (.line c'.session.id line (callback c'.world c'.session line).2) }
          exact ⟨hacts.1, fun h => (processLine_lastSeenTime os conf callback line c') ▸ hacts.2 h⟩
        exact hline.trans (ih _)
  exact hlines _ (c.setBuffer (getCompleteLines c.session.buffer).2)

/-- An update leaves the session seen in the past. -/
theorem sessionUpdate_aged (answer : Recv) (c : Conn) :
    Aged os c (TelnetSession.update os conf answer c) := by
  have hreceive : ∀ data (c' : Conn), Aged os c' (receive os conf data c') := by
    intro data c'
    have hnoted : Aged os c' (noteReceived os data c') :=
      ⟨Nat.le_succ _, fun _ => hos.mono (Nat.le_succ _)⟩
    have hecho : Aged os c' (echoBack os data (noteReceived os data c')) := by
      unfold echoBack
      split
      · exact hnoted
      · exact hnoted.trans (sendCounted_aged hos data _)
    have hkeys : Aged os c' (takeKeys os conf data c').2 := (hecho.setBuffer _).trans (editBuffer_aged hos _)
    have hlines := hkeys.trans (@takeLines_aged os conf hos _)
    unfold receive
    dsimp only
    split
    · exact hlines.trans ((eraseLine_aged hos _).trans (sendPromptAndBuffer_aged hos _))
    · exact hlines
  unfold TelnetSession.update
  cases answer with
  | fail errno =>
    dsimp only
    split <;> exact ⟨le_rfl, id⟩
  | bytes data =>
    dsimp only
    split
    · have hrecv : Aged os c
          { session := resetStats c.session
            world := c.world.record (.recv c.session.id c.session.socket (.bytes data)) } := ⟨le_rfl, id⟩
      exact hrecv.trans (hreceive data _)
    · exact ⟨le_rfl, id⟩

end Session

/-! ### Runs go on -/

/-- Between the servers answers were used up and events recorded. -/
structure Later (srv srv' : TelnetServer) : Prop where
  n : srv.world.n ≤ srv'.world.n
  trace : srv.world.trace <:+ srv'.world.trace

theorem Later.refl (srv : TelnetServer) : Later srv srv := ⟨le_rfl, List.suffix_rfl⟩

theorem Later.trans {srv₁ srv₂ srv₃ : TelnetServer} (h : Later srv₁ srv₂) (h' : Later srv₂ srv₃) :
    Later srv₁ srv₃ := ⟨h.n.trans h'.n, h.trace.trans h'.trace⟩

/-- What keeps sessions apart, and that they were seen in the past. -/
structure Dated (os : Os) (srv : TelnetServer) : Prop where
  numbered : Numbered srv
  seen : ∀ s ∈ srv.sessions, s.lastSeenTime ≤ os.systemClock srv.world.n

section Server

variable {os : Os} (hos : Steady os) (conf : Conf)

include hos

theorem acceptConnection_dated {srv : TelnetServer} (h : Dated os srv) :
    Dated os (acceptConnection os conf srv).2 ∧ Later srv (acceptConnection os conf srv).2 := by
  have ha := acceptConnection_spec os conf srv
  have hn : srv.world.n ≤ (acceptConnection os conf srv).2.world.n ∧
      ∀ s ∈ (acceptConnection os conf srv).2.sessions,
        s.lastSeenTime ≤ os.systemClock (acceptConnection os conf srv).2.world.n := by
    unfold acceptConnection
    split
    · exact ⟨Nat.le_succ _, fun s hs => (h.seen s hs).trans (hos.mono (Nat.le_succ _))⟩
    · rename_i clientSocket _
      dsimp only
      set c₀ : Conn := ⟨{ id := srv.world.accepted, socket := clientSocket },
        { srv.world.next.record (.accept srv.world.accepted clientSocket
            (decide (srv.sessions.length < MAX_AVAILABLE_SESSION))) with
          accepted := srv.world.accepted + 1 }⟩ with hc₀
      obtain ⟨hinit, hseen⟩ := @initialise_aged os conf hos c₀
      have hstart : srv.world.n ≤ c₀.world.n := Nat.le_succ _
      split
      · have hrefused := hstart.trans (hinit.trans (@sendLine_aged os conf hos
          (str "Too many active connections. Please try again later. \r\nClosing...") _).1)
        have hclosed := hrefused.trans (Nat.le_succ _)
        exact ⟨hclosed, fun s hs => (h.seen s hs).trans (hos.mono hclosed)⟩
      · have hkept := hstart.trans hinit
        refine ⟨hkept, fun s hs => ?_⟩
        rcases List.mem_append.mp hs with hs | hs
        · exact (h.seen s hs).trans (hos.mono hkept)
        · rw [List.mem_singleton.mp hs]
          exact hseen (hos.nonneg _)
  exact ⟨⟨h.numbered.accept ha, hn.2⟩, hn.1, ha.suffix⟩

theorem startTick_dated {srv : TelnetServer} (h : Dated os srv) :
    Dated os (startTick os conf srv).2 ∧ Later srv (startTick os conf srv).2 := by
  have hlater : ∀ k, Dated os { srv with world := { srv.world with n := srv.world.n + k } } := fun k =>
    ⟨⟨h.numbered.ids_lt, h.numbered.sessions_lt, h.numbered.nodup⟩,
      fun s hs => (h.seen s hs).trans (hos.mono (Nat.le_add_right _ _))⟩
  unfold startTick pollConnection
  dsimp only
  split
  · obtain ⟨hdated, hn, htrace⟩ := acceptConnection_dated hos conf (hlater 2)
    exact ⟨hdated, (Nat.le_add_right _ 2).trans hn, htrace⟩
  · exact ⟨hlater 2, Nat.le_add_right _ 2, List.suffix_rfl⟩

theorem turn_dated (idx : ℕ) {srv : TelnetServer} (h : Dated os srv) :
    Dated os (turn os conf idx srv).2 ∧ Later srv (turn os conf idx srv).2 := by
  by_cases hidx : idx < srv.sessions.length
  · obtain ⟨done, s, todo, hs, rfl⟩ := split_at hidx
    obtain ⟨answer, es, stat, rest, closed, ht⟩ := turn_spec os conf hs
    have hget : srv.sessions[done.length]? = some s := by simp [hs]
    obtain ⟨hn, hseen⟩ := @sessionUpdate_aged os conf hos (os.recv srv.world.n) ⟨s, srv.world.next⟩
    set c := TelnetSession.update os conf (os.recv srv.world.n) ⟨s, srv.world.next⟩ with hc
    have hnow : srv.world.n ≤ c.world.n := (Nat.le_succ _).trans hn
    have hs' : c.session.lastSeenTime ≤ os.systemClock c.world.n :=
      hseen ((h.seen s (by simp [hs])).trans (hos.mono (Nat.le_succ _)))
    have hturn : srv.world.n ≤ (turn os conf done.length srv).2.world.n ∧
        ∀ r ∈ (turn os conf done.length srv).2.sessions,
          r.lastSeenTime ≤ os.systemClock (turn os conf done.length srv).2.world.n := by
      unfold turn
      rw [hget]
      dsimp only [checkTimeout]
      rw [← hc]
      split
      · have hn' : srv.world.n ≤ c.world.n + 2 := hnow.trans (Nat.le_add_right _ 2)
        refine ⟨hn', fun r hr => ?_⟩
        exact (h.seen r (List.mem_of_mem_eraseIdx hr)).trans (hos.mono hn')
      · have hn' : srv.world.n ≤ c.world.n + 1 := hnow.trans (Nat.le_succ _)
        refine ⟨hn', fun r hr => ?_⟩
        rcases List.mem_or_eq_of_mem_set hr with hr | rfl
        · exact (h.seen r hr).trans (hos.mono hn')
        · exact hs'.trans (hos.mono (Nat.le_succ _))
    exact ⟨⟨h.numbered.turn os conf _, hturn.2⟩, hturn.1, ht.suffix⟩
  · rw [turn_past os conf (Nat.le_of_not_lt hidx)]
    exact ⟨h, Later.refl srv⟩

theorem updateSessions_dated (idx : ℕ) {srv : TelnetServer} (h : Dated os srv) :
    Dated os (updateSessions os conf idx srv) ∧ Later srv (updateSessions os conf idx srv) := by
  induction idx, srv using updateSessions.induct os conf with
  | case1 idx srv hidx ih =>
    rw [updateSessions, if_pos hidx]
    obtain ⟨hdated, hlater⟩ := turn_dated hos conf idx h
    obtain ⟨hend, hrest⟩ := ih hdated
    exact ⟨hend, hlater.trans hrest⟩
  | case2 idx srv hidx =>
    rw [updateSessions, if_neg hidx]
    exact ⟨h, Later.refl srv⟩

theorem update_dated {srv : TelnetServer} (h : Dated os srv) :
    Dated os (TelnetServer.update os conf srv) ∧ Later srv (TelnetServer.update os conf srv) := by
  obtain ⟨hstart, hlater⟩ := startTick_dated hos conf h
  obtain ⟨hend, hloop⟩ := updateSessions_dated hos conf 0 hstart
  refine ⟨⟨⟨hend.numbered.ids_lt, hend.numbered.sessions_lt, hend.numbered.nodup⟩, fun s hs => ?_⟩,
    (hlater.trans hloop).trans ⟨Nat.le_succ _, List.suffix_rfl⟩⟩
  exact (hend.seen s hs).trans (hos.mono (Nat.le_succ _))

theorem ticks_dated (confs : List Conf) {srv : TelnetServer} (h : Dated os srv) :
    Dated os (ticks os confs srv) ∧ Later srv (ticks os confs srv) := by
  induction confs generalizing srv with
  | nil => exact ⟨h, Later.refl srv⟩
  | cons conf confs ih =>
    obtain ⟨hdated, hlater⟩ := update_dated hos conf h
    obtain ⟨hend, hrest⟩ := ih hdated
    exact ⟨hend, hlater.trans hrest⟩

end Server

theorem dated_initialised (os : Os) : Dated os initialised :=
  ⟨numbered_initialised, fun _ hs => absurd hs List.not_mem_nil⟩

/-! ### Silence -/

/-- What is in between is silent too. -/
theorem silent_between {id : ℕ} {t₁ t₂ t₃ : List Event} (h : t₁ <:+ t₂) (h' : t₂ <:+ t₃)
    (hsilent : bytesBy id t₃ = bytesBy id t₁) :
    bytesBy id t₂ = bytesBy id t₁ ∧ bytesBy id t₃ = bytesBy id t₂ := by
  have hgrows : ∀ {t t' : List Event}, t <:+ t' → bytesBy id t <+: bytesBy id t' := by
    rintro t t' ⟨es, rfl⟩
    unfold bytesBy
    rw [receivedBy_append, List.map_append, List.flatten_append]
    exact List.prefix_append _ _
  have hsame : bytesBy id t₂ = bytesBy id t₁ := by
    have hlast := hgrows h'
    rw [hsilent] at hlast
    exact hlast.eq_of_length_le (hgrows h).length_le
  exact ⟨hsame, hsilent.trans hsame.symm⟩

/-- `TELNET_TIMEOUT` whole seconds are over. -/
def timeLimit : ℤ := (TELNET_TIMEOUT + 1) * 1000000000

theorem timedOut_iff {now seen : ℤ} (h : seen ≤ now) :
    timedOut now seen = true ↔ seen + timeLimit ≤ now := by
  have hdiv : Int.tdiv (now - seen) 1000000000 = (now - seen) / 1000000000 :=
    Int.tdiv_eq_ediv_of_nonneg (by omega)
  have hlimit : timeLimit = 121000000000 := rfl
  rw [timedOut, hdiv, hlimit, decide_eq_true_iff, TELNET_TIMEOUT]
  omega

/-- The session is there and was last seen at `t`. -/
def WaitsSince (id : ℕ) (t : ℤ) (srv : TelnetServer) : Prop :=
  ∃ s ∈ srv.sessions, s.id = id ∧ s.lastSeenTime = t

/-- The session is not there, and its number is used. -/
def Gone (id : ℕ) (srv : TelnetServer) : Prop :=
  id < srv.world.accepted ∧ id ∉ srv.sessions.map (·.id)

/-- The session waits, or it is gone and the limit is over. -/
def Idle (os : Os) (id : ℕ) (t : ℤ) (srv : TelnetServer) : Prop :=
  WaitsSince id t srv ∨ Gone id srv ∧ t + timeLimit ≤ os.systemClock srv.world.n

theorem gone_turnsKeep (id : ℕ) : TurnsKeep (Gone id) := by
  rintro done s todo srv answer es stat rest closed p hs ht ⟨hlt, hnot⟩
  refine ⟨ht.accepted ▸ hlt, fun hm => hnot ?_⟩
  obtain ⟨r, hr, rfl⟩ := List.mem_map.mp hm
  obtain ⟨r', hr', hid, -⟩ := ht.left hs r hr
  exact List.mem_map.mpr ⟨r', hr', hid⟩

theorem Gone.accept {id : ℕ} {srv srv' : TelnetServer} {b : Bool} (ha : Accepts srv srv' b)
    (h : Gone id srv) : Gone id srv' := by
  obtain ⟨hlt, hnot⟩ := h
  cases ha with
  | failed hs ht ha => exact ⟨ha ▸ hlt, hs ▸ hnot⟩
  | refused fd es hmax hes hs ht ha => exact ⟨ha ▸ Nat.lt_succ_of_lt hlt, hs ▸ hnot⟩
  | kept s es hmax hid hes hs ht ha =>
    refine ⟨ha ▸ Nat.lt_succ_of_lt hlt, ?_⟩
    rw [hs, List.map_append, List.mem_append, not_or]
    refine ⟨hnot, ?_⟩
    rw [List.map_singleton, List.mem_singleton, hid]
    exact hlt.ne

/-- Accepting takes no session away. -/
theorem Accepts.stays {srv srv' : TelnetServer} {b : Bool} (h : Accepts srv srv' b) :
    ∀ s ∈ srv.sessions, s ∈ srv'.sessions := by
  cases h with
  | failed hs ht ha => exact fun s hm => hs ▸ hm
  | refused fd es hmax hes hs ht ha => exact fun s hm => hs ▸ hm
  | kept s es hmax hid hes hs ht ha => exact fun r hm => hs ▸ List.mem_append_left _ hm

/-- Who is gone does not come back. -/
theorem Gone.ticks {id : ℕ} (os : Os) (confs : List Conf) {srv : TelnetServer} (h : Gone id srv) :
    Gone id (ticks os confs srv) :=
  reached_rule os (gone_turnsKeep id) (fun _ _ _ ha hg => hg.accept ha) (fun _ _ _ hg => hg) h
    (.ticks confs)

section Silent

variable {os : Os} {conf : Conf} {srv : TelnetServer} {done todo : List TelnetSession}
  {s : TelnetSession} (hs : srv.sessions = done ++ s :: todo)

include hs

theorem turn_bytesBy : bytesBy s.id (turn os conf done.length srv).2.world.trace =
    bytesBy s.id srv.world.trace ++ (os.recv srv.world.n).data := by
  unfold bytesBy
  rw [(turn_receivedBy os hs).1, List.map_append, List.flatten_append]
  simp

/-- **A turn that receives nothing** asks the clock and nothing else. -/
theorem turn_silent (hsilent : (os.recv srv.world.n).data = []) :
    ∃ rest, (turn os conf done.length srv).2.sessions = done ++ rest ++ todo ∧
      (turn os conf done.length srv).1 = done.length + rest.length ∧
      srv.world.n + 1 ≤ (turn os conf done.length srv).2.world.n ∧
      rest = if timedOut (os.systemClock (srv.world.n + 1)) s.lastSeenTime then [] else [resetStats s] := by
  have hget : srv.sessions[done.length]? = some s := by simp [hs]
  have hupdate : (TelnetSession.update os conf (os.recv srv.world.n) ⟨s, srv.world.next⟩).session =
        resetStats s ∧
      (TelnetSession.update os conf (os.recv srv.world.n) ⟨s, srv.world.next⟩).world.n =
        srv.world.n + 1 := by
    unfold TelnetSession.update
    dsimp only
    cases hrecv : os.recv srv.world.n with
    | fail errno =>
      dsimp only
      split <;> exact ⟨rfl, rfl⟩
    | bytes data =>
      rw [hrecv] at hsilent
      dsimp only
      rw [if_neg fun hne => hne hsilent]
      exact ⟨rfl, rfl⟩
  unfold turn
  rw [hget]
  dsimp only [checkTimeout]
  rw [hupdate.1, hupdate.2]
  have hseen : (resetStats s).lastSeenTime = s.lastSeenTime := rfl
  have hn := hupdate.2.ge
  rw [hseen]
  split
  · exact ⟨[], by simp [hs, List.eraseIdx_append_of_length_le], rfl, hn.trans (Nat.le_add_right _ 2), rfl⟩
  · exact ⟨[resetStats s], by simp [hs], rfl, hn.trans (Nat.le_succ _), rfl⟩

end Silent

section Run

variable {os : Os} (hos : Steady os) {id : ℕ} {t : ℤ}

include hos

/-- **A turn leaves a silent session waiting**, or it is past the limit. -/
theorem Idle.turn {conf : Conf} {idx : ℕ} {srv : TelnetServer} (hdated : Dated os srv)
    (h : Idle os id t srv)
    (hsilent : bytesBy id (turn os conf idx srv).2.world.trace = bytesBy id srv.world.trace) :
    Idle os id t (turn os conf idx srv).2 := by
  have hlater := (turn_dated hos conf idx hdated).2
  rcases h with ⟨r, hr, rfl, rfl⟩ | ⟨hgone, hlimit⟩
  · by_cases hidx : idx < srv.sessions.length
    · obtain ⟨done, s, todo, hs, rfl⟩ := split_at hidx
      obtain ⟨answer, es, stat, rest, closed, ht⟩ := turn_spec os conf hs
      by_cases hid : s.id = r.id
      · -- the turn of the session itself
        obtain rfl : s = r := by
          rw [hs] at hr
          rcases List.mem_append.mp hr with hr | hr
          · exact absurd hid.symm (others_ne hs hdated.numbered.nodup r (List.mem_append_left _ hr))
          · rcases List.mem_cons.mp hr with rfl | hr
            · rfl
            · exact absurd hid.symm (others_ne hs hdated.numbered.nodup r (List.mem_append_right _ hr))
        rw [turn_bytesBy hs, List.append_right_eq_self] at hsilent
        obtain ⟨rest, hsessions, hindex, hn, hrest⟩ := @turn_silent os conf _ _ _ _ hs hsilent
        have hpast : s.lastSeenTime ≤ os.systemClock (srv.world.n + 1) :=
          (hdated.seen s hr).trans (hos.mono (Nat.le_succ _))
        split at hrest
        · rename_i htimeout
          rw [hrest] at hindex
          have hgone := (turn_gone os hs hdated.numbered.nodup hindex).1
          have hlt := hdated.numbered.sessions_lt s hr
          refine .inr ⟨⟨ht.accepted ▸ hlt, hgone⟩, ?_⟩
          exact ((timedOut_iff hpast).mp htimeout).trans (hos.mono hn)
        · refine .inl ⟨resetStats s, ?_, rfl, rfl⟩
          rw [hsessions, hrest]
          simp
      · refine .inl ⟨r, ?_, rfl, rfl⟩
        rw [ht.sessions]
        rw [hs] at hr
        simp only [List.mem_append, List.mem_cons] at hr ⊢
        rcases hr with hr | rfl | hr
        · exact .inl (.inl hr)
        · exact absurd rfl hid
        · exact .inr hr
    · rw [turn_past os conf (Nat.le_of_not_lt hidx)]
      exact .inl ⟨r, hr, rfl, rfl⟩
  · exact .inr ⟨turn_rule os conf (gone_turnsKeep id) idx hgone, hlimit.trans (hos.mono hlater.n)⟩

theorem Idle.loop {conf : Conf} {idx : ℕ} {srv : TelnetServer} (hdated : Dated os srv)
    (h : Idle os id t srv)
    (hsilent : bytesBy id (updateSessions os conf idx srv).world.trace = bytesBy id srv.world.trace) :
    Idle os id t (updateSessions os conf idx srv) := by
  induction idx, srv using updateSessions.induct os conf with
  | case1 idx srv hidx ih =>
    rw [updateSessions, if_pos hidx] at hsilent ⊢
    obtain ⟨hnext, hlater⟩ := turn_dated hos conf idx hdated
    obtain ⟨hturn, hrest⟩ := silent_between hlater.trace
      (updateSessions_dated hos conf (Telnet.turn os conf idx srv).1 hnext).2.trace hsilent
    exact ih hnext (h.turn hos hdated hturn) hrest
  | case2 idx srv hidx =>
    rw [updateSessions, if_neg hidx]
    exact h

theorem Idle.startTick {srv : TelnetServer} (conf : Conf) (hdated : Dated os srv)
    (h : Idle os id t srv) : Idle os id t (startTick os conf srv).2 := by
  obtain ⟨-, hlater⟩ := startTick_dated hos conf hdated
  have ha := (startTick_spec os conf srv).1
  rcases h with ⟨s, hs, hid, hseen⟩ | ⟨hgone, hlimit⟩
  · refine .inl ⟨s, ?_, hid, hseen⟩
    exact ha.stays s hs
  · exact .inr ⟨hgone.accept ha, hlimit.trans (hos.mono hlater.n)⟩

/-- **A run leaves a silent session waiting**, or it is past the limit. -/
theorem Idle.ticks {confs : List Conf} {srv : TelnetServer} (hdated : Dated os srv)
    (h : Idle os id t srv)
    (hsilent : bytesBy id (ticks os confs srv).world.trace = bytesBy id srv.world.trace) :
    Idle os id t (ticks os confs srv) := by
  induction confs generalizing srv with
  | nil => exact h
  | cons conf confs ih =>
    obtain ⟨hnext, hlater⟩ := update_dated hos conf hdated
    obtain ⟨hstart, htick⟩ := startTick_dated hos conf hdated
    obtain ⟨-, hloop⟩ := updateSessions_dated hos conf 0 hstart
    obtain ⟨hupdate, hrest⟩ := silent_between hlater.trace (ticks_dated hos confs hnext).2.trace hsilent
    obtain ⟨-, hturns⟩ := silent_between htick.trace hloop.trace hupdate
    refine ih hnext ?_ hrest
    rcases (h.startTick hos conf hdated).loop hos hstart hturns with hwaits | ⟨hgone, hlimit⟩
    · exact .inl hwaits
    · exact .inr ⟨hgone, hlimit.trans (hos.mono (Nat.le_succ _))⟩

/-- **Every session past the limit gets its turn**, and goes. -/
theorem updateSessions_late {conf : Conf} {idx : ℕ} {srv : TelnetServer} {s : TelnetSession}
    (hdated : Dated os srv) (hs : s ∈ srv.sessions.drop idx)
    (hlate : s.lastSeenTime + timeLimit ≤ os.systemClock srv.world.n)
    (hsilent : bytesBy s.id (updateSessions os conf idx srv).world.trace = bytesBy s.id srv.world.trace) :
    Gone s.id (updateSessions os conf idx srv) := by
  induction idx, srv using updateSessions.induct os conf with
  | case1 idx srv hidx ih =>
    rw [updateSessions, if_pos hidx] at hsilent ⊢
    obtain ⟨hnext, hlater⟩ := turn_dated hos conf idx hdated
    obtain ⟨hturn, hrest⟩ := silent_between hlater.trace
      (updateSessions_dated hos conf (turn os conf idx srv).1 hnext).2.trace hsilent
    obtain ⟨done, r, todo, hsplit, rfl⟩ := split_at hidx
    obtain ⟨answer, es, stat, rest, closed, ht⟩ := turn_spec os conf hsplit
    rw [hsplit, List.drop_left] at hs
    rcases List.mem_cons.mp hs with rfl | hs
    · rw [turn_bytesBy hsplit, List.append_right_eq_self] at hturn
      obtain ⟨rest, -, hindex, -, hrest⟩ := @turn_silent os conf _ _ _ _ hsplit hturn
      have hmem : s ∈ srv.sessions := by simp [hsplit]
      have hpast : s.lastSeenTime ≤ os.systemClock (srv.world.n + 1) :=
        (hdated.seen s hmem).trans (hos.mono (Nat.le_succ _))
      rw [if_pos ((timedOut_iff hpast).mpr (hlate.trans (hos.mono (Nat.le_succ _))))] at hrest
      rw [hrest] at hindex
      have hgone : Gone s.id (turn os conf done.length srv).2 :=
        ⟨ht.accepted ▸ hdated.numbered.sessions_lt s hmem,
          (turn_gone os hsplit hdated.numbered.nodup hindex).1⟩
      exact updateSessions_rule os conf (gone_turnsKeep s.id) _ hgone
    · refine ih hnext ?_ (hlate.trans (hos.mono hlater.n)) hrest
      rw [ht.sessions, ht.index, ← List.length_append, List.drop_left]
      exact hs
  | case2 idx srv hidx => simp [List.drop_of_length_le (Nat.le_of_not_lt hidx)] at hs

end Run

/-! ### Places -/

theorem ticks_append (os : Os) (confs confs' : List Conf) (srv : TelnetServer) :
    ticks os (confs ++ confs') srv = ticks os confs' (ticks os confs srv) := List.foldl_append

/-- **A session that receives nothing keeps its place for the time limit**, whatever
its `recv` calls return instead and whatever the other clients do, and has lost it
after the first tick that begins past the limit. -/
theorem silent_present (os : Os) (hos : Steady os) (past confs : List Conf) (s : TelnetSession)
    (hs : s ∈ (ticks os past initialised).sessions)
    (hsilent : bytesBy s.id (ticks os (past ++ confs) initialised).world.trace =
      bytesBy s.id (ticks os past initialised).world.trace) :
    (os.systemClock (ticks os (past ++ confs) initialised).world.n < s.lastSeenTime + timeLimit →
        s.id ∈ (ticks os (past ++ confs) initialised).sessions.map (·.id)) ∧
      ∀ before conf after, confs = before ++ conf :: after →
        s.lastSeenTime + timeLimit ≤
            os.systemClock (ticks os (past ++ before) initialised).world.n →
          s.id ∉ (ticks os (past ++ confs) initialised).sessions.map (·.id) := by
  have hstart := (ticks_dated hos past (dated_initialised os)).1
  rw [ticks_append] at hsilent ⊢
  set srv := ticks os past initialised
  have hidle : Idle os s.id s.lastSeenTime srv := .inl ⟨s, hs, rfl, rfl⟩
  refine ⟨fun hclock => ?_, ?_⟩
  · rcases hidle.ticks hos hstart hsilent with ⟨r, hr, hid, -⟩ | ⟨-, hlimit⟩
    · exact List.mem_map.mpr ⟨r, hr, hid⟩
    · exact absurd hlimit (not_le.mpr hclock)
  · rintro before conf after rfl hlate
    rw [ticks_append] at hlate
    rw [ticks_append] at hsilent ⊢
    obtain ⟨hmid, hbefore⟩ := ticks_dated hos before hstart
    obtain ⟨-, hafter⟩ := ticks_dated hos (conf :: after) hmid
    obtain ⟨hquiet, hrest⟩ := silent_between hbefore.trace hafter.trace hsilent
    have hmiddle := hidle.ticks hos hstart hquiet
    set mid := ticks os before srv
    rcases hmiddle with ⟨r, hr, hid, hseen⟩ | ⟨hgone, -⟩
    · -- the tick that begins past the limit
      obtain ⟨hstart', htick⟩ := startTick_dated hos conf hmid
      obtain ⟨hupdate, hlater⟩ := update_dated hos conf hmid
      obtain ⟨-, hloop⟩ := updateSessions_dated hos conf 0 hstart'
      obtain ⟨htickQuiet, -⟩ := silent_between hlater.trace (ticks_dated hos after hupdate).2.trace hrest
      obtain ⟨-, hturns⟩ := silent_between htick.trace hloop.trace htickQuiet
      have hmem := (startTick_spec os conf mid).1.stays r hr
      rw [← hid] at hturns
      rw [← hseen] at hlate
      have hgone := @updateSessions_late os hos conf 0 _ r hstart' hmem
        (hlate.trans (hos.mono htick.n)) hturns
      have hend : Gone r.id (TelnetServer.update os conf mid) := hgone
      rw [← hid]
      exact (hend.ticks os after).2
    · exact (hgone.ticks os (conf :: after)).2

/-- A client connects and closes its end; at the 20th answer the clock goes on by
1000 s. -/
def goneOs : Os :=
  { (default : Os) with
    select := fun n => n == 1, accept := fun _ => some 4
    systemClock := fun n => if n < 20 then 1000000000000 else 2000000000000 }

theorem steady_goneOs : Steady goneOs where
  epoch := by decide
  mono := by
    intro m n h
    show (if m < 20 then 1000000000000 else 2000000000000 : ℤ) ≤
      if n < 20 then 1000000000000 else 2000000000000
    split <;> split <;> omega

theorem silent_present_gone :
    0 ∈ (ticks goneOs ([quietConf] ++ [quietConf]) initialised).sessions.map (·.id) ∧
      0 ∉ (ticks goneOs ([quietConf] ++ [quietConf, quietConf, quietConf]) initialised).sessions.map
        (·.id) := by
  obtain ⟨s, hs, hid, hseen⟩ : ∃ s ∈ (ticks goneOs [quietConf] initialised).sessions,
      s.id = 0 ∧ s.lastSeenTime = 1000000000000 := by decide +kernel
  have hpresent := (silent_present goneOs steady_goneOs [quietConf] [quietConf] s hs
    (by rw [hid]; decide +kernel)).1 (by rw [hseen]; decide +kernel)
  have hgone := (silent_present goneOs steady_goneOs [quietConf] [quietConf, quietConf, quietConf] s hs
    (by rw [hid]; decide +kernel)).2 [quietConf, quietConf] quietConf [] rfl
      (by rw [hseen]; decide +kernel)
  rw [hid] at hpresent hgone
  exact ⟨hpresent, hgone⟩

/-- The same sessions are there, and none was let in. -/
structure Shut (srv srv' : TelnetServer) : Prop where
  kept : ∀ id, isKept id srv'.world.trace = isKept id srv.world.trace
  sessions : ∀ id, id ∈ srv'.sessions.map (·.id) ↔ id ∈ srv.sessions.map (·.id)

/-- Nothing was let in since, and no other session is there. -/
def NoneNew (srv srv' : TelnetServer) : Prop :=
  (∀ id, isKept id srv'.world.trace = isKept id srv.world.trace) ∧
    ∀ id ∈ srv'.sessions.map (·.id), id ∈ srv.sessions.map (·.id)

theorem noneNew_turnsKeep (srv : TelnetServer) : TurnsKeep (NoneNew srv) := by
  rintro done s todo srv' answer es stat rest closed p hs ht ⟨hkept, hids⟩
  have hof : ∀ e ∈ closed ++ es, OfSession s.id e := by
    intro e he
    rcases List.mem_append.mp he with he | he
    · rcases ht.outcome with ⟨-, -, -, -, rfl⟩ | ⟨-, rfl⟩
      · exact absurd he List.not_mem_nil
      · exact closing_ofSession e he
    · exact ht.events.ofSession e he
  refine ⟨fun id => ?_, fun id hid => ?_⟩
  · rw [ht.trace, isKept_append hof]
    exact hkept id
  · obtain ⟨r, hr, rfl⟩ := List.mem_map.mp hid
    obtain ⟨r', hr', hid', -⟩ := ht.left hs r hr
    exact hids r.id (List.mem_map.mpr ⟨r', hr', hid'⟩)

/-- A server that is full lets nobody in. -/
theorem noneNew_update (os : Os) (conf : Conf) {srv : TelnetServer}
    (hfull : MAX_AVAILABLE_SESSION ≤ srv.sessions.length) :
    NoneNew srv (TelnetServer.update os conf srv) := by
  have hstart : NoneNew srv (startTick os conf srv).2 := by
    obtain ⟨ha, -⟩ := startTick_spec os conf srv
    generalize (startTick os conf srv).1.1 = b at ha
    cases ha with
    | failed hs ht ha => exact ⟨fun id => by rw [ht], fun id hid => hs ▸ hid⟩
    | refused fd es hmax hes hs ht ha =>
      refine ⟨fun id => ?_, fun id hid => hs ▸ hid⟩
      have hof : ∀ e ∈ closing srv.world.accepted fd ++ es, OfSession srv.world.accepted e := by
        intro e he
        rcases List.mem_append.mp he with he | he
        · exact closing_ofSession e he
        · exact (hes e he).ofSession
      rw [ht, isKept_append hof]
      simp [isKept, Event.keeps]
    | kept s es hmax hid hes hs ht ha => exact absurd hmax (Nat.not_lt.mpr hfull)
  exact updateSessions_rule os conf (noneNew_turnsKeep srv) 0 hstart

/-- **Sessions that receive nothing keep everybody out** of a full server, until the
first of them is past the limit. -/
theorem silent_keepOut (os : Os) (hos : Steady os) (past confs : List Conf)
    (hfull : (ticks os past initialised).sessions.length = MAX_AVAILABLE_SESSION)
    (hsilent : ∀ s ∈ (ticks os past initialised).sessions,
      bytesBy s.id (ticks os (past ++ confs) initialised).world.trace =
        bytesBy s.id (ticks os past initialised).world.trace)
    (hclock : ∀ s ∈ (ticks os past initialised).sessions,
      os.systemClock (ticks os (past ++ confs) initialised).world.n < s.lastSeenTime + timeLimit) :
    Shut (ticks os past initialised) (ticks os (past ++ confs) initialised) := by
  have hstart := (ticks_dated hos past (dated_initialised os)).1
  rw [ticks_append] at hsilent hclock ⊢
  set srv := ticks os past initialised
  induction confs using List.reverseRecOn with
  | nil => exact ⟨fun _ => rfl, fun _ => Iff.rfl⟩
  | append_singleton confs conf ih =>
    have hend : ticks os (confs ++ [conf]) srv = TelnetServer.update os conf (ticks os confs srv) := by
      rw [ticks_append]
      rfl
    obtain ⟨hmid, hbefore⟩ := ticks_dated hos confs hstart
    obtain ⟨-, hafter⟩ := update_dated hos conf hmid
    rw [hend] at hsilent hclock ⊢
    obtain ⟨hkept, hids⟩ := ih
      (fun s hs => (silent_between hbefore.trace hafter.trace (hsilent s hs)).1)
      (fun s hs => (hos.mono hafter.n).trans_lt (hclock s hs))
    -- all places are taken when the tick begins
    have hplaces : MAX_AVAILABLE_SESSION ≤ (ticks os confs srv).sessions.length := by
      have hsub : srv.sessions.map (·.id) ⊆ (ticks os confs srv).sessions.map (·.id) := fun id hid =>
        (hids id).mpr hid
      have hle := (List.subperm_of_subset hstart.numbered.nodup hsub).length_le
      rw [List.length_map, List.length_map, hfull] at hle
      exact hle
    obtain ⟨hkept', hids'⟩ := noneNew_update os conf hplaces
    refine ⟨fun id => (hkept' id).trans (hkept id), fun id =>
      ⟨fun hid => (hids id).mp (hids' id hid), fun hid => ?_⟩⟩
    obtain ⟨s, hs, rfl⟩ := List.mem_map.mp hid
    have hidle : Idle os s.id s.lastSeenTime srv := .inl ⟨s, hs, rfl, rfl⟩
    have hlast : Idle os s.id s.lastSeenTime (ticks os (confs ++ [conf]) srv) :=
      hidle.ticks hos hstart (by rw [hend]; exact hsilent s hs)
    rw [hend] at hlast
    rcases hlast with ⟨r, hr, hid, -⟩ | ⟨-, hlimit⟩
    · exact List.mem_map.mpr ⟨r, hr, hid⟩
    · exact absurd hlimit (not_le.mpr (hclock s hs))

/-- A client connects in every tick, and all have closed their end. -/
def crowdOs : Os :=
  { (default : Os) with select := fun _ => true, accept := fun n => some n }

theorem steady_crowdOs : Steady crowdOs := ⟨le_rfl, fun _ => le_rfl⟩

/-- The sixth client is refused. -/
theorem silent_keepOut_crowd :
    (∃ fd, .accept 5 fd false ∈
        (ticks crowdOs (List.replicate 5 quietConf ++ [quietConf]) initialised).world.trace) ∧
      Shut (ticks crowdOs (List.replicate 5 quietConf) initialised)
        (ticks crowdOs (List.replicate 5 quietConf ++ [quietConf]) initialised) := by
  refine ⟨⟨77, by decide +kernel⟩, silent_keepOut crowdOs steady_crowdOs _ _ ?_ ?_ ?_⟩
  · decide +kernel
  · decide +kernel
  · decide +kernel

end Telnet
end RepoInit
