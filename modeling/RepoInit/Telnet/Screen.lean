/-
# What the session writes on the client's terminal

The client's terminal is fed what the session sends. Where every send goes out
whole, a line of output, or the line erased and written again, leaves the prompt
and the buffer on the last line (`sendLine_displays`, `redraw_displays`), and so
do the lines that are passed on, by what the callback says about them
(`processLines_displays`) and the greeting of a new client
(`initialise_displays`). `Level` is what this takes of the terminal: its
cursor is on the last line.

Key definitions: `sentTo`, `Conn.screen`, `Displays`, `Calm`, `SpeaksCalmly`,
`GreetsCalmly`, `Conn.Level`.
Key theorems: `sendLine_displays`, `redraw_displays`, `processLines_displays`,
`initialise_displays`.
-/
import RepoInit.Lib.Terminal
import RepoInit.Telnet.Keys
import RepoInit.Telnet.Editing

namespace RepoInit
namespace Telnet

open Search LineEditor Terminal

/-! ### What the client receives -/

/-- What the session sent, oldest first. -/
def sentTo (id : ℕ) : List Event → Str
  | [] => []
  | .send i _ data sent :: t => sentTo id t ++ (if i = id then data.take sent.toNat else [])
  | _ :: t => sentTo id t

/-- Every send of the session sent all it was given. -/
def SentWhole (id : ℕ) (trace : List Event) : Prop :=
  ∀ fd data sent, .send id fd data sent ∈ trace → sent = data.length

/-- A send of the session, and not all went out. -/
def Event.isShort (id : ℕ) : Event → Bool
  | .send i _ data sent => i = id && sent ≠ data.length
  | _ => false

theorem sentWhole_iff {id : ℕ} {trace : List Event} :
    SentWhole id trace ↔ ∀ e ∈ trace, e.isShort id = false := by
  constructor
  · intro h e hm
    cases e with
    | send i fd data sent =>
      by_cases hi : i = id
      · subst hi
        simp [Event.isShort, h fd data sent hm]
      · simp [Event.isShort, hi]
    | _ => rfl
  · intro h fd data sent hm
    simpa [Event.isShort] using h _ hm

instance (id : ℕ) (trace : List Event) : Decidable (SentWhole id trace) :=
  decidable_of_iff _ sentWhole_iff.symm

def Conn.Whole (c : Conn) : Prop := SentWhole c.session.id c.world.trace

instance (c : Conn) : Decidable c.Whole := inferInstanceAs (Decidable (SentWhole _ _))

/-- The client's terminal, which showed `t₀` before. -/
def Conn.screen (width : ℕ) (t₀ : Screen) (c : Conn) : Screen :=
  feed width (sentTo c.session.id c.world.trace) t₀

theorem Worked.whole {c c' : Conn} (h : Worked c c') (hw : c'.Whole) : c.Whole := by
  obtain ⟨es, h⟩ := h
  intro fd data sent hm
  refine hw fd data sent ?_
  rw [h.trace, h.id]
  exact List.mem_append_right _ hm

theorem Acted.whole {c c' : Conn} (h : Acted c c') (hw : c'.Whole) : c.Whole := h.worked.whole hw

section Sending

variable (os : Os) (conf : Conf) {width : ℕ} {t₀ : Screen}

/-- A send that sent everything. -/
theorem send_screen (data : Str) {c : Conn} (h : (send os data c).2.Whole) :
    (send os data c).2.screen width t₀ = feed width data (c.screen width t₀) := by
  have hall : os.send c.world.n = data.length := h _ _ _ List.mem_cons_self
  show feed width (sentTo c.session.id (_ :: c.world.trace)) t₀ = _
  rw [sentTo, if_pos rfl, hall, Int.toNat_natCast, List.take_length, feed_append]
  rfl

theorem sendCounted_screen (data : Str) {c : Conn} (h : (sendCounted os data c).Whole) :
    (sendCounted os data c).screen width t₀ = feed width data (c.screen width t₀) := by
  have hsame : (sendCounted os data c).session.id = (send os data c).2.session.id ∧
      (sendCounted os data c).world = (send os data c).2.world := by
    unfold sendCounted
    dsimp only
    split <;> exact ⟨rfl, rfl⟩
  have hwhole : (send os data c).2.Whole := by
    unfold Conn.Whole at h ⊢
    rwa [hsame.1, hsame.2] at h
  rw [← send_screen os data hwhole]
  unfold Conn.screen
  rw [hsame.1, hsame.2]

theorem eraseLine_screen {c : Conn} (h : (eraseLine os c).Whole) :
    (eraseLine os c).screen width t₀ =
      feed width [0x1B, 0x5B, 0x32, 0x4B, 0x1B, 0x5B, 0x38, 0x30, 0x44] (c.screen width t₀) := by
  have hmoved := @sendCounted_screen os width t₀ (str "\x1b[80D") _ h
  have hfirst := (sendCounted_acted os (str "\x1b[80D") (sendCounted os ansiEraseLine c)).whole h
  have herased := @sendCounted_screen os width t₀ ansiEraseLine _ hfirst
  have hbytes : ([0x1B, 0x5B, 0x32, 0x4B, 0x1B, 0x5B, 0x38, 0x30, 0x44] : Str) =
      ansiEraseLine ++ str "\x1b[80D" := by decide
  rw [hbytes, feed_append, ← herased, ← hmoved]
  rfl

theorem sendPromptAndBuffer_screen {c : Conn} (h : (sendPromptAndBuffer os conf c).Whole) :
    (sendPromptAndBuffer os conf c).screen width t₀ =
      feed width (conf.promptString ++ c.session.buffer) (c.screen width t₀) := by
  have hsame := (sendCounted_acted os conf.promptString c).buffer
  unfold sendPromptAndBuffer at h ⊢
  dsimp only at h ⊢
  rw [hsame] at h ⊢
  rw [feed_append]
  split at h
  · rename_i hne
    rw [if_pos hne, sendCounted_screen os _ h,
      sendCounted_screen os _ ((sendCounted_acted os _ _).whole h)]
  · rename_i hne
    rw [if_neg hne, sendCounted_screen os _ h, not_not.mp hne]
    rfl

end Sending

/-! ### Lines on the screen -/

/-- The last line shows the text, and behind it came the first bytes of a
key. -/
def Displays (width : ℕ) (text cut : Str) (t : Screen) : Prop :=
  ∃ t', Shows text t' ∧ t = feed width cut t'

/-- Text that leaves the terminal at the last line, outside a sequence. -/
def Calm (width : ℕ) (data : Str) : Prop :=
  ∀ t : Screen, t.mode = .ground → t.below = [] →
    (feed width data t).mode = .ground ∧ (feed width data t).below = []

theorem calm_of_plain (width : ℕ) {data : Str} (h : (0x1B : Byte) ∉ data) : Calm width data := by
  intro t hmode hbelow
  obtain ⟨hm, hb⟩ := @feed_plain width _ h _ hmode
  rw [hbelow] at hb
  exact ⟨hm, List.eq_nil_of_length_eq_zero (Nat.le_zero.mp hb)⟩

/-- Clearing the screen. -/
theorem calm_clear (width : ℕ) : Calm width (str "\x1b[2J") := by
  intro t hmode hbelow
  have hbytes : str "\x1b[2J" = [0x1B, 0x5B, 0x32, 0x4A] := by decide
  rw [hbytes]
  simp [feed, step, controlSequence, number, Terminal.clear, hbelow]

/-- An escape byte is one of the last two. -/
def Flat (s : Str) : Prop := ∀ i, s[i]? = some 0x1B → s.length ≤ i + 2

theorem Flat.append {s : Str} (hs : Flat s) {text : Str} (h : (0x1B : Byte) ∉ text) :
    Flat (text ++ s) := by
  intro i hi
  rcases Nat.lt_or_ge i text.length with hlt | hge
  · rw [List.getElem?_append_left hlt] at hi
    exact absurd (List.mem_of_getElem? hi) h
  · rw [List.getElem?_append_right hge] at hi
    have := hs _ hi
    rw [List.length_append]
    omega

theorem Flat.drop {s : Str} (h : Flat s) (n : ℕ) : Flat (s.drop n) := by
  intro i hi
  rw [List.getElem?_drop] at hi
  have := h _ hi
  rw [List.length_drop]
  omega

theorem Flat.remove {x y : Str} {b : Byte} (h : Flat (x ++ b :: y)) : Flat (x ++ y) := by
  intro i hi
  rcases Nat.lt_or_ge i x.length with hlt | hge
  · have hi' : (x ++ b :: y)[i]? = some 0x1B := by
      rw [List.getElem?_append_left hlt] at hi ⊢
      exact hi
    have := h _ hi'
    simp only [List.length_append, List.length_cons] at this ⊢
    omega
  · have hi' : (x ++ b :: y)[i + 1]? = some 0x1B := by
      rw [List.getElem?_append_right hge] at hi
      rw [List.getElem?_append_right (by omega), show i + 1 - x.length = i - x.length + 1 by omega,
        List.getElem?_cons_succ]
      exact hi
    have := h _ hi'
    simp only [List.length_append, List.length_cons] at this ⊢
    omega

theorem Cut.flat {bytes : Str} (h : Cut bytes) : Flat bytes := by
  intro i _
  have := h.length_le
  omega

/-- Two bytes are no up-arrow. -/
theorem feed_two (width : ℕ) {s : Str} (h : s.length ≤ 2) {t : Screen} (hmode : t.mode = .ground) :
    (feed width s t).below.length ≤ t.below.length := by
  have hfirst : ∀ a : Byte, ((step width t a).mode = .ground ∨ (step width t a).mode = .escape) ∧
      (step width t a).below.length ≤ t.below.length := by
    intro a
    by_cases ha : a = 0x1B
    · rw [ha, step_escape]
      exact ⟨.inr rfl, Nat.le_refl _⟩
    · rw [step_ground width hmode ha]
      exact ⟨.inl ((ground_plain width a t).1.trans hmode), (ground_plain width a t).2⟩
  have hsecond : ∀ (t' : Screen) (b : Byte), t'.mode = .ground ∨ t'.mode = .escape →
      (step width t' b).below.length ≤ t'.below.length := by
    intro t' b hm
    by_cases hb : b = 0x1B
    · rw [hb, step_escape]
    · rcases hm with hm | hm
      · rw [step_ground width hm hb]
        exact (ground_plain width b t').2
      · unfold step
        rw [if_neg hb, hm]
        dsimp only
        split <;> exact Nat.le_refl _
  match s, h with
  | [], _ => exact Nat.le_refl _
  | [a], _ => exact (hfirst a).2
  | [a, b], _ => exact (hsecond _ b (hfirst a).1).trans (hfirst a).2

/-- A flat buffer goes no line up. -/
theorem Flat.below (width : ℕ) {s : Str} (h : Flat s) {t : Screen} (hmode : t.mode = .ground) :
    (feed width s t).below.length ≤ t.below.length := by
  have hplain : (0x1B : Byte) ∉ s.take (s.length - 2) := by
    intro hm
    obtain ⟨i, hi, he⟩ := List.getElem_of_mem hm
    have hlen : i < s.length - 2 := lt_of_lt_of_le hi (by simp)
    rw [List.getElem_take] at he
    have := h i (by rw [List.getElem?_eq_getElem (by omega), he])
    omega
  obtain ⟨hm, hb⟩ := @feed_plain width _ hplain _ hmode
  have hlast := feed_two width (s := s.drop (s.length - 2)) (by rw [List.length_drop]; omega) hm
  rw [← feed_append, List.take_append_drop] at hlast
  exact hlast.trans hb

theorem Displays.below {width : ℕ} {text cut : Str} {t : Screen} (h : Displays width text cut t)
    (hcut : Cut cut) : t.below = [] := by
  obtain ⟨t', ht', rfl⟩ := h
  have := hcut.flat.below width ht'.mode
  rw [ht'.below] at this
  exact List.eq_nil_of_length_eq_zero (Nat.le_zero.mp this)

theorem Printable.printing {b : Byte} (h : Printable b) : Printing b := by
  refine ⟨h.1, ?_⟩
  rintro rfl
  exact absurd h.2 (by decide)

/-! ### What a callback may say -/

/-- The newline callback answers a printable line with at least one line, and
says nothing that would leave the last line. -/
def SpeaksCalmly (width : ℕ) (conf : Conf) : Prop :=
  ∀ callback, conf.newLineCallBack = some callback → ∀ w s line, (∀ b ∈ line, Printable b) →
    (∃ data, .sendLine data ∈ (callback w s line).1) ∧
      ∀ data, .sendLine data ∈ (callback w s line).1 → Calm width data

section Lines

variable (os : Os) {conf : Conf} {width : ℕ} {t₀ : Screen} (hi : conf.interactivePrompt = true)
  (hprompt : ∀ b ∈ conf.promptString, Printable b)

/-- The cursor of the client is on its last line. -/
def Conn.Level (width : ℕ) (t₀ : Screen) (c : Conn) : Prop := (c.screen width t₀).below = []

theorem screen_erased (hw : width ≤ 80) (ht₀ : t₀.col < width) {c : Conn}
    (h : (eraseLine os c).Whole) (hlevel : c.Level width t₀) :
    Shows [] ((eraseLine os c).screen width t₀) := by
  rw [eraseLine_screen os h]
  exact shows_erase hw (feed_col (by omega) _ ht₀) hlevel

include hprompt

theorem promptAndBuffer_level {c : Conn} (h : (sendPromptAndBuffer os conf c).Whole)
    (hflat : Flat c.session.buffer) (hmode : (c.screen width t₀).mode = .ground)
    (hlevel : c.Level width t₀) : (sendPromptAndBuffer os conf c).Level width t₀ := by
  have hplain : (0x1B : Byte) ∉ conf.promptString := fun hm => absurd (hprompt _ hm) (by decide)
  have hbelow := (hflat.append hplain).below width hmode
  rw [← sendPromptAndBuffer_screen os conf h, hlevel] at hbelow
  exact List.eq_nil_of_length_eq_zero (Nat.le_zero.mp hbelow)

/-- Prompt and buffer on a line that was erased or is new. -/
theorem promptAndBuffer_displays {c : Conn} (h : (sendPromptAndBuffer os conf c).Whole)
    {text cut : Str} (hbuffer : c.session.buffer = text ++ cut) (htext : ∀ b ∈ text, Printable b)
    (hfits : (conf.promptString ++ text).length < width) (hempty : Shows [] (c.screen width t₀)) :
    Displays width (conf.promptString ++ text) cut
      ((sendPromptAndBuffer os conf c).screen width t₀) := by
  rw [sendPromptAndBuffer_screen os conf h, hbuffer, ← List.append_assoc, feed_append]
  refine ⟨_, ?_, rfl⟩
  have hprinting : ∀ b ∈ conf.promptString ++ text, Printing b := by
    intro b hb
    rcases List.mem_append.mp hb with hb | hb
    · exact (hprompt b hb).printing
    · exact (htext b hb).printing
  exact hempty.append hprinting (by simpa using hfits)

variable (hw : width ≤ 80) (ht₀ : t₀.col < width)

include hw ht₀

/-- **The line is erased and written again.** -/
theorem redraw_displays {c : Conn} (h : (sendPromptAndBuffer os conf (eraseLine os c)).Whole)
    {text cut : Str} (hbuffer : c.session.buffer = text ++ cut) (htext : ∀ b ∈ text, Printable b)
    (hfits : (conf.promptString ++ text).length < width) (hlevel : c.Level width t₀) :
    Displays width (conf.promptString ++ text) cut
      ((sendPromptAndBuffer os conf (eraseLine os c)).screen width t₀) := by
  have herase := (sendPromptAndBuffer_acted os conf (eraseLine os c)).whole h
  exact promptAndBuffer_displays os hprompt h ((eraseLine_acted os c).buffer.trans hbuffer) htext hfits
    (screen_erased os hw ht₀ herase hlevel)

include hi

omit hprompt in
/-- A line of output leaves a new line under it. -/
theorem sendLine_erased {data : Str} {c : Conn} (h : (sendLine os conf data c).Whole)
    (hcalm : Calm width data) (hlevel : c.Level width t₀) :
    ∃ c', sendLine os conf data c = sendPromptAndBuffer os conf c' ∧
      c'.session.buffer = c.session.buffer ∧ Shows [] (c'.screen width t₀) := by
  have heq : sendLine os conf data c =
      sendPromptAndBuffer os conf (sendCounted os (data ++ crlf) (eraseLine os c)) := by
    simp [sendLine, hi]
  rw [heq] at h ⊢
  have hsent := (sendPromptAndBuffer_acted os conf _).whole h
  have herased := screen_erased os hw ht₀ ((sendCounted_acted os _ _).whole hsent) hlevel
  refine ⟨_, rfl, ?_, ?_⟩
  · exact (sendCounted_acted os _ _).buffer.trans (eraseLine_acted os c).buffer
  · obtain ⟨hmode, hbelow⟩ := hcalm _ herased.mode herased.below
    rw [sendCounted_screen os _ hsent, feed_append]
    exact shows_lineEnd hmode hbelow

theorem sendLine_level {data : Str} {c : Conn} (h : (sendLine os conf data c).Whole)
    (hcalm : Calm width data) (hflat : Flat c.session.buffer) (hlevel : c.Level width t₀) :
    (sendLine os conf data c).Level width t₀ := by
  obtain ⟨c', heq, hbuffer, hempty⟩ := sendLine_erased os hi hw ht₀ h hcalm hlevel
  rw [heq] at h ⊢
  exact promptAndBuffer_level os hprompt h (by rw [hbuffer]; exact hflat) hempty.mode hempty.below

/-- **Below a line of output stand the prompt and the buffer.** -/
theorem sendLine_displays {data : Str} {c : Conn} (h : (sendLine os conf data c).Whole)
    (hcalm : Calm width data) {text cut : Str} (hbuffer : c.session.buffer = text ++ cut)
    (htext : ∀ b ∈ text, Printable b) (hfits : (conf.promptString ++ text).length < width)
    (hlevel : c.Level width t₀) :
    Displays width (conf.promptString ++ text) cut ((sendLine os conf data c).screen width t₀) := by
  obtain ⟨c', heq, hbuffer', hempty⟩ := sendLine_erased os hi hw ht₀ h hcalm hlevel
  rw [heq] at h ⊢
  exact promptAndBuffer_displays os hprompt h (hbuffer'.trans hbuffer) htext hfits hempty

theorem runActs_level {acts : List Act} (hcalm : ∀ data, .sendLine data ∈ acts → Calm width data)
    {c : Conn} (h : (runActs os conf acts c).Whole) (hflat : Flat c.session.buffer)
    (hlevel : c.Level width t₀) : (runActs os conf acts c).Level width t₀ := by
  induction acts generalizing c with
  | nil => exact hlevel
  | cons a acts ih =>
    have hfirst := (runActs_acted os conf acts (runAct os conf a c)).whole h
    refine ih (fun data hm => hcalm data (List.mem_cons_of_mem _ hm)) h ?_ ?_
    · rw [(runAct_acted os conf a c).buffer]
      exact hflat
    · cases a with
      | sendLine data =>
        exact sendLine_level os hi hprompt hw ht₀ hfirst (hcalm data List.mem_cons_self) hflat hlevel
      | markTimeout => exact hlevel
      | setLevel level => exact hlevel

/-- What a callback says is followed by the prompt and the buffer. -/
theorem runActs_displays {acts : List Act} (hcalm : ∀ data, .sendLine data ∈ acts → Calm width data)
    {c : Conn} (h : (runActs os conf acts c).Whole) {text cut : Str} (hcut : Cut cut)
    (hbuffer : c.session.buffer = text ++ cut) (htext : ∀ b ∈ text, Printable b)
    (hfits : (conf.promptString ++ text).length < width)
    (hstart : (c.Level width t₀ ∧ ∃ data, .sendLine data ∈ acts) ∨
      Displays width (conf.promptString ++ text) cut (c.screen width t₀)) :
    Displays width (conf.promptString ++ text) cut ((runActs os conf acts c).screen width t₀) := by
  induction acts generalizing c with
  | nil => exact hstart.resolve_left fun hs => by simp at hs
  | cons a acts ih =>
    have hfirst := (runActs_acted os conf acts (runAct os conf a c)).whole h
    refine ih (fun data hm => hcalm data (List.mem_cons_of_mem _ hm)) h
      ((runAct_acted os conf a c).buffer.trans hbuffer) ?_
    cases a with
    | sendLine data =>
      have hlevel : c.Level width t₀ := hstart.elim (fun hs => hs.1) fun hs => hs.below hcut
      exact .inr (sendLine_displays os hi hprompt hw ht₀ hfirst (hcalm data List.mem_cons_self) hbuffer
        htext hfits hlevel)
    | markTimeout => exact hstart.imp_left fun hs => ⟨hs.1, by simpa using hs.2⟩
    | setLevel level => exact hstart.imp_left fun hs => ⟨hs.1, by simpa using hs.2⟩

/-! ### Lines that are passed on -/

/-- A line that is passed on, at the last line. -/
theorem processLine_displays {callback : World → TelnetSession → Str → List Act × Bool}
    (hcb : conf.newLineCallBack = some callback) (hspeaks : SpeaksCalmly width conf) {line : Str}
    (hline : ∀ b ∈ line, Printable b) {c : Conn} (h : (processLine os conf callback line c).Whole)
    {text cut : Str} (hcut : Cut cut) (hbuffer : c.session.buffer = text ++ cut)
    (htext : ∀ b ∈ text, Printable b) (hfits : (conf.promptString ++ text).length < width)
    (hlevel : c.Level width t₀) :
    Displays width (conf.promptString ++ text) cut
      ((processLine os conf callback line c).screen width t₀) := by
  obtain ⟨hsaid, hcalm⟩ := hspeaks callback hcb c.world c.session line hline
  set c₁ : Conn :=
    { c with world := c.world.record (.line c.session.id line (callback c.world c.session line).2) }
    with hc₁
  have hacted := runActs_acted os conf (callback c.world c.session line).1 c₁
  have hid : (processLine os conf callback line c).session.id =
        (runActs os conf (callback c.world c.session line).1 c₁).session.id ∧
      (processLine os conf callback line c).world =
        (runActs os conf (callback c.world c.session line).1 c₁).world := by
    refine ⟨?_, rfl⟩
    unfold processLine
    dsimp only
    split <;> rfl
  unfold Conn.Whole at h
  unfold Conn.screen
  rw [hid.1, hid.2] at h ⊢
  exact runActs_displays os hi hprompt hw ht₀ hcalm h hcut hbuffer htext hfits (.inl ⟨hlevel, hsaid⟩)

/-- **Behind the lines that are passed on** stand the prompt and the buffer. -/
theorem processLines_displays (hcb : conf.newLineCallBack.isSome) (hspeaks : SpeaksCalmly width conf)
    {lines : List Str} (hne : lines ≠ []) (hlines : ∀ line ∈ lines, ∀ b ∈ line, Printable b) {c : Conn}
    (h : (processLines os conf lines c).Whole) {text cut : Str} (hcut : Cut cut)
    (hbuffer : c.session.buffer = text ++ cut) (htext : ∀ b ∈ text, Printable b)
    (hfits : (conf.promptString ++ text).length < width) (hlevel : c.Level width t₀) :
    Displays width (conf.promptString ++ text) cut
      ((processLines os conf lines c).screen width t₀) := by
  obtain ⟨callback, hcb⟩ := Option.isSome_iff_exists.mp hcb
  rw [processLines_some os conf callback hcb] at h ⊢
  induction lines generalizing c with
  | nil => exact absurd rfl hne
  | cons line lines ih =>
    rw [List.foldl_cons] at h ⊢
    have hrest : Worked (processLine os conf callback line c)
        (lines.foldl (fun c line => processLine os conf callback line c)
          (processLine os conf callback line c)) := by
      rw [← processLines_some os conf callback hcb]
      exact processLines_worked os conf lines _
    have hfirst := processLine_displays os hi hprompt hw ht₀ hcb hspeaks
      (hlines line List.mem_cons_self) (hrest.whole h) hcut hbuffer htext hfits hlevel
    by_cases hnil : lines = []
    · subst hnil
      exact hfirst
    · exact ih hnil (fun l hl => hlines l (List.mem_cons_of_mem _ hl))
        ((processLine_buffer os conf callback line c).trans hbuffer) (hfirst.below hcut) h

end Lines

/-! ### Connecting -/

/-- A session that negotiated with its client. -/
def negotiated (os : Os) (c : Conn) : Conn :=
  sendCounted os [0xff, 0xfb, 0x03] (sendCounted os [0xff, 0xfe, 0x01] (sendCounted os [0xff, 0xfb, 0x01]
    { session := { c.session with
        stats := { c.session.stats with connectTime := os.highResolutionClock c.world.n } }
      world := c.world.next }))

theorem negotiated_screen (os : Os) {width : ℕ} {t₀ : Screen} {c : Conn}
    (h : (negotiated os c).Whole) :
    (negotiated os c).screen width t₀ =
      feed width [0xff, 0xfb, 0x01, 0xff, 0xfe, 0x01, 0xff, 0xfb, 0x03] (c.screen width t₀) := by
  have hbytes : ([0xff, 0xfb, 0x01, 0xff, 0xfe, 0x01, 0xff, 0xfb, 0x03] : Str) =
      [0xff, 0xfb, 0x01] ++ [0xff, 0xfe, 0x01] ++ [0xff, 0xfb, 0x03] := rfl
  have hsecond := (sendCounted_acted os [0xff, 0xfb, 0x03] _).whole h
  have hfirst := (sendCounted_acted os [0xff, 0xfe, 0x01] _).whole hsecond
  rw [hbytes, feed_append, feed_append]
  unfold negotiated
  rw [sendCounted_screen os _ h, sendCounted_screen os _ hsecond, sendCounted_screen os _ hfirst]
  rfl

/-- The connected callback says at least one line, and nothing that would leave
the last line. -/
def GreetsCalmly (width : ℕ) (conf : Conf) : Prop :=
  ∃ callback, conf.connectedCallback = some callback ∧ ∀ w s,
    (∃ data, .sendLine data ∈ callback w s) ∧
      ∀ data, .sendLine data ∈ callback w s → Calm width data

/-- **A client that connects sees the prompt.** -/
theorem initialise_displays (os : Os) {conf : Conf} {width : ℕ} {t₀ : Screen}
    (hi : conf.interactivePrompt = true) (hprompt : ∀ b ∈ conf.promptString, Printable b)
    (hw : width ≤ 80) (ht₀ : t₀.col < width) (hgreets : GreetsCalmly width conf) {c : Conn}
    (h : (initialise os conf c).Whole) (hbuffer : c.session.buffer = [])
    (hfits : conf.promptString.length < width) (hmode : (c.screen width t₀).mode = .ground)
    (hlevel : c.Level width t₀) :
    Displays width conf.promptString [] ((initialise os conf c).screen width t₀) := by
  obtain ⟨callback, hcallback, htells⟩ := hgreets
  set d := runActs os conf (callback (negotiated os c).world (negotiated os c).session)
    (negotiated os c) with hd
  have hinit : initialise os conf c =
      { d.setLastSeenTime (os.systemClock d.world.n) with world := d.world.next } := by
    unfold initialise
    rw [hcallback]
    rfl
  rw [hinit] at h ⊢
  have hwhole : d.Whole := h
  have hnegotiated := (runActs_acted os conf _ (negotiated os c)).whole hwhole
  -- the bytes of the telnet protocol are no escapes
  obtain ⟨-, hbelow⟩ := calm_of_plain width
    (show (0x1B : Byte) ∉ [0xff, 0xfb, 0x01, 0xff, 0xfe, 0x01, 0xff, 0xfb, 0x03] by decide)
    _ hmode hlevel
  rw [← negotiated_screen os hnegotiated] at hbelow
  have hempty : (negotiated os c).session.buffer = [] ++ [] := by
    unfold negotiated
    rw [sendCounted_buffer, sendCounted_buffer, sendCounted_buffer]
    exact hbuffer
  have hshown := runActs_displays os hi hprompt hw ht₀ (htells _ _).2 hwhole (.inl rfl) hempty
    (by simp) (by rwa [List.append_nil]) (.inl ⟨hbelow, (htells _ _).1⟩)
  rw [List.append_nil] at hshown
  exact hshown

end Telnet
end RepoInit
