/-
# A terminal

What a user sees of a stream of bytes: the line the cursor is on, the lines
above and below it, and how much of an escape sequence was read. The terminal
has `width` columns and does not wrap: in the last one the cursor stays. It
knows the cursor keys, erasing the line and erasing the screen, and skips other
sequences. A line that is erased is empty, whatever was read before
(`shows_erase`), and shows what is written on it (`Shows.append`); text without
escapes goes no line up (`feed_plain`).

Key definitions: `Terminal.Screen`, `Terminal.step`, `Terminal.feed`,
`Terminal.Shows`.
Key theorems: `Terminal.feed_text`, `Terminal.feed_plain`,
`Terminal.shows_erase`, `Terminal.Shows.append`.
-/
import Mathlib.Data.List.Basic
import Mathlib.Logic.Function.Iterate
import Mathlib.Tactic.Common

namespace Terminal

/-! ### The screen -/

/-- How much of an escape sequence was read. -/
inductive Mode where
  | ground
  | escape
  /-- Behind the bracket, with the parameter bytes. -/
  | control (params : List UInt8)
  deriving DecidableEq, Repr

structure Screen where
  /-- The lines above the cursor, the nearest first. -/
  above : List (List UInt8) := []
  line : List UInt8 := []
  col : ℕ := 0
  /-- The lines below the cursor, the nearest first. -/
  below : List (List UInt8) := []
  mode : Mode := .ground
  deriving DecidableEq, Repr

/-- One line up, if there is one. -/
def up (t : Screen) : Screen :=
  match t.above with
  | [] => t
  | line :: above => { t with above := above, line := line, below := t.line :: t.below }

/-- One line down, if there is one. -/
def down (t : Screen) : Screen :=
  match t.below with
  | [] => t
  | line :: below => { t with above := t.line :: t.above, line := line, below := below }

/-- One line down, to a new one if there is none. -/
def lineFeed (t : Screen) : Screen :=
  { t with above := t.line :: t.above, line := t.below.headD [], below := t.below.tail }

/-- The screen without its text; the cursor stays. -/
def clear (t : Screen) : Screen :=
  { t with above := t.above.map fun _ => [], line := [], below := t.below.map fun _ => [] }

/-- The number the parameter bytes write, if they are digits. -/
def number (params : List UInt8) : ℕ := params.foldl (fun n b => 10 * n + (b.toNat - 0x30)) 0

section Width

variable (width : ℕ)

/-- A byte at the cursor; where the line is shorter, it is filled up. -/
def put (b : UInt8) (t : Screen) : Screen :=
  { t with
    line := t.line.take t.col ++ List.replicate (t.col - t.line.length) 0x20 ++
      b :: t.line.drop (t.col + 1)
    col := min (t.col + 1) (width - 1) }

/-- A control sequence, by its last byte. -/
def controlSequence (params : List UInt8) (final : UInt8) (t : Screen) : Screen :=
  let n := max 1 (number params)
  if final = 0x41 then up^[n] t
  else if final = 0x42 then down^[n] t
  else if final = 0x43 then { t with col := min (t.col + n) (width - 1) }
  else if final = 0x44 then { t with col := t.col - n }
  else if final = 0x4A ∧ number params = 2 then clear t
  else if final = 0x4B ∧ number params = 2 then { t with line := [] }
  else t

/-- A byte outside a sequence; a tab goes to the next multiple of eight. -/
def ground (b : UInt8) (t : Screen) : Screen :=
  if b = 0x0D then { t with col := 0 }
  else if b = 0x0A then lineFeed t
  else if b = 0x08 then { t with col := t.col - 1 }
  else if b = 0x09 then { t with col := min ((t.col / 8 + 1) * 8) (width - 1) }
  else if b < 0x20 ∨ b = 0x7F then t
  else put width b t

/-- An escape byte starts a sequence wherever it is read. -/
def step (t : Screen) (b : UInt8) : Screen :=
  if b = 0x1B then { t with mode := .escape }
  else
    match t.mode with
    | .ground => ground width b t
    | .escape => if b = 0x5B then { t with mode := .control [] } else { t with mode := .ground }
    | .control params =>
      if 0x20 ≤ b ∧ b < 0x40 then { t with mode := .control (params ++ [b]) }
      else { controlSequence width params b t with mode := .ground }

def feed (s : List UInt8) (t : Screen) : Screen := s.foldl (step width) t

@[simp] theorem feed_nil (t : Screen) : feed width [] t = t := rfl

theorem feed_cons (b : UInt8) (s : List UInt8) (t : Screen) :
    feed width (b :: s) t = feed width s (step width t b) := rfl

theorem feed_append (s s' : List UInt8) (t : Screen) :
    feed width (s ++ s') t = feed width s' (feed width s t) :=
  List.foldl_append

/-! ### Single steps -/

theorem step_escape (t : Screen) : step width t 0x1B = { t with mode := .escape } := if_pos rfl

theorem step_ground {t : Screen} (h : t.mode = .ground) {b : UInt8} (hb : b ≠ 0x1B) :
    step width t b = ground width b t := by
  unfold step
  rw [if_neg hb, h]

/-- A control sequence without parameters. -/
theorem feed_control (final : UInt8) (h : 0x40 ≤ final) (t : Screen) :
    feed width [0x1B, 0x5B, final] t =
      { controlSequence width [] final { t with mode := .control [] } with mode := .ground } := by
  have hESC : final ≠ 0x1B := by
    rintro rfl
    exact absurd h (by decide)
  have hparam : ¬ (0x20 ≤ final ∧ final < 0x40) := fun hf => UInt8.not_lt.mpr h hf.2
  have hbracket : step width { t with mode := .escape } 0x5B = { t with mode := .control [] } := rfl
  rw [feed_cons, step_escape, feed_cons, hbracket, feed_cons, feed_nil, step, if_neg hESC]
  dsimp only
  rw [if_neg hparam]

/-! ### Columns -/

section Columns

theorem iterate_col {f : Screen → Screen} (hf : ∀ t, (f t).col = t.col) (n : ℕ) (t : Screen) :
    (f^[n] t).col = t.col := by
  induction n generalizing t with
  | zero => rfl
  | succ n ih => rw [Function.iterate_succ_apply, ih, hf]

theorem up_col (t : Screen) : (up t).col = t.col := by
  unfold up
  split <;> rfl

theorem down_col (t : Screen) : (down t).col = t.col := by
  unfold down
  split <;> rfl

variable {width} (hw : 0 < width)

include hw

theorem controlSequence_col (params : List UInt8) (final : UInt8) {t : Screen} (h : t.col < width) :
    (controlSequence width params final t).col < width := by
  unfold controlSequence
  dsimp only
  split_ifs
  · rwa [iterate_col up_col]
  · rwa [iterate_col down_col]
  · dsimp only
    omega
  · dsimp only
    omega
  · exact h
  · exact h
  · exact h

theorem ground_col (b : UInt8) {t : Screen} (h : t.col < width) : (ground width b t).col < width := by
  unfold ground
  split_ifs
  · exact hw
  · exact h
  · dsimp only
    omega
  · dsimp only
    omega
  · exact h
  · simp only [put]
    omega

theorem step_col {t : Screen} (h : t.col < width) (b : UInt8) : (step width t b).col < width := by
  unfold step
  by_cases hb : b = 0x1B
  · rwa [if_pos hb]
  · rw [if_neg hb]
    split
    · exact ground_col hw b h
    · split <;> exact h
    · split
      · exact h
      · exact controlSequence_col hw _ b h

/-- **The cursor stays inside the columns.** -/
theorem feed_col (s : List UInt8) {t : Screen} (h : t.col < width) : (feed width s t).col < width := by
  induction s generalizing t with
  | nil => exact h
  | cons b s ih => exact ih (step_col hw h b)

end Columns

/-! ### Text -/

/-- A byte that takes a column. -/
def Printing (b : UInt8) : Prop := 0x20 ≤ b ∧ b ≠ 0x7F

theorem ground_of_printing {b : UInt8} (h : Printing b) (t : Screen) :
    ground width b t = put width b t := by
  have hne : ∀ c : UInt8, c < 0x20 → b ≠ c := by
    rintro c hc rfl
    exact UInt8.not_lt.mpr h.1 hc
  unfold ground
  rw [if_neg (hne _ (by decide)), if_neg (hne _ (by decide)), if_neg (hne _ (by decide)),
    if_neg (hne _ (by decide)), if_neg]
  rintro (hlt | rfl)
  · exact UInt8.not_lt.mpr h.1 hlt
  · exact h.2 rfl

theorem step_printing {b : UInt8} (h : Printing b) {t : Screen} (ht : t.mode = .ground) :
    step width t b = put width b t := by
  have hESC : b ≠ 0x1B := by
    rintro rfl
    exact absurd h.1 (by decide)
  rw [step_ground width ht hESC, ground_of_printing width h]

variable {width}

/-- **Text goes to the end of the line**, where the cursor stands there and the
columns suffice. -/
theorem feed_text {text : List UInt8} (h : ∀ b ∈ text, Printing b) {t : Screen}
    (hmode : t.mode = .ground) (hcol : t.col = t.line.length)
    (hfits : t.line.length + text.length < width) :
    feed width text t =
      { t with line := t.line ++ text, col := (t.line ++ text).length } := by
  induction text generalizing t with
  | nil =>
    rw [feed_nil, List.append_nil, ← hcol]
  | cons b text ih =>
    rw [List.length_cons] at hfits
    have hput : put width b t = { t with line := t.line ++ [b], col := (t.line ++ [b]).length } := by
      unfold put
      rw [hcol, List.take_length, Nat.sub_self, List.drop_eq_nil_of_le (by omega)]
      simp only [List.replicate_zero, List.append_nil, List.length_append, List.length_singleton]
      congr 1
      omega
    have hrest := ih (fun b' hb' => h b' (List.mem_cons_of_mem _ hb'))
      (t := { t with line := t.line ++ [b], col := (t.line ++ [b]).length }) hmode rfl
      (by simp only [List.length_append, List.length_singleton]; omega)
    rw [feed_cons, step_printing width (h b List.mem_cons_self) hmode, hput, hrest]
    simp

/-- A byte that is no escape leaves the terminal outside a sequence and goes no
line up. -/
theorem ground_plain (width : ℕ) (b : UInt8) (t : Screen) :
    (ground width b t).mode = t.mode ∧ (ground width b t).below.length ≤ t.below.length := by
  unfold ground
  split_ifs <;> simp [lineFeed, put]

/-- **Text without escapes goes no line up.** -/
theorem feed_plain {s : List UInt8} (h : (0x1B : UInt8) ∉ s) {t : Screen} (hmode : t.mode = .ground) :
    (feed width s t).mode = .ground ∧ (feed width s t).below.length ≤ t.below.length := by
  induction s generalizing t with
  | nil => exact ⟨hmode, Nat.le_refl _⟩
  | cons b s ih =>
    rw [List.mem_cons, not_or] at h
    have hstep := ground_plain width b t
    rw [feed_cons, step_ground width hmode (Ne.symm h.1)]
    obtain ⟨hmode', hbelow⟩ := ih h.2 (hstep.1.trans hmode)
    exact ⟨hmode', Nat.le_trans hbelow hstep.2⟩

/-! ### The cursor keys -/

/-- An up-arrow goes one line up at most. -/
theorem feed_up (t : Screen) :
    (feed width [0x1B, 0x5B, 0x41] t).mode = .ground ∧
      (feed width [0x1B, 0x5B, 0x41] t).below.length ≤ t.below.length + 1 := by
  rw [feed_control width 0x41 (by decide)]
  refine ⟨rfl, ?_⟩
  have hone : controlSequence width [] 0x41 { t with mode := .control [] } =
      up { t with mode := .control [] } := by
    simp [controlSequence, number]
  rw [hone]
  unfold up
  split <;> simp

/-- A down-arrow goes one line down, if there is one. -/
theorem feed_down (t : Screen) :
    (feed width [0x1B, 0x5B, 0x42] t).mode = .ground ∧
      (feed width [0x1B, 0x5B, 0x42] t).below.length = t.below.length - 1 := by
  rw [feed_control width 0x42 (by decide)]
  refine ⟨rfl, ?_⟩
  have hone : controlSequence width [] 0x42 { t with mode := .control [] } =
      down { t with mode := .control [] } := by
    simp [controlSequence, number]
  rw [hone]
  unfold down
  cases h : t.below <;> simp

/-! ### Erasing and writing again -/

/-- The last line shows the text, with the cursor behind it. -/
structure Shows (text : List UInt8) (t : Screen) : Prop where
  mode : t.mode = .ground
  line : t.line = text
  col : t.col = text.length
  below : t.below = []

/-- ESC [ 2 K and ESC [ 8 0 D, in the middle of a sequence too. -/
theorem feed_erase (t : Screen) :
    feed width [0x1B, 0x5B, 0x32, 0x4B, 0x1B, 0x5B, 0x38, 0x30, 0x44] t =
      { t with line := [], col := t.col - 80, mode := .ground } := by
  simp [feed, step, controlSequence, number]

/-- **A line that is erased** is empty, with the cursor at its beginning. -/
theorem shows_erase (hw : width ≤ 80) {t : Screen} (hcol : t.col < width) (hbelow : t.below = []) :
    Shows [] (feed width [0x1B, 0x5B, 0x32, 0x4B, 0x1B, 0x5B, 0x38, 0x30, 0x44] t) := by
  rw [feed_erase]
  exact ⟨rfl, rfl, by simp only [List.length_nil]; omega, hbelow⟩

/-- More text behind what is shown. -/
theorem Shows.append {text s : List UInt8} {t : Screen} (h : Shows text t) (hs : ∀ b ∈ s, Printing b)
    (hfits : text.length + s.length < width) : Shows (text ++ s) (feed width s t) := by
  rw [feed_text hs h.mode (h.col.trans (congrArg _ h.line).symm) (by rw [h.line]; exact hfits), h.line]
  exact ⟨h.mode, rfl, rfl, h.below⟩

/-- A line end behind the last line, and a new line. -/
theorem shows_lineEnd {t : Screen} (hmode : t.mode = .ground) (hbelow : t.below = []) :
    Shows [] (feed width [0x0D, 0x0A] t) := by
  have hfeed : feed width [0x0D, 0x0A] t = lineFeed { t with col := 0 } := by
    rw [feed_cons, step_ground width hmode (by decide), feed_cons, feed_nil]
    have hcr : ground width 0x0D t = { t with col := 0 } := rfl
    rw [hcr, step_ground width (by exact hmode) (by decide)]
    rfl
  rw [hfeed]
  exact ⟨hmode, by simp [lineFeed, hbelow], rfl, by simp [lineFeed, hbelow]⟩

end Width

end Terminal
