/-
# A line editor, and keys that may be handled out of order

`press` is what one key does to the unfinished line, the finished ones and the
history. A program that is given several keys at once may handle them kind by
kind instead of one after the other: recall the history, take out each
backspace of the one kind with the character before it, then of the other kind,
complete at each tab, and only then cut the lines. `InOrder` says when this is
harmless: no key then acts on anything but the unfinished line it was typed on.
Each pass is shown to leave what the keys do as it is (`run_dropUps`,
`run_takeBack`, `run_completeTabs`), so that together they do (`run_rearrange`).
Keys that arrive one at a time are in order (`inOrder_single`).

Key definitions: `LineEditor.press`, `LineEditor.run`, `LineEditor.takeBack`,
`LineEditor.completeTabs`, `LineEditor.InOrder`.
Key theorems: `LineEditor.run_rearrange`, `LineEditor.run_recallsLast`,
`LineEditor.inOrder_single`.
-/
import Mathlib.Data.List.Basic
import Mathlib.Tactic.Common

namespace LineEditor

/-- The keys; there are two kinds of backspace. -/
inductive Key (α : Type*) where
  | char (a : α)
  | back (kind : Bool)
  | tab
  | up
  | enter
  deriving DecidableEq, Repr

@[ext] structure Editor (α : Type*) where
  /-- The unfinished line. -/
  text : List α
  /-- The finished lines. -/
  lines : List (List α)
  history : List (List α)
  cursor : ℕ

variable {α : Type*} (complete : List α → List α)
  (push : List (List α) → List α → List (List α))

/-- An up-arrow without a history does nothing. -/
def press (e : Editor α) : Key α → Editor α
  | .char a => { e with text := e.text ++ [a] }
  | .back _ => { e with text := e.text.dropLast }
  | .tab => { e with text := complete e.text }
  | .up =>
    if e.history = [] then e
    else { e with cursor := e.cursor - 1, text := e.history.getD (e.cursor - 1) [] }
  | .enter =>
    { text := [], lines := e.lines ++ [e.text], history := push e.history e.text,
      cursor := (push e.history e.text).length }

/-- The keys, one after the other. -/
def run (e : Editor α) (keys : List (Key α)) : Editor α := keys.foldl (press complete push) e

theorem run_cons (e : Editor α) (key : Key α) (keys : List (Key α)) :
    run complete push e (key :: keys) = run complete push (press complete push e key) keys := rfl

theorem run_append (e : Editor α) (keys keys' : List (Key α)) :
    run complete push e (keys ++ keys') =
      run complete push (run complete push e keys) keys' :=
  List.foldl_append

/-- Typing a text. -/
theorem run_chars (e : Editor α) (text : List α) :
    run complete push e (text.map .char) = { e with text := e.text ++ text } := by
  induction text generalizing e with
  | nil => simp [run]
  | cons a text ih =>
    rw [List.map_cons, run_cons, ih]
    simp [press]

/-- The lines that are finished have no part in what comes. -/
theorem run_lines (e : Editor α) (lines : List (List α)) (keys : List (Key α)) :
    ∃ lines', run complete push { e with lines := lines } keys =
      { run complete push e keys with lines := lines' } := by
  induction keys generalizing e lines with
  | nil => exact ⟨lines, rfl⟩
  | cons key keys ih =>
    have hpress : ∃ lines', press complete push { e with lines := lines } key =
        { press complete push e key with lines := lines' } := by
      cases key with
      | up =>
        by_cases h : e.history = []
        · exact ⟨lines, by simp [press, h]⟩
        · exact ⟨lines, by simp [press, h]⟩
      | enter => exact ⟨lines ++ [e.text], rfl⟩
      | _ => exact ⟨lines, rfl⟩
    obtain ⟨lines₁, hpress⟩ := hpress
    rw [run_cons, run_cons, hpress]
    exact ih (press complete push e key) lines₁

/-! ### Up-arrows -/

/-- Up-arrows come only while there is no history. -/
def UpsIdle (e : Editor α) : List (Key α) → Prop
  | [] => True
  | key :: keys => (key = .up → e.history = []) ∧ UpsIdle (press complete push e key) keys

instance decidableUpsIdle [DecidableEq α] (e : Editor α) :
    (keys : List (Key α)) → Decidable (UpsIdle complete push e keys)
  | [] => inferInstanceAs (Decidable True)
  | key :: keys =>
    have := decidableUpsIdle (press complete push e key) keys
    inferInstanceAs (Decidable (_ ∧ _))

def isUp : Key α → Bool
  | .up => true
  | _ => false

def dropUps (keys : List (Key α)) : List (Key α) := keys.filter fun key => !isUp key

theorem mem_dropUps {key : Key α} {keys : List (Key α)} :
    key ∈ dropUps keys ↔ key ∈ keys ∧ key ≠ .up := by
  rw [dropUps, List.mem_filter]
  cases key <;> simp [isUp]

variable {complete push}

theorem run_dropUps {e : Editor α} {keys : List (Key α)} (h : UpsIdle complete push e keys) :
    run complete push e (dropUps keys) = run complete push e keys := by
  induction keys generalizing e with
  | nil => rfl
  | cons key keys ih =>
    have ih := ih h.2
    cases key with
    | up =>
      have hpress : press complete push e .up = e := if_pos (h.1 rfl)
      rw [hpress] at ih
      rw [run_cons, hpress, ← ih]
      rfl
    | _ => exact ih

theorem upsIdle_of_not_mem {keys : List (Key α)} (h : .up ∉ keys) (e : Editor α) :
    UpsIdle complete push e keys := by
  induction keys generalizing e with
  | nil => trivial
  | cons key keys ih =>
    have hkeys : .up ∉ keys := fun hm => h (List.mem_cons_of_mem _ hm)
    exact ⟨fun hup => absurd (hup ▸ List.mem_cons_self) h, ih hkeys _⟩

/-- Up-arrows behind a text that is typed without a history. -/
theorem upsIdle_chars {e : Editor α} (he : e.history = []) (text : List α) {keys : List (Key α)}
    (h : ∀ e' : Editor α, e'.history = [] → UpsIdle complete push e' keys) :
    UpsIdle complete push e (text.map .char ++ keys) := by
  induction text generalizing e with
  | nil => exact h e he
  | cons a text ih => exact ⟨fun _ => he, ih (e := press complete push e (.char a)) he⟩

/-! ### Recalling -/

/-- An up-arrow ends the keys; no line ends among them, and other up-arrows
come only where the oldest entry is recalled anyway. -/
def RecallsLast (cursor : ℕ) (keys : List (Key α)) : Prop :=
  keys.getLast? = some .up ∧ .enter ∉ keys ∧ (keys.countP isUp = 1 ∨ cursor ≤ 1)

instance [DecidableEq α] (cursor : ℕ) (keys : List (Key α)) : Decidable (RecallsLast cursor keys) :=
  inferInstanceAs (Decidable (_ ∧ _))

/-- An up-arrow, where there is a history. -/
theorem press_up {e : Editor α} (he : e.history ≠ []) :
    press complete push e .up =
      { e with cursor := e.cursor - 1, text := e.history.getD (e.cursor - 1) [] } :=
  if_neg he

/-- Without a line end the lines and the history stay, and without an up-arrow
the cursor too. -/
theorem run_of_not_enter {keys : List (Key α)} (h : .enter ∉ keys) (e : Editor α) :
    (run complete push e keys).lines = e.lines ∧
      (run complete push e keys).history = e.history ∧
      (run complete push e keys).cursor ≤ e.cursor ∧
      (.up ∉ keys → (run complete push e keys).cursor = e.cursor) := by
  induction keys generalizing e with
  | nil => exact ⟨rfl, rfl, Nat.le_refl _, fun _ => rfl⟩
  | cons key keys ih =>
    rw [List.mem_cons, not_or] at h
    obtain ⟨hlines, hhistory, hle, hcursor⟩ := ih h.2 (press complete push e key)
    rw [run_cons, List.mem_cons, not_or]
    cases key with
    | enter => exact absurd rfl h.1
    | up =>
      have hpress : (press complete push e .up).lines = e.lines ∧
          (press complete push e .up).history = e.history ∧
          (press complete push e .up).cursor ≤ e.cursor := by
        by_cases he : e.history = []
        · simp [press, he]
        · rw [press_up he]
          exact ⟨rfl, rfl, Nat.sub_le _ _⟩
      exact ⟨hlines.trans hpress.1, hhistory.trans hpress.2.1, Nat.le_trans hle hpress.2.2,
        fun hup => absurd rfl hup.1⟩
    | _ => exact ⟨hlines, hhistory, hle, fun hup => hcursor hup.2⟩

/-- The last up-arrow is all that counts. -/
theorem run_recallsLast {e : Editor α} {keys : List (Key α)} (he : e.history ≠ [])
    (h : RecallsLast e.cursor keys) :
    run complete push e keys =
      { e with cursor := e.cursor - 1, text := e.history.getD (e.cursor - 1) [] } := by
  obtain ⟨hlast, henter, hups⟩ := h
  obtain ⟨before, rfl⟩ : ∃ before, keys = before ++ [.up] := List.getLast?_eq_some_iff.mp hlast
  have hbefore : .enter ∉ before := fun hm => henter (List.mem_append_left _ hm)
  obtain ⟨hlines, hhistory, hle, hcursor⟩ := @run_of_not_enter α complete push before hbefore e
  have hsub : (run complete push e before).cursor - 1 = e.cursor - 1 := by
    rcases hups with hone | hle'
    · have hup : .up ∉ before := by
        intro hm
        have hpos : 0 < before.countP isUp := List.countP_pos_iff.mpr ⟨_, hm, rfl⟩
        have htotal : (before ++ [Key.up]).countP isUp = before.countP isUp + 1 := by
          rw [List.countP_append]
          rfl
        omega
      rw [hcursor hup]
    · omega
  have hlast : run complete push e (before ++ [.up]) =
      press complete push (run complete push e before) .up := run_append _ _ e before [.up]
  rw [hlast, press_up (by rw [hhistory]; exact he), hsub, hhistory, hlines]

/-! ### Taking back -/

def isBack (kind : Bool) : Key α → Bool
  | .back k => k == kind
  | _ => false

theorem isBack_iff {kind : Bool} {key : Key α} : isBack kind key = true ↔ key = .back kind := by
  cases key <;> simp [isBack]

/-- The keys without the backspaces of one kind and what they take out, if
that is a character each time; `before` are the keys already looked at. A
backspace with nothing before it may be followed by backspaces only, and by
nothing cut off. -/
def takeBack (kind cut : Bool) (before : List (Key α)) : List (Key α) → Option (List (Key α))
  | [] => some before
  | key :: keys =>
    if isBack kind key then
      match before.getLast? with
      | some (.char _) => takeBack kind cut before.dropLast keys
      | some _ => none
      | none =>
        if cut = false ∧ ∀ k ∈ keys, isBack true k ∨ isBack false k then some [] else none
    else takeBack kind cut (before ++ [key]) keys

/-- What `takeBack` does with a key. -/
theorem takeBack_cases {kind cut : Bool} {before keys rest : List (Key α)} {key : Key α}
    (h : takeBack kind cut before (key :: keys) = some rest) :
    (key ≠ .back kind ∧ takeBack kind cut (before ++ [key]) keys = some rest) ∨
      (key = .back kind ∧ ∃ b a, before = b ++ [.char a] ∧ takeBack kind cut b keys = some rest) ∨
      (key = .back kind ∧ before = [] ∧ cut = false ∧ rest = [] ∧
        ∀ k ∈ keys, ∃ kind', k = .back kind') := by
  rw [takeBack] at h
  by_cases hkey : isBack kind key = true
  · rw [if_pos hkey] at h
    have hkey := isBack_iff.mp hkey
    rcases List.eq_nil_or_concat before with rfl | ⟨b, last, rfl⟩
    · rw [List.getLast?_nil] at h
      dsimp only at h
      by_cases hback : cut = false ∧ ∀ k ∈ keys, isBack true k ∨ isBack false k
      · rw [if_pos hback] at h
        refine Or.inr (Or.inr ⟨hkey, rfl, hback.1, (Option.some.inj h).symm, fun k hk => ?_⟩)
        rcases hback.2 k hk with h | h
        · exact ⟨true, isBack_iff.mp h⟩
        · exact ⟨false, isBack_iff.mp h⟩
      · rw [if_neg hback] at h
        cases h
    · rw [List.concat_eq_append, List.getLast?_concat, List.dropLast_concat] at h
      cases last with
      | char a => exact Or.inr (Or.inl ⟨hkey, b, a, List.concat_eq_append, h⟩)
      | _ => cases h
  · rw [if_neg hkey] at h
    exact Or.inl ⟨fun hk => hkey (isBack_iff.mpr hk), h⟩

/-- Taking back leaves keys that were there, and no backspace of the kind. -/
theorem mem_takeBack {kind cut : Bool} {before keys rest : List (Key α)}
    (hbefore : .back kind ∉ before) (h : takeBack kind cut before keys = some rest) :
    (∀ key ∈ rest, key ∈ before ++ keys) ∧ .back kind ∉ rest := by
  induction keys generalizing before with
  | nil =>
    obtain rfl : before = rest := Option.some.inj h
    exact ⟨fun key hk => List.mem_append_left _ hk, hbefore⟩
  | cons key keys ih =>
    rcases takeBack_cases h with ⟨hkey, hrest⟩ | ⟨-, b, a, rfl, hrest⟩ | ⟨-, rfl, -, rfl, -⟩
    · have hnot : .back kind ∉ before ++ [key] := by
        simp [hbefore, Ne.symm hkey]
      obtain ⟨hsub, hno⟩ := ih hnot hrest
      exact ⟨fun k hk => by simpa using hsub k hk, hno⟩
    · have hnot : .back kind ∉ b := fun hm => hbefore (List.mem_append_left _ hm)
      obtain ⟨hsub, hno⟩ := ih hnot hrest
      refine ⟨fun k hk => ?_, hno⟩
      rcases List.mem_append.mp (hsub k hk) with hk | hk
      · exact List.mem_append_left _ (List.mem_append_left _ hk)
      · exact List.mem_append_right _ (List.mem_cons_of_mem _ hk)
    · simp

/-- A backspace right after a character takes it out. -/
theorem run_char_back (e : Editor α) (b : List (Key α)) (a : α) (kind : Bool) (keys : List (Key α)) :
    run complete push e (b ++ [.char a] ++ .back kind :: keys) = run complete push e (b ++ keys) := by
  rw [List.append_assoc, run_append, run_append complete push e b keys]
  have hpress : press complete push (press complete push (run complete push e b) (.char a))
      (.back kind) = run complete push e b := by
    simp [press]
  rw [List.singleton_append, run_cons, run_cons, hpress]

/-- Backspaces on an empty line. -/
theorem run_backs {e : Editor α} (he : e.text = []) {keys : List (Key α)}
    (h : ∀ k ∈ keys, ∃ kind, k = .back kind) : run complete push e keys = e := by
  induction keys with
  | nil => rfl
  | cons key keys ih =>
    obtain ⟨kind, rfl⟩ := h key List.mem_cons_self
    have hpress : press complete push e (.back kind) = e := by
      cases e
      simp_all [press]
    rw [run_cons, hpress]
    exact ih fun k hk => h k (List.mem_cons_of_mem _ hk)

theorem run_takeBack {e : Editor α} (he : e.text = []) {kind cut : Bool}
    {before keys rest : List (Key α)} (h : takeBack kind cut before keys = some rest) :
    run complete push e rest = run complete push e (before ++ keys) := by
  induction keys generalizing before with
  | nil =>
    obtain rfl : before = rest := Option.some.inj h
    rw [List.append_nil]
  | cons key keys ih =>
    rcases takeBack_cases h with ⟨-, hrest⟩ | ⟨rfl, b, a, rfl, hrest⟩ | ⟨rfl, rfl, -, rfl, hback⟩
    · rw [ih hrest, List.append_assoc, List.singleton_append]
    · calc run complete push e rest = run complete push e (b ++ keys) := ih hrest
        _ = run complete push e (b ++ [.char a] ++ .back kind :: keys) :=
          (run_char_back e b a kind keys).symm
    · have hbacks : ∀ k ∈ Key.back kind :: keys, ∃ kind', k = .back kind' := by
        intro k hk
        rcases List.mem_cons.mp hk with rfl | hk
        · exact ⟨kind, rfl⟩
        · exact hback k hk
      rw [List.nil_append, run_backs he hbacks]
      rfl

/-! ### Completing -/

/-- The keys with what each tab completes written out: the line begun, where
no line ended before it. Where one did, the tab must have nothing to complete.
`before` are the keys up to the last line end, `line` is what was typed
since. -/
def completeTabs (complete : List α → List α) [DecidableEq α] (before : List (Key α))
    (line : List α) : List (Key α) → Option (List (Key α))
  | [] => some (before ++ line.map .char)
  | .char a :: keys => completeTabs complete before (line ++ [a]) keys
  | .enter :: keys => completeTabs complete (before ++ line.map .char ++ [.enter]) [] keys
  | .tab :: keys =>
    if before = [] ∨ complete line = line then completeTabs complete before (complete line) keys
    else none
  | .back _ :: _ => none
  | .up :: _ => none

theorem run_completeTabs [DecidableEq α] {e : Editor α} {before keys rest : List (Key α)}
    {line : List α} (he : (run complete push e before).text = [])
    (h : completeTabs complete before line keys = some rest) :
    run complete push e rest = run complete push e (before ++ line.map .char ++ keys) := by
  induction keys generalizing before line with
  | nil =>
    rw [List.append_nil, ← Option.some.inj h]
  | cons key keys ih =>
    cases key with
    | char a =>
      rw [ih he h]
      simp
    | enter =>
      have hline : (run complete push e (before ++ line.map .char ++ [.enter])).text = [] := by
        rw [run_append]
        rfl
      rw [ih hline h]
      simp
    | tab =>
      rw [completeTabs] at h
      by_cases hcomplete : before = [] ∨ complete line = line
      · rw [if_pos hcomplete] at h
        -- the unfinished line becomes `complete line`
        have hpress : press complete push { run complete push e before with text := line } .tab =
            { run complete push e before with text := complete line } := rfl
        rw [ih he h, run_append, run_append, run_chars, run_append, run_append, run_chars, run_cons,
          he, List.nil_append, List.nil_append, hpress]
      · rw [if_neg hcomplete] at h
        cases h
    | back kind => cases h
    | up => cases h

/-! ### All passes -/

/-- The keys a program is left with that drops up-arrows, takes back, completes
and only then cuts lines. -/
def rearrange (complete : List α → List α) [DecidableEq α] (cut : Bool) (keys : List (Key α)) :
    Option (List (Key α)) :=
  (takeBack true cut [] (dropUps keys)).bind fun keys =>
    (takeBack false cut [] keys).bind fun keys => completeTabs complete [] [] keys

/-- It does not matter that the keys are handled out of order: an up-arrow
recalls at their very end, or no key acts on what it was not typed on. `cut`
says that the first bytes of another key have already come. -/
def InOrder (complete : List α → List α) (push : List (List α) → List α → List (List α))
    [DecidableEq α] (e : Editor α) (keys : List (Key α)) (cut : Bool) : Prop :=
  if e.history ≠ [] ∧ .up ∈ keys then RecallsLast e.cursor keys ∧ cut = false
  else UpsIdle complete push e keys ∧ (rearrange complete cut keys).isSome

instance [DecidableEq α] (e : Editor α) (keys : List (Key α)) (cut : Bool) :
    Decidable (InOrder complete push e keys cut) :=
  inferInstanceAs (Decidable (ite _ _ _))

/-- **The passes leave what the keys do as it is.** -/
theorem run_rearrange [DecidableEq α] {e : Editor α} (he : e.text = []) {keys rest : List (Key α)}
    {cut : Bool} (hups : UpsIdle complete push e keys) (h : rearrange complete cut keys = some rest) :
    run complete push e rest = run complete push e keys := by
  obtain ⟨keys₁, h₁, h⟩ := Option.bind_eq_some_iff.mp h
  obtain ⟨keys₂, h₂, h₃⟩ := Option.bind_eq_some_iff.mp h
  have htabs : run complete push e rest = run complete push e ([] ++ [].map .char ++ keys₂) :=
    run_completeTabs he h₃
  calc run complete push e rest = run complete push e keys₂ := htabs
    _ = run complete push e keys₁ := run_takeBack he h₂
    _ = run complete push e (dropUps keys) := run_takeBack he h₁
    _ = run complete push e keys := run_dropUps hups

/-! ### One key at a time -/

/-- A text, and at most one key after it, of which all bytes have come. -/
def Single (cut : Bool) (keys : List (Key α)) : Prop :=
  ∃ (text : List α) (last : List (Key α)),
    keys = text.map .char ++ last ∧ last.length ≤ 1 ∧ (last ≠ [] → cut = false)

theorem takeBack_chars (kind cut : Bool) (before keys : List (Key α)) (text : List α) :
    takeBack kind cut before (text.map .char ++ keys) =
      takeBack kind cut (before ++ text.map .char) keys := by
  induction text generalizing before with
  | nil => simp
  | cons a text ih =>
    have hstep : takeBack kind cut before (.char a :: (text.map .char ++ keys)) =
        takeBack kind cut (before ++ [.char a]) (text.map .char ++ keys) := rfl
    rw [List.map_cons, List.cons_append, hstep, ih]
    simp

theorem completeTabs_chars [DecidableEq α] (before keys : List (Key α)) (line text : List α) :
    completeTabs complete before line (text.map .char ++ keys) =
      completeTabs complete before (line ++ text) keys := by
  induction text generalizing line with
  | nil => simp
  | cons a text ih =>
    have hstep : completeTabs complete before line (.char a :: (text.map .char ++ keys)) =
        completeTabs complete before (line ++ [a]) (text.map .char ++ keys) := rfl
    rw [List.map_cons, List.cons_append, hstep, ih]
    simp

theorem dropUps_chars (text : List α) : dropUps (text.map Key.char) = text.map .char := by
  apply List.filter_eq_self.mpr
  simp [isUp]

/-- A typed text is left as it is. -/
theorem rearrange_chars [DecidableEq α] (cut : Bool) (text : List α) :
    rearrange complete cut (text.map .char) = some (text.map .char) := by
  have hback : ∀ kind, takeBack kind cut [] (text.map Key.char) = some (text.map .char) := by
    intro kind
    have := takeBack_chars kind cut [] [] text
    rwa [List.append_nil, List.nil_append] at this
  have htabs := @completeTabs_chars α complete _ [] [] [] text
  rw [List.append_nil, List.nil_append] at htabs
  rw [rearrange, dropUps_chars, hback, Option.bind_some, hback, Option.bind_some, htabs]
  rfl

theorem single_dropUps {cut : Bool} {keys : List (Key α)} (h : Single cut keys) :
    Single cut (dropUps keys) := by
  obtain ⟨text, last, rfl, hlen, hcut⟩ := h
  refine ⟨text, dropUps last, ?_, Nat.le_trans (List.length_filter_le _ _) hlen, fun hne => ?_⟩
  · conv_rhs => rw [← dropUps_chars]
    exact List.filter_append _ _
  · apply hcut
    rintro rfl
    exact hne rfl

theorem single_takeBack {cut : Bool} {keys : List (Key α)} (h : Single cut keys) (kind : Bool) :
    ∃ rest, takeBack kind cut [] keys = some rest ∧ Single cut rest := by
  obtain ⟨text, last, rfl, hlen, hcut⟩ := h
  rw [takeBack_chars, List.nil_append]
  match last with
  | [] => exact ⟨_, rfl, text, [], by simp, by simp, by simp⟩
  | [key] =>
    have hcut := hcut (by simp)
    by_cases hkey : isBack kind key = true
    · rcases List.eq_nil_or_concat text with rfl | ⟨text, a, rfl⟩
      · refine ⟨[], ?_, [], [], rfl, by simp, by simp⟩
        simp [takeBack, hkey, hcut]
      · refine ⟨text.map .char, ?_, text, [], by simp, by simp, by simp⟩
        simp [takeBack, hkey]
    · refine ⟨text.map .char ++ [key], ?_, text, [key], rfl, hlen, fun _ => hcut⟩
      simp [takeBack, hkey]
  | _ :: _ :: _ => simp at hlen

/-- **Keys that arrive one at a time are in order.** -/
theorem inOrder_single [DecidableEq α] {cut : Bool} {keys : List (Key α)} (h : Single cut keys)
    (e : Editor α) : InOrder complete push e keys cut := by
  obtain ⟨text, last, rfl, hlen, hcut⟩ := id h
  unfold InOrder
  split
  · rename_i hup
    -- the up-arrow can only be the last key
    have hup : .up ∈ last := by simpa using hup.2
    match last with
    | [key] =>
      obtain rfl : key = .up := (List.mem_singleton.mp hup).symm
      refine ⟨⟨by simp, by simp, Or.inl ?_⟩, hcut (by simp)⟩
      simp [isUp]
    | _ :: _ :: _ => simp at hlen
  · rename_i hup
    rw [not_and_or, not_not] at hup
    constructor
    · rcases hup with he | hup
      · apply upsIdle_chars he
        intro e' he'
        match last with
        | [] => trivial
        | [key] => exact ⟨fun _ => he', trivial⟩
        | _ :: _ :: _ => simp at hlen
      · exact upsIdle_of_not_mem hup e
    · obtain ⟨keys₁, h₁, hs₁⟩ := single_takeBack (single_dropUps h) true
      obtain ⟨keys₂, h₂, hs₂⟩ := single_takeBack hs₁ false
      obtain ⟨hsub₁, hno₁⟩ := mem_takeBack (by simp) h₁
      obtain ⟨hsub₂, hno₂⟩ := mem_takeBack (by simp) h₂
      rw [rearrange, h₁, Option.bind_some, h₂, Option.bind_some]
      obtain ⟨text', last', rfl, hlen', -⟩ := hs₂
      rw [completeTabs_chars, List.nil_append]
      match last' with
      | [] => rfl
      | [.char a] => rfl
      | [.tab] => rfl
      | [.enter] => rfl
      | [.back true] => exact absurd (hsub₂ _ (by simp)) hno₁
      | [.back false] => exact absurd (by simp) hno₂
      | [.up] =>
        have hmem : .up ∈ dropUps (text.map Key.char ++ last) :=
          hsub₁ _ (hsub₂ _ (by simp))
        exact absurd rfl (mem_dropUps.mp hmem).2
      | _ :: _ :: _ => simp at hlen'

/-! ### What the texts consist of -/

/-- The unfinished line and the history consist of elements with `P`. -/
def Editor.All (P : α → Prop) (e : Editor α) : Prop :=
  (∀ a ∈ e.text, P a) ∧ ∀ line ∈ e.history, ∀ a ∈ line, P a

/-- The characters among the keys have `P`. -/
def CharsAll (P : α → Prop) (keys : List (Key α)) : Prop := ∀ a, .char a ∈ keys → P a

theorem forall_mem_concat {P : α → Prop} {text : List α} (h : ∀ b ∈ text, P b) {a : α} (ha : P a) :
    ∀ b ∈ text ++ [a], P b :=
  List.forall_mem_append.mpr ⟨h, List.forall_mem_singleton.mpr ha⟩

theorem charsAll_chars {P : α → Prop} {text : List α} (h : ∀ a ∈ text, P a) :
    CharsAll P (text.map .char) := by
  intro a ha
  obtain ⟨b, hb, hab⟩ := List.mem_map.mp ha
  rw [← Key.char.inj hab]
  exact h b hb

theorem CharsAll.append {P : α → Prop} {keys keys' : List (Key α)} (h : CharsAll P keys)
    (h' : CharsAll P keys') : CharsAll P (keys ++ keys') := by
  intro a ha
  rcases List.mem_append.mp ha with ha | ha
  · exact h a ha
  · exact h' a ha

/-- Line ends and characters with `P` only. -/
def Plain (P : α → Prop) (keys : List (Key α)) : Prop :=
  ∀ key ∈ keys, key = .enter ∨ ∃ a, key = .char a ∧ P a

theorem plain_chars {P : α → Prop} {text : List α} (h : ∀ a ∈ text, P a) :
    Plain P (text.map .char) := by
  intro key hk
  obtain ⟨a, ha, rfl⟩ := List.mem_map.mp hk
  exact Or.inr ⟨a, rfl, h a ha⟩

theorem Plain.append {P : α → Prop} {keys keys' : List (Key α)} (h : Plain P keys)
    (h' : Plain P keys') : Plain P (keys ++ keys') :=
  List.forall_mem_append.mpr ⟨h, h'⟩

/-- Completing leaves no tab. -/
theorem completeTabs_plain [DecidableEq α] {P : α → Prop}
    (hcomplete : ∀ text : List α, (∀ a ∈ text, P a) → ∀ a ∈ complete text, P a)
    {before keys rest : List (Key α)} {line : List α} (hbefore : Plain P before)
    (hline : ∀ a ∈ line, P a) (hkeys : CharsAll P keys)
    (h : completeTabs complete before line keys = some rest) : Plain P rest := by
  induction keys generalizing before line with
  | nil =>
    rw [← Option.some.inj h]
    exact hbefore.append (plain_chars hline)
  | cons key keys ih =>
    have hkeys' : CharsAll P keys := fun a ha => hkeys a (List.mem_cons_of_mem _ ha)
    cases key with
    | char a =>
      exact ih hbefore (forall_mem_concat hline (hkeys a List.mem_cons_self)) hkeys' h
    | enter =>
      have henter : Plain P [Key.enter] := fun key hk => Or.inl (List.mem_singleton.mp hk)
      exact ih ((hbefore.append (plain_chars hline)).append henter) (by simp) hkeys' h
    | tab =>
      rw [completeTabs] at h
      by_cases hdone : before = [] ∨ complete line = line
      · rw [if_pos hdone] at h
        exact ih hbefore (hcomplete line hline) hkeys' h
      · rw [if_neg hdone] at h
        cases h
    | back kind => cases h
    | up => cases h

/-- Dropping, taking back and completing leave line ends and characters. -/
theorem rearrange_plain [DecidableEq α] {P : α → Prop}
    (hcomplete : ∀ text : List α, (∀ a ∈ text, P a) → ∀ a ∈ complete text, P a)
    {keys rest : List (Key α)} {cut : Bool} (hkeys : CharsAll P keys)
    (h : rearrange complete cut keys = some rest) : Plain P rest := by
  obtain ⟨keys₁, h₁, h⟩ := Option.bind_eq_some_iff.mp h
  obtain ⟨keys₂, h₂, h₃⟩ := Option.bind_eq_some_iff.mp h
  have hsub : ∀ key ∈ keys₂, key ∈ keys := fun key hk =>
    (mem_dropUps.mp ((mem_takeBack (by simp) h₁).1 _ ((mem_takeBack (by simp) h₂).1 _ hk))).1
  exact completeTabs_plain hcomplete (by simp [Plain]) (by simp) (fun a ha => hkeys a (hsub _ ha)) h₃

theorem getD_all {P : α → Prop} {history : List (List α)} (h : ∀ line ∈ history, ∀ a ∈ line, P a)
    (i : ℕ) : ∀ a ∈ history.getD i [], P a := by
  rw [List.getD_eq_getElem?_getD]
  cases hi : history[i]? with
  | none => simp
  | some line => exact h line (List.mem_of_getElem? hi)

section All

variable {P : α → Prop}
  (hcomplete : ∀ text : List α, (∀ a ∈ text, P a) → ∀ a ∈ complete text, P a)
  (hpush : ∀ (history : List (List α)) (line l : List α), l ∈ push history line → l ∈ history ∨ l = line)

include hcomplete hpush

theorem press_all {e : Editor α} (he : e.All P) {key : Key α} (hkey : ∀ a, key = .char a → P a) :
    (press complete push e key).All P := by
  cases key with
  | char a => exact ⟨forall_mem_concat he.1 (hkey a rfl), he.2⟩
  | back kind => exact ⟨fun b hb => he.1 b ((List.dropLast_sublist _).subset hb), he.2⟩
  | tab => exact ⟨hcomplete _ he.1, he.2⟩
  | up =>
    by_cases hh : e.history = []
    · have hpress : press complete push e .up = e := if_pos hh
      rw [hpress]
      exact he
    · rw [press_up hh]
      exact ⟨getD_all he.2 _, he.2⟩
  | enter =>
    refine ⟨by simp [press], fun l hl => ?_⟩
    rcases hpush _ _ _ hl with hl | rfl
    · exact he.2 l hl
    · exact he.1

theorem run_all {e : Editor α} (he : e.All P) {keys : List (Key α)} (h : CharsAll P keys) :
    (run complete push e keys).All P := by
  induction keys generalizing e with
  | nil => exact he
  | cons key keys ih =>
    have hpress : (press complete push e key).All P :=
      press_all hcomplete hpush he fun a ha => h a (ha ▸ List.mem_cons_self)
    exact ih hpress fun a ha => h a (List.mem_cons_of_mem _ ha)

end All

end LineEditor
