/-
# What backspaces do to the text

`processBackspace` serves every 0x7F before the first 0x08, and one at the front
of the buffer clears all of it. So an 0x7F takes an 0x08 typed before it instead
of a character, and text typed after a backspace too many is lost
(`not_editsInOrder_cleared`). When the buffer is edited as it reads all the same
is a matter of counting (`editsInOrder_iff`): no backspace comes to the front,
and as many find nothing to take away as are lost, two for each 0x08 taken by an
0x7F.

Key definitions: `typedLine`, `EditsInOrder`, `ReachesFront`, `Balances`.
Key theorems: `processBackspaceLoop_served`, `editsInOrder_iff`.
-/
import RepoInit.Lib.Rubout
import RepoInit.Telnet.Clean

namespace RepoInit
namespace Telnet

open Search Rubout

def isDEL (b : Byte) : Bool := b == asciiDEL
def isBS (b : Byte) : Bool := b == asciiBS

/-- The buffer read from left to right: a backspace of either kind takes away
the last character still there. -/
def typedLine (buffer : Str) : Str := rubout (either isDEL isBS) buffer

/-- What `processBackspace` is to do. -/
structure EditsInOrder (buffer : Str) : Prop where
  found : (processBackspace buffer).1 = true ↔ asciiBS ∈ buffer ∨ asciiDEL ∈ buffer
  text : (processBackspace buffer).2 = typedLine buffer

/-- A backspace comes to the front: in a beginning of the buffer there are more
0x7F than other bytes, or more 0x08 than other bytes in a beginning of what no
0x7F takes away. -/
def ReachesFront (buffer : Str) : Prop :=
  0 < lead isDEL buffer ∨ 0 < lead isBS (standing isDEL buffer)

instance (buffer : Str) : Decidable (ReachesFront buffer) := inferInstanceAs (Decidable (_ ∨ _))

/-- If a backspace comes to the front, no character survives the reading;
otherwise the backspaces that find none in it are twice the 0x08 that an 0x7F
takes away. -/
def Balances (buffer : Str) : Prop :=
  if ReachesFront buffer then typedLine buffer = []
  else lead (either isDEL isBS) buffer = 2 * taken isDEL isBS buffer

/-! ### The loop -/

/-- One kind of backspace is served: at the front it clears the buffer. -/
def served (er : Byte → Bool) (buffer : Str) : Str :=
  if 0 < lead er buffer then [] else standing er buffer

theorem served_nil (er : Byte → Bool) : served er [] = [] := rfl

theorem served_of_not_mem {c : Byte} {er : Byte → Bool} (her : ∀ b, er b = true ↔ b = c)
    {buffer : Str} (h : c ∉ buffer) : served er buffer = buffer := by
  have hnone : ∀ b ∈ buffer, er b = false := by
    intro b hb
    rw [← Bool.not_eq_true, her]
    rintro rfl
    exact h hb
  obtain ⟨hs, hl⟩ := standing_of_none hnone
  rw [served, hl, if_neg (lt_irrefl 0), hs]

theorem served_cross_out {er : Byte → Bool} {a d : Byte} (ha : er a = false) (hd : er d = true)
    (x y : Str) : served er (x ++ a :: d :: y) = served er (x ++ y) := by
  obtain ⟨hl, hs⟩ := cross_out ha hd x y
  rw [served, served, hl, hs]

theorem served_front {er : Byte → Bool} {d : Byte} (hd : er d = true) (y : Str) :
    served er (d :: y) = [] := by
  rw [served, lead_rub hd, if_pos (Nat.succ_pos _)]

theorem isDEL_iff (b : Byte) : isDEL b = true ↔ b = asciiDEL := beq_iff_eq

theorem isBS_iff (b : Byte) : isBS b = true ↔ b = asciiBS := beq_iff_eq

theorem findBackspace_some {buffer : Str} {found : ℕ} (h : findBackspace buffer = some found) :
    (∃ x y, buffer = x ++ asciiDEL :: y ∧ asciiDEL ∉ x ∧ x.length = found) ∨
      asciiDEL ∉ buffer ∧ ∃ x y, buffer = x ++ asciiBS :: y ∧ asciiBS ∉ x ∧ x.length = found := by
  unfold findBackspace at h
  split at h
  · rename_i i hi
    obtain rfl := Option.some.inj h
    exact Or.inl (findElem_eq_some hi)
  · rename_i hnone
    exact Or.inr ⟨findElem_eq_none.mp hnone, findElem_eq_some h⟩

/-- The first backspace of its kind goes with the byte before it, or clears the
buffer. -/
theorem served_erase {c : Byte} {er : Byte → Bool} (her : ∀ b, er b = true ↔ b = c) {x : Str}
    (hx : c ∉ x) (y : Str) :
    served er (x ++ c :: y) =
      if (x ++ c :: y).length > 1 ∧ x.length > 0 then
        served er (erase (x ++ c :: y) (x.length - 1) 2)
      else [] := by
  have hc : er c = true := (her c).mpr rfl
  rcases List.eq_nil_or_concat x with rfl | ⟨x, a, rfl⟩
  · rw [if_neg (by simp), List.nil_append, served_front hc]
  · rw [List.concat_eq_append] at hx ⊢
    have ha : er a = false := by
      rw [← Bool.not_eq_true, her]
      rintro rfl
      simp at hx
    have hbuffer : x ++ [a] ++ c :: y = x ++ a :: c :: y := by simp
    have herase : erase (x ++ a :: c :: y) ((x ++ [a]).length - 1) 2 = x ++ y := by
      simpa using erase_append x [a, c] y
    rw [hbuffer, herase, if_pos, served_cross_out ha hc]
    simp only [List.length_append, List.length_cons, List.length_nil]
    omega

/-- Both kinds are served, 0x7F first, step by step. -/
theorem served_step {buffer : Str} {found : ℕ} (h : findBackspace buffer = some found) :
    served isBS (served isDEL buffer) =
      if buffer.length > 1 ∧ found > 0 then
        served isBS (served isDEL (erase buffer (found - 1) 2))
      else [] := by
  rcases findBackspace_some h with ⟨x, y, rfl, hx, rfl⟩ | ⟨hdel, x, y, rfl, hx, rfl⟩
  · rw [served_erase isDEL_iff hx]
    split
    · rfl
    · rfl
  · have hdel' : asciiDEL ∉ erase (x ++ asciiBS :: y) (x.length - 1) 2 := fun hm =>
      hdel ((erase_sublist _ _ _).subset hm)
    rw [served_of_not_mem isDEL_iff hdel, served_of_not_mem isDEL_iff hdel',
      served_erase isBS_iff hx]

theorem mem_of_findBackspace {buffer : Str} {found : ℕ} (h : findBackspace buffer = some found) :
    asciiBS ∈ buffer ∨ asciiDEL ∈ buffer := by
  rcases findBackspace_some h with ⟨x, y, rfl, -⟩ | ⟨-, x, y, rfl, -⟩
  · exact Or.inr (by simp)
  · exact Or.inl (by simp)

/-- **The loop serves one kind after the other.** -/
theorem processBackspaceLoop_served (found : Bool) (buffer : Str) :
    processBackspaceLoop found buffer =
      (found || decide (asciiBS ∈ buffer ∨ asciiDEL ∈ buffer),
        served isBS (served isDEL buffer)) := by
  induction found, buffer using processBackspaceLoop.induct with
  | case1 found buffer i hi hlen ih =>
    rw [processBackspaceLoop_of_some found hi, if_pos hlen, ih, served_step hi, if_pos hlen]
    simp [mem_of_findBackspace hi]
  | case2 found buffer i hi hlen ih =>
    rw [processBackspaceLoop_of_some found hi, if_neg hlen, ih, served_step hi, if_neg hlen]
    simp [mem_of_findBackspace hi, served_nil]
  | case3 found buffer hi =>
    obtain ⟨hdel, hbs⟩ := findBackspace_none hi
    rw [processBackspaceLoop_of_none found hi, served_of_not_mem isDEL_iff hdel,
      served_of_not_mem isBS_iff hbs]
    simp [hdel, hbs]

/-! ### The reading -/

/-- One kind after the other, in terms of what stands. -/
theorem served_served (buffer : Str) :
    served isBS (served isDEL buffer) =
      if ReachesFront buffer then [] else standing isBS (standing isDEL buffer) := by
  by_cases hdel : 0 < lead isDEL buffer
  · have hfront : ReachesFront buffer := Or.inl hdel
    rw [if_pos hfront, served.eq_def isDEL, if_pos hdel, served_nil]
  · rw [served.eq_def isDEL, if_neg hdel, served]
    by_cases hbs : 0 < lead isBS (standing isDEL buffer)
    · have hfront : ReachesFront buffer := Or.inr hbs
      rw [if_pos hbs, if_pos hfront]
    · have hfront : ¬ ReachesFront buffer := fun h => h.elim hdel hbs
      rw [if_neg hbs, if_neg hfront]

theorem not_isBS_of_isDEL (b : Byte) (h : isDEL b = true) : isBS b = false := by
  rw [isDEL_iff] at h
  rw [h]
  rfl

/-- **Editing in order.** The buffer is edited as it reads if and only if it
balances. -/
theorem editsInOrder_iff (buffer : Str) : EditsInOrder buffer ↔ Balances buffer := by
  have hloop : processBackspace buffer = (false || decide (asciiBS ∈ buffer ∨ asciiDEL ∈ buffer),
      served isBS (served isDEL buffer)) := processBackspaceLoop_served false buffer
  have htext : (processBackspace buffer).2 = typedLine buffer ↔ Balances buffer := by
    rw [hloop, served_served, Balances]
    split
    · exact eq_comm
    · rename_i hfront
      rw [ReachesFront, not_or, Nat.not_lt, Nat.not_lt, Nat.le_zero, Nat.le_zero] at hfront
      rw [typedLine, rubout_eq_standing]
      exact standing_twice_eq_iff not_isBS_of_isDEL hfront.1 hfront.2
  refine ⟨fun h => htext.mp h.text, fun h => ⟨?_, htext.mpr h⟩⟩
  rw [hloop]
  simp

/-- A backspace too many before `ab`, and an 0x7F behind an 0x08. -/
theorem not_editsInOrder_cleared :
    ¬ EditsInOrder ([asciiBS] ++ str "ab") ∧ ¬ EditsInOrder (str "ab" ++ [asciiBS, asciiDEL]) := by
  constructor
  · intro h
    have htext := h.text
    revert htext
    decide +kernel
  · intro h
    have htext := h.text
    revert htext
    decide +kernel

/-- Backspaces of both kinds that find a character, in either order. -/
example : EditsInOrder (str "abc" ++ [asciiDEL, asciiBS] ++ str "d") :=
  ⟨by decide +kernel, by decide +kernel⟩

end Telnet
end RepoInit
