/-
# `constSeeder`

The comments describe one step as a xor of the lowest byte of the 64-bit state
with the input byte and a rotation by one byte (`mixStep`). The code masks with
`unsigned(~0) << 8`, which has 32 bits, and extends the `char` by its sign: an
input byte below 0x80 clears the upper half of the state, and any other sets all
but the lowest byte.

The seed is the described one exactly if nothing that reaches it is lost
(`Survives`): the bits of the state that the step overwrites, and that no later
step overwrites or drops, have been what they are set to. Two arrays of a length
give one seed exactly if they have the same `view`: the last bytes, back to one
that is not ASCII and four at most, and the top bit of the byte before.

Key definitions: `constSeeder`, `mixed`, `Survives`, `view`.
Key theorems: `agree_step`, `constSeeder_eq_iff`, `constSeeder_iff`,
`mixed_injective`.
-/
import Mathlib.Tactic.Common
import RepoInit.Hasher

namespace RepoInit

/-! ### The code and its comments -/

/-- The mask for the bytes above the lowest, an `unsigned int`. -/
def seedMask : UInt64 := ((~~~(0 : UInt32)) <<< 8).toUInt64

/-- One byte to the left, around the 64 bits. -/
def rotl (value : UInt64) : UInt64 := value <<< 8 ||| value >>> (8 * 8 - 8)

/-- The xor of a step of `constSeeder`. -/
def seedXor (value : UInt64) (c : Byte) : UInt64 :=
  (value &&& seedMask) ||| ((value &&& 0xFF) ^^^ charToSize c)

def seedStep (value : UInt64) (c : Byte) : UInt64 := rotl (seedXor value c)

def constSeeder (entropy : List Byte) (iv : UInt64) : UInt64 := entropy.foldl seedStep iv ^^^ iv

/-- A step as its comments say. -/
def mixStep (value : UInt64) (c : Byte) : UInt64 := rotl (value ^^^ c.toUInt64)

def mixed (iv : UInt64) (entropy : List Byte) : UInt64 := entropy.foldl mixStep iv

/-! ### Bits -/

def bit (x : UInt64) (j : ℕ) : Bool := x.toBitVec.getLsbD j

theorem eq_of_bit {x y : UInt64} (h : ∀ j < 64, bit x j = bit y j) : x = y := by
  apply UInt64.toBitVec_inj.mp
  exact BitVec.eq_of_getLsbD_eq fun j hj => h j hj

section Bit

variable (x y : UInt64) (j : ℕ)

theorem bit_xor : bit (x ^^^ y) j = (bit x j ^^ bit y j) := by
  simp [bit]

theorem bit_and : bit (x &&& y) j = (bit x j && bit y j) := by
  simp [bit]

theorem bit_or : bit (x ||| y) j = (bit x j || bit y j) := by
  simp [bit]

theorem bit_rotl (hj : j < 64) : bit (rotl x) j = if j < 8 then bit x (j + 56) else bit x (j - 8) := by
  have hl : (x <<< (8 : UInt64)).toBitVec = x.toBitVec <<< 8 := rfl
  have hr : (x >>> (8 * 8 - 8 : UInt64)).toBitVec = x.toBitVec >>> 56 := rfl
  simp only [rotl, bit, UInt64.toBitVec_or, hl, hr, BitVec.getLsbD_or, BitVec.getLsbD_shiftLeft,
    BitVec.getLsbD_ushiftRight]
  by_cases h : j < 8
  · simp [h, hj, Nat.add_comm]
  · have hge : x.toBitVec.getLsbD (56 + j) = false := BitVec.getLsbD_of_ge _ _ (by omega)
    simp [h, hj, hge]

/-- The bit of a `char` in the wider expression. -/
theorem bit_char (c : Byte) (hj : j < 64) :
    bit (charToSize c) j = if j < 8 then c.toBitVec.getLsbD j else decide (0x80 ≤ c) := by
  have hext : (charToSize c).toBitVec = c.toBitVec.signExtend 64 := rfl
  have hmsb : c.toBitVec.msb = decide (0x80 ≤ c) := by
    rw [BitVec.msb_eq_decide]
    rfl
  rw [bit, hext, BitVec.getLsbD_signExtend, hmsb]
  simp [hj]

theorem bit_byte (c : Byte) (hj : j < 64) :
    bit c.toUInt64 j = (decide (j < 8) && c.toBitVec.getLsbD j) := by
  have hext : c.toUInt64.toBitVec = c.toBitVec.setWidth 64 := rfl
  rw [bit, hext, BitVec.getLsbD_setWidth]
  by_cases h : j < 8
  · simp [h, hj]
  · simp [h, BitVec.getLsbD_of_ge c.toBitVec j (by omega)]

theorem bit_seedMask (hj : j < 64) : bit seedMask j = decide (8 ≤ j ∧ j < 32) := by
  revert j
  decide

theorem bit_low (hj : j < 64) : bit 0xFF j = decide (j < 8) := by
  revert j
  decide

end Bit

/-- What the xor of the code makes of the state. -/
theorem bit_seedXor (x : UInt64) (c : Byte) {j : ℕ} (hj : j < 64) :
    bit (seedXor x c) j =
      if j < 8 then bit x j ^^ c.toBitVec.getLsbD j
      else decide (j < 32) && bit x j || decide (0x80 ≤ c) := by
  simp only [seedXor, bit_or, bit_and, bit_xor, bit_seedMask j hj, bit_low j hj, bit_char j c hj]
  by_cases h : j < 8
  · have : ¬ 8 ≤ j := by omega
    simp [h, this]
  · have : 8 ≤ j := by omega
    simp [h, this, Bool.and_comm]

theorem bit_mixXor (x : UInt64) (c : Byte) {j : ℕ} (hj : j < 64) :
    bit (x ^^^ c.toUInt64) j = if j < 8 then bit x j ^^ c.toBitVec.getLsbD j else bit x j := by
  rw [bit_xor, bit_byte j c hj]
  by_cases h : j < 8 <;> simp [h]

/-! ### When the seed is the described one -/

/-- The two states have the same low `n` bits. -/
def Agree (n : ℕ) (x y : UInt64) : Prop := ∀ j < n, bit x j = bit y j

theorem agree_64 {x y : UInt64} : Agree 64 x y ↔ x = y :=
  ⟨eq_of_bit, fun h _ _ => by rw [h]⟩

/-- How many low bits of the state a step keeps. The others are the sign of the
byte afterwards. -/
def kept (c : Byte) : ℕ := if c < 0x80 then 32 else 8

/-- The low `n` bits of the state after the bytes are the described ones, where
the bytes are given from the last to the first: what the last step overwrites
and the rotation takes into the low `n` bits was the sign of the byte, and what
it keeps of them was right before. -/
def Survives (iv : UInt64) : ℕ → List Byte → Prop
  | _, [] => True
  | n, c :: before =>
    (∀ j < 64, kept c ≤ j → (j + 8) % 64 < n →
        bit (mixed iv before.reverse) j = decide (0x80 ≤ c)) ∧
      Survives iv (min (n - 8) (kept c)) before

instance (iv : UInt64) : ∀ n cs, Decidable (Survives iv n cs)
  | _, [] => isTrue trivial
  | n, c :: before =>
    have := instDecidableSurvives iv (min (n - 8) (kept c)) before
    inferInstanceAs (Decidable (_ ∧ _))

/-- The rotation, seen from the bits before it. -/
theorem agree_rotl {n : ℕ} (hn : n ≤ 64) {x y : UInt64} :
    Agree n (rotl x) (rotl y) ↔ ∀ j < 64, (j + 8) % 64 < n → bit x j = bit y j := by
  constructor
  · intro h j hj hr
    have := h ((j + 8) % 64) hr
    rw [bit_rotl _ _ (by omega), bit_rotl _ _ (by omega)] at this
    by_cases hlow : j < 56
    · have hmod : (j + 8) % 64 = j + 8 := by omega
      have hge : ¬ j + 8 < 8 := by omega
      simpa only [hmod, if_neg hge, Nat.add_sub_cancel] using this
    · have hmod : (j + 8) % 64 + 56 = j := by omega
      have hlt : (j + 8) % 64 < 8 := by omega
      simpa only [if_pos hlt, hmod] using this
  · intro h j hj
    rw [bit_rotl _ _ (by omega), bit_rotl _ _ (by omega)]
    by_cases hlow : j < 8
    · rw [if_pos hlow, if_pos hlow]
      exact h (j + 56) (by omega) (by omega)
    · rw [if_neg hlow, if_neg hlow]
      exact h (j - 8) (by omega) (by omega)

theorem kept_cases (c : Byte) :
    (c < 0x80 ∧ kept c = 32 ∧ decide (0x80 ≤ c) = false) ∨
      (¬ c < 0x80 ∧ kept c = 8 ∧ decide (0x80 ≤ c) = true) := by
  by_cases h : c < 0x80
  · exact .inl ⟨h, if_pos h, by simpa using h⟩
  · exact .inr ⟨h, if_neg h, by simpa using h⟩

/-- Bit by bit, the xor of the code is the described one where the step keeps
the state, and the sign of the byte above. -/
theorem seedXor_bit_eq (x y : UInt64) (c : Byte) {j : ℕ} (hj : j < 64) :
    bit (seedXor x c) j = bit (y ^^^ c.toUInt64) j ↔
      if kept c ≤ j then bit y j = decide (0x80 ≤ c) else bit x j = bit y j := by
  rw [bit_seedXor x c hj, bit_mixXor y c hj]
  rcases kept_cases c with ⟨-, hk, hs⟩ | ⟨-, hk, hs⟩ <;> rw [hk, hs]
  · by_cases h8 : j < 8
    · have : ¬ 32 ≤ j := by omega
      simp [h8, this]
    · by_cases h32 : j < 32
      · have : ¬ 32 ≤ j := by omega
        simp [h8, h32, this]
      · have : 32 ≤ j := by omega
        simp [h8, h32, this]
  · by_cases h8 : j < 8
    · have : ¬ 8 ≤ j := by omega
      simp [h8, this]
    · have : 8 ≤ j := by omega
      simp [h8, this]

/-- One step of the code against one as described. -/
theorem agree_step {n : ℕ} (hn : n ≤ 64) (x y : UInt64) (c : Byte) :
    Agree n (seedStep x c) (mixStep y c) ↔
      (∀ j < 64, kept c ≤ j → (j + 8) % 64 < n → bit y j = decide (0x80 ≤ c)) ∧
        Agree (min (n - 8) (kept c)) x y := by
  rw [seedStep, mixStep, agree_rotl hn]
  have hkept : kept c ≤ 32 := by
    rcases kept_cases c with ⟨-, hk, -⟩ | ⟨-, hk, -⟩ <;> omega
  constructor
  · intro h
    refine ⟨fun j hj hjk hr => ?_, fun j hj => ?_⟩
    · have := (seedXor_bit_eq x y c hj).mp (h j hj hr)
      rwa [if_pos hjk] at this
    · have := (seedXor_bit_eq x y c (by omega)).mp (h j (by omega) (by omega))
      rwa [if_neg (by omega)] at this
  · rintro ⟨hlost, hagree⟩ j hj hr
    rw [seedXor_bit_eq x y c hj]
    split
    · next hjk => exact hlost j hj hjk hr
    · exact hagree j (by omega)

theorem agree_iff_survives (iv : UInt64) : ∀ (cs : List Byte) {n : ℕ}, n ≤ 64 →
    (Agree n (cs.reverse.foldl seedStep iv) (mixed iv cs.reverse) ↔ Survives iv n cs)
  | [], n, _ => by simp [Survives, mixed, Agree]
  | c :: before, n, hn => by
    have ih := agree_iff_survives iv before (show min (n - 8) (kept c) ≤ 64 by omega)
    have hmixed : mixed iv (c :: before).reverse = mixStep (mixed iv before.reverse) c := by
      simp [mixed]
    rw [hmixed, List.reverse_cons, List.foldl_append, List.foldl_cons, List.foldl_nil,
      agree_step hn, ih, Survives]

theorem constSeeder_eq_iff (iv : UInt64) (entropy : List Byte) :
    constSeeder entropy iv = iv ^^^ mixed iv entropy ↔ Survives iv 64 entropy.reverse := by
  rw [← agree_iff_survives iv _ (Nat.le_refl 64), List.reverse_reverse, agree_64, constSeeder, UInt64.xor_comm]
  exact UInt64.xor_right_inj iv

/-! ### Which arrays have one seed -/

/-- What the low `k` bytes of the state are made of, with the bytes from the
last to the first: of the byte before the lowest one only the sign is seen, and
so it is behind a byte that is not ASCII. -/
def view : ℕ → List Byte → List Byte
  | 0, _ => []
  | _ + 1, [] => []
  | 1, c :: _ => [c &&& 0x80]
  | k + 2, c :: before => c :: view (if c < 0x80 then k + 1 else 1) before

/-- The lowest bytes of two states are equal if one bit of them is. -/
def LowTied (x y : UInt64) : Prop :=
  (∀ j < 8, bit x j = bit y j) ∨ ∀ j < 8, bit x j = bit x 7 ∧ bit y j = bit y 7

theorem LowTied.eq_of_seven {x y : UInt64} (ht : LowTied x y) (h : bit x 7 = bit y 7) :
    ∀ j < 8, bit x j = bit y j := by
  intro j hj
  rcases ht with heq | huniform
  · exact heq j hj
  · calc bit x j = bit x 7 := (huniform j hj).1
      _ = bit y 7 := h
      _ = bit y j := (huniform j hj).2.symm

theorem bit_seedStep_low (x : UInt64) (c : Byte) {j : ℕ} (hj : j < 8) :
    bit (seedStep x c) j = decide (0x80 ≤ c) := by
  have h8 : ¬ j + 56 < 8 := by omega
  have h32 : ¬ j + 56 < 32 := by omega
  rw [seedStep, bit_rotl _ _ (by omega), if_pos hj, bit_seedXor x c (by omega), if_neg h8]
  simp [h32]

theorem lowTied_fold (iv : UInt64) : ∀ cs ds : List Byte, cs.length = ds.length →
    LowTied (cs.reverse.foldl seedStep iv) (ds.reverse.foldl seedStep iv)
  | [], [], _ => .inl fun _ _ => rfl
  | c :: cs, d :: ds, _ => by
    refine .inr fun j hj => ?_
    simp only [List.reverse_cons, List.foldl_append, List.foldl_cons, List.foldl_nil]
    have h7 : 7 < 8 := by omega
    rw [bit_seedStep_low _ c hj, bit_seedStep_low _ d hj, bit_seedStep_low _ c h7,
      bit_seedStep_low _ d h7]
    exact ⟨rfl, rfl⟩
  | [], _ :: _, h => by simp at h
  | _ :: _, [], h => by simp at h

theorem byte_ext {c d : Byte} (h : ∀ j < 8, c.toBitVec.getLsbD j = d.toBitVec.getLsbD j) : c = d := by
  apply UInt8.toBitVec_inj.mp
  exact BitVec.eq_of_getLsbD_eq fun j hj => h j hj

theorem bit_seven (c : Byte) : c.toBitVec.getLsbD 7 = decide (0x80 ≤ c) := by
  have hmsb : c.toBitVec.msb = decide (0x80 ≤ c) := by
    rw [BitVec.msb_eq_decide]
    rfl
  rw [← hmsb, BitVec.msb_eq_getLsbD_last]

theorem and_sign (c : Byte) : c &&& 0x80 = if 0x80 ≤ c then 0x80 else 0 := by
  have hall : ∀ n < 256, UInt8.ofNat n &&& 0x80 =
      if (0x80 : UInt8) ≤ UInt8.ofNat n then 0x80 else 0 := by decide +kernel
  have := hall c.toNat c.toNat_lt
  rwa [UInt8.ofNat_toNat] at this

theorem sign_eq_iff (c d : Byte) :
    c &&& 0x80 = d &&& 0x80 ↔ decide (0x80 ≤ c) = decide (0x80 ≤ d) := by
  rw [and_sign, and_sign]
  by_cases hc : 0x80 ≤ c <;> by_cases hd : 0x80 ≤ d <;> simp [hc, hd]

/-- The state after one byte shows its sign. -/
theorem agree_sign (x y : UInt64) (c d : Byte) :
    Agree 8 (seedStep x c) (seedStep y d) ↔ decide (0x80 ≤ c) = decide (0x80 ≤ d) := by
  constructor
  · intro h
    have := h 0 (by omega)
    rwa [bit_seedStep_low x c (by omega), bit_seedStep_low y d (by omega)] at this
  · intro h j hj
    rw [bit_seedStep_low x c hj, bit_seedStep_low y d hj, h]

/-- The state after one byte shows the byte, and of the state before it what the
byte has left. -/
theorem agree_view {k : ℕ} (hk : k ≤ 3) {x y : UInt64} (ht : LowTied x y) (c d : Byte) :
    Agree (8 * (k + 2)) (seedStep x c) (seedStep y d) ↔
      c = d ∧ Agree (8 * (if c < 0x80 then k + 1 else 1)) x y := by
  rw [seedStep, seedStep, agree_rotl (by omega)]
  constructor
  · intro h
    have hsign : decide (0x80 ≤ c) = decide (0x80 ≤ d) := by
      have := h 63 (by omega) (by omega)
      simpa [bit_seedXor] using this
    have hlow : ∀ j < 8, (bit x j ^^ c.toBitVec.getLsbD j) = (bit y j ^^ d.toBitVec.getLsbD j) :=
      fun j hj => by
        have := h j (by omega) (by omega)
        rwa [bit_seedXor x c (by omega), bit_seedXor y d (by omega), if_pos hj, if_pos hj] at this
    -- the sign bits are equal, so one bit of the lowest bytes is
    have h7 : bit x 7 = bit y 7 := by
      have := hlow 7 (by omega)
      rw [bit_seven, bit_seven, hsign] at this
      simpa using this
    have hxy := ht.eq_of_seven h7
    have hcd : c = d := byte_ext fun j hj => by
      have := hlow j hj
      rw [hxy j hj] at this
      simpa using this
    refine ⟨hcd, fun j hj => ?_⟩
    by_cases h8 : j < 8
    · exact hxy j h8
    · split at hj
      · next hc =>
        have hs : decide (0x80 ≤ c) = false := by simpa using hc
        have h32 : j < 32 := by omega
        have := h j (by omega) (by omega)
        rw [bit_seedXor x c (by omega), bit_seedXor y d (by omega), if_neg h8, if_neg h8, ← hsign,
          hs] at this
        simpa [h32] using this
      · exact absurd hj (by omega)
  · rintro ⟨rfl, hagree⟩ j hj hr
    rw [bit_seedXor x c hj, bit_seedXor y c hj]
    by_cases h8 : j < 8
    · rw [if_pos h8, if_pos h8, hagree j (by split <;> omega)]
    · rw [if_neg h8, if_neg h8]
      by_cases hc : c < 0x80
      · rw [if_pos hc] at hagree
        by_cases h32 : j < 32
        · rw [hagree j (by omega)]
        · simp [h32]
      · simp [UInt8.not_lt.mp hc]

/-- The bits above the lowest five bytes are the sign too. -/
theorem agree_40 (x y : UInt64) (c d : Byte) :
    Agree 64 (seedStep x c) (seedStep y d) ↔ Agree 40 (seedStep x c) (seedStep y d) := by
  refine ⟨fun h j hj => h j (by omega), fun h j hj => ?_⟩
  by_cases h40 : j < 40
  · exact h j h40
  · have hsign := h 0 (by omega)
    rw [bit_seedStep_low x c (by omega), bit_seedStep_low y d (by omega)] at hsign
    have h8 : ¬ j < 8 := by omega
    have h8' : ¬ j - 8 < 8 := by omega
    have h32 : ¬ j - 8 < 32 := by omega
    rw [seedStep, seedStep, bit_rotl _ _ hj, bit_rotl _ _ hj, if_neg h8, if_neg h8,
      bit_seedXor x c (by omega), bit_seedXor y d (by omega), if_neg h8', if_neg h8', hsign]
    simp [h32]

theorem agree_iff_view (iv : UInt64) : ∀ (cs ds : List Byte) {k : ℕ}, k ≤ 5 →
    cs.length = ds.length →
    (Agree (8 * k) (cs.reverse.foldl seedStep iv) (ds.reverse.foldl seedStep iv) ↔
      view k cs = view k ds)
  | cs, ds, 0, _, _ => by simp [Agree, view]
  | [], [], k + 1, _, _ => by simp [Agree, view]
  | c :: cs, d :: ds, 1, _, h => by
    simp only [List.reverse_cons, List.foldl_append, List.foldl_cons, List.foldl_nil]
    rw [agree_sign, view, view, ← sign_eq_iff]
    simp
  | c :: cs, d :: ds, k + 2, hk, h => by
    have hlen : cs.length = ds.length := by simpa using h
    simp only [List.reverse_cons, List.foldl_append, List.foldl_cons, List.foldl_nil]
    rw [agree_view (by omega) (lowTied_fold iv cs ds hlen), view, view, List.cons.injEq]
    refine and_congr_right fun hcd => ?_
    subst hcd
    exact agree_iff_view iv cs ds (by split <;> omega) hlen
  | [], _ :: _, _ + 1, _, h => by simp at h
  | _ :: _, [], _ + 1, _, h => by simp at h

/-- Arrays of a length give one seed exactly if they have the same view. -/
theorem constSeeder_eq_constSeeder_iff (iv : UInt64) {entropy entropy' : List Byte}
    (h : entropy.length = entropy'.length) :
    constSeeder entropy iv = constSeeder entropy' iv ↔
      view 5 entropy.reverse = view 5 entropy'.reverse := by
  have hview := agree_iff_view iv entropy.reverse entropy'.reverse (Nat.le_refl 5) (by simpa using h)
  rw [List.reverse_reverse, List.reverse_reverse] at hview
  rw [constSeeder, constSeeder, UInt64.xor_left_inj, ← agree_64, ← hview]
  rcases List.eq_nil_or_concat' entropy with rfl | ⟨before, c, rfl⟩
  · rw [List.length_nil, eq_comm, List.length_eq_zero_iff] at h
    subst h
    simp [Agree]
  · rcases List.eq_nil_or_concat' entropy' with rfl | ⟨before', c', rfl⟩
    · simp at h
    · simp only [List.foldl_append, List.foldl_cons, List.foldl_nil]
      exact agree_40 _ _ c c'

/-! ### What the comments promise -/

/-- With at most eight bytes every byte of the state is written once. -/
theorem mixed_untouched (iv : UInt64) : ∀ cs ds : List Byte, cs.length = ds.length →
    ∀ j < 64, j < 8 ∧ cs.length ≤ 7 ∨ 8 * (cs.length + 1) ≤ j →
      bit (mixed iv cs.reverse) j = bit (mixed iv ds.reverse) j
  | [], [], _, _, _, _ => rfl
  | c :: cs, d :: ds, h, j, hj, hout => by
    have hlen : cs.length = ds.length := by simpa using h
    have ih := mixed_untouched iv cs ds hlen
    rw [List.length_cons] at hout
    simp only [mixed, List.reverse_cons, List.foldl_append, List.foldl_cons, List.foldl_nil]
    rw [mixStep, mixStep, bit_rotl _ _ hj, bit_rotl _ _ hj]
    by_cases h8 : j < 8
    · have h8' : ¬ j + 56 < 8 := by omega
      rw [if_pos h8, if_pos h8, bit_mixXor _ c (by omega), bit_mixXor _ d (by omega), if_neg h8',
        if_neg h8']
      exact ih (j + 56) (by omega) (by omega)
    · have h8' : ¬ j - 8 < 8 := by omega
      rw [if_neg h8, if_neg h8, bit_mixXor _ c (by omega), bit_mixXor _ d (by omega), if_neg h8',
        if_neg h8']
      exact ih (j - 8) (by omega) (by omega)
  | [], _ :: _, h, _, _, _ => by simp at h
  | _ :: _, [], h, _, _, _ => by simp at h

theorem rotl_injective {x y : UInt64} (h : rotl x = rotl y) : x = y := by
  have hrotl : Agree 64 (rotl x) (rotl y) := fun j _ => by rw [h]
  have hagree := (agree_rotl (Nat.le_refl 64)).mp hrotl
  exact eq_of_bit fun j hj => hagree j hj (by omega)

theorem mixed_reverse_injective (iv : UInt64) : ∀ cs ds : List Byte, cs.length = ds.length →
    cs.length ≤ 8 → mixed iv cs.reverse = mixed iv ds.reverse → cs = ds
  | [], [], _, _, _ => rfl
  | c :: cs, d :: ds, h, h8, heq => by
    have hlen : cs.length = ds.length := by simpa using h
    rw [List.length_cons] at h8
    simp only [mixed, List.reverse_cons, List.foldl_append, List.foldl_cons, List.foldl_nil] at heq
    have hxor : mixed iv cs.reverse ^^^ c.toUInt64 = mixed iv ds.reverse ^^^ d.toUInt64 :=
      rotl_injective heq
    have hbit : ∀ j < 64, bit (mixed iv cs.reverse ^^^ c.toUInt64) j =
        bit (mixed iv ds.reverse ^^^ d.toUInt64) j := fun j _ => by rw [hxor]
    have hcd : c = d := byte_ext fun j hj => by
      have := hbit j (by omega)
      rw [bit_mixXor _ c (by omega), bit_mixXor _ d (by omega), if_pos hj, if_pos hj,
        mixed_untouched iv cs ds hlen j (by omega) (by omega)] at this
      simpa using this
    subst hcd
    have hstate : mixed iv cs.reverse = mixed iv ds.reverse := by
      simpa using hxor
    rw [mixed_reverse_injective iv cs ds hlen (by omega) hstate]
  | [], _ :: _, h, _, _ => by simp at h
  | _ :: _, [], h, _, _ => by simp at h

/-- As described, up to eight bytes all reach the seed. -/
theorem mixed_injective (iv : UInt64) {entropy entropy' : List Byte}
    (h : entropy.length = entropy'.length) (h8 : entropy.length ≤ 8)
    (heq : mixed iv entropy = mixed iv entropy') : entropy = entropy' := by
  have := mixed_reverse_injective iv entropy.reverse entropy'.reverse (by simpa using h)
    (by simpa using h8) (by simpa using heq)
  simpa using this

/-- **When the seed is what the comments say**, and when two arrays of a length
have different seeds. -/
theorem constSeeder_iff (iv : UInt64) (entropy : List Byte) :
    (constSeeder entropy iv = iv ^^^ mixed iv entropy ↔ Survives iv 64 entropy.reverse) ∧
      ∀ entropy' : List Byte, entropy.length = entropy'.length →
        (constSeeder entropy iv ≠ constSeeder entropy' iv ↔
          view 5 entropy.reverse ≠ view 5 entropy'.reverse) ∧
        (entropy.length ≤ 8 → Survives iv 64 entropy.reverse → Survives iv 64 entropy'.reverse →
          entropy ≠ entropy' → constSeeder entropy iv ≠ constSeeder entropy' iv) := by
  refine ⟨constSeeder_eq_iff iv entropy, fun entropy' h => ⟨?_, fun h8 hs hs' hne heq => ?_⟩⟩
  · exact not_congr (constSeeder_eq_constSeeder_iff iv h)
  · rw [(constSeeder_eq_iff iv entropy).mpr hs, (constSeeder_eq_iff iv entropy').mpr hs',
      UInt64.xor_right_inj] at heq
    exact hne (mixed_injective iv h h8 heq)

theorem constSeeder_four :
    constSeeder (str "abc\x00") 0 = 0 ^^^ mixed 0 (str "abc\x00") ∧
      constSeeder (str "abc\x00") 0 ≠ constSeeder (str "abd\x00") 0 :=
  have h := constSeeder_iff 0 (str "abc\x00")
  ⟨h.1.mpr (by decide +kernel),
    (h.2 (str "abd\x00") rfl).2 (by decide +kernel) (by decide +kernel) (by decide +kernel)
      (by decide +kernel)⟩

/-- Two strings of four letters with their NUL, and a `char` that is not ASCII. -/
theorem not_constSeeder_mixed :
    constSeeder (str "Aeed\x00") 0 = constSeeder (str "Beed\x00") 0 ∧
      constSeeder (str "Aeed\x00") 0 ≠ 0 ^^^ mixed 0 (str "Aeed\x00") ∧
      constSeeder [0x80] 0 ≠ 0 ^^^ mixed 0 [0x80] := by
  decide +kernel

end RepoInit
