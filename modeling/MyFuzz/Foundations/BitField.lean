import Mathlib.Data.Nat.Bitwise

/-!
# Foundations/BitField — masks and fields of a word

An encoding is told by a mask and a value: a word matches when it has the value under the mask.  A
mask built from disjoint parts is matched part by part, and a shifted part is matched by the field
it covers:

    w &&& (m₁ ||| m₂ <<< s) = v₁ ||| v₂ <<< s  ↔  w &&& m₁ = v₁  ∧  w >>> s &&& m₂ = v₂
-/

namespace BitField

variable {w m m₁ m₂ v v₁ v₂ : ℕ}

/-- A word without the bits of a mask, `w & ~m`. -/
def clear (w m : ℕ) : ℕ := w ^^^ (w &&& m)

@[simp] theorem testBit_clear (w m i : ℕ) : (clear w m).testBit i = (w.testBit i && !m.testBit i) := by
  rw [clear, Nat.testBit_xor, Nat.testBit_and]
  cases w.testBit i <;> cases m.testBit i <;> rfl

/-- The lowest bit of a mask, `m & -m`. -/
def lowestBit (m : ℕ) : ℕ := clear m (m - 1)

/-- **Writing back what a mask keeps changes nothing.** -/
theorem clear_or_and_self (w m : ℕ) : clear w m ||| (w &&& m) = w := by
  refine Nat.eq_of_testBit_eq fun i => ?_
  rw [Nat.testBit_or, testBit_clear, Nat.testBit_and]
  cases w.testBit i <;> cases m.testBit i <;> rfl

/-- A value lies under a mask exactly when the mask keeps it. -/
theorem testBit_imp_of_and_eq (h : v &&& m = v) {i : ℕ} (hi : v.testBit i = true) : m.testBit i = true := by
  rw [← h, Nat.testBit_and, Bool.and_eq_true] at hi
  exact hi.2

/-- Writing a value under its mask gives a word that matches. -/
theorem clear_or_and (h : v &&& m = v) : (clear w m ||| v) &&& m = v := by
  refine Nat.eq_of_testBit_eq fun i => ?_
  rw [Nat.testBit_and, Nat.testBit_or, testBit_clear]
  cases hv : v.testBit i with
  | true => rw [Bool.or_true, testBit_imp_of_and_eq h hv, Bool.and_true]
  | false => cases m.testBit i <;> simp

/-- **A shifted mask is matched by the field it covers.** -/
theorem and_shiftLeft_eq_iff (s : ℕ) : w &&& m <<< s = v <<< s ↔ w >>> s &&& m = v := by
  have hshift : w &&& m <<< s = (w >>> s &&& m) <<< s := by
    refine Nat.eq_of_testBit_eq fun i => ?_
    simp only [Nat.testBit_and, Nat.testBit_shiftLeft, Nat.testBit_shiftRight]
    by_cases hi : s ≤ i <;> simp [hi]
  rw [hshift, Nat.shiftLeft_eq, Nat.shiftLeft_eq]
  exact Nat.mul_left_inj (Nat.two_pow_pos s).ne'

variable {n s fixed mask : ℕ}

/-- A word that fits a full mask is kept by it. -/
theorem and_full (h : w < 2 ^ n) : w &&& (2 ^ n - 1) = w := by
  rw [Nat.and_two_pow_sub_one_eq_mod, Nat.mod_eq_of_lt h]

/-! ## Segments -/

/-- A word with a value in the segment of `width` bits at an offset. -/
def writeSegment (w offset width value : ℕ) : ℕ :=
  clear w ((2 ^ width - 1) <<< offset) ||| value <<< offset

/-- The segment of `width` bits at an offset. -/
def readSegment (w offset width : ℕ) : ℕ := w >>> offset &&& (2 ^ width - 1)

theorem testBit_readSegment (w offset width i : ℕ) :
    (readSegment w offset width).testBit i = (decide (i < width) && w.testBit (offset + i)) := by
  rw [readSegment, Nat.testBit_and, Nat.testBit_shiftRight, Nat.testBit_two_pow_sub_one, Bool.and_comm]

theorem readSegment_lt (w offset width : ℕ) : readSegment w offset width < 2 ^ width := by
  rw [readSegment, Nat.and_two_pow_sub_one_eq_mod]
  exact Nat.mod_lt _ (Nat.two_pow_pos width)

/-- **Inside the segment a bit is the value's, outside it is kept.** -/
theorem testBit_writeSegment (w : ℕ) {offset width value : ℕ} (h : value < 2 ^ width) (i : ℕ) :
    (writeSegment w offset width value).testBit i
      = if offset ≤ i ∧ i < offset + width then value.testBit (i - offset) else w.testBit i := by
  rw [writeSegment, Nat.testBit_or, testBit_clear, Nat.testBit_shiftLeft, Nat.testBit_shiftLeft,
    Nat.testBit_two_pow_sub_one]
  by_cases hlow : offset ≤ i
  · by_cases hhigh : i < offset + width
    · have hin : i - offset < width := by omega
      simp [hlow, hhigh, hin]
    · have hout : ¬ i - offset < width := by omega
      have hzero : value.testBit (i - offset) = false :=
        Nat.testBit_eq_false_of_lt (h.trans_le (Nat.pow_le_pow_right Nat.two_pos (by omega)))
      simp [hlow, hhigh, hout, hzero]
  · simp [hlow]

/-! ## Words of fields -/

/-- A field apart from a mask is not seen by it. -/
theorem field_and_eq_zero (hv : v < 2 ^ n) (hm : (2 ^ n - 1) <<< s &&& m = 0) : v <<< s &&& m = 0 := by
  have hunder : v <<< s &&& (2 ^ n - 1) <<< s = v <<< s :=
    (and_shiftLeft_eq_iff s).2 (by rw [Nat.shiftLeft_shiftRight, and_full hv])
  rw [← hunder, Nat.and_assoc, hm, Nat.and_zero]

/-- A word does not change under a mask when a field apart from it is added. -/
theorem or_field_and (hv : v < 2 ^ n) (hm : (2 ^ n - 1) <<< s &&& m = 0) :
    (w ||| v <<< s) &&& m = w &&& m := by
  rw [Nat.and_or_distrib_right, field_and_eq_zero hv hm, Nat.or_zero]

/-- **A field is read back** from a word that had nothing there. -/
theorem or_field_self (hv : v < 2 ^ n) (hw : w &&& (2 ^ n - 1) <<< s = 0) :
    (w ||| v <<< s) &&& (2 ^ n - 1) <<< s = v <<< s := by
  rw [Nat.and_or_distrib_right, hw, Nat.zero_or]
  exact (and_shiftLeft_eq_iff s).2 (by rw [Nat.shiftLeft_shiftRight, and_full hv])

/-- **A word of fixed bits and fields under a mask.** -/
def Filled (fixed mask w : ℕ) : Prop := ∃ payload, w = fixed ||| payload ∧ payload &&& mask = payload

theorem filled_fixed (fixed mask : ℕ) : Filled fixed mask fixed :=
  ⟨0, (Nat.or_zero fixed).symm, Nat.zero_and mask⟩

theorem Filled.or (h : Filled fixed mask w) (hv : v &&& mask = v) : Filled fixed mask (w ||| v) := by
  obtain ⟨payload, rfl, hpayload⟩ := h
  exact ⟨payload ||| v, Nat.or_assoc _ _ _, by rw [Nat.and_or_distrib_right, hpayload, hv]⟩

theorem Filled.field (h : Filled fixed mask w) (hv : v < 2 ^ n)
    (hm : (2 ^ n - 1) <<< s &&& mask = (2 ^ n - 1) <<< s) : Filled fixed mask (w ||| v <<< s) := by
  refine h.or ?_
  have hunder : v <<< s &&& (2 ^ n - 1) <<< s = v <<< s :=
    (and_shiftLeft_eq_iff s).2 (by rw [Nat.shiftLeft_shiftRight, and_full hv])
  rw [← hunder, Nat.and_assoc, hm]

/-- A mask apart from the fields sees the fixed bits only. -/
theorem Filled.and_eq (h : Filled fixed mask w) (hm : mask &&& m = 0) : w &&& m = fixed &&& m := by
  obtain ⟨payload, rfl, hpayload⟩ := h
  rw [Nat.and_or_distrib_right, ← hpayload, Nat.and_assoc, hm, Nat.and_zero, Nat.or_zero]

theorem Filled.lt (h : Filled fixed mask w) (hfixed : fixed < 2 ^ n) (hmask : mask < 2 ^ n) : w < 2 ^ n := by
  obtain ⟨payload, rfl, hpayload⟩ := h
  refine Nat.or_lt_two_pow hfixed ?_
  rw [← hpayload]
  exact lt_of_le_of_lt Nat.and_le_right hmask

end BitField
