import Mathlib.Data.Nat.Bitwise

/-!
# Foundations/MsbFirst — a number as a sequence of bits, the highest first

A serial line carries `value` as the bits `value >>> (n - 1)`, …, `value >>> 1`, `value >>> 0`, each
`&&& 1`, and a receiver shifts each bit into an accumulator:

    msbBits n value ──▸ line ──▸ msbFirst = value

The prefix of `k` bits reads as `value >>> (n - k)`, which carries the induction.
-/

/-- The number whose bits arrive with the highest first. -/
def msbFirst (bits : List ℕ) : ℕ := bits.foldl (fun value bit => value <<< 1 ||| bit) 0

/-- The bit of `n` that is sent at place `i`. -/
def msbBit (n value i : ℕ) : ℕ := value >>> (n - 1 - i) &&& 1

/-- The low `n` bits of a number, the highest first. -/
def msbBits (n value : ℕ) : List ℕ := (List.range n).map (msbBit n value)

@[simp] theorem msbFirst_nil : msbFirst [] = 0 := rfl

/-- One more bit is shifted in. -/
theorem msbFirst_concat (bits : List ℕ) (bit : ℕ) :
    msbFirst (bits ++ [bit]) = msbFirst bits <<< 1 ||| bit := by
  rw [msbFirst, List.foldl_append]
  rfl

theorem msbBit_lt (n value i : ℕ) : msbBit n value i < 2 := Nat.and_lt_two_pow _ (by decide : 1 < 2 ^ 1)

/-- A number is its upper bits, shifted, and its lowest. -/
theorem shiftRight_one_or (value : ℕ) : (value >>> 1) <<< 1 ||| (value &&& 1) = value := by
  apply Nat.eq_of_testBit_eq
  intro i
  rw [Nat.testBit_or, Nat.testBit_shiftLeft, Nat.testBit_shiftRight, Nat.testBit_and]
  cases i with
  | zero => simp
  | succ i => simp [Nat.add_comm, Nat.testBit_succ]

variable {n value : ℕ}

/-- **A prefix of the bits reads as the upper part of the number.** -/
theorem msbFirst_prefix (h : value < 2 ^ n) : ∀ {k : ℕ}, k ≤ n →
    msbFirst ((List.range k).map (msbBit n value)) = value >>> (n - k)
  | 0, _ => by
    rw [List.range_zero, List.map_nil, msbFirst_nil, Nat.sub_zero, Nat.shiftRight_eq_div_pow,
      Nat.div_eq_of_lt h]
  | k + 1, hk => by
    rw [List.range_succ, List.map_append, List.map_singleton, msbFirst_concat, msbFirst_prefix h (by omega),
      msbBit, show n - k = n - 1 - k + 1 by omega, Nat.shiftRight_add, shiftRight_one_or,
      show n - 1 - k = n - (k + 1) by omega]

/-- **What is sent bit by bit is received.** -/
theorem msbFirst_msbBits (h : value < 2 ^ n) : msbFirst (msbBits n value) = value := by
  rw [msbBits, msbFirst_prefix h le_rfl, Nat.sub_self, Nat.shiftRight_zero]
