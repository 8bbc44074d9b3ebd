import Mathlib.Tactic

/-!
# Foundations/FloorShare — a range shared out by rounding down

The numbers below `d` are shared among `n` places: `raw` goes to the place `⌊raw n / d⌋`.

    0 ┄┄┄ ⌈d/n⌉ ┄┄┄ ⌈2d/n⌉ ┄┄┄ … ┄┄┄ d        a place is an interval
      place 0     place 1          place n-1
-/

namespace FloorShare

variable {n d i k raw : ℕ}

/-- The place of a number. -/
def place (n d raw : ℕ) : ℕ := raw * n / d

/-- The first number of a place. -/
def first (n d k : ℕ) : ℕ := (k * d + (n - 1)) / n

theorem place_lt (hn : 0 < n) (h : raw < d) : place n d raw < n :=
  (Nat.div_lt_iff_lt_mul (by omega)).2 (by nlinarith)

theorem place_mono {raw' : ℕ} (h : raw ≤ raw') : place n d raw ≤ place n d raw' :=
  Nat.div_le_div_right (Nat.mul_le_mul_right n h)

/-- A number has come to a place exactly when it is not before its first. -/
theorem first_le_iff (hn : 0 < n) : first n d k ≤ raw ↔ k * d ≤ raw * n := by
  rw [first, ← Nat.lt_succ_iff, Nat.div_lt_iff_lt_mul hn, Nat.succ_mul]
  omega

/-- **A place is an interval.** -/
theorem place_eq_iff (hn : 0 < n) (hd : 0 < d) :
    place n d raw = i ↔ first n d i ≤ raw ∧ raw < first n d (i + 1) := by
  rw [← not_le (b := raw), first_le_iff hn, first_le_iff hn, not_le, ← Nat.le_div_iff_mul_le hd,
    ← Nat.div_lt_iff_lt_mul hd, Nat.lt_succ_iff, place]
  omega

theorem first_self (hn : 0 < n) : first n d n = d := by
  rw [first, Nat.mul_add_div hn, Nat.div_eq_of_lt (by omega), Nat.add_zero]

/-- From one place to the next there are `⌊d / n⌋` numbers, or one more. -/
theorem first_succ (hn : 0 < n) (k : ℕ) :
    first n d (k + 1) = first n d k + d / n ∨ first n d (k + 1) = first n d k + d / n + 1 := by
  have hsum : (k + 1) * d + (n - 1) = k * d + (n - 1) + d := by ring
  rw [first, first, hsum, Nat.add_div hn]
  split_ifs
  · exact .inr rfl
  · exact .inl rfl

theorem first_mono {k' : ℕ} (h : k ≤ k') : first n d k ≤ first n d k' :=
  Nat.div_le_div_right (Nat.add_le_add_right (Nat.mul_le_mul_right d h) _)

/-- The numbers of a place. -/
def members (n d i : ℕ) : Finset ℕ := (Finset.range d).filter fun raw => place n d raw = i

theorem members_eq (hd : 0 < d) (hi : i < n) :
    members n d i = Finset.Ico (first n d i) (first n d (i + 1)) := by
  have hn : 0 < n := by omega
  have hlast : first n d (i + 1) ≤ d := (first_mono hi).trans_eq (first_self hn)
  ext raw
  rw [members, Finset.mem_filter, Finset.mem_range, Finset.mem_Ico, place_eq_iff hn hd]
  constructor
  · exact fun h => h.2
  · exact fun h => ⟨h.2.trans_le hlast, h⟩

/-- **Every place has its share of the numbers, or one more.** -/
theorem card_members (hd : 0 < d) (hi : i < n) :
    (members n d i).card = d / n ∨ (members n d i).card = d / n + 1 := by
  rw [members_eq hd hi, Nat.card_Ico]
  rcases first_succ (d := d) (Nat.zero_lt_of_lt hi) i with h | h
  · left
    rw [h, Nat.add_sub_cancel_left]
  · right
    rw [h, Nat.add_assoc, Nat.add_sub_cancel_left]

end FloorShare
