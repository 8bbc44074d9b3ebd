import Mathlib.Data.List.Pairwise
import MyFuzz.Foundations.BitField

/-!
# Foundations/Scatter — operands scattered over a word

A format places pieces of its operands at places of a word, in any order:

    operand    12 │ 11 │ 10 … 5 │ 4 … 1            source
                │     ╰──────────────────╮
    word       31 │ 30 … 25 │ … │ 11 … 8 │ 7      target

`scatter` places the pieces beside the fixed bits, and `gather` puts the pieces of one operand
together again.  If
the pieces keep apart from one another and from the fixed bits, each can be read back; if those of
an operand cover it, the operand can (`gather_scatter`).
-/

namespace Scatter

open BitField

/-- The bits of an operand from `source` on, which a word has from `target` on. -/
structure Piece (ι : Type*) where
  operand : ι
  source : ℕ
  width : ℕ
  target : ℕ

variable {ι : Type*} {pieces : List (Piece ι)} {value : ι → ℕ} {fixed : ℕ}

/-- A piece at its place in the word. -/
def Piece.place (p : Piece ι) (value : ι → ℕ) :
    ℕ := readSegment (value p.operand) p.source p.width <<< p.target

/-- A piece of a word at its place in the operand. -/
def Piece.lift (p : Piece ι) (w : ℕ) : ℕ := readSegment w p.target p.width <<< p.source

/-- A word of fixed bits and pieces. -/
def scatter (fixed : ℕ) (pieces : List (Piece ι)) (value : ι → ℕ) : ℕ :=
  pieces.foldl (fun w p => w ||| p.place value) fixed

/-- The pieces of an operand put together. -/
def gather [DecidableEq ι] (pieces : List (Piece ι)) (i : ι) (w : ℕ) : ℕ :=
  (pieces.filter (·.operand = i)).foldl (fun n p => n ||| p.lift w) 0

/-- The first place above all pieces of an operand. -/
def reach [DecidableEq ι] (pieces : List (Piece ι)) (i : ι) : ℕ :=
  (pieces.filter (·.operand = i)).foldl (fun n p => max n (p.source + p.width)) 0

/-- Two pieces do not overlap in the word. -/
def Piece.Beside (p q : Piece ι) : Prop := p.target + p.width ≤ q.target ∨ q.target + q.width ≤ p.target

instance {p q : Piece ι} : Decidable (p.Beside q) := inferInstanceAs (Decidable (_ ∨ _))

instance : Std.Symm (Piece.Beside (ι := ι)) where
  symm _ _ h := h.symm

/-- The pieces keep apart in the word, from one another and from the fixed bits. -/
def Apart (fixed : ℕ) (pieces : List (Piece ι)) : Prop :=
  pieces.Pairwise Piece.Beside ∧ ∀ p ∈ pieces, readSegment fixed p.target p.width = 0

instance : Decidable (Apart fixed pieces) := inferInstanceAs (Decidable (_ ∧ _))

/-- The pieces of an operand cover its bits from `low` to `high`, and none is above. -/
def Covers (pieces : List (Piece ι)) (i : ι) (low high : ℕ) : Prop :=
  (∀ p ∈ pieces, p.operand = i → p.source + p.width ≤ high) ∧
    ∀ j < high, low ≤ j → ∃ p ∈ pieces, p.operand = i ∧ p.source ≤ j ∧ j < p.source + p.width

instance [DecidableEq ι] {i : ι} {low high : ℕ} : Decidable (Covers pieces i low high) :=
  inferInstanceAs (Decidable (_ ∧ _))

/-! ## Bits -/

/-- A shifted segment has its bits where it was shifted to. -/
theorem testBit_segment_shiftLeft (w offset width s j : ℕ) :
    (readSegment w offset width <<< s).testBit j = true ↔
      s ≤ j ∧ j < s + width ∧ w.testBit (offset + (j - s)) = true := by
  rw [Nat.testBit_shiftLeft, testBit_readSegment, Bool.and_eq_true, Bool.and_eq_true, decide_eq_true_iff,
    decide_eq_true_iff]
  refine and_congr_right fun hs => and_congr_left' ?_
  omega

theorem testBit_foldl_or {α : Type*} (f : α → ℕ) (as : List α) (n j : ℕ) :
    (as.foldl (fun n a => n ||| f a) n).testBit j = true ↔
      n.testBit j = true ∨ ∃ a ∈ as, (f a).testBit j = true := by
  induction as generalizing n with
  | nil => simp
  | cons a as ih =>
    rw [List.foldl_cons, ih, Nat.testBit_or, Bool.or_eq_true, or_assoc]
    simp only [List.mem_cons, exists_eq_or_imp]

variable {j : ℕ} {i : ι}

theorem testBit_scatter : (scatter fixed pieces value).testBit j = true ↔
    fixed.testBit j = true ∨ ∃ p ∈ pieces, p.target ≤ j ∧ j < p.target + p.width ∧
      (value p.operand).testBit (p.source + (j - p.target)) = true := by
  simp only [scatter, testBit_foldl_or, Piece.place, testBit_segment_shiftLeft]

theorem testBit_gather [DecidableEq ι] {w : ℕ} : (gather pieces i w).testBit j = true ↔
    ∃ p ∈ pieces, p.operand = i ∧ (p.lift w).testBit j = true := by
  simp only [gather, testBit_foldl_or, Nat.zero_testBit, Bool.false_eq_true, false_or, List.mem_filter,
    decide_eq_true_iff, and_assoc]

/-! ## What is scattered lies under a mask -/

/-- A segment of a number that ends before the segment does. -/
theorem readSegment_lt_min {n top : ℕ} (h : n < 2 ^ top) (s width : ℕ) :
    readSegment n s width < 2 ^ min width (top - s) := by
  rcases le_total width (top - s) with hle | hle
  · rw [min_eq_left hle]
    exact readSegment_lt n s width
  · rw [min_eq_right hle]
    refine lt_of_le_of_lt Nat.and_le_left ?_
    rw [Nat.shiftRight_eq_div_pow]
    refine Nat.div_lt_of_lt_mul (h.trans_le ?_)
    rw [← pow_add]
    exact Nat.pow_le_pow_right Nat.two_pos (by omega)

/-- **Pieces under a mask**, when an operand has no bits above its top. -/
theorem filled_scatter {mask : ℕ} (top : ι → ℕ) (htop : ∀ p ∈ pieces, value p.operand < 2 ^ top p.operand)
    (hmask : ∀ p ∈ pieces, (2 ^ min p.width (top p.operand - p.source) - 1) <<< p.target &&& mask =
      (2 ^ min p.width (top p.operand - p.source) - 1) <<< p.target) :
    Filled fixed mask (scatter fixed pieces value) := by
  have hfold : ∀ ps ⊆ pieces, ∀ w, Filled fixed mask w →
      Filled fixed mask (ps.foldl (fun w p => w ||| p.place value) w) := by
    intro ps
    induction ps with
    | nil => exact fun _ w h => h
    | cons p ps ih =>
      intro hsub w h
      obtain ⟨hp, hps⟩ := List.cons_subset.1 hsub
      exact ih hps _ (h.field (readSegment_lt_min (htop p hp) p.source p.width) (hmask p hp))
  exact hfold pieces (List.Subset.refl _) fixed (filled_fixed fixed mask)

/-! ## What is scattered can be gathered -/

/-- **Every piece is read back.** -/
theorem readSegment_scatter (hapart : Apart fixed pieces) {p : Piece ι} (hp : p ∈ pieces) :
    readSegment (scatter fixed pieces value) p.target p.width =
      readSegment (value p.operand) p.source p.width := by
  refine Nat.eq_of_testBit_eq fun j => ?_
  rw [testBit_readSegment, testBit_readSegment]
  by_cases hj : j < p.width
  · have hfixed : fixed.testBit (p.target + j) = false := by
      have hbit := testBit_readSegment fixed p.target p.width j
      rw [hapart.2 p hp, Nat.zero_testBit, decide_eq_true hj, Bool.true_and] at hbit
      exact hbit.symm
    refine congrArg (decide (j < p.width) && ·) (Bool.eq_iff_iff.2 ?_)
    rw [testBit_scatter, hfixed, or_iff_right Bool.false_ne_true]
    constructor
    · rintro ⟨q, hq, hlow, hhigh, hbit⟩
      -- another piece would overlap this one
      have hsame : q = p := by
        by_contra hne
        rcases hapart.1.forall hq hp hne with h | h <;> omega
      subst hsame
      rwa [Nat.add_sub_cancel_left] at hbit
    · intro hbit
      refine ⟨p, hp, Nat.le_add_right _ _, by omega, ?_⟩
      rwa [Nat.add_sub_cancel_left]
  · rw [decide_eq_false hj, Bool.false_and, Bool.false_and]

/-- **An operand that is covered is put together again.** -/
theorem gather_scatter [DecidableEq ι] (hapart : Apart fixed pieces) {low high : ℕ}
    (hcovers : Covers pieces i low high) (hlow : value i % 2 ^ low = 0) :
    gather pieces i (scatter fixed pieces value) = value i % 2 ^ high := by
  refine Nat.eq_of_testBit_eq fun j => Bool.eq_iff_iff.2 ?_
  rw [testBit_gather, Nat.testBit_mod_two_pow, Bool.and_eq_true, decide_eq_true_iff]
  have hlift {p : Piece ι} (hp : p ∈ pieces) : (p.lift (scatter fixed pieces value)).testBit j = true ↔
      p.source ≤ j ∧ j < p.source + p.width ∧ (value p.operand).testBit j = true := by
    rw [Piece.lift, readSegment_scatter hapart hp, testBit_segment_shiftLeft]
    refine and_congr_right fun hj => ?_
    rw [Nat.add_sub_cancel' hj]
  constructor
  · rintro ⟨p, hp, rfl, hbit⟩
    obtain ⟨-, hj, hbit⟩ := (hlift hp).1 hbit
    exact ⟨hj.trans_le (hcovers.1 p hp rfl), hbit⟩
  · rintro ⟨hj, hbit⟩
    have hge : low ≤ j := by
      by_contra hlt
      have hmod := Nat.testBit_mod_two_pow (value i) low j
      rw [hlow, hbit, Nat.zero_testBit, decide_eq_true (not_le.1 hlt)] at hmod
      exact Bool.false_ne_true hmod
    obtain ⟨p, hp, rfl, hsource, hwidth⟩ := hcovers.2 j hj hge
    exact ⟨p, hp, rfl, (hlift hp).2 ⟨hsource, hwidth, hbit⟩⟩

end Scatter
