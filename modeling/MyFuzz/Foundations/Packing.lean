import MyFuzz.Foundations.BitField
import Mathlib.Data.List.Induction
import Mathlib.Data.List.Pairwise

/-!
# Foundations/Packing — words that are put together from fields

Every item has a place, a width and a value, and the values are joined by `|||`:

    pack:      value a <<< lo a ||| value b <<< lo b ||| …
    places:    [ a )[ b    )[ c )          `Contiguous start items stop`

Fields that are apart are read back unchanged (`readSegment_pack`), and no other bit is set (`testBit_pack`).
-/

namespace Packing

open BitField

variable {α : Type*} (lo width value : α → ℕ)

/-- The word with the value of every item at its place. -/
def pack (items : List α) : ℕ := items.foldl (fun word a => word ||| value a <<< lo a) 0

/-- Two places without a common bit. -/
def Apart (a b : α) : Prop := lo a + width a ≤ lo b ∨ lo b + width b ≤ lo a

/-- The places follow each other without a gap. -/
def Contiguous : ℕ → List α → ℕ → Prop
  | start, [], stop => start = stop
  | start, a :: rest, stop => lo a = start ∧ Contiguous (start + width a) rest stop

variable {lo width value}

instance apart_symm : Std.Symm (Apart lo width : α → α → Prop) := ⟨fun _ _ h => h.symm⟩

theorem pack_concat (items : List α) (a : α) :
    pack lo value (items ++ [a]) = pack lo value items ||| value a <<< lo a := by
  rw [pack, List.foldl_append]
  rfl

variable {items : List α} {i : ℕ}

/-- **A bit of the word is a bit of one of the values.** -/
theorem testBit_pack :
    (pack lo value items).testBit i = true ↔ ∃ a ∈ items, lo a ≤ i ∧ (value a).testBit (i - lo a) = true := by
  induction items using List.reverseRecOn with
  | nil => simp [pack]
  | append_singleton items a ih =>
    rw [pack_concat, Nat.testBit_or, Nat.testBit_shiftLeft, Bool.or_eq_true, Bool.and_eq_true,
      decide_eq_true_eq, ih]
    constructor
    · rintro (⟨b, hb, hbit⟩ | hbit)
      · exact ⟨b, List.mem_append_left _ hb, hbit⟩
      · exact ⟨a, List.mem_append_right _ (.head _), hbit⟩
    · rintro ⟨b, hb, hbit⟩
      rcases List.mem_append.1 hb with hb | hb
      · exact .inl ⟨b, hb, hbit⟩
      · exact .inr (List.mem_singleton.1 hb ▸ hbit)

/-- A value has no bit above its width. -/
theorem lt_of_testBit {v w : ℕ} (hv : v < 2 ^ w) (hi : v.testBit i = true) : i < w := by
  by_contra hle
  rw [Nat.testBit_eq_false_of_lt (hv.trans_le (Nat.pow_le_pow_right Nat.two_pos (not_lt.1 hle)))] at hi
  cases hi

/-- **Fields that are apart are read back unchanged.** -/
theorem readSegment_pack (hfit : ∀ a ∈ items, value a < 2 ^ width a)
    (hapart : items.Pairwise (Apart lo width)) {a : α} (ha : a ∈ items) :
    readSegment (pack lo value items) (lo a) (width a) = value a := by
  refine Nat.eq_of_testBit_eq fun i => ?_
  rw [testBit_readSegment, Bool.eq_iff_iff, Bool.and_eq_true, decide_eq_true_eq, testBit_pack]
  constructor
  · rintro ⟨hi, b, hb, hle, hbit⟩
    have hlt := lt_of_testBit (hfit b hb) hbit
    by_cases heq : a = b
    · subst heq
      rwa [Nat.add_sub_cancel_left] at hbit
    · -- another field would hold the same bit
      rcases hapart.forall ha hb heq with h | h
      · omega
      · omega
  · intro hbit
    exact ⟨lt_of_testBit (hfit a ha) hbit, a, ha, Nat.le_add_right _ _, by rwa [Nat.add_sub_cancel_left]⟩

/-- A word of fields below a bound. -/
theorem pack_lt (hfit : ∀ a ∈ items, value a < 2 ^ width a) {n : ℕ}
    (hin : ∀ a ∈ items, lo a + width a ≤ n) : pack lo value items < 2 ^ n := by
  refine Nat.lt_pow_two_of_testBit _ fun i hi => ?_
  rw [Bool.eq_false_iff]
  intro hbit
  obtain ⟨a, ha, -, hbit⟩ := testBit_pack.1 hbit
  have hlt := lt_of_testBit (hfit a ha) hbit
  have := hin a ha
  omega

/-- Contiguous places lie between their ends. -/
theorem Contiguous.bounds {items : List α} {start stop : ℕ} (h : Contiguous lo width start items stop) :
    start ≤ stop ∧ ∀ a ∈ items, start ≤ lo a ∧ lo a + width a ≤ stop := by
  induction items generalizing start with
  | nil => exact ⟨h.le, nofun⟩
  | cons b rest ih =>
    obtain ⟨rfl, hrest⟩ := h
    obtain ⟨hle, hall⟩ := ih hrest
    refine ⟨by omega, fun a ha => ?_⟩
    rcases List.mem_cons.1 ha with rfl | ha
    · exact ⟨le_rfl, hle⟩
    · have := hall a ha
      omega

/-- **Contiguous places are apart.** -/
theorem Contiguous.apart {start stop : ℕ} (h : Contiguous lo width start items stop) :
    items.Pairwise (Apart lo width) := by
  induction items generalizing start with
  | nil => exact List.Pairwise.nil
  | cons b rest ih =>
    obtain ⟨rfl, hrest⟩ := h
    exact List.pairwise_cons.2 ⟨fun a ha => .inl (hrest.bounds.2 a ha).1, ih hrest⟩

end Packing
