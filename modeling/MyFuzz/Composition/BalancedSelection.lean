import MyFuzz.Foundations.FloorShare
import MyFuzz.Isa.Transducer

/-!
# Composition/BalancedSelection — a selection is balanced and monotone

`selectBalanced` takes the choice at `min (n - 1) ⌊raw n / 2 ^ w⌋`, so the raw values are shared among the
positions by rounding down, and the clamp to the last position does nothing.
-/

namespace MyFuzz

open FloorShare RiscvInstructionTransducer

variable {α : Type} {raw w : ℕ} {choices : List α}

/-- **What is selected stands at the place of the raw value.** -/
theorem selectBalanced_eq (hw : 1 ≤ w) (hraw : raw < 2 ^ w) (hne : choices ≠ []) :
    ∃ h : place choices.length (2 ^ w) raw < choices.length,
      selectBalanced raw w choices = .ok choices[place choices.length (2 ^ w) raw] := by
  have hlt := place_lt (List.length_pos_iff.2 hne) hraw
  have hclamp : min (choices.length - 1) (raw * choices.length / 2 ^ w) = place choices.length (2 ^ w) raw :=
    min_eq_right (Nat.le_sub_one_of_lt hlt)
  refine ⟨hlt, ?_⟩
  unfold selectBalanced
  rw [hclamp, List.getElem?_eq_getElem hlt]
  exact if_pos ⟨hw, hraw⟩

/-- **Selection is balanced and monotone**: the clamp is never taken, the places grow with the raw values,
any two have the same number of them up to one, and none is left out when the raw values are enough. -/
theorem selectBalanced_balanced (hw : 1 ≤ w) (hne : choices ≠ []) :
    (∀ raw < 2 ^ w, raw * choices.length / 2 ^ w ≤ choices.length - 1 ∧
      ∃ h : place choices.length (2 ^ w) raw < choices.length,
        selectBalanced raw w choices = .ok choices[place choices.length (2 ^ w) raw]) ∧
    (∀ raw raw', raw ≤ raw' → place choices.length (2 ^ w) raw ≤ place choices.length (2 ^ w) raw') ∧
    (∀ i < choices.length, ∀ j < choices.length,
      (members choices.length (2 ^ w) i).card ≤ (members choices.length (2 ^ w) j).card + 1) ∧
    (choices.length ≤ 2 ^ w → ∀ i < choices.length, ∃ raw < 2 ^ w, place choices.length (2 ^ w) raw = i) := by
  have hpos := List.length_pos_iff.mpr hne
  have hdomain := Nat.two_pow_pos w
  refine ⟨fun raw hraw => ⟨?_, selectBalanced_eq hw hraw hne⟩, fun _ _ h => place_mono h,
    fun i hi j hj => ?_, fun hle i hi => ?_⟩
  · exact Nat.le_sub_one_of_lt (place_lt hpos hraw)
  · rcases card_members hdomain hi with h | h <;> rcases card_members hdomain hj with h' | h' <;> omega
  · have hshare : 0 < 2 ^ w / choices.length := Nat.div_pos hle hpos
    have hcard : 0 < (members choices.length (2 ^ w) i).card := by
      rcases card_members hdomain hi with h | h <;> omega
    obtain ⟨raw, hraw⟩ := Finset.card_pos.mp hcard
    obtain ⟨hlt, hplace⟩ := Finset.mem_filter.mp hraw
    exact ⟨raw, Finset.mem_range.mp hlt, hplace⟩

/-- Eight raw values and three choices. -/
theorem selectBalanced_balanced_three : selectBalanced 5 3 ["a", "b", "c"] = .ok "b" ∧
    (members 3 8 1).card ≤ (members 3 8 2).card + 1 :=
  ⟨rfl, (@selectBalanced_balanced _ 3 ["a", "b", "c"] (by decide) (by decide)).2.2.1 1 (by decide) 2
    (by decide)⟩

end MyFuzz
