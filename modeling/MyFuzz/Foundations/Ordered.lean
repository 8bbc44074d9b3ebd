import Mathlib.Data.List.MinMax
import Mathlib.Data.List.Sort

/-!
# Foundations/Ordered — results that do not depend on an order

A list is sorted, or searched for its least item, by a key.  When the key tells the items apart, the
result is the same for every order of the list:

    [b, a, c] ──sort──▸ [a, b, c] ◂──sort── [c, b, a]
-/

namespace Ordered

variable {α κ : Type} [LinearOrder κ] {key : α → κ} {l m : List α}

/-- The key tells the items of a list apart. -/
def Apart (key : α → κ) (l : List α) : Prop := ∀ a ∈ l, ∀ b ∈ l, key a = key b → a = b

omit [LinearOrder κ] in
/-- Sort by a key. -/
def sortOn (key : α → κ) (l : List α) : List α := l.insertionSort fun a b => key a ≤ key b

theorem perm_sortOn (key : α → κ) (l : List α) : (sortOn key l).Perm l := List.perm_insertionSort _ _

@[simp] theorem mem_sortOn {a : α} : a ∈ sortOn key l ↔ a ∈ l := (perm_sortOn key l).mem_iff

theorem pairwise_sortOn (key : α → κ) (l : List α) : (sortOn key l).Pairwise fun a b => key a ≤ key b := by
  have : Std.Total fun a b : α => key a ≤ key b := ⟨fun a b => le_total (key a) (key b)⟩
  have : IsTrans α fun a b => key a ≤ key b := ⟨fun a b c => le_trans⟩
  exact List.pairwise_insertionSort _ l

/-- Items that are told apart stand in strict order. -/
theorem pairwise_lt_sortOn (h : Apart key l) (hnodup : l.Nodup) :
    (sortOn key l).Pairwise fun a b => key a < key b := by
  have hdistinct : (sortOn key l).Nodup := (perm_sortOn key l).nodup_iff.2 hnodup
  refine ((pairwise_sortOn key l).and hdistinct).imp_of_mem fun {a b} ha hb hab =>
    lt_of_le_of_ne hab.1 fun heq => ?_
  exact hab.2 (h a (mem_sortOn.1 ha) b (mem_sortOn.1 hb) heq)

/-- **Sorting by a key that tells the items apart does not depend on their order.** -/
theorem sortOn_eq_of_perm (h : Apart key l) (hperm : l.Perm m) : sortOn key l = sortOn key m := by
  refine List.Perm.eq_of_pairwise (fun a b ha hb hab hba => ?_) (pairwise_sortOn key l)
    (pairwise_sortOn key m) ?_
  · exact h a (mem_sortOn.1 ha) b (hperm.mem_iff.2 (mem_sortOn.1 hb)) (le_antisymm hab hba)
  · exact (perm_sortOn key l).trans (hperm.trans (perm_sortOn key m).symm)

/-- The first of the least items by a key. -/
def least (key : α → κ) (l : List α) : Option α := l.argmin key

theorem least_eq_none : least key l = none ↔ l = [] := List.argmin_eq_none

theorem least_mem {a : α} (h : least key l = some a) : a ∈ l := List.argmin_mem h

theorem least_le {a b : α} (h : least key l = some a) (hb : b ∈ l) :
    key a ≤ key b := List.le_of_mem_argmin hb h

/-- **The least item by a key that tells the items apart does not depend on their order.** -/
theorem least_eq_of_perm (h : Apart key l) (hperm : l.Perm m) : least key l = least key m := by
  cases hm : least key m with
  | none =>
    rw [least_eq_none] at hm ⊢
    rw [hm] at hperm
    exact hperm.eq_nil
  | some b =>
    have hb := hperm.mem_iff.2 (least_mem hm)
    cases hl : least key l with
    | none =>
      rw [least_eq_none.1 hl] at hb
      cases hb
    | some a =>
      have hba := least_le hm (hperm.mem_iff.1 (least_mem hl))
      rw [h a (least_mem hl) b hb (le_antisymm (least_le hl hb) hba)]

end Ordered
