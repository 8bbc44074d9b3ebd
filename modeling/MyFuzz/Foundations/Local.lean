import Mathlib.Tactic

/-!
# Foundations/Local — folds of updates that each touch one key

A state is seen through one view per key and a log that only grows.  An update is **local** when it
reads and changes the view of its own key alone, and appends to the log what that view tells it:

    view k₁   view k₂   view k₃        log
       │      ┌─ upd ─┐    │       ++ out (view k₂)
       ▾      ▾       ▾    ▾

Updates of distinct keys do not see each other, so a fold of them is read off the state it started
from (`IsLocal.foldl_log`, `IsLocal.foldl_view`).
-/

variable {σ α κ ν ε ρ : Type*}

/-- An update that touches one key: `key` says which, `upd` what happens to its view, `out` what is
logged.  `rest` is a part of the state that stays. -/
structure IsLocal (view : σ → κ → ν) (log : σ → List ε) (rest : σ → ρ) (f : σ → α → σ)
    (key : α → κ) (out : α → ν → List ε) (upd : α → ν → ν) : Prop where
  log_eq : ∀ s a, log (f s a) = log s ++ out a (view s (key a))
  view_self : ∀ s a, view (f s a) (key a) = upd a (view s (key a))
  view_of_ne : ∀ s a k, k ≠ key a → view (f s a) k = view s k
  rest_eq : ∀ s a, rest (f s a) = rest s

namespace IsLocal

open List

variable {view : σ → κ → ν} {log : σ → List ε} {rest : σ → ρ} {f : σ → α → σ} {key : α → κ}
  {out : α → ν → List ε} {upd : α → ν → ν}

theorem foldl_rest (h : IsLocal view log rest f key out upd) :
    ∀ (l : List α) (s : σ), rest (l.foldl f s) = rest s
  | [], _ => rfl
  | a :: l, s => (foldl_rest h l (f s a)).trans (h.rest_eq s a)

/-- The keys that are not listed keep their view. -/
theorem foldl_view_of_notMem (h : IsLocal view log rest f key out upd) {k : κ} :
    ∀ (l : List α) (s : σ), k ∉ l.map key → view (l.foldl f s) k = view s k
  | [], _, _ => rfl
  | a :: l, s, hk => by
      rw [map_cons, mem_cons, not_or] at hk
      rw [foldl_cons, foldl_view_of_notMem h l _ hk.2, h.view_of_ne s a k hk.1]

/-- **Each listed key is updated once**, from the view it started with. -/
theorem foldl_view (h : IsLocal view log rest f key out upd) :
    ∀ (l : List α) (s : σ), (l.map key).Nodup → ∀ a ∈ l, view (l.foldl f s) (key a) = upd a (view s (key a))
  | [], _, _, a, ha => nomatch ha
  | b :: l, s, hnd, a, ha => by
      rw [map_cons, nodup_cons] at hnd
      rw [foldl_cons]
      rcases mem_cons.1 ha with rfl | ha
      · rw [foldl_view_of_notMem h l _ hnd.1, h.view_self]
      · have hne : key a ≠ key b := fun hab => hnd.1 (hab ▸ mem_map_of_mem ha)
        rw [foldl_view h l _ hnd.2 a ha, h.view_of_ne s b _ hne]

/-- **The log grows by what each listed key tells**, from the views of the start. -/
theorem foldl_log (h : IsLocal view log rest f key out upd) :
    ∀ (l : List α) (s : σ), (l.map key).Nodup →
      log (l.foldl f s) = log s ++ l.flatMap fun a => out a (view s (key a))
  | [], s, _ => by rw [flatMap_nil, append_nil]; rfl
  | b :: l, s, hnd => by
      rw [map_cons, nodup_cons] at hnd
      have hsame : l.flatMap (fun a => out a (view (f s b) (key a)))
          = l.flatMap fun a => out a (view s (key a)) := by
        refine flatMap_congr fun a ha => ?_
        have hne : key a ≠ key b := fun hab => hnd.1 (hab ▸ mem_map_of_mem ha)
        rw [h.view_of_ne s b _ hne]
      rw [foldl_cons, foldl_log h l _ hnd.2, h.log_eq, hsame, flatMap_cons, append_assoc]

end IsLocal

/-- **What one key logs is found in the log of all**, when each logs under its own key. -/
theorem filter_flatMap_key [DecidableEq κ] {tag : ε → κ} {out : κ → List ε} (p : ε → Bool) {k : κ} :
    ∀ {l : List κ}, (∀ a ∈ l, ∀ e ∈ out a, tag e = a) → l.Nodup → k ∈ l →
      (l.flatMap out).filter (fun e => p e && decide (tag e = k)) = (out k).filter p
  | [], _, _, hk => nomatch hk
  | a :: l, htag, hnd, hk => by
      rw [List.nodup_cons] at hnd
      rw [List.flatMap_cons, List.filter_append]
      rcases List.mem_cons.1 hk with rfl | hk
      · have hself : (out k).filter (fun e => p e && decide (tag e = k)) = (out k).filter p :=
          List.filter_congr fun e he => by
            rw [htag k List.mem_cons_self e he, decide_eq_true rfl, Bool.and_true]
        have hrest : (l.flatMap out).filter (fun e => p e && decide (tag e = k)) = [] := by
          refine List.filter_eq_nil_iff.2 fun e he => ?_
          obtain ⟨b, hb, he⟩ := List.mem_flatMap.1 he
          have hne : tag e ≠ k := by
            rw [htag b (.tail _ hb) e he]
            rintro rfl
            exact hnd.1 hb
          simp [hne]
        rw [hself, hrest, List.append_nil]
      · have hne : a ≠ k := by
          rintro rfl
          exact hnd.1 hk
        have hfirst : (out a).filter (fun e => p e && decide (tag e = k)) = [] := by
          refine List.filter_eq_nil_iff.2 fun e he => ?_
          simp [htag a List.mem_cons_self e he, hne]
        rw [hfirst, List.nil_append,
          filter_flatMap_key p (fun b hb => htag b (.tail _ hb)) hnd.2 hk]
