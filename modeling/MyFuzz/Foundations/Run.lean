import Mathlib.Data.List.Basic

/-!
# Foundations/Run — runs of a deterministic machine

A machine is a step function `σ → α → σ`: a state answers an action with its next state, and the
environment chooses the actions.  A **run** is the fold of a list of actions.  Three rules carry
every result about all reachable states:

* `run_invariant` — what each step preserves holds at the end of every run;
* `run_invariant_of_guarded` — the same for the runs whose every step meets a guard;
* `run_rel` — what each step relates, reflexively and transitively, every run relates.
-/

variable {σ α : Type*}

namespace Run

/-- The state a list of actions leads to. -/
def run (step : σ → α → σ) (s : σ) (as : List α) : σ := as.foldl step s

variable {step : σ → α → σ}

@[simp] theorem run_nil (s : σ) : run step s [] = s := rfl

@[simp] theorem run_cons (s : σ) (a : α) (as : List α) : run step s (a :: as) = run step (step s a) as := rfl

theorem run_append (s : σ) (as bs : List α) :
    run step s (as ++ bs) = run step (run step s as) bs := List.foldl_append

theorem run_concat (s : σ) (as : List α) (a : α) :
    run step s (as ++ [a]) = step (run step s as) a := run_append s as [a]

variable {P : σ → Prop} {guard : σ → α → Prop}

/-- **What each step preserves, every run preserves.** -/
theorem run_invariant (hstep : ∀ s a, P s → P (step s a)) : ∀ (as : List α) {s : σ}, P s → P (run step s as)
  | [], _, h => h
  | a :: as, s, h => run_invariant hstep as (hstep s a h)

/-- **What each step relates, every run relates.** -/
theorem run_rel {R : σ → σ → Prop} (hrefl : ∀ s, R s s) (htrans : ∀ {s t u}, R s t → R t u → R s u)
    (hstep : ∀ s a, R s (step s a)) : ∀ (as : List α) (s : σ), R s (run step s as)
  | [], s => hrefl s
  | a :: as, s => htrans (hstep s a) (run_rel hrefl htrans hstep as (step s a))

/-- Every step of the run is taken in a state that meets the guard. -/
def Guarded (step : σ → α → σ) (guard : σ → α → Prop) : σ → List α → Prop
  | _, [] => True
  | s, a :: as => guard s a ∧ Guarded step guard (step s a) as

theorem guarded_append :
    ∀ (as : List α) {bs : List α} {s : σ},
      Guarded step guard s (as ++ bs) ↔ Guarded step guard s as ∧ Guarded step guard (run step s as) bs
  | [], _, _ => (true_and _).symm ▸ Iff.rfl
  | a :: as, bs, s => by
      rw [List.cons_append, Guarded, Guarded, guarded_append as, and_assoc]
      rfl

/-- **What each guarded step preserves, every guarded run preserves.** -/
theorem run_invariant_of_guarded (hstep : ∀ s a, P s → guard s a → P (step s a)) :
    ∀ (as : List α) {s : σ}, P s → Guarded step guard s as → P (run step s as)
  | [], _, h, _ => h
  | a :: as, s, h, hg => run_invariant_of_guarded hstep as (hstep s a h hg.1) hg.2

end Run
