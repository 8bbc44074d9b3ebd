import MyFuzz.Foundations.Outcome

/-!
# Foundations/Effect — computations that change a state and may raise

`Effect σ α` returns or raises, and leaves a state either way: what was changed before an exception
stays changed.  A body is a chain of binds; `bind_ok` takes a run that returned apart, and
`bind_of_ok` runs one forward.
-/

variable {σ τ α β : Type}

/-- A computation over a state `σ`. -/
def Effect (σ α : Type) : Type := σ → Except Exn α × σ

namespace Effect

open Effect

instance : Monad (Effect σ) where
  pure a := fun s => (.ok a, s)
  bind x f := fun s =>
    match x s with
    | (.ok a, s') => f a s'
    | (.error e, s') => (.error e, s')

/-- Read the state. -/
def get : Effect σ σ := fun s => (.ok s, s)

/-- Change the state. -/
def modify (f : σ → σ) : Effect σ Unit := fun s => (.ok (), f s)

/-- A computation that leaves the state alone. -/
def lift (x : Except Exn α) : Effect σ α := fun s => (x, s)

/-- Run a computation on a part of the state. -/
def zoom (part : σ → τ) (put : σ → τ → σ) (x : Effect τ α) : Effect σ α := fun s =>
  ((x (part s)).1, put s (x (part s)).2)

/-- One computation for each member of a list, in order. -/
def each (f : α → Effect σ Unit) : List α → Effect σ Unit
  | [] => pure ()
  | a :: as => do f a; each f as

@[simp] theorem pure_apply (a : α) (s : σ) : (pure a : Effect σ α) s = (.ok a, s) := rfl

@[simp] theorem get_apply (s : σ) : (get : Effect σ σ) s = (.ok s, s) := rfl

@[simp] theorem modify_apply (f : σ → σ) (s : σ) : modify f s = (.ok (), f s) := rfl

@[simp] theorem lift_apply (x : Except Exn α) (s : σ) : lift x s = (x, s) := rfl

variable {s s' : σ} {x : Effect σ α} {f : α → Effect σ β} {a : α}

theorem zoom_of_eq {part : σ → τ} {put : σ → τ → σ} {x : Effect τ α} {r : Except Exn α} {t : τ}
    (h : x (part s) = (r, t)) : zoom part put x s = (r, put s t) := by
  change ((x (part s)).1, put s (x (part s)).2) = _
  rw [h]

/-- **Run the first part of a computation forward.** -/
theorem bind_of_ok (h : x s = (.ok a, s')) : (x >>= f) s = f a s' := by
  change (match x s with
    | (.ok a, s') => f a s'
    | (.error e, s') => (.error e, s')) = _
  rw [h]

/-- What raises first stops the computation. -/
theorem bind_of_error {e : Exn} (h : x s = (.error e, s')) : (x >>= f) s = (.error e, s') := by
  change (match x s with
    | (.ok a, s') => f a s'
    | (.error e, s') => (.error e, s')) = _
  rw [h]

/-- **A computation that returned, taken apart.** -/
theorem bind_ok {s'' : σ} {b : β} (h : (x >>= f) s = (.ok b, s'')) :
    ∃ a s', x s = (.ok a, s') ∧ f a s' = (.ok b, s'') := by
  cases hx : x s with
  | mk r s' =>
    cases r with
    | ok a => exact ⟨a, s', rfl, (bind_of_ok hx).symm.trans h⟩
    | error e =>
      rw [bind_of_error hx] at h
      cases h

/-- The same with the value a computation returns. -/
theorem bind_of_fst (h : (x s).1 = .ok a) : (x >>= f) s = f a (x s).2 := bind_of_ok (Prod.ext h rfl)

/-! ## What every computation preserves -/

/-- A computation keeps a property of the state, whether it returns or raises. -/
def Preserves (P : σ → Prop) (x : Effect σ α) : Prop := ∀ s, P s → P (x s).2

namespace Preserves

variable {P : σ → Prop}

theorem pure (a : α) : Preserves P (Pure.pure a : Effect σ α) := fun _ h => h

theorem get : Preserves P (get : Effect σ σ) := fun _ h => h

theorem lift (x : Except Exn α) : Preserves P (lift x : Effect σ α) := fun _ h => h

/-- **What both parts of a computation preserve, the whole preserves.** -/
theorem bind (hx : Preserves P x) (hf : ∀ a, Preserves P (f a)) : Preserves P (x >>= f) := by
  intro s h
  have hs : P (x s).2 := hx s h
  cases hr : x s with
  | mk r s' =>
    rw [hr] at hs
    cases r with
    | ok a =>
      rw [bind_of_ok hr]
      exact hf a s' hs
    | error e =>
      rw [bind_of_error hr]
      exact hs

end Preserves

/-! ## What a computation keeps until it raises -/

/-- From a state with `P`, a computation that returns leaves `P`, and one that raises leaves `Q`. -/
def Safe (P Q : σ → Prop) (x : Effect σ α) : Prop :=
  ∀ s, P s → (∀ a s', x s = (.ok a, s') → P s') ∧ ∀ e s', x s = (.error e, s') → Q s'

namespace Safe

variable {P Q : σ → Prop}

/-- A computation that cannot raise. -/
theorem modify {f : σ → σ} (h : ∀ s, P s → P (f s)) : Safe P Q (modify f) := by
  intro s hs
  refine ⟨fun a s' heq => ?_, fun e s' heq => nomatch (Prod.mk.inj heq).1⟩
  rw [← (Prod.mk.inj heq).2]
  exact h s hs

theorem pure (a : α) : Safe P Q (Pure.pure a : Effect σ α) := by
  intro s hs
  refine ⟨fun b s' heq => ?_, fun e s' heq => nomatch (Prod.mk.inj heq).1⟩
  rwa [← (Prod.mk.inj heq).2]

theorem get : Safe P Q (get : Effect σ σ) := by
  intro s hs
  refine ⟨fun b s' heq => ?_, fun e s' heq => nomatch (Prod.mk.inj heq).1⟩
  rwa [← (Prod.mk.inj heq).2]

theorem lift (hPQ : ∀ s, P s → Q s) (x : Except Exn α) : Safe P Q (lift x : Effect σ α) := by
  intro s hs
  refine ⟨fun a s' heq => ?_, fun e s' heq => ?_⟩
  · rwa [← (Prod.mk.inj heq).2]
  · rw [← (Prod.mk.inj heq).2]
    exact hPQ s hs

/-- **One computation after the other.** -/
theorem bind (hx : Safe P Q x) (hf : ∀ a, Safe P Q (f a)) : Safe P Q (x >>= f) := by
  intro s hs
  obtain ⟨hok, herror⟩ := hx s hs
  cases hr : x s with
  | mk r s' =>
    cases r with
    | ok a =>
      rw [bind_of_ok hr]
      exact hf a s' (hok a s' hr)
    | error e =>
      rw [bind_of_error hr]
      refine ⟨fun b t heq => (nomatch (Prod.mk.inj heq).1), fun e' t heq => ?_⟩
      rw [← (Prod.mk.inj heq).2]
      exact herror e s' hr

theorem each {f : α → Effect σ Unit} : ∀ {l : List α}, (∀ a ∈ l, Safe P Q (f a)) → Safe P Q (each f l)
  | [], _ => pure ()
  | a :: _, h => bind (h a (.head _)) fun _ =>
      each fun a' ha' => h a' (List.mem_cons_of_mem a ha')

end Safe

/-! ## Where a computation leads -/

/-- From a state with `P`, a computation leaves `Q`, whether it returns or raises. -/
def Leads (P Q : σ → Prop) (x : Effect σ α) : Prop := ∀ s, P s → Q (x s).2

namespace Leads

variable {P Q : σ → Prop}

/-- **A computation that keeps `P`, and one that leads to `Q`.** -/
theorem of_safe (hx : Safe P Q x) (hf : ∀ a, Leads P Q (f a)) : Leads P Q (x >>= f) := by
  intro s hs
  obtain ⟨hok, herror⟩ := hx s hs
  cases hr : x s with
  | mk r s' =>
    cases r with
    | ok a =>
      rw [bind_of_ok hr]
      exact hf a s' (hok a s' hr)
    | error e =>
      rw [bind_of_error hr]
      exact herror e s' hr

/-- **A computation that leads to `Q`, and one that keeps it.** -/
theorem bind (hx : Leads P Q x) (hf : ∀ a, Preserves Q (f a)) : Leads P Q (x >>= f) := by
  intro s hs
  have hq := hx s hs
  cases hr : x s with
  | mk r s' =>
    rw [hr] at hq
    cases r with
    | ok a =>
      rw [bind_of_ok hr]
      exact hf a s' hq
    | error e =>
      rw [bind_of_error hr]
      exact hq

end Leads

end Effect
