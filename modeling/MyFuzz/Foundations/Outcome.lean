import Mathlib.Tactic

/-!
# Foundations/Outcome — computations that return or raise

A fallible function returns `Except Exn α`.  A guard clause `if bad: raise e` is `ensure (¬ bad) e`,
so a body is a chain of binds, and the two lemmas `bind_ok` and `ensure_ok` take a
successful one apart clause by clause.
-/

/-- An exception: the classes that are raised by name, and any other that user code lets escape. -/
inductive Exn where
  | valueError (message : String)
  | runtimeError (message : String)
  | instructionNotReady (message : String)
  | rejected (code message pointer : String)
  | other (name : String)
  deriving DecidableEq, Repr

/-- A guard clause: go on when the condition holds, raise otherwise. -/
def ensure (p : Prop) [Decidable p] (e : Exn) : Except Exn Unit := if p then .ok () else .error e

namespace Outcome

open List

variable {α β ε : Type}

@[simp] theorem ok_bind (a : α) (f : α → Except ε β) : (Except.ok a >>= f) = f a := rfl

@[simp] theorem error_bind (e : ε) (f : α → Except ε β) :
    ((Except.error e : Except ε α) >>= f) = .error e := rfl

variable {x : Except ε α} {b : β} {p : Prop} {e : Exn} {f : Unit → Except Exn β} {g : α → β}
  {as : List α} {message name : String}

theorem bind_ok {f : α → Except ε β} : (x >>= f) = .ok b ↔ ∃ a, x = .ok a ∧ f a = .ok b := by
  cases x with
  | error e =>
    constructor
    · intro h
      cases h
    · rintro ⟨_, h, _⟩
      cases h
  | ok a =>
    constructor
    · exact fun h => ⟨a, rfl, h⟩
    · rintro ⟨_, h, hf⟩
      cases h
      exact hf

theorem exists_eq_ok (h : x.isOk = true) : ∃ a, x = .ok a := by
  cases x with
  | error e => cases h
  | ok a => exact ⟨a, rfl⟩

@[simp] theorem ensure_eq_ok [Decidable p] {u : Unit} : ensure p e = .ok u ↔ p := by
  unfold ensure
  by_cases h : p
  · simp [h]
  · simp [h]

theorem ensure_of [Decidable p] (h : p) (e : Exn) : ensure p e = .ok () := if_pos h

theorem ensure_of_not [Decidable p] (h : ¬ p) (e : Exn) : ensure p e = .error e := if_neg h

@[simp] theorem ensure_true [Decidable True] (e : Exn) : ensure True e = .ok () := if_pos trivial

/-- **A guard clause passes exactly when its condition holds.** -/
theorem ensure_ok [Decidable p] : (ensure p e >>= f) = .ok b ↔ p ∧ f () = .ok b := by
  rw [bind_ok]
  exact ⟨fun ⟨_, hp, hf⟩ => ⟨ensure_eq_ok.1 hp, hf⟩, fun ⟨hp, hf⟩ => ⟨(), ensure_of hp e, hf⟩⟩

/-! Two and three steps of a computation at once, taken apart in their order. -/

section Steps

variable {γ δ : Type} {x : Except ε α} {y : α → Except ε β} {z : α → β → Except ε γ} {c : γ} {d : δ}

theorem bind_ok₂ (h : (x >>= fun a => y a >>= z a) = .ok c) :
    ∃ a, x = .ok a ∧ ∃ b, y a = .ok b ∧ z a b = .ok c := by
  obtain ⟨a, ha, h⟩ := bind_ok.1 h
  exact ⟨a, ha, bind_ok.1 h⟩

theorem bind_ok₃ {w : α → β → γ → Except ε δ}
    (h : (x >>= fun a => y a >>= fun b => z a b >>= w a b) = .ok d) :
    ∃ a, x = .ok a ∧ ∃ b, y a = .ok b ∧ ∃ c, z a b = .ok c ∧ w a b c = .ok d := by
  obtain ⟨a, ha, h⟩ := bind_ok.1 h
  exact ⟨a, ha, bind_ok₂ h⟩

variable {p q r : Prop} [Decidable p] [Decidable q] [Decidable r] {e₁ e₂ e₃ : Exn} {b : β}

theorem ensure_ok₂ {f : Unit → Unit → Except Exn β}
    (h : (ensure p e₁ >>= fun u => ensure q e₂ >>= f u) = .ok b) : p ∧ q ∧ f () () = .ok b := by
  obtain ⟨hp, h⟩ := ensure_ok.1 h
  exact ⟨hp, ensure_ok.1 h⟩

theorem ensure_ok₃ {f : Unit → Unit → Unit → Except Exn β}
    (h : (ensure p e₁ >>= fun u => ensure q e₂ >>= fun v => ensure r e₃ >>= f u v) = .ok b) :
    p ∧ q ∧ r ∧ f () () () = .ok b := by
  obtain ⟨hp, h⟩ := ensure_ok.1 h
  exact ⟨hp, ensure_ok₂ h⟩

end Steps

/-- **What a computation behind a guard clause raises.** -/
theorem ensure_bind_eq_error [Decidable p] {e' : Exn} :
    (ensure p e >>= f) = .error e' ↔ ¬ p ∧ e = e' ∨ p ∧ f () = .error e' := by
  by_cases h : p
  · rw [ensure_of h, ok_bind]
    simp [h]
  · rw [ensure_of_not h, error_bind]
    simp [h]

/-- **A check of every member passes exactly when each one passes.** -/
theorem forM_eq_ok {f : α → Except ε Unit} : ∀ {l : List α}, l.forM f = .ok () ↔ ∀ a ∈ l, f a = .ok ()
  | [] => ⟨nofun, fun _ => rfl⟩
  | a :: l => by
      rw [List.forM, bind_ok, forall_mem_cons, ← forM_eq_ok]
      exact ⟨fun ⟨_, ha, hl⟩ => ⟨ha, hl⟩, fun ⟨ha, hl⟩ => ⟨(), ha, hl⟩⟩

/-- **A traversal returns exactly when every member does.** -/
theorem mapM_eq_ok {f : α → Except ε β} : ∀ {as : List α} {bs : List β},
    as.mapM f = .ok bs ↔ List.Forall₂ (fun a b => f a = .ok b) as bs
  | [], bs => by
      rw [mapM_nil, forall₂_nil_left_iff]
      exact ⟨fun h => (Except.ok.inj h).symm, fun h => congrArg Except.ok h.symm⟩
  | a :: as, bs => by
      rw [mapM_cons, bind_ok]
      constructor
      · rintro ⟨b, hb, h⟩
        obtain ⟨bs', hbs, h⟩ := bind_ok.1 h
        cases h
        exact .cons hb (mapM_eq_ok.1 hbs)
      · rintro (_ | ⟨hb, hbs⟩)
        exact ⟨_, hb, bind_ok.2 ⟨_, mapM_eq_ok.2 hbs, rfl⟩⟩

/-- A traversal by a function that returns everywhere. -/
theorem mapM_of_ok {f : α → Except ε β} (h : ∀ a ∈ as, f a = .ok (g a)) : as.mapM f = .ok (as.map g) := by
  rw [mapM_eq_ok, forall₂_map_right_iff, forall₂_same]
  exact h

/-- A fold by a function that returns everywhere. -/
theorem foldlM_of_ok {f : β → α → Except ε β} {g : β → α → β}
    (h : ∀ a ∈ as, ∀ b, f b a = .ok (g b a)) (b : β) : as.foldlM f b = .ok (as.foldl g b) := by
  induction as generalizing b with
  | nil => rfl
  | cons a as ih =>
    rw [foldlM_cons, h a mem_cons_self, ok_bind, foldl_cons]
    exact ih (fun c hc => h c (mem_cons_of_mem a hc)) (g b a)

/-- A traversal of an image. -/
theorem mapM_map_of_ok {γ : Type} {f : γ → Except ε β} {e : α → γ}
    (h : ∀ a ∈ as, f (e a) = .ok (g a)) : (as.map e).mapM f = .ok (as.map g) := by
  rw [mapM_eq_ok, forall₂_map_left_iff, forall₂_map_right_iff, forall₂_same]
  exact h

theorem exists_mapM_eq_ok {f : α → Except ε β} : ∀ {as : List α}, (∀ a ∈ as, ∃ b, f a = .ok b) →
    ∃ bs, as.mapM f = .ok bs
  | [], _ => ⟨[], rfl⟩
  | a :: as, h => by
      obtain ⟨b, hb⟩ := h a (.head _)
      obtain ⟨bs, hbs⟩ := exists_mapM_eq_ok fun a' ha' => h a' (mem_cons_of_mem a ha')
      exact ⟨b :: bs, mapM_eq_ok.2 (.cons hb (mapM_eq_ok.1 hbs))⟩

/-- What a traversal returns comes from a member. -/
theorem mem_of_mapM_eq_ok {f : α → Except ε β} {bs : List β} (h : as.mapM f = .ok bs)
    (hb : b ∈ bs) : ∃ a ∈ as, f a = .ok b := by
  rw [mapM_eq_ok] at h
  induction h with
  | nil => cases hb
  | @cons a b' as bs ha _ ih =>
    rcases mem_cons.1 hb with rfl | hb
    · exact ⟨a, .head _, ha⟩
    · obtain ⟨a', ha', h⟩ := ih hb
      exact ⟨a', .tail _ ha', h⟩

/-! ## Refusals -/

/-- **Nothing but a `ValueError` is raised.** -/
def OnlyValueError (x : Except Exn α) : Prop := ∀ e, x = .error e → ∃ message, e = .valueError message

theorem onlyValueError_ok (a : α) : OnlyValueError (.ok a : Except Exn α) := fun _ h => by cases h

theorem onlyValueError_error : OnlyValueError (.error (.valueError message) : Except Exn α) :=
  fun _ h => ⟨message, (Except.error.inj h).symm⟩

theorem onlyValueError_bind {x : Except Exn α} {f : α → Except Exn β} :
    OnlyValueError (x >>= f) ↔ OnlyValueError x ∧ ∀ a, x = .ok a → OnlyValueError (f a) := by
  cases x with
  | error e =>
    rw [error_bind]
    exact ⟨fun h => ⟨fun e' he => h e' (congrArg _ (Except.error.inj he)), fun a ha => by cases ha⟩,
      fun h e' he => h.1 e' (congrArg _ (Except.error.inj he))⟩
  | ok a =>
    rw [ok_bind]
    refine ⟨fun h => ⟨onlyValueError_ok a, fun b hb => ?_⟩, fun h => h.2 a rfl⟩
    rwa [← Except.ok.inj hb]

/-- A guard clause that raises a `ValueError`. -/
theorem onlyValueError_ensure [Decidable p] : OnlyValueError (ensure p (.valueError message)) := by
  unfold ensure
  split_ifs
  · exact onlyValueError_ok _
  · exact onlyValueError_error

theorem onlyValueError_ensure_bind [Decidable p] :
    OnlyValueError (ensure p (.valueError message) >>= f) ↔ (p → OnlyValueError (f ())) := by
  rw [onlyValueError_bind]
  exact ⟨fun h hp => h.2 () (ensure_of hp _),
    fun h => ⟨onlyValueError_ensure, fun _ hp => h (ensure_eq_ok.1 hp)⟩⟩

/-- A guard clause that raises something else. -/
theorem onlyValueError_ensure_other [Decidable p] : OnlyValueError (ensure p (.other name)) ↔ p := by
  refine ⟨fun h => ?_, fun h => ?_⟩
  · by_contra hp
    obtain ⟨message, hm⟩ := h _ (ensure_of_not hp _)
    cases hm
  · rw [ensure_of h]
    exact onlyValueError_ok _

theorem onlyValueError_other_bind [Decidable p] :
    OnlyValueError (ensure p (.other name) >>= f) ↔ p ∧ OnlyValueError (f ()) := by
  rw [onlyValueError_bind, onlyValueError_ensure_other]
  exact ⟨fun h => ⟨h.1, h.2 () (ensure_of h.1 _)⟩, fun h => ⟨h.1, fun _ _ => h.2⟩⟩

/-- **A traversal raises what the first member raises that does not return.** -/
theorem onlyValueError_mapM {f : α → Except Exn β} :
    OnlyValueError (as.mapM f) ↔ ∀ before a after, as = before ++ a :: after →
      (∀ b ∈ before, ∃ c, f b = .ok c) → OnlyValueError (f a) := by
  induction as with
  | nil => exact ⟨fun _ before a after h => by simp at h, fun _ => onlyValueError_ok _⟩
  | cons a as ih =>
    rw [mapM_cons, onlyValueError_bind]
    have hrest : ∀ c, OnlyValueError (as.mapM f >>= fun cs => pure (c :: cs)) ↔
        OnlyValueError (as.mapM f) := by
      intro c
      rw [onlyValueError_bind]
      exact ⟨fun h => h.1, fun h => ⟨h, fun cs _ => onlyValueError_ok _⟩⟩
    simp only [hrest, ih]
    constructor
    · rintro ⟨ha, h⟩ (_ | ⟨b, before⟩) a' after heq hbefore
      · cases heq
        exact ha
      · cases heq
        obtain ⟨c, hc⟩ := hbefore a (.head _)
        exact h c hc before a' after rfl fun b hb => hbefore b (.tail _ hb)
    · intro h
      refine ⟨h [] a as rfl nofun, fun c hc before a' after heq hbefore => ?_⟩
      refine h (a :: before) a' after (by rw [heq]; rfl) fun b hb => ?_
      rcases mem_cons.1 hb with rfl | hb
      · exact ⟨c, hc⟩
      · exact hbefore b hb

theorem onlyValueError_forM {f : α → Except Exn Unit} (h : ∀ a ∈ as, OnlyValueError (f a)) :
    OnlyValueError (as.forM f) := by
  induction as with
  | nil => exact onlyValueError_ok _
  | cons a as ih =>
    rw [List.forM, onlyValueError_bind]
    exact ⟨h a (.head _), fun _ _ => ih fun b hb => h b (.tail _ hb)⟩

end Outcome
