import MyFuzz.Composition.ConstraintGraph

/-!
# Composition/ConstraintEvaluation — evaluation is the bit-vector semantics

Evaluation keeps the values of finished objects and never meets an object that it is still below, because
an object's expression is larger than those below it.  So the value of an object is that of its
expression, or the failure of the first name that cannot be read:

    evaluateExpr … i   =   run (readInput inputs) (expression of i)
-/

namespace MyFuzz

namespace ConstraintIr

open Outcome BitExpr

variable {n : ℕ} {h : Heap n} {inputs : Dict String Input} {i : Fin n} {w : ℕ}

/-! ## Values -/

theorem masked_eq (w : ℕ) (z : ℤ) : masked w z = (BitVec.ofInt w z).toNat := by
  rw [BitVec.toNat_ofInt, masked]
  norm_cast

theorem ofInt_and (a b : BitVec w) : BitVec.ofInt w ((a.toNat &&& b.toNat : ℕ) : ℤ) = a &&& b := by
  rw [BitVec.ofInt_natCast]
  exact BitVec.eq_of_toNat_eq (by
    rw [BitVec.toNat_ofNat, BitVec.toNat_and, Nat.mod_eq_of_lt (Nat.and_lt_two_pow _ b.isLt)])

theorem ofInt_or (a b : BitVec w) : BitVec.ofInt w ((a.toNat ||| b.toNat : ℕ) : ℤ) = a ||| b := by
  rw [BitVec.ofInt_natCast]
  exact BitVec.eq_of_toNat_eq (by
    rw [BitVec.toNat_ofNat, BitVec.toNat_or, Nat.mod_eq_of_lt (Nat.or_lt_two_pow a.isLt b.isLt)])

theorem ofInt_not (a : BitVec w) : BitVec.ofInt w (-(a.toNat : ℤ) - 1) = ~~~ a := by
  refine BitVec.eq_of_toNat_eq ?_
  rw [BitVec.toNat_ofInt, BitVec.toNat_not]
  have ha := a.isLt
  have hmod : (-(a.toNat : ℤ) - 1) % ((2 ^ w : ℕ) : ℤ) = ((2 ^ w - 1 - a.toNat : ℕ) : ℤ) := by
    rw [← Int.add_emod_right, Int.emod_eq_of_lt] <;> omega
  rw [hmod, Int.toNat_natCast]

theorem ofInt_eq (a b : BitVec w) :
    BitVec.ofInt 1 (if a.toNat = b.toNat then 1 else 0) = BitVec.ofBool (a == b) := by
  rcases eq_or_ne a b with rfl | hne
  · simp
  · have htoNat : a.toNat ≠ b.toNat := fun heq => hne (BitVec.eq_of_toNat_eq heq)
    rw [if_neg htoNat, beq_eq_false_iff_ne.2 hne]
    rfl

theorem ofInt_slice (hi lo : ℕ) (a : BitVec w) :
    BitVec.ofInt (hi - lo + 1) ((a.toNat >>> lo : ℕ) : ℤ) = a.extractLsb hi lo := by
  rw [BitVec.ofInt_natCast]
  exact BitVec.eq_of_toNat_eq (by rw [BitVec.toNat_ofNat, BitVec.extractLsb_toNat])

theorem ofInt_toNat (a : BitVec w) : BitVec.ofInt w (a.toNat : ℤ) = a := by
  rw [BitVec.ofInt_natCast, BitVec.ofNat_toNat, BitVec.setWidth_eq]

/-! ## What evaluation returns -/

/-- A remembered value is that of the object's expression. -/
def Sound (h : Heap n) (inputs : Dict String Input) (memo : Memo n) : Prop :=
  ∀ j v, memo.get? j = some v → ∀ (w : ℕ) (a : BitExpr w), Unfolds (graph h) (.node j) w a →
    ∃ b, a.run (readInput inputs) = .ok b ∧ b.toNat = v

/-- A computation that returns what is expected and remembers only what is right. -/
def Returns {α : Type} (h : Heap n) (inputs : Dict String Input)
    (step : Memo n → Except Exn (α × Memo n)) (accepts : BitVec w → α → Prop)
    (expected : Except Exn (BitVec w)) : Prop :=
  ∀ memo, Sound h inputs memo → match expected with
    | .ok v => ∃ x memo', step memo = .ok (x, memo') ∧ accepts v x ∧ Sound h inputs memo'
    | .error e => step memo = .error e

/-- The object's value. -/
abbrev Exact (v : BitVec w) (x : ℕ) : Prop := x = v.toNat

/-- A value that is right after it is cut to the width. -/
abbrev Truncates (v : BitVec w) (x : ℤ) : Prop := BitVec.ofInt w x = v

variable {x y : Except Exn (BitVec w)} {u v : ℕ} {step : Memo n → Except Exn (ℕ × Memo n)}
  {a : BitExpr w} {evaluate : Fin n → Memo n → Except Exn (ℕ × Memo n)}

theorem Returns.imp {α : Type} {step : Memo n → Except Exn (α × Memo n)} {p q : BitVec w → α → Prop}
    (hx : Returns h inputs step p x) (hpq : ∀ v y, p v y → q v y) : Returns h inputs step q x := by
  intro memo hmemo
  have hstep := hx memo hmemo
  cases x with
  | error e => exact hstep
  | ok v =>
    obtain ⟨y, memo', hy, hp, hmemo'⟩ := hstep
    exact ⟨y, memo', hy, hpq v y hp, hmemo'⟩

/-- Two values and what is made of them. -/
theorem returns_binary {step' : Memo n → Except Exn (ℕ × Memo n)} {x : Except Exn (BitVec u)}
    {y : Except Exn (BitVec v)} {f : ℕ → ℕ → ℤ} {g : BitVec u → BitVec v → BitVec w}
    (hx : Returns h inputs step Exact x) (hy : Returns h inputs step' Exact y)
    (hfg : ∀ a b, BitVec.ofInt w (f a.toNat b.toNat) = g a b) :
    Returns h inputs
      (fun memo => do
        let (a, memo) ← step memo
        let (b, memo) ← step' memo
        return (f a b, memo))
      Truncates (x.bind fun a => y.map (g a)) := by
  intro memo hmemo
  have hstep := hx memo hmemo
  cases x with
  | error e =>
    dsimp only [Except.bind]
    rw [hstep]
    rfl
  | ok a =>
    obtain ⟨_, memo', hstep, rfl, hmemo'⟩ := hstep
    have hstep' := hy memo' hmemo'
    cases y with
    | error e =>
      dsimp only [Except.bind, Except.map]
      rw [hstep, ok_bind, hstep']
      rfl
    | ok b =>
      obtain ⟨_, memo'', hstep', rfl, hmemo''⟩ := hstep'
      refine ⟨_, memo'', ?_, hfg a b, hmemo''⟩
      dsimp only
      rw [hstep, ok_bind, hstep']
      rfl

/-- One value and what is made of it. -/
theorem returns_unary {x : Except Exn (BitVec u)} {f : ℕ → ℤ} {g : BitVec u → BitVec w}
    (hx : Returns h inputs step Exact x) (hfg : ∀ a, BitVec.ofInt w (f a.toNat) = g a) :
    Returns h inputs
      (fun memo => do
        let (a, memo) ← step memo
        return (f a, memo))
      Truncates (x.map g) := by
  intro memo hmemo
  have hstep := hx memo hmemo
  cases x with
  | error e =>
    dsimp only [Except.map]
    rw [hstep]
    rfl
  | ok a =>
    obtain ⟨_, memo', hstep, rfl, hmemo'⟩ := hstep
    refine ⟨_, memo', ?_, hfg a, hmemo'⟩
    dsimp only
    rw [hstep]
    rfl

/-- A value that is passed on. -/
theorem returns_value (hx : Returns h inputs step Exact x) :
    Returns h inputs
      (fun memo => do
        let (a, memo) ← step memo
        return ((a : ℤ), memo))
      Truncates x := by
  have hmap : x.map (fun a => a) = x := by cases x <;> rfl
  rw [← hmap]
  exact returns_unary hx ofInt_toNat

/-! ## Evaluation below an object -/

/-- There is room to descend, and nothing above is as small as what is evaluated. -/
structure Below (h : Heap n) (fuel : ℕ) (visiting : List (Fin n)) (size : ℕ) : Prop where
  room : n + 1 ≤ visiting.length + fuel
  nodup : visiting.Nodup
  larger : ∀ j ∈ visiting, ∀ (w : ℕ) (b : BitExpr w), Unfolds (graph h) (.node j) w b → size ≤ b.size

theorem Below.mono {fuel : ℕ} {visiting : List (Fin n)} {size size' : ℕ}
    (hbelow : Below h fuel visiting size) (hle : size' ≤ size) : Below h fuel visiting size' :=
  ⟨hbelow.room, hbelow.nodup, fun j hj w b hb => hle.trans (hbelow.larger j hj w b hb)⟩

/-- What is evaluated at a place: an object, or the rest of a concatenation behind a value. -/
def Evaluated (h : Heap n) (inputs : Dict String Input) (w : ℕ) (a : BitExpr w) : Site (Fin n) → Prop
  | .node i => ∀ fuel visiting, Below h fuel visiting (a.size + 1) →
      Returns h inputs (evaluateExpr h inputs fuel visiting i) Exact (a.run (readInput inputs))
  | .items args => ∀ fuel visiting, Below h fuel visiting a.size → ∀ value,
      Returns h inputs (evaluateItems h (evaluateExpr h inputs fuel visiting) args value)
        (fun v x => x = (value <<< w) ||| v.toNat) (a.run (readInput inputs))

/-- **An object's value is its node's, cut to the width.** -/
theorem returns_evaluateExpr (hunfolds : Unfolds (graph h) (.node i) w a)
    (hnode : ∀ fuel visiting, Below h fuel visiting a.size →
      Returns h inputs (evaluateNode h inputs (evaluateExpr h inputs fuel visiting) (h i)) Truncates
        (a.run (readInput inputs))) :
    Evaluated h inputs w a (.node i) := by
  intro fuel visiting hbelow memo hmemo
  have hnotin : i ∉ visiting := fun hi => by
    have := hbelow.larger i hi w a hunfolds
    omega
  have hnodup : (i :: visiting).Nodup := List.nodup_cons.2 ⟨hnotin, hbelow.nodup⟩
  cases fuel with
  | zero =>
    have hcard := hbelow.nodup.length_le_card
    have hroom := hbelow.room
    rw [Fintype.card_fin] at hcard
    omega
  | succ fuel =>
    rw [evaluateExpr, if_neg hnotin]
    cases hget : memo.get? i with
    | some v =>
      obtain ⟨b, hrun, rfl⟩ := hmemo i v hget w a hunfolds
      rw [hrun]
      exact ⟨_, memo, rfl, rfl, hmemo⟩
    | none =>
      have hdown : Below h fuel (i :: visiting) a.size := by
        refine ⟨?_, hnodup, List.forall_mem_cons.2 ⟨fun v b hb => ?_, fun j hj v b hb => ?_⟩⟩
        · have hroom := hbelow.room
          rw [List.length_cons]
          omega
        · cases hunfolds.unique hb
          exact le_rfl
        · exact (Nat.le_succ _).trans (hbelow.larger j hj v b hb)
      have hstep := hnode fuel (i :: visiting) hdown memo hmemo
      obtain ⟨e, he, hwidth⟩ := hunfolds.exists_look
      cases he
      cases hrun : a.run (readInput inputs) with
      | error e =>
        rw [hrun] at hstep
        rw [hstep]
        rfl
      | ok v =>
        rw [hrun] at hstep
        obtain ⟨z, memo', hstep, hz, hmemo'⟩ := hstep
        have hmasked : masked (h i).width z = v.toNat := by
          rw [masked_eq, hwidth, hz]
        refine ⟨v.toNat, memo'.set i v.toNat, ?_, rfl, ?_⟩
        · rw [hstep, ok_bind]
          dsimp only
          rw [hmasked]
          rfl
        · intro j u hj
          rw [Dict.get?_set] at hj
          split_ifs at hj with heq
          · subst heq
            intro w' b hb
            cases hunfolds.unique hb
            exact ⟨v, hrun, Option.some.inj hj⟩
          · exact hmemo' j u hj

theorem heap_of_graph {e : Expr (Fin n)} (hlook : graph h i = some e) : h i = e := Option.some.inj hlook

/-- A multiplexer evaluates the branch it selects. -/
theorem returns_mux {s l r : Fin n} {x : Except Exn (BitVec 1)} {z : Except Exn (BitVec w)}
    (hx : Returns h inputs (evaluate s) Exact x) (hy : Returns h inputs (evaluate l) Exact y)
    (hz : Returns h inputs (evaluate r) Exact z) :
    Returns h inputs
      (fun memo => do
        let (s, memo) ← evaluate s memo
        let (a, memo) ← evaluate (if s ≠ 0 then l else r) memo
        return ((a : ℤ), memo))
      Truncates (x.bind fun b => if b = 0#1 then z else y) := by
  intro memo hmemo
  have hstep := hx memo hmemo
  cases x with
  | error e =>
    dsimp only [Except.bind]
    rw [hstep]
    rfl
  | ok b =>
    obtain ⟨_, memo', hstep, rfl, hmemo'⟩ := hstep
    dsimp only [Except.bind]
    rw [hstep, ok_bind]
    have hzero : b = 0#1 ↔ b.toNat = 0 := by rw [BitVec.toNat_eq, BitVec.toNat_zero]
    by_cases hb : b = 0#1
    · rw [if_pos hb, if_neg (not_not.2 (hzero.1 hb))]
      exact returns_value hz memo' hmemo'
    · rw [if_neg hb, if_pos (mt hzero.2 hb)]
      exact returns_value hy memo' hmemo'

/-- The parts of a concatenation, the first one shifted in. -/
theorem returns_append 
    {args : List (Arg (Fin n))} {x : Except Exn (BitVec v)} {value : ℕ}
    (hwidth : (h i).width = v) (hx : Returns h inputs (evaluate i) Exact x)
    (hy : ∀ value, Returns h inputs (evaluateItems h evaluate args value)
      (fun b z => z = (value <<< w) ||| b.toNat) y) :
    Returns h inputs (evaluateItems h evaluate (.expr i :: args) value)
      (fun b z => z = (value <<< (v + w)) ||| b.toNat) (x.bind fun a => y.map (a ++ ·)) := by
  intro memo hmemo
  have hstep := hx memo hmemo
  cases x with
  | error e =>
    dsimp only [Except.bind]
    rw [evaluateItems, hstep]
    rfl
  | ok a =>
    obtain ⟨_, memo', hstep, rfl, hmemo'⟩ := hstep
    have hrest := hy ((value <<< v) ||| a.toNat) memo' hmemo'
    cases y with
    | error e =>
      dsimp only [Except.bind, Except.map]
      rw [evaluateItems, hstep, ok_bind]
      rw [hwidth]
      exact hrest
    | ok b =>
      obtain ⟨_, memo'', hrest, rfl, hmemo''⟩ := hrest
      refine ⟨((value <<< v ||| a.toNat) <<< w) ||| b.toNat, memo'', ?_, ?_, hmemo''⟩
      · rw [evaluateItems, hstep, ok_bind]
        rw [hwidth]
        exact hrest
      · dsimp only
        rw [BitVec.toNat_append, Nat.shiftLeft_or_distrib, ← Nat.shiftLeft_add, Nat.or_assoc]

/-- **Every place of the graph evaluates to its expression.** -/
theorem evaluated_of_unfolds {site : Site (Fin n)} (hunfolds : Unfolds (graph h) site w a) :
    Evaluated h inputs w a site := by
  induction hunfolds with
  | const hvalue hlook =>
    refine returns_evaluateExpr (.const hvalue hlook) fun fuel visiting _ memo hmemo => ?_
    rw [heap_of_graph hlook]
    exact ⟨_, memo, rfl, rfl, hmemo⟩
  | @ref j w name hw hlook =>
    refine returns_evaluateExpr (.ref hlook) fun fuel visiting _ memo hmemo => ?_
    rw [heap_of_graph hlook, run]
    have hnode : ∀ evaluate, evaluateNode h inputs evaluate ⟨.ref, w, [.text name], hw⟩ memo =
        (readInput inputs name).map fun value => (value, memo) := by
      intro evaluate
      cases hread : readInput inputs name <;> simp [evaluateNode, hread, Except.map]
    rw [hnode]
    cases readInput inputs name with
    | error e => exact rfl
    | ok value => exact ⟨value, memo, rfl, rfl, hmemo⟩
  | and ha hb hlook iha ihb =>
    refine returns_evaluateExpr (.and ha hb hlook) fun fuel visiting hbelow => ?_
    rw [heap_of_graph hlook]
    exact returns_binary (f := fun a b => ((a &&& b : ℕ) : ℤ)) (g := (· &&& ·))
      (iha _ _ (hbelow.mono (by simp [size]))) (ihb _ _ (hbelow.mono (by simp [size])))
      ofInt_and
  | or ha hb hlook iha ihb =>
    refine returns_evaluateExpr (.or ha hb hlook) fun fuel visiting hbelow => ?_
    rw [heap_of_graph hlook]
    exact returns_binary (f := fun a b => ((a ||| b : ℕ) : ℤ)) (g := (· ||| ·))
      (iha _ _ (hbelow.mono (by simp [size]))) (ihb _ _ (hbelow.mono (by simp [size])))
      ofInt_or
  | not ha hlook iha =>
    refine returns_evaluateExpr (.not ha hlook) fun fuel visiting hbelow => ?_
    rw [heap_of_graph hlook]
    exact returns_unary (f := fun a => -(a : ℤ) - 1) (g := fun a => ~~~ a)
      (iha _ _ (hbelow.mono (by simp [size]))) ofInt_not
  | eq ha hb hlook iha ihb =>
    refine returns_evaluateExpr (.eq ha hb hlook) fun fuel visiting hbelow => ?_
    rw [heap_of_graph hlook]
    exact returns_binary (f := fun a b => if a = b then 1 else 0) (g := fun a b => BitVec.ofBool (a == b))
      (iha _ _ (hbelow.mono (by simp [size]))) (ihb _ _ (hbelow.mono (by simp [size])))
      ofInt_eq
  | mux hc ha hb hlook ihc iha ihb =>
    refine returns_evaluateExpr (.mux hc ha hb hlook) fun fuel visiting hbelow => ?_
    rw [heap_of_graph hlook]
    exact returns_mux (ihc _ _ (hbelow.mono (by simp only [size]; omega)))
      (iha _ _ (hbelow.mono (by simp only [size]; omega)))
      (ihb _ _ (hbelow.mono (by simp only [size]; omega)))
  | @slice j source hi lo v hw a hle hlt ha hlook iha =>
    refine returns_evaluateExpr (.slice hle hlt ha hlook) fun fuel visiting hbelow => ?_
    rw [heap_of_graph hlook]
    exact returns_unary (f := fun a => ((a >>> lo : ℕ) : ℤ)) (g := fun a => a.extractLsb hi lo)
      (iha _ _ (hbelow.mono (by simp [size]))) (ofInt_slice hi lo)
  | concat ha hlook iha =>
    refine returns_evaluateExpr (.concat ha hlook) fun fuel visiting hbelow => ?_
    rw [heap_of_graph hlook]
    have hitems := iha fuel visiting hbelow 0
    exact returns_value (hitems.imp fun v x hx => by
      rwa [Nat.zero_shiftLeft, Nat.zero_or] at hx)
  | nil =>
    intro fuel visiting _ value memo hmemo
    exact ⟨value, memo, rfl, by simp, hmemo⟩
  | cons ha hb iha ihb =>
    intro fuel visiting hbelow value
    obtain ⟨e, he, hwidth⟩ := ha.exists_look
    obtain rfl := heap_of_graph he
    exact returns_append hwidth (iha _ _ (hbelow.mono (by simp only [size]; omega)))
      (ihb _ _ (hbelow.mono (by simp only [size]; omega)))

end ConstraintIr

end MyFuzz
