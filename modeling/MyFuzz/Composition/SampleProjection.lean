import MyFuzz.Composition.InputConstraints
import Mathlib.Data.Nat.Size

/-!
# Composition/SampleProjection — projection is a retraction onto the legal samples

What a rule asks of its field is stated parameter by parameter (`ConstraintRule.Holds`).  Projection
writes legal values only, one field after the other, and no field is written twice:

    raw ──rule₁──▸ ──rule₂──▸ … ──▸ projected        every rule holds, other bits as in `raw`
    legal raw ─────────────────────▸ itself

The one argument about numbers is that carrying above the highest forbidden bit never passes an allowed
number (`carry_le`); so the search ends at the least one, and ends above `high` only if there is none.
-/

namespace MyFuzz

open Outcome BitField ConstraintRule List

/-! ## The next number under a mask -/

variable {m w value : ℕ}

/-- A number has no bit outside a mask. -/
theorem clear_eq_zero_iff : clear w m = 0 ↔ ∀ i, w.testBit i = true → m.testBit i = true := by
  constructor
  · intro h i hi
    have hbit := congrArg (fun n => n.testBit i) h
    rw [testBit_clear, hi, Nat.zero_testBit, Bool.true_and, Bool.not_eq_false'] at hbit
    exact hbit
  · intro h
    refine Nat.eq_of_testBit_eq fun i => ?_
    rw [testBit_clear, Nat.zero_testBit]
    cases hw : w.testBit i with
    | false => rfl
    | true => rw [h i hw]; rfl

theorem clear_and (w m : ℕ) : clear (w &&& m) m = 0 := by
  rw [clear_eq_zero_iff]
  intro i hi
  rw [Nat.testBit_and, Bool.and_eq_true] at hi
  exact hi.2

/-- **Carrying above the highest forbidden bit passes no allowed number.** -/
theorem carry_le {candidate mask n : ℕ} (hle : candidate ≤ n) (hn : clear n mask = 0)
    (hforbidden : clear candidate mask ≠ 0) :
    (candidate >>> (clear candidate mask).size + 1) <<< (clear candidate mask).size ≤ n := by
  obtain ⟨top, htop⟩ : ∃ top, (clear candidate mask).size = top + 1 := by
    have hpos := Nat.size_pos.2 (Nat.pos_of_ne_zero hforbidden)
    exact ⟨(clear candidate mask).size - 1, by omega⟩
  -- the highest forbidden bit is one of the candidate and not one of `n`
  have hbit : (clear candidate mask).testBit top = true := by
    have hlow : 2 ^ top ≤ clear candidate mask := Nat.lt_size.1 (by omega)
    have hhigh : clear candidate mask < 2 ^ (top + 1) := htop ▸ Nat.lt_size_self _
    have hone : clear candidate mask / 2 ^ top = 1 :=
      Nat.div_eq_of_lt_le (by omega) (by rw [Nat.pow_succ] at hhigh; omega)
    rw [Nat.testBit_eq_decide_div_mod_eq, hone]
    rfl
  rw [testBit_clear, Bool.and_eq_true, Bool.not_eq_true'] at hbit
  obtain ⟨hcandidate, hmask⟩ := hbit
  have hnbit : n.testBit top = false := by
    by_contra h
    rw [Bool.not_eq_false] at h
    rw [clear_eq_zero_iff.1 hn top h] at hmask
    cases hmask
  rw [Nat.testBit_eq_decide_div_mod_eq, decide_eq_true_eq] at hcandidate
  rw [Nat.testBit_eq_decide_div_mod_eq, decide_eq_false_iff_not] at hnbit
  rw [htop, Nat.shiftLeft_eq, Nat.shiftRight_eq_div_pow]
  by_contra hlt
  have hpow : 2 ^ (top + 1) = 2 ^ top * 2 := Nat.pow_succ 2 top
  have hsame : n / 2 ^ (top + 1) = candidate / 2 ^ (top + 1) := by
    refine le_antisymm (Nat.lt_succ_iff.1 ?_) (Nat.div_le_div_right hle)
    exact (Nat.div_lt_iff_lt_mul (Nat.two_pow_pos _)).2 (not_le.1 hlt)
  have hmono : candidate / 2 ^ top ≤ n / 2 ^ top := Nat.div_le_div_right hle
  rw [hpow, ← Nat.div_div_eq_div_mul, ← Nat.div_div_eq_div_mul] at hsame
  omega

theorem lt_carry (candidate shift : ℕ) : candidate < (candidate >>> shift + 1) <<< shift := by
  rw [Nat.shiftLeft_eq, Nat.shiftRight_eq_div_pow]
  exact Nat.lt_mul_of_div_lt (Nat.lt_succ_self _) (Nat.two_pow_pos shift)

namespace SampleConstraint

variable {c : SampleConstraint}

/-- **The search finds the least number under the mask**, or leaves the interval. -/
theorem nextAllowed_spec (fuel candidate : ℕ) (hfuel : c.high < candidate + fuel) :
    candidate ≤ c.nextAllowed fuel candidate ∧
    (c.nextAllowed fuel candidate ≤ c.high → clear (c.nextAllowed fuel candidate) c.mask = 0) ∧
    ∀ n, candidate ≤ n → clear n c.mask = 0 → c.nextAllowed fuel candidate ≤ n := by
  induction fuel generalizing candidate with
  | zero =>
    exact ⟨le_rfl, fun hle => absurd hle (by rw [nextAllowed]; omega), fun n hle _ => hle⟩
  | succ fuel ih =>
    rw [nextAllowed]
    split_ifs with hclear
    · exact ⟨le_rfl, fun _ => hclear, fun n hle _ => hle⟩
    · have hlt := lt_carry candidate (clear candidate c.mask).size
      have hcarry : ∀ n, candidate ≤ n → clear n c.mask = 0 → _ ≤ n := fun n hle hn => carry_le hle hn hclear
      by_cases habove : c.high < (candidate >>> (clear candidate c.mask).size + 1)
          <<< (clear candidate c.mask).size
      · rw [if_pos habove]
        exact ⟨hlt.le, fun hle => absurd hle (by omega), hcarry⟩
      · rw [if_neg habove]
        obtain ⟨hge, hallowed, hleast⟩ := ih ((candidate >>> (clear candidate c.mask).size + 1)
          <<< (clear candidate c.mask).size) (by omega)
        exact ⟨hlt.le.trans hge, hallowed, fun n hle hn => hleast n (hcarry n hle hn) hn⟩

theorem next_spec (candidate : ℕ) :
    candidate ≤ c.next candidate ∧ (c.next candidate ≤ c.high → clear (c.next candidate) c.mask = 0) ∧
    ∀ n, candidate ≤ n → clear n c.mask = 0 → c.next candidate ≤ n :=
  nextAllowed_spec (c.high + 1) candidate (by omega)

/-- **The loop of the search returns**: a number under the mask, or one above the interval. -/
inductive Returns (c : SampleConstraint) : ℕ → ℕ → Prop
  | done {candidate : ℕ} (h : clear candidate c.mask = 0) : Returns c candidate candidate
  | above {candidate carried : ℕ} (h : clear candidate c.mask ≠ 0)
      (hcarried : carried = (candidate >>> (clear candidate c.mask).size + 1) <<<
        (clear candidate c.mask).size)
      (habove : c.high < carried) : Returns c candidate carried
  | again {candidate carried result : ℕ} (h : clear candidate c.mask ≠ 0)
      (hcarried : carried = (candidate >>> (clear candidate c.mask).size + 1) <<<
        (clear candidate c.mask).size)
      (hle : carried ≤ c.high) (hrest : Returns c carried result) : Returns c candidate result

/-- The candidate grows with each carry, so the loop leaves the interval or stops. -/
theorem returns_nextAllowed (fuel candidate : ℕ) (hfuel : c.high < candidate + fuel)
    (hle : candidate ≤ c.high) :
    c.Returns candidate (c.nextAllowed fuel candidate) := by
  induction fuel generalizing candidate with
  | zero => omega
  | succ fuel ih =>
    rw [nextAllowed]
    dsimp only
    split_ifs with hclear habove
    · exact .done hclear
    · exact .above hclear rfl habove
    · have hlt := lt_carry candidate (clear candidate c.mask).size
      exact .again hclear rfl (not_lt.1 habove) (ih _ (by omega) (not_lt.1 habove))

/-- **The search returns the least number under the mask, if it is in the interval, and one above it
otherwise.** -/
theorem next_least (c : SampleConstraint) {candidate : ℕ} (h : candidate ≤ c.high) :
    c.Returns candidate (c.next candidate) ∧
    (∀ v, IsLeast {v | candidate ≤ v ∧ clear v c.mask = 0} v → v ≤ c.high → c.next candidate = v) ∧
    ((∀ v, candidate ≤ v → clear v c.mask = 0 → c.high < v) → c.high < c.next candidate) := by
  obtain ⟨hge, hmask, hleast⟩ := c.next_spec candidate
  refine ⟨returns_nextAllowed _ _ (by omega) h, fun v hv hle => ?_, fun hnone => ?_⟩
  · have hnext := hleast v hv.1.1 hv.1.2
    exact le_antisymm hnext (hv.2 ⟨hge, hmask (hnext.trans hle)⟩)
  · by_contra hle
    exact hle (hnone _ hge (hmask (not_lt.mp hle)))

/-- From 9 on, 16 is the first number under the mask 20. -/
theorem next_least_nine : (⟨0, 31, 20, none⟩ : SampleConstraint).next 9 = 16 := by
  refine (@next_least ⟨0, 31, 20, none⟩ 9 (by decide)).2.1 16 ⟨by decide, fun v hv => ?_⟩ (by decide)
  by_contra hlt
  have hnone : ∀ v < 16, 9 ≤ v → clear v 20 ≠ 0 := by decide
  exact hnone v (not_le.mp hlt) hv.1 hv.2

/-- A value is legal: allowed and, when there is an enumeration, in it. -/
def Legal (c : SampleConstraint) (value : ℕ) : Prop :=
  c.Allowed value ∧ ∀ values ∈ c.values, value ∈ values

theorem mem_allowedValues {values : List ℕ} :
    value ∈ c.allowedValues values ↔ value ∈ values ∧ c.Allowed value := by
  rw [allowedValues, mem_insertionSort, mem_dedup, mem_filter, decide_eq_true_eq]

theorem allowed_next (hle : c.next c.low ≤ c.high) : c.Allowed (c.next c.low) :=
  ⟨(next_spec c.low).1, hle, (next_spec c.low).2.1 hle⟩

/-- What takes a value's place under a condition: a value that meets it, the value itself when it does,
and nothing exactly when none does. -/
def Replaces (legal : ℕ → Prop) (value : ℕ) (replacement : Option ℕ) : Prop :=
  (∀ r, replacement = some r → legal r ∧ (legal value → r = value)) ∧ (replacement = none ↔ ¬ ∃ v, legal v)

variable {legal : ℕ → Prop}

theorem replaces_none (value : ℕ) (h : ∀ v, ¬ legal v) : Replaces legal value none :=
  ⟨fun _ hr => absurd hr (Option.some_ne_none _).symm, fun _ ⟨v, hv⟩ => h v hv, fun _ => rfl⟩

theorem replaces_some {r : ℕ} (hr : legal r) (hkeep : legal value → r = value) :
    Replaces legal value (some r) := by
  refine ⟨fun r' hr' => ?_, fun h => absurd h (Option.some_ne_none r), fun h => absurd ⟨r, hr⟩ h⟩
  rw [← Option.some.inj hr']
  exact ⟨hr, hkeep⟩

theorem replaceEnum_spec (values : List ℕ) (value : ℕ) :
    Replaces (fun v => v ∈ c.allowedValues values) value (c.replaceEnum values value) := by
  unfold replaceEnum
  cases hallowed : c.allowedValues values with
  | nil => exact replaces_none value fun v => not_mem_nil
  | cons first rest =>
    dsimp only
    split_ifs with hmem
    · exact replaces_some hmem fun _ => rfl
    · have hlt : value % (first :: rest).length < (first :: rest).length := Nat.mod_lt _ (Nat.succ_pos _)
      rw [getD_eq_getElem _ _ hlt]
      exact replaces_some (getElem_mem hlt) fun hv => absurd hv hmem

theorem replaceRange_spec (aligns : Bool) (value : ℕ) :
    Replaces c.Allowed value (c.replaceRange aligns value) := by
  unfold replaceRange
  by_cases hempty : c.high < c.next c.low
  · rw [if_pos hempty]
    refine replaces_none value fun v hv => ?_
    have hleast := (next_spec c.low).2.2 v hv.1 hv.2.2
    have hhigh := hv.2.1
    omega
  · rw [if_neg hempty]
    have hfirst := allowed_next (not_lt.1 hempty)
    by_cases hallowed : c.Allowed value
    · rw [if_pos hallowed]
      exact replaces_some hallowed fun _ => rfl
    · rw [if_neg hallowed]
      have hnot : ∀ {r : ℕ}, c.Allowed value → r = value := fun h => absurd h hallowed
      cases aligns with
      | true =>
        rw [if_pos rfl]
        split_ifs with hmasked
        · exact replaces_some ⟨hmasked.1, hmasked.2, clear_and value c.mask⟩ hnot
        · exact replaces_some hfirst hnot
      | false =>
        rw [if_neg Bool.false_ne_true]
        split_ifs with habove
        · exact replaces_some hfirst hnot
        · -- the search began inside the interval and did not leave it
          obtain ⟨hge, hmask, -⟩ := @next_spec c (c.low + value % (c.high - c.low + 1))
          exact replaces_some ⟨by omega, not_lt.1 habove, hmask (not_lt.1 habove)⟩ hnot

/-- **What takes a value's place is legal**, and a legal value stays. -/
theorem replacement_spec (aligns : Bool) (value : ℕ) :
    Replaces c.Legal value (c.replacement aligns value) := by
  unfold replacement
  cases hvalues : c.values with
  | some values =>
    have hlegal : c.Legal = fun v => v ∈ c.allowedValues values := by
      funext v
      rw [mem_allowedValues, Legal, hvalues]
      simp [and_comm]
    rw [hlegal]
    exact replaceEnum_spec values value
  | none =>
    have hlegal : c.Legal = c.Allowed := by
      funext v
      rw [Legal, hvalues]
      simp
    rw [hlegal]
    exact replaceRange_spec aligns value

end SampleConstraint

/-! ## What a rule asks of a value -/

theorem clear_eq_zero_iff_and : clear w m = 0 ↔ w &&& m = w := by
  constructor
  · intro h
    have hparts := clear_or_and_self w m
    rwa [h, Nat.zero_or] at hparts
  · intro h
    rw [clear, h, Nat.xor_self]

/-- **A mask that takes the alignment in**: the low bits of a power of two. -/
theorem clear_aligned_eq_zero_iff {a : ℕ} (hpos : 0 < a) (hpow : a &&& (a - 1) = 0) :
    clear w (clear m (a - 1)) = 0 ↔ w &&& m = w ∧ a ∣ w := by
  obtain ⟨k, rfl⟩ := (Nat.and_sub_one_eq_zero_iff_isPowerOfTwo hpos.ne').1 hpow
  rw [← clear_eq_zero_iff_and, clear_eq_zero_iff, clear_eq_zero_iff]
  have hdvd : 2 ^ k ∣ w ↔ ∀ i, i < k → w.testBit i = false := by
    rw [Nat.dvd_iff_mod_eq_zero]
    constructor
    · intro hmod i hi
      have hbit := congrArg (fun n => n.testBit i) hmod
      simpa [Nat.testBit_mod_two_pow, hi] using hbit
    · intro hbits
      refine Nat.eq_of_testBit_eq fun i => ?_
      rw [Nat.testBit_mod_two_pow, Nat.zero_testBit]
      by_cases hi : i < k
      · rw [hbits i hi, Bool.and_false]
      · simp [hi]
  rw [hdvd]
  simp only [testBit_clear, Nat.testBit_two_pow_sub_one, Bool.and_eq_true, Bool.not_eq_true',
    decide_eq_false_iff_not]
  constructor
  · intro h
    refine ⟨fun i hi => (h i hi).1, fun i hlt => ?_⟩
    by_contra hi
    rw [Bool.not_eq_false] at hi
    exact (h i hi).2 hlt
  · rintro ⟨hmask, hlow⟩ i hi
    refine ⟨hmask i hi, fun hlt => ?_⟩
    rw [hlow i hlt] at hi
    cases hi

/-- What a parameter of a rule asks of a value. -/
def ParameterHolds (value : ℕ) (name : String) : ParameterValue → Prop
  | .int i => (name = "low" → i ≤ value) ∧ (name = "high" → value ≤ i) ∧
      (name = "mask" → value &&& i.toNat = value) ∧ (name = "alignment" → i ∣ value)
  | .items members => name = "values" → some (value : ℤ) ∈ members
  | .other => True

namespace ConstraintRule

variable {rule : ConstraintRule} {width : ℕ} {c : SampleConstraint}

/-- What a rule asks of a value: range, enumeration, mask and alignment. -/
def Accepts (rule : ConstraintRule) (value : ℕ) : Prop :=
  ∀ p ∈ rule.parameters, ParameterHolds value p.1 p.2

variable {name : String} {default i : ℤ} {limit v : ℕ} {values : Option (List ℕ)}

theorem number_cases (h : rule.number name default = some i) :
    (rule.parameter name = none ∧ i = default) ∨ rule.parameter name = some (.int i) := by
  unfold number at h
  cases hp : rule.parameter name with
  | none =>
    rw [hp] at h
    exact .inl ⟨rfl, (Option.some.inj h).symm⟩
  | some value =>
    rw [hp] at h
    cases value with
    | int j => rw [Option.some.inj h]; exact .inr rfl
    | items members | other => cases h

/-- **What a rule's parameters came down to.** -/
theorem constraint_eq_ok (h : rule.constraint width = .ok c) :
    ∃ low high mask alignment values, (rule.parameters.map Prod.fst).Nodup ∧
      (∀ name ∈ rule.parameters.map Prod.fst, name ∈ ["low", "high", "values", "mask", "alignment"]) ∧
      rule.number "low" 0 = some low ∧ rule.number "high" ((2 ^ width - 1 : ℕ) : ℤ) = some high ∧
      rule.number "mask" ((2 ^ width - 1 : ℕ) : ℤ) = some mask ∧ rule.number "alignment" 1 = some alignment ∧
      NumbersValid (2 ^ width - 1) low high mask alignment ∧ rule.enumeration (2 ^ width - 1) = .ok values ∧
      c = ⟨low.toNat, high.toNat, clear mask.toNat (alignment.toNat - 1), values⟩ := by
  obtain ⟨_, hcheck, h⟩ := bind_ok.1 h
  obtain ⟨⟨hnodup, hknown⟩, -⟩ := ensure_ok.1 hcheck
  dsimp only at h
  cases hlow : rule.number "low" 0 with
  | none => rw [hlow] at h; cases h
  | some low =>
    cases hhigh : rule.number "high" ((2 ^ width - 1 : ℕ) : ℤ) with
    | none => rw [hlow, hhigh] at h; cases h
    | some high =>
      cases hmask : rule.number "mask" ((2 ^ width - 1 : ℕ) : ℤ) with
      | none => rw [hlow, hhigh, hmask] at h; cases h
      | some mask =>
        cases halign : rule.number "alignment" 1 with
        | none => rw [hlow, hhigh, hmask, halign] at h; cases h
        | some alignment =>
          rw [hlow, hhigh, hmask, halign] at h
          obtain ⟨hvalid, h⟩ := ensure_ok.1 h
          obtain ⟨values, hvalues, h⟩ := bind_ok.1 h
          exact ⟨low, high, mask, alignment, values, hnodup, hknown, rfl, rfl, rfl, rfl, hvalid,
            hvalues, (Except.ok.inj h).symm⟩

/-- The members of an enumeration that was accepted. -/
theorem enumeration_spec (h : rule.enumeration limit = .ok values) :
    (rule.parameter "values" = none ∧ values = none) ∨
    ∃ members, rule.parameter "values" = some (.items members) ∧
      values = some (members.map fun item => (item.getD 0).toNat) ∧
      ∀ v : ℕ, v ∈ members.map (fun item => (item.getD 0).toNat) ↔ some (v : ℤ) ∈ members := by
  unfold enumeration at h
  cases hp : rule.parameter "values" with
  | none =>
    rw [hp] at h
    exact .inl ⟨rfl, (Except.ok.inj h).symm⟩
  | some value =>
    rw [hp] at h
    cases value with
    | int i | other => cases h
    | items members =>
      obtain ⟨⟨-, hall⟩, h⟩ := ensure_ok.1 h
      refine .inr ⟨members, rfl, (Except.ok.inj h).symm, fun v => ?_⟩
      rw [mem_map]
      constructor
      · rintro ⟨item, hitem, hv⟩
        obtain ⟨i, hi, hnonneg, -⟩ := hall item hitem
        rw [Option.mem_def.1 hi] at hitem hv
        have heq : i = v := by
          rw [Option.getD_some] at hv
          omega
        rwa [← heq]
      · intro hv
        exact ⟨some v, hv, rfl⟩

/-- What a number of a rule asks, given or by default. -/
theorem number_holds_iff {P : ℤ → Prop} (h : rule.number name default = some i)
    (hint : ∀ j, ParameterHolds v name (.int j) ↔ P j) (hdefault : P default) :
    (∀ value, rule.parameter name = some value → ParameterHolds v name value) ↔ P i := by
  rcases number_cases h with ⟨hnone, rfl⟩ | hsome
  · refine ⟨fun _ => hdefault, fun _ value hvalue => ?_⟩
    rw [hnone] at hvalue
    cases hvalue
  · rw [← hint]
    refine ⟨fun hall => hall _ hsome, fun hi value hvalue => ?_⟩
    rw [hsome] at hvalue
    rw [← Option.some.inj hvalue]
    exact hi

/-- What an enumeration asks, if there is one. -/
theorem enumeration_holds_iff (h : rule.enumeration limit = .ok values) :
    (∀ value, rule.parameter "values" = some value → ParameterHolds v "values" value) ↔
      ∀ members ∈ values, v ∈ members := by
  rcases enumeration_spec h with ⟨hnone, rfl⟩ | ⟨members, hsome, rfl, hmem⟩
  · simp [hnone]
  · rw [hsome]
    simp only [Option.some.injEq, forall_eq', Option.mem_def, hmem]
    exact ⟨fun hv => hv rfl, fun hv _ => hv⟩

/-- **The constraint is what the rule asks**, for the values of its field. -/
theorem legal_iff_accepts (h : rule.constraint width = .ok c) (hv : v < 2 ^ width) :
    c.Legal v ↔ rule.Accepts v := by
  obtain ⟨low, high, mask, alignment, values, hnodup, hknown, hlow, hhigh, hmask, halign,
    ⟨⟨hlow0, hinterval, hhighle⟩, ⟨hmask0, hmaskle⟩, hapos, hapow, -⟩, hvalues, rfl⟩ := constraint_eq_ok h
  have haccepts : rule.Accepts v ↔ ∀ name ∈ ["low", "high", "values", "mask", "alignment"],
      ∀ value, rule.parameter name = some value → ParameterHolds v name value := by
    constructor
    · intro hall name _ value hp
      exact hall (name, value) (Dict.mem_of_lookup_eq_some hp)
    · rintro hall ⟨name, value⟩ hp
      exact hall name (hknown name (mem_map_of_mem hp)) value
        (Dict.lookup_eq_some_of_mem hnodup hp)
  have hlowiff := number_holds_iff (v := v) (P := fun i => i ≤ v) hlow
    (fun j => by simp [ParameterHolds]) (Int.natCast_nonneg v)
  have hhighiff := number_holds_iff (v := v) (P := fun i => v ≤ i) hhigh
    (fun j => by simp [ParameterHolds]) (by omega)
  have hmaskiff := number_holds_iff (v := v) (P := fun i => v &&& i.toNat = v) hmask
    (fun j => by simp [ParameterHolds]) (by rw [Int.toNat_natCast]; exact and_full hv)
  have haligniff := number_holds_iff (v := v) (P := fun i => i ∣ v) halign
    (fun j => by simp [ParameterHolds]) (one_dvd _)
  have haligned := clear_aligned_eq_zero_iff (w := v) (m := mask.toNat)
    (show 0 < alignment.toNat by omega) hapow
  have hdvd : alignment.toNat ∣ v ↔ alignment ∣ (v : ℤ) := by
    rw [← Int.natCast_dvd_natCast, Int.toNat_of_nonneg hapos.le]
  rw [haccepts, SampleConstraint.Legal, SampleConstraint.Allowed]
  simp only [forall_mem_cons, not_mem_nil, false_imp_iff, implies_true, and_true, hlowiff,
    hhighiff, hmaskiff, haligniff, enumeration_holds_iff hvalues, haligned, hdvd]
  constructor
  · rintro ⟨⟨hl, hh, hm, ha⟩, hvals⟩
    exact ⟨by omega, by omega, hvals, hm, ha⟩
  · rintro ⟨hl, hh, hvals, hm, ha⟩
    exact ⟨⟨by omega, by omega, hm, ha⟩, hvals⟩

theorem constraint_interval (h : rule.constraint width = .ok c) : c.low ≤ c.high := by
  obtain ⟨low, high, mask, alignment, values, -, -, -, -, -, -, ⟨⟨-, hinterval, -⟩, -⟩, -, rfl⟩ :=
    constraint_eq_ok h
  exact Int.toNat_le_toNat hinterval

/-- A legal value fits its field. -/
theorem legal_lt (h : rule.constraint width = .ok c) (hv : c.Legal v) : v < 2 ^ width := by
  obtain ⟨low, high, mask, alignment, values, -, -, -, -, -, -, ⟨⟨-, -, hhighle⟩, -⟩, -, rfl⟩ :=
    constraint_eq_ok h
  have hhigh : v ≤ high.toNat := hv.1.2.1
  have hpos := Nat.two_pow_pos width
  omega

/-! ## Fields of a raw sample -/

/-- A bit of the raw sample is one of the rule's field. -/
def Owns (rule : ConstraintRule) (i : ℕ) : Prop := ∃ p ∈ rule.rawBits, p.1 ≤ i ∧ (i : ℤ) ≤ p.2

/-- The rule holds of its field in a raw sample. -/
def Holds (rule : ConstraintRule) (raw : ℕ) : Prop :=
  ∀ p ∈ rule.rawBits, rule.Accepts (readSegment raw p.1.toNat (p.2 - p.1 + 1).toNat)

/-- Some value of its field is one the rule accepts. -/
def Satisfiable (rule : ConstraintRule) : Prop :=
  ∀ p ∈ rule.rawBits, ∃ v, v < 2 ^ (p.2 - p.1 + 1).toNat ∧ rule.Accepts v

end ConstraintRule

namespace InputConstraintPolicy

variable {policy : InputConstraintPolicy} {rawWidth occupied lo width : ℕ} {rule : ConstraintRule}
  {c : SampleConstraint}

/-- What is known of a rule that passed its checks. -/
structure Placed (rawWidth occupied : ℕ) (rule : ConstraintRule) (lo width : ℕ)
    (c : SampleConstraint) : Prop where
  owns : ∀ i, rule.Owns i ↔ lo ≤ i ∧ i < lo + width
  holds : ∀ w, rule.Holds w ↔ c.Legal (readSegment w lo width)
  satisfiable : rule.Satisfiable ↔ ∃ v, c.Legal v
  inside : lo + width ≤ rawWidth
  apart : ∀ i, lo ≤ i → i < lo + width → occupied.testBit i = false
  legal_lt : ∀ v, c.Legal v → v < 2 ^ width
  interval : c.low ≤ c.high

/-- **A rule that passed its checks has a field of its own.** -/
theorem placed_of_sampleRule
    (h : policy.sampleRule rawWidth occupied rule = .ok (lo, width, c)) :
    Placed rawWidth occupied rule lo width c := by
  obtain ⟨_, -, ⟨lo', width'⟩, hfield, h⟩ := bind_ok₂ h
  obtain ⟨hfree, h⟩ := ensure_ok.1 h
  obtain ⟨c', hc, h⟩ := bind_ok.1 h
  obtain ⟨rfl, hrest⟩ := Prod.mk.inj (Except.ok.inj h)
  obtain ⟨rfl, rfl⟩ := Prod.mk.inj hrest
  unfold sampleField at hfield
  cases hbits : rule.rawBits with
  | nil => rw [hbits] at hfield; cases hfield
  | cons p rest =>
    cases rest with
    | cons p' rest => rw [hbits] at hfield; cases hfield
    | nil =>
      obtain ⟨first, last⟩ := p
      rw [hbits] at hfield
      obtain ⟨-, ⟨hfirst, hle, hlast⟩, hfield⟩ := ensure_ok₂ hfield
      cases Except.ok.inj hfield
      have haccepts : ∀ v, v < 2 ^ (last - first + 1).toNat → (c'.Legal v ↔ rule.Accepts v) :=
        fun v hv => legal_iff_accepts hc hv
      refine ⟨fun i => ?_, fun w => ?_, ?_, by omega, fun i hlow hhigh => ?_,
        fun v hv => legal_lt hc hv, constraint_interval hc⟩
      · rw [ConstraintRule.Owns, hbits]
        simp only [mem_singleton, exists_eq_left]
        omega
      · rw [ConstraintRule.Holds, hbits]
        simp only [mem_singleton, forall_eq]
        exact (haccepts _ (readSegment_lt _ _ _)).symm
      · rw [ConstraintRule.Satisfiable, hbits]
        simp only [mem_singleton, forall_eq]
        constructor
        · rintro ⟨v, hv, hall⟩
          exact ⟨v, (haccepts v hv).2 hall⟩
        · rintro ⟨v, hv⟩
          have hlt := legal_lt hc hv
          exact ⟨v, hlt, (haccepts v hlt).1 hv⟩
      · have hbit := congrArg (fun n => n.testBit i) hfree
        have hin : i - first.toNat < (last - first + 1).toNat := by omega
        simpa [Nat.testBit_shiftLeft, Nat.testBit_two_pow_sub_one, hlow, hin] using hbit

/-- The bits of a field are occupied after it. -/
theorem testBit_occupied (occupied lo width i : ℕ) :
    (occupied ||| (2 ^ width - 1) <<< lo).testBit i = true ↔
      occupied.testBit i = true ∨ (lo ≤ i ∧ i < lo + width) := by
  rw [Nat.testBit_or, Nat.testBit_shiftLeft, Nat.testBit_two_pow_sub_one, Bool.or_eq_true,
    Bool.and_eq_true, decide_eq_true_eq, decide_eq_true_eq]
  refine or_congr_right (and_congr_right fun hlow => ?_)
  omega

theorem readSegment_writeSegment (w lo : ℕ) {width : ℕ} (h : value < 2 ^ width) :
    readSegment (writeSegment w lo width value) lo width = value := by
  refine Nat.eq_of_testBit_eq fun i => ?_
  rw [testBit_readSegment, testBit_writeSegment w h]
  by_cases hi : i < width
  · simp [hi]
  · rw [Nat.testBit_eq_false_of_lt (h.trans_le (Nat.pow_le_pow_right Nat.two_pos (not_lt.1 hi)))]
    simp [hi]

theorem writeSegment_readSegment (w lo width : ℕ) : writeSegment w lo width (readSegment w lo width) = w := by
  refine Nat.eq_of_testBit_eq fun i => ?_
  rw [testBit_writeSegment w (readSegment_lt w lo width)]
  split_ifs with hi
  · rw [testBit_readSegment]
    have hlt : i - lo < width := by omega
    have hplace : lo + (i - lo) = i := by omega
    simp [hlt, hplace]
  · rfl

/-- Reading a segment looks at its bits only. -/
theorem readSegment_congr {w' lo width : ℕ} (h : ∀ i, lo ≤ i → i < lo + width → w.testBit i = w'.testBit i) :
    readSegment w lo width = readSegment w' lo width := by
  refine Nat.eq_of_testBit_eq fun i => ?_
  rw [testBit_readSegment, testBit_readSegment]
  by_cases hi : i < width
  · rw [h (lo + i) (by omega) (by omega)]
  · simp [hi]

/-! ## Projection -/

/-- What projecting along some rules does. -/
structure Projected (rawWidth occupied : ℕ) (rules : List ConstraintRule) (raw projected : ℕ) : Prop where
  holds : ∀ rule ∈ rules, rule.Required → rule.Holds projected
  outside : ∀ i, (∀ rule ∈ rules, rule.Required → ¬ rule.Owns i) → projected.testBit i = raw.testBit i
  apart : ∀ rule ∈ rules, rule.Required → ∀ i, rule.Owns i → occupied.testBit i = false
  inside : ∀ rule ∈ rules, rule.Required → ∀ i, rule.Owns i → i < rawWidth

variable {rules : List ConstraintRule} {projected raw : ℕ}

/-- **Every required rule holds after the projection, and no other bit has changed.** -/
theorem project_spec (h : policy.project rawWidth rules occupied raw = .ok projected) :
    Projected rawWidth occupied rules raw projected := by
  induction rules generalizing occupied raw with
  | nil =>
    rw [← Except.ok.inj h]
    exact ⟨nofun, fun _ _ => rfl, nofun, nofun⟩
  | cons rule rules ih =>
    rw [project] at h
    split_ifs at h with hreq
    · obtain ⟨⟨lo, width, c⟩, hrule, h⟩ := bind_ok.1 h
      have hplaced := placed_of_sampleRule hrule
      dsimp only at h
      cases hrep : c.replacement (rule.primitive = "value_mask_align") (readSegment raw lo width) with
      | none => rw [hrep] at h; cases h
      | some value =>
        rw [hrep] at h
        obtain ⟨hlegal, -⟩ := (c.replacement_spec _ _).1 value hrep
        have hlt := hplaced.legal_lt value hlegal
        have hrest := ih h
        -- the field of the rule is occupied, so no later rule writes it
        have hkept : ∀ i, lo ≤ i → i < lo + width → projected.testBit i
            = (writeSegment raw lo width value).testBit i := by
          intro i hlow hhigh
          refine hrest.outside i fun rule' hrule' hreq' howns => ?_
          have hfree := hrest.apart rule' hrule' hreq' i howns
          rw [(testBit_occupied occupied lo width i).2 (.inr ⟨hlow, hhigh⟩)] at hfree
          cases hfree
        refine ⟨fun rule' hrule' hreq' => ?_, fun i hout => ?_, fun rule' hrule' hreq' i howns => ?_,
          fun rule' hrule' hreq' i howns => ?_⟩
        · rcases mem_cons.1 hrule' with rfl | hrule'
          · rw [hplaced.holds, readSegment_congr hkept, readSegment_writeSegment raw lo hlt]
            exact hlegal
          · exact hrest.holds rule' hrule' hreq'
        · rw [hrest.outside i fun rule' hrule' => hout rule' (.tail _ hrule'),
            testBit_writeSegment raw hlt, if_neg]
          exact fun hin => hout rule mem_cons_self hreq ((hplaced.owns i).2 hin)
        · rcases mem_cons.1 hrule' with rfl | hrule'
          · obtain ⟨hlow, hhigh⟩ := (hplaced.owns i).1 howns
            exact hplaced.apart i hlow hhigh
          · have hfree := hrest.apart rule' hrule' hreq' i howns
            rw [Nat.testBit_or, Bool.or_eq_false_iff] at hfree
            exact hfree.1
        · rcases mem_cons.1 hrule' with rfl | hrule'
          · have hin := ((hplaced.owns i).1 howns).2
            have hfits := hplaced.inside
            omega
          · exact hrest.inside rule' hrule' hreq' i howns
    · have hrest := ih h
      have hmem : ∀ {P : ConstraintRule → Prop}, (∀ r ∈ rules, r.Required → P r) →
          ∀ r ∈ rule :: rules, r.Required → P r := by
        intro P hP r hr hreq'
        rcases mem_cons.1 hr with rfl | hr
        · exact absurd hreq' hreq
        · exact hP r hr hreq'
      exact ⟨hmem hrest.holds, fun i hout => hrest.outside i fun r hr =>
        hout r (.tail _ hr), hmem hrest.apart, hmem hrest.inside⟩

/-- **A sample of which every rule holds is kept**, where the rules were applied to another one. -/
theorem project_of_holds {legal : ℕ} (h : policy.project rawWidth rules occupied raw = .ok projected)
    (hlegal : ∀ rule ∈ rules, rule.Required → rule.Holds legal) :
    policy.project rawWidth rules occupied legal = .ok legal := by
  induction rules generalizing occupied raw with
  | nil => rfl
  | cons rule rules ih =>
    have htail := fun r hr => hlegal r (.tail _ hr)
    rw [project] at h ⊢
    split_ifs at h ⊢ with hreq
    · obtain ⟨⟨lo, width, c⟩, hrule, h⟩ := bind_ok.1 h
      have hplaced := placed_of_sampleRule hrule
      have hhead := (hplaced.holds legal).1 (hlegal rule mem_cons_self hreq)
      rw [hrule, ok_bind]
      dsimp only at h ⊢
      obtain ⟨hkeep, hnone⟩ := c.replacement_spec (rule.primitive = "value_mask_align")
        (readSegment legal lo width)
      cases hrep : c.replacement (rule.primitive = "value_mask_align") (readSegment legal lo width) with
      | none => exact absurd ⟨_, hhead⟩ (hnone.1 hrep)
      | some value =>
        rw [(hkeep value hrep).2 hhead]
        dsimp only
        rw [writeSegment_readSegment]
        cases hrep' : c.replacement (rule.primitive = "value_mask_align")
            (readSegment raw lo width) with
        | none => rw [hrep'] at h; cases h
        | some value' =>
          rw [hrep'] at h
          exact ih h htail
    · exact ih h htail

/-- The required rules pass every check but satisfiability: each is applicable, bound to a field of its
own, and has parameters that make a constraint. -/
def WellFormed (policy : InputConstraintPolicy) (rawWidth : ℕ) : ℕ → List ConstraintRule → Prop
  | _, [] => True
  | occupied, rule :: rules =>
      if rule.Required then
        ∃ lo width c, policy.sampleRule rawWidth occupied rule = .ok (lo, width, c) ∧
          WellFormed policy rawWidth (occupied ||| (2 ^ width - 1) <<< lo) rules
      else WellFormed policy rawWidth occupied rules

/-- **Well-formed rules project, or one of them has no value.** -/
theorem project_or_unsatisfiable (h : policy.WellFormed rawWidth occupied rules) (raw : ℕ) :
    ((∃ projected, policy.project rawWidth rules occupied raw = .ok projected) ∧
      ∀ rule ∈ rules, rule.Required → rule.Satisfiable) ∨
    ∃ rule ∈ rules, rule.Required ∧ ¬ rule.Satisfiable ∧
      policy.project rawWidth rules occupied raw = .error (rule.error "sample-unsatisfiable") := by
  induction rules generalizing occupied raw with
  | nil => exact .inl ⟨⟨raw, rfl⟩, nofun⟩
  | cons rule rules ih =>
    rw [WellFormed] at h
    rw [project]
    split_ifs at h ⊢ with hreq
    · obtain ⟨lo, width, c, hrule, hrest⟩ := h
      have hplaced := placed_of_sampleRule hrule
      rw [hrule, ok_bind]
      dsimp only
      obtain ⟨hsome, hnone⟩ := c.replacement_spec (rule.primitive = "value_mask_align")
        (readSegment raw lo width)
      cases hrep : c.replacement (rule.primitive = "value_mask_align") (readSegment raw lo width) with
      | none =>
        have hunsat : ¬ rule.Satisfiable := fun hsat =>
          hnone.1 hrep (hplaced.satisfiable.1 hsat)
        exact .inr ⟨rule, .head _, hreq, hunsat, rfl⟩
      | some value =>
        have hsat : rule.Satisfiable := hplaced.satisfiable.2 ⟨value, (hsome value hrep).1⟩
        rcases ih hrest (writeSegment raw lo width value) with ⟨hok, hall⟩ | ⟨bad, hmem, hbad⟩
        · refine .inl ⟨hok, fun rule' hrule' hreq' => ?_⟩
          rcases mem_cons.1 hrule' with rfl | hrule'
          · exact hsat
          · exact hall rule' hrule' hreq'
        · exact .inr ⟨bad, .tail _ hmem, hbad⟩
    · rcases ih h raw with ⟨hok, hall⟩ | ⟨bad, hmem, hbad⟩
      · refine .inl ⟨hok, fun rule' hrule' hreq' => ?_⟩
        rcases mem_cons.1 hrule' with rfl | hrule'
        · exact absurd hreq' hreq
        · exact hall rule' hrule' hreq'
      · exact .inr ⟨bad, .tail _ hmem, hbad⟩

/-- A projected sample is as wide as the raw one. -/
theorem Projected.lt (h : Projected rawWidth occupied rules raw projected)
    (hraw : raw < 2 ^ rawWidth) : projected < 2 ^ rawWidth := by
  refine Nat.lt_pow_two_of_testBit projected fun i hi => ?_
  rw [h.outside i fun rule hrule hreq howns => ?_]
  · exact Nat.testBit_eq_false_of_lt (hraw.trans_le (Nat.pow_le_pow_right Nat.two_pos hi))
  · have hin := h.inside rule hrule hreq i howns
    omega

theorem projectSampleValues_eq_ok {raw rawWidth projected : ℤ} :
    policy.projectSampleValues raw rawWidth = .ok projected ↔
      (0 < rawWidth ∧ 0 ≤ raw ∧ raw < 2 ^ rawWidth.toNat) ∧
      ∃ w : ℕ, policy.project rawWidth.toNat policy.rules 0 raw.toNat = .ok w ∧ projected = w := by
  unfold projectSampleValues
  rw [ensure_ok]
  refine and_congr_right fun _ => ?_
  rw [bind_ok]
  refine exists_congr fun w => and_congr_right fun _ => ?_
  exact ⟨fun h => (Except.ok.inj h).symm, fun h => congrArg Except.ok h.symm⟩

/-- **Sample projection is a retraction onto the legal samples.** The result meets every rule and differs in
ruled fields only, a legal sample is returned as it is, and well-formed rules are refused exactly when no
value meets them. -/
theorem projectSampleValues_retraction (policy : InputConstraintPolicy) (raw rawWidth : ℤ) :
    (∀ projected, policy.projectSampleValues raw rawWidth = .ok projected →
      (∀ rule ∈ policy.rules, rule.Required → rule.Holds projected.toNat) ∧
      (∀ i, (∀ rule ∈ policy.rules, rule.Required → ¬ rule.Owns i) →
        projected.toNat.testBit i = raw.toNat.testBit i) ∧
      ((∀ rule ∈ policy.rules, rule.Required → rule.Holds raw.toNat) → projected = raw) ∧
      (0 ≤ projected ∧ projected < 2 ^ rawWidth.toNat) ∧
      policy.projectSampleValues projected rawWidth = .ok projected) ∧
    (0 < rawWidth → 0 ≤ raw → raw < 2 ^ rawWidth.toNat → policy.WellFormed rawWidth.toNat 0 policy.rules →
      ((∃ rule ∈ policy.rules, rule.Required ∧
          policy.projectSampleValues raw rawWidth = .error (rule.error "sample-unsatisfiable")) ↔
        ∃ rule ∈ policy.rules, rule.Required ∧ ¬ rule.Satisfiable)) := by
  constructor
  · intro projected h
    obtain ⟨⟨hwidth, hraw0, hrawlt⟩, w, hproject, rfl⟩ := projectSampleValues_eq_ok.mp h
    have hspec := project_spec hproject
    have hlt : w < 2 ^ rawWidth.toNat := hspec.lt (by
      have hcast : ((raw.toNat : ℕ) : ℤ) < ((2 ^ rawWidth.toNat : ℕ) : ℤ) := by
        rw [Int.toNat_of_nonneg hraw0]
        exact_mod_cast hrawlt
      exact_mod_cast hcast)
    have hrange : (0 : ℤ) ≤ w ∧ (w : ℤ) < 2 ^ rawWidth.toNat := ⟨Int.natCast_nonneg w, by exact_mod_cast hlt⟩
    refine ⟨hspec.holds, hspec.outside, fun hlegal => ?_, hrange, ?_⟩
    · rw [project_of_holds hproject hlegal] at hproject
      rw [← Except.ok.inj hproject, Int.toNat_of_nonneg hraw0]
    · exact projectSampleValues_eq_ok.mpr
        ⟨⟨hwidth, hrange⟩, w, project_of_holds hproject hspec.holds, rfl⟩
  · intro hwidth hraw0 hrawlt hwell
    have hcases := project_or_unsatisfiable hwell raw.toNat
    have hresult : policy.projectSampleValues raw rawWidth
        = (policy.project rawWidth.toNat policy.rules 0 raw.toNat >>= fun w => pure (w : ℤ)) := by
      unfold projectSampleValues
      rw [ensure_of ⟨hwidth, hraw0, hrawlt⟩, ok_bind]
    rcases hcases with ⟨⟨w, hok⟩, hall⟩ | ⟨rule, hmem, hreq, hunsat, herror⟩
    · rw [hresult, hok]
      constructor
      · rintro ⟨_, -, -, h⟩
        cases h
      · rintro ⟨rule, hmem, hreq, hunsat⟩
        exact absurd (hall rule hmem hreq) hunsat
    · rw [hresult, herror]
      exact ⟨fun _ => ⟨rule, hmem, hreq, hunsat⟩, fun _ => ⟨rule, hmem, hreq, rfl⟩⟩

/-- A policy with one rule: a range, a mask and an alignment of one field. -/
def examplePolicy : InputConstraintPolicy where
  legacyModes := []
  rules := [{
    ruleId := "burst"
    category := "environment_hard"
    owner := "environment"
    primitive := "value_range"
    phase := "sample"
    fields := ["burst"]
    readSet := []
    writeSet := ["burst"]
    rawBits := [(4, 7)]
    parameters := [("low", .int 3), ("high", .int 12), ("mask", .int 14), ("alignment", .int 4)]
    stateBits := 0
    appliesInModes := [] }]

theorem example_projected_twice :
    examplePolicy.projectSampleValues 0xF5 8 = .ok 0x85 ∧
      examplePolicy.projectSampleValues 0x85 8 = .ok 0x85 := by
  have hfirst : examplePolicy.projectSampleValues 0xF5 8 = .ok 0x85 := by decide +kernel
  exact ⟨hfirst, ((projectSampleValues_retraction examplePolicy 0xF5 8).1 0x85 hfirst).2.2.2.2⟩

end InputConstraintPolicy

end MyFuzz
