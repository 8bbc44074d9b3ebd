import MyFuzz.Composition.RuntimeProjection
import MyFuzz.Composition.SampleProjection
import MyFuzz.Isa.Repair

/-!
# Composition/RuntimeFields — what the value of one field satisfies

A checked field keeps what its constraint was read from (`Checked`).  Every value that is selected
for it is in its range, aligned and under its mask, however the value was found:

    candidates = enumeration     (no range, or no mask)
    candidates = grid            (a range and a mask)
    range and alignment          (neither)

It is in the enumeration too, except where the grid has taken the place of the enumeration.
-/

namespace MyFuzz

namespace Composition

open BitField Outcome LayoutField

variable {value : ℤ} {isa : Option IsaContract} {field : LayoutField}

namespace LayoutField

variable {field : LayoutField}

/-! ## Reading a constraint -/

variable {d : Dict String ConstraintValue} {key : String} {alignment : ℕ} {mask : Option ℕ}
  {bounds : Option (ℤ × ℤ)} {u : Unit}

theorem getD_of_get? {value default : ConstraintValue} (h : d.get? key = some value) :
    d.getD key default = value := by
  rw [Dict.getD, h]
  rfl

/-- A value other than the default stands in the dictionary. -/
theorem get?_of_getD {value : ConstraintValue} (hne : value ≠ .none)
    (h : d.getD key .none = value) : d.get? key = some value := by
  rw [Dict.getD] at h
  cases hget : d.get? key with
  | none =>
    rw [hget] at h
    exact absurd h.symm hne
  | some found =>
    rw [hget] at h
    exact congrArg some h

theorem readAlignment_eq_ok (h : field.readAlignment = .ok alignment) :
    (∃ k ≤ field.width, alignment = 2 ^ k) ∧
    ∀ n, field.constraint.get? "alignment" = some (.int n) → n = alignment := by
  unfold readAlignment at h
  have hread : ∀ n : ℤ, (if 0 < n ∧ n.toNat &&& (n.toNat - 1) = 0 ∧ n ≤ 2 ^ field.width then
      Except.ok n.toNat else .error (.valueError "invalid runtime alignment") : Except Exn ℕ) =
        .ok alignment → (∃ k ≤ field.width, alignment = 2 ^ k) ∧ n = alignment := by
    intro n h
    split_ifs at h with hn
    obtain ⟨hpos, hpow, hle⟩ := hn
    cases h
    obtain ⟨k, hk⟩ := (Nat.and_sub_one_eq_zero_iff_isPowerOfTwo (by omega)).1 hpow
    refine ⟨⟨k, ?_, hk⟩, (Int.toNat_of_nonneg hpos.le).symm⟩
    rw [← Int.toNat_of_nonneg hpos.le, hk] at hle
    exact (Nat.pow_le_pow_iff_right Nat.one_lt_two).1 (by exact_mod_cast hle)
  cases hvalue : field.constraint.getD "alignment" (.int 1) with
  | int n =>
    rw [hvalue] at h
    obtain ⟨hpow, hn⟩ := hread n h
    refine ⟨hpow, fun m hm => ?_⟩
    rw [getD_of_get? hm] at hvalue
    exact (ConstraintValue.int.inj hvalue).trans hn
  | _ => rw [hvalue] at h; cases h

theorem readMask_eq_ok (h : field.readMask = .ok mask) :
    (∀ m, mask = some m → m < 2 ^ field.width) ∧
    ∀ n : ℤ, field.constraint.get? "mask" = some (.int n) → mask = some n.toNat := by
  unfold readMask at h
  cases hvalue : field.constraint.getD "mask" .none with
  | none =>
    rw [hvalue] at h
    cases h
    refine ⟨fun m hm => (by cases hm), fun n hn => ?_⟩
    rw [getD_of_get? hn] at hvalue
    cases hvalue
  | int n =>
    rw [hvalue] at h
    simp only at h
    split_ifs at h with hn
    cases h
    refine ⟨fun m hm => ?_, fun m hm => ?_⟩
    · cases hm
      have := hn.2
      zify
      rwa [Int.toNat_of_nonneg hn.1]
    · rw [getD_of_get? hm] at hvalue
      rw [ConstraintValue.int.inj hvalue]
  | _ => rw [hvalue] at h; cases h

/-- A range that was read. -/
def RangeOk (field : LayoutField) (alignment : ℕ) (low high : ℤ) : Prop :=
  field.minimum ≤ low ∧ low ≤ high ∧ high ≤ field.maximum ∧ (alignment : ℤ) ∣ low ∧ (alignment : ℤ) ∣ high

theorem readRange_eq_ok (h : field.readRange alignment = .ok bounds) :
    (∀ low high, bounds = some (low, high) → field.RangeOk alignment low high) ∧
    ∀ low high, field.constraint.get? "range" = some (.sequence [some low, some high]) →
      bounds = some (low, high) := by
  unfold readRange at h
  split at h
  · rename_i hvalue
    cases h
    refine ⟨fun _ _ hb => (by cases hb), fun low high hn => ?_⟩
    rw [getD_of_get? hn] at hvalue
    cases hvalue
  · rename_i low high hvalue
    split_ifs at h with hrange
    cases h
    refine ⟨fun _ _ hb => ?_, fun low' high' hn => ?_⟩
    · cases hb
      exact hrange
    · rw [getD_of_get? hn] at hvalue
      cases hvalue
      rfl
  · cases h

/-- What an enumeration was checked against. -/
def EnumOk (field : LayoutField) (alignment : ℕ) (mask : Option ℕ) (bounds : Option (ℤ × ℤ))
    (enum : List ℤ) : Prop :=
  (∀ value ∈ enum, field.minimum ≤ value ∧ value ≤ field.maximum) ∧
  (∀ value ∈ enum, (alignment : ℤ) ∣ value) ∧ (∀ b ∈ bounds, ∀ value ∈ enum, b.1 ≤ value ∧ value ≤ b.2) ∧
  ∀ m ∈ mask, ∀ value ∈ enum, clear (field.bits value) m = 0

theorem checkEnum_eq_ok {enum : List ℤ} (h : field.checkEnum alignment mask bounds enum = .ok u) :
    field.EnumOk alignment mask bounds enum := by
  obtain ⟨hwidth, haligned, hbounds, h⟩ := ensure_ok₃ h
  exact ⟨hwidth, haligned, hbounds, ensure_eq_ok.1 h⟩

/-- The integers of a sequence are its items. -/
theorem mem_integers {items : List (Option ℤ)} {values : List ℤ}
    (h : integers items = some values) : value ∈ values ↔ some value ∈ items := by
  unfold integers at h
  induction items generalizing values with
  | nil =>
    cases h
    exact iff_of_false List.not_mem_nil List.not_mem_nil
  | cons item items ih =>
    rw [List.mapM_cons] at h
    cases item with
    | none => cases h
    | some n =>
      cases hrest : items.mapM id with
      | none => rw [hrest] at h; cases h
      | some rest =>
        rw [hrest] at h
        cases h
        rw [List.mem_cons, List.mem_cons, ih hrest, Option.some.injEq]

theorem readEnum_eq_ok {enum : Option (List ℤ)} (h : field.readEnum alignment mask bounds = .ok enum) :
    (∀ e, enum = some e → (e ≠ [] ∧ e.Nodup ∧ field.EnumOk alignment mask bounds e) ∧
      ∃ items, field.constraint.get? "enum" = some (.sequence items) ∧ integers items = some e) ∧
    ∀ items, field.constraint.get? "enum" = some (.sequence items) →
      ∃ e, enum = some e ∧ integers items = some e := by
  unfold readEnum at h
  cases hvalue : field.constraint.getD "enum" .none with
  | none =>
    rw [hvalue] at h
    cases h
    refine ⟨fun _ he => (by cases he), fun items hn => ?_⟩
    rw [getD_of_get? hn] at hvalue
    cases hvalue
  | sequence items =>
    rw [hvalue] at h
    simp only at h
    cases hitems : integers items with
    | none => rw [hitems] at h; cases h
    | some values =>
      rw [hitems] at h
      simp only at h
      split_ifs at h with hvalid
      obtain ⟨u, hcheck, h⟩ := bind_ok.1 h
      cases h
      have hget := get?_of_getD (by intro heq; cases heq) hvalue
      refine ⟨fun e he => ?_, fun other hn => ?_⟩
      · cases he
        exact ⟨⟨hvalid.1, hvalid.2, checkEnum_eq_ok hcheck⟩, items, hget, hitems⟩
      · rw [getD_of_get? hn] at hvalue
        rw [ConstraintValue.sequence.inj hvalue]
        exact ⟨values, rfl, hitems⟩
  | _ => rw [hvalue] at h; cases h

theorem readCandidates_eq_ok {c : FieldConstraint} {candidates : List ℤ}
    (h : field.readCandidates c = .ok candidates) :
    (∀ mask low high, c.mask = some mask → c.bounds = some (low, high) →
      candidates = field.grid c.alignment low high mask ∧ candidates ≠ []) ∧
    (c.mask = none ∨ c.bounds = none → candidates = c.enum.getD []) := by
  unfold readCandidates at h
  cases hmask : c.mask with
  | none =>
    rw [hmask] at h
    exact ⟨fun _ _ _ hm => (by cases hm), fun _ => (Except.ok.inj h).symm⟩
  | some mask =>
    cases hbounds : c.bounds with
    | none =>
      rw [hmask, hbounds] at h
      exact ⟨fun _ _ _ _ hb => (by cases hb), fun _ => (Except.ok.inj h).symm⟩
    | some bounds =>
      obtain ⟨low, high⟩ := bounds
      rw [hmask, hbounds] at h
      obtain ⟨-, hne, h⟩ := ensure_ok₂ h
      cases h
      refine ⟨fun _ _ _ hm hb => ?_, fun hnone => ?_⟩
      · cases hm
        cases hb
        exact ⟨rfl, hne⟩
      · rcases hnone with hnone | hnone
        · cases hnone
        · cases hnone

theorem readGate_eq_ok {fields : List LayoutField} {gatedBy : Option String}
    (h : field.readGate fields bounds = .ok gatedBy) :
    (∀ gate, gatedBy = some gate → field.role ≠ "valid" ∧
      ∃ other ∈ fields, other.fieldId = gate ∧ other.width = 1 ∧ other.role = "valid") ∧
    ∀ gate, field.constraint.get? "gated_by" = some (.text gate) ↔ gatedBy = some gate := by
  unfold readGate at h
  cases hvalue : field.constraint.getD "gated_by" .none with
  | none =>
    rw [hvalue] at h
    cases h
    refine ⟨fun _ hgate => (by cases hgate), fun gate => ⟨fun hn => ?_, fun hgate => (by cases hgate)⟩⟩
    rw [getD_of_get? hn] at hvalue
    cases hvalue
  | text name =>
    rw [hvalue] at h
    simp only at h
    split_ifs at h with hvalid
    obtain ⟨-, h⟩ := ensure_ok.1 h
    cases h
    obtain ⟨other, hin, hid, hwidth, hrole, -, hne⟩ := hvalid
    have hget := get?_of_getD (by intro heq; cases heq) hvalue
    refine ⟨fun gate hgate => ?_, fun gate => ?_⟩
    · cases hgate
      exact ⟨hne, other, hin, hid, hwidth, hrole⟩
    · rw [hget, Option.some.injEq, Option.some.injEq, ConstraintValue.text.injEq]
  | _ => rw [hvalue] at h; cases h

/-- An instruction field declares nothing else, and its contract is implemented. -/
def InstructionOk (field : LayoutField) (isa : Option IsaContract) : Prop :=
  (∀ key ∈ field.constraint.keys, key = "randomizable") ∧
  ∃ contract, isa = some contract ∧ contract.SupportsLegalInstructionValidation ∧
    (field.width = 16 ∨ field.width = 32) ∧
    (field.width = 16 → "C" ∈ contract.extensions ∧ contract.instructionAlignment = 2)

theorem checkInstruction_eq_ok (h : field.checkInstruction isa = .ok u) : field.InstructionOk isa := by
  obtain ⟨⟨hkeys, -⟩, h⟩ := ensure_ok.1 h
  cases isa with
  | none => cases h
  | some contract =>
    obtain ⟨⟨hsupports, hwidth⟩, h⟩ := ensure_ok.1 h
    exact ⟨hkeys, contract, rfl, hsupports, hwidth, ensure_eq_ok.1 h⟩

end LayoutField

/-- **What a checked field keeps.** -/
structure RuntimeField.Checked (fields : List LayoutField) (isa : Option IsaContract) (f : RuntimeField) :
    Prop where
  aligned : ∃ k ≤ f.field.width, f.constraint.alignment = 2 ^ k
  range : ∀ low high, f.constraint.bounds = some (low, high) → f.field.RangeOk f.constraint.alignment low high
  enum : ∀ e, f.constraint.enum = some e →
    e ≠ [] ∧ e.Nodup ∧ f.field.EnumOk f.constraint.alignment f.constraint.mask f.constraint.bounds e
  grid : ∀ mask low high, f.constraint.mask = some mask → f.constraint.bounds = some (low, high) →
    f.candidates = f.field.grid f.constraint.alignment low high mask ∧ f.candidates ≠ []
  listed : f.constraint.mask = none ∨ f.constraint.bounds = none → f.candidates = f.constraint.enum.getD []
  gate : ∀ gate, f.constraint.gatedBy = some gate → f.field.role ≠ "valid" ∧
    ∃ other ∈ fields, other.fieldId = gate ∧ other.width = 1 ∧ other.role = "valid"
  instruction : f.field.encoding = "riscv_imc" → f.field.InstructionOk isa
  readsAlignment : ∀ n : ℤ, f.field.constraint.get? "alignment" = some (.int n) → n = f.constraint.alignment
  readsMask : ∀ n : ℤ, f.field.constraint.get? "mask" = some (.int n) → f.constraint.mask = some n.toNat
  readsRange : ∀ low high, f.field.constraint.get? "range" = some (.sequence [some low, some high]) →
    f.constraint.bounds = some (low, high)
  readsEnum : ∀ items, f.field.constraint.get? "enum" = some (.sequence items) →
    ∃ e, f.constraint.enum = some e ∧ LayoutField.integers items = some e
  declaresEnum : ∀ e, f.constraint.enum = some e → ∃ items,
    f.field.constraint.get? "enum" = some (.sequence items) ∧ LayoutField.integers items = some e
  readsGate : ∀ gate, f.field.constraint.get? "gated_by" = some (.text gate) ↔
    f.constraint.gatedBy = some gate

/-- What a field was read as when it passes its checks. -/
theorem LayoutField.reads_of_check {layout : InputLayout} {requireCompilerProvenance : Bool}
    {f : RuntimeField} (h : field.check layout isa requireCompilerProvenance = .ok f) :
    f.field = field ∧ (field.encoding = "riscv_imc" → field.InstructionOk isa) ∧
    field.readAlignment = .ok f.constraint.alignment ∧ field.readMask = .ok f.constraint.mask ∧
    field.readRange f.constraint.alignment = .ok f.constraint.bounds ∧
    field.readEnum f.constraint.alignment f.constraint.mask f.constraint.bounds = .ok f.constraint.enum ∧
    field.readCandidates { f.constraint with gatedBy := none } = .ok f.candidates ∧
    field.readGate layout.fields f.constraint.bounds = .ok f.constraint.gatedBy := by
  obtain ⟨-, -, -, h⟩ := ensure_ok₃ h
  obtain ⟨-, -, h⟩ := ensure_ok₂ h
  have hinstruction : (field.encoding = "riscv_imc" → field.InstructionOk isa) ∧ (do
      let alignment ← field.readAlignment
      let mask ← field.readMask
      let bounds ← field.readRange alignment
      let enum ← field.readEnum alignment mask bounds
      let candidates ← field.readCandidates ⟨alignment, mask, bounds, enum, none⟩
      let gatedBy ← field.readGate layout.fields bounds
      field.checkByteEnable layout.fields
      return (⟨field, ⟨alignment, mask, bounds, enum, gatedBy⟩, candidates⟩ : RuntimeField)) =
        Except.ok f := by
    split_ifs at h with hencoding
    · obtain ⟨u, hcheck, h⟩ := bind_ok.1 h
      exact ⟨fun _ => checkInstruction_eq_ok hcheck, h⟩
    · exact ⟨fun heq => absurd heq hencoding, h⟩
  obtain ⟨hinstruction, h⟩ := hinstruction
  obtain ⟨alignment, halignment, mask, hmask, bounds, hbounds, h⟩ := bind_ok₃ h
  obtain ⟨enum, henum, candidates, hcandidates, h⟩ := bind_ok₂ h
  obtain ⟨gatedBy, hgate, _, -, h⟩ := bind_ok₂ h
  cases h
  exact ⟨rfl, hinstruction, halignment, hmask, hbounds, henum, hcandidates, hgate⟩

/-- **A field that passes its checks.** -/
theorem LayoutField.check_eq_ok {layout : InputLayout} {requireCompilerProvenance : Bool}
    {f : RuntimeField} (h : field.check layout isa requireCompilerProvenance = .ok f) :
    f.field = field ∧ f.Checked layout.fields isa := by
  obtain ⟨rfl, hinstruction, halignment, hmask, hbounds, henum, hcandidates, hgate⟩ := reads_of_check h
  obtain ⟨hgrid, hlisted⟩ := readCandidates_eq_ok hcandidates
  obtain ⟨henumOk, hreadsEnum⟩ := readEnum_eq_ok henum
  obtain ⟨hgateOk, hreadsGate⟩ := readGate_eq_ok hgate
  exact ⟨rfl, (readAlignment_eq_ok halignment).1, (readRange_eq_ok hbounds).1,
    fun e he => (henumOk e he).1, hgrid, hlisted, hgateOk, hinstruction, (readAlignment_eq_ok halignment).2,
    (readMask_eq_ok hmask).2, (readRange_eq_ok hbounds).2, hreadsEnum, fun e he => (henumOk e he).2,
    hreadsGate⟩

/-! ## Numbers in a field -/

namespace RuntimeField

variable {f : RuntimeField}

theorem bits_lt (value : ℤ) : f.field.bits value < 2 ^ f.field.width := by
  have hpos : (0 : ℤ) < 2 ^ f.field.width := by positivity
  have hlt := Int.emod_lt_of_pos value hpos
  have hnonneg := Int.emod_nonneg value hpos.ne'
  unfold bits
  zify
  rwa [Int.toNat_of_nonneg hnonneg]

theorem cast_bits (value : ℤ) : (f.field.bits value : ℤ) = value % 2 ^ f.field.width :=
  Int.toNat_of_nonneg (Int.emod_nonneg value (by positivity))

/-- A number and its bits are congruent. -/
theorem dvd_number_sub (value : ℕ) : (2 : ℤ) ^ f.field.width ∣ f.number value - value := by
  unfold number
  split_ifs
  · exact ⟨-1, by ring⟩
  · rw [sub_self]
    exact dvd_zero _

theorem dvd_number_bits_sub (value : ℤ) :
    (2 : ℤ) ^ f.field.width ∣ f.number (f.field.bits value) - value := by
  have hbits : (2 : ℤ) ^ f.field.width ∣ (f.field.bits value : ℤ) - value := by
    rw [cast_bits]
    exact ⟨-(value / 2 ^ f.field.width), by
      have := Int.emod_add_mul_ediv value (2 ^ f.field.width)
      linarith⟩
  have h := dvd_add (dvd_number_sub (f := f) (f.field.bits value)) hbits
  rwa [sub_add_sub_cancel] at h

/-- The highest bit tells the upper half. -/
theorem testBit_top {w value : ℕ} (h : value < 2 ^ (w + 1)) : value.testBit w = true ↔ 2 ^ w ≤ value := by
  constructor
  · exact Nat.ge_two_pow_of_testBit
  · intro hle
    have hone : value / 2 ^ w = 1 := Nat.div_eq_of_lt_le (by omega) (by rw [Nat.pow_succ] at h; omega)
    rw [Nat.testBit_eq_decide_div_mod_eq, hone]
    rfl

/-- A number lies between the least and the greatest of its field. -/
theorem number_mem (hpos : 0 < f.field.width) {value : ℕ} (h : value < 2 ^ f.field.width) :
    f.field.minimum ≤ f.number value ∧ f.number value ≤ f.field.maximum := by
  obtain ⟨w, hw⟩ : ∃ w, f.field.width = w + 1 := ⟨f.field.width - 1, by omega⟩
  have hpow : (2 : ℤ) ^ (w + 1) = 2 * 2 ^ w := by ring
  have hlt : (value : ℤ) < 2 ^ (w + 1) := by
    rw [hw] at h
    exact_mod_cast h
  have htop : value.testBit w = true ↔ (2 : ℤ) ^ w ≤ value := by
    rw [testBit_top (hw ▸ h)]
    norm_cast
  unfold number minimum maximum
  rw [hw, Nat.add_sub_cancel]
  cases f.field.signed with
  | false =>
    simp only [Bool.false_eq_true, false_and, if_false]
    constructor <;> omega
  | true =>
    simp only [true_and, if_true]
    split_ifs with hbit
    · have := htop.1 hbit
      constructor <;> linarith
    · have := mt htop.2 hbit
      have hnonneg : (0 : ℤ) ≤ value := Int.natCast_nonneg value
      have hpos : (0 : ℤ) < 2 ^ w := by positivity
      constructor <;> linarith

/-- **A number of the field is what its bits stand for.** -/
theorem number_bits (hpos : 0 < f.field.width) (hmin : f.field.minimum ≤ value)
    (hmax : value ≤ f.field.maximum) : f.number (f.field.bits value) = value := by
  obtain ⟨k, hk⟩ := dvd_number_bits_sub (f := f) value
  obtain ⟨hlow, hhigh⟩ := number_mem hpos (bits_lt (f := f) value)
  -- two numbers of the field that are congruent are the same
  have hspan : f.field.maximum - f.field.minimum < 2 ^ f.field.width := by
    obtain ⟨w, hw⟩ : ∃ w, f.field.width = w + 1 := ⟨f.field.width - 1, by omega⟩
    unfold minimum maximum
    rw [hw, Nat.add_sub_cancel]
    have hpow : (2 : ℤ) ^ (w + 1) = 2 * 2 ^ w := by ring
    split_ifs <;> linarith
  have hpow : (0 : ℤ) < 2 ^ f.field.width := by positivity
  have hzero : k = 0 := by
    by_contra hne
    rcases lt_or_gt_of_ne hne with hneg | hpos' <;> nlinarith
  rw [hzero, mul_zero] at hk
  linarith

/-! ## Values that are selected -/

variable {high low : ℤ} {source : ℕ}

/-- A step from the low end of a range stays in the range and on the alignment. -/
theorem step_mem {a : ℕ} (ha : 0 < a) {q : ℤ} (hrange : field.RangeOk a low high) (hq : 0 ≤ q)
    (hle : q ≤ (high - low) / a) :
    low ≤ low + q * a ∧ low + q * a ≤ high ∧ (a : ℤ) ∣ low + q * a := by
  obtain ⟨-, -, -, hlow, -⟩ := hrange
  have ha : (0 : ℤ) < a := by exact_mod_cast ha
  have hmul : q * a ≤ high - low := (Int.le_ediv_iff_mul_le ha).1 hle
  have hnonneg : 0 ≤ q * (a : ℤ) := mul_nonneg hq ha.le
  exact ⟨by linarith, by linarith, dvd_add hlow (dvd_mul_left _ _)⟩

/-- **What every candidate satisfies.** -/
def Candidate (f : RuntimeField) (value : ℤ) : Prop :=
  (f.field.minimum ≤ value ∧ value ≤ f.field.maximum) ∧ (f.constraint.alignment : ℤ) ∣ value ∧
  (∀ b ∈ f.constraint.bounds, b.1 ≤ value ∧ value ≤ b.2) ∧
  ∀ m ∈ f.constraint.mask, clear (f.field.bits value) m = 0

namespace Checked

variable {fields : List LayoutField} {isa : Option IsaContract}

theorem alignment_pos (hf : f.Checked fields isa) : 0 < f.constraint.alignment := by
  obtain ⟨k, -, hk⟩ := hf.aligned
  rw [hk]
  exact Nat.two_pow_pos k

theorem dvd_pow (hf : f.Checked fields isa) : (f.constraint.alignment : ℤ) ∣ 2 ^ f.field.width := by
  obtain ⟨k, hle, hk⟩ := hf.aligned
  rw [hk, Nat.cast_pow]
  exact pow_dvd_pow _ hle

variable {mask : ℕ}

theorem grid_candidate (hf : f.Checked fields isa) (hmask : f.constraint.mask = some mask)
    (hbounds : f.constraint.bounds = some (low, high))
    (hvalue : value ∈ f.field.grid f.constraint.alignment low high mask) : f.Candidate value := by
  obtain ⟨hin, hclear⟩ := List.mem_filter.1 hvalue
  obtain ⟨index, hindex, rfl⟩ := List.mem_map.1 hin
  have hrange := hf.range low high hbounds
  have hspan : (0 : ℤ) ≤ (high - low) / f.constraint.alignment :=
    Int.ediv_nonneg (by linarith [hrange.2.1]) (Int.natCast_nonneg _)
  have hle : (index : ℤ) ≤ (high - low) / f.constraint.alignment := by
    have := List.mem_range.1 hindex
    omega
  obtain ⟨hlow, hhigh, hdvd⟩ := step_mem hf.alignment_pos hrange (Int.natCast_nonneg index) hle
  refine ⟨⟨hrange.1.trans hlow, hhigh.trans hrange.2.2.1⟩, hdvd, fun b hb => ?_, fun m hm => ?_⟩
  · rw [hbounds] at hb
    cases hb
    exact ⟨hlow, hhigh⟩
  · rw [hmask] at hm
    cases hm
    exact of_decide_eq_true hclear

/-- **The table of a field has candidates only, and at least one.** -/
theorem candidates (hf : f.Checked fields isa)
    (hbranch : f.constraint.enum.isSome ∨ f.constraint.bounds.isSome ∧ f.constraint.mask.isSome) :
    f.candidates ≠ [] ∧ ∀ value ∈ f.candidates, f.Candidate value := by
  have hlisted : f.constraint.mask = none ∨ f.constraint.bounds = none →
      f.candidates ≠ [] ∧ ∀ value ∈ f.candidates, f.Candidate value := by
    intro hnone
    cases henum : f.constraint.enum with
    | none =>
      rw [henum] at hbranch
      rcases hbranch with hbranch | ⟨hb, hm⟩
      · cases hbranch
      · rcases hnone with hnone | hnone
        · rw [hnone] at hm
          cases hm
        · rw [hnone] at hb
          cases hb
    | some e =>
      obtain ⟨hne, -, hwidth, haligned, hbounds, hmask⟩ := hf.enum e henum
      rw [hf.listed hnone, henum]
      exact ⟨hne, fun value hv => ⟨hwidth value hv, haligned value hv, fun b hb => hbounds b hb value hv,
        fun m hm => hmask m hm value hv⟩⟩
  cases hmask : f.constraint.mask with
  | none => exact hlisted (.inl hmask)
  | some mask =>
    cases hbounds : f.constraint.bounds with
    | none => exact hlisted (.inr hbounds)
    | some bounds =>
      obtain ⟨low, high⟩ := bounds
      obtain ⟨hgrid, hne⟩ := hf.grid mask low high hmask hbounds
      refine ⟨hne, fun value hv => ?_⟩
      rw [hgrid] at hv
      exact hf.grid_candidate hmask hbounds hv

theorem candidate_mem (hne : f.candidates ≠ []) (source : ℕ) : f.candidate source ∈ f.candidates := by
  have hlt : source % f.candidates.length < f.candidates.length := Nat.mod_lt _ (List.length_pos_iff.2 hne)
  rw [candidate, List.getElem?_eq_getElem hlt]
  exact List.getElem_mem hlt

/-- A source under a mask of the field is below its bound. -/
theorem align_bits (hf : f.Checked fields isa) (h : source < 2 ^ f.field.width) :
    f.field.bits (f.number source / f.constraint.alignment * f.constraint.alignment) =
      source / f.constraint.alignment * f.constraint.alignment := by
  obtain ⟨b, hb⟩ := hf.dvd_pow
  obtain ⟨c, hc⟩ := dvd_number_sub (f := f) source
  have ha : (f.constraint.alignment : ℤ) ≠ 0 := by exact_mod_cast hf.alignment_pos.ne'
  have hnumber : f.number source = source + b * c * f.constraint.alignment := by
    rw [hb] at hc
    linarith
  have hvalue : f.number source / f.constraint.alignment * f.constraint.alignment =
      ((source / f.constraint.alignment * f.constraint.alignment : ℕ) : ℤ) + 2 ^ f.field.width * c := by
    rw [hnumber, Int.add_mul_ediv_right _ _ ha, hb]
    push_cast
    ring
  have hlt : source / f.constraint.alignment * f.constraint.alignment < 2 ^ f.field.width :=
    (Nat.div_mul_le_self _ _).trans_lt h
  have hlt : ((source / f.constraint.alignment * f.constraint.alignment : ℕ) : ℤ) < 2 ^ f.field.width := by
    exact_mod_cast hlt
  rw [bits, hvalue, Int.add_mul_emod_self_left, Int.emod_eq_of_lt (Int.natCast_nonneg _) hlt,
    Int.toNat_natCast]

/-- Clearing the low bits keeps a word under a mask. -/
theorem aligned_and {k : ℕ} (h : source &&& mask = source) :
    source / 2 ^ k * 2 ^ k &&& mask = source / 2 ^ k * 2 ^ k := by
  refine Nat.eq_of_testBit_eq fun i => ?_
  rw [Nat.testBit_and, Nat.testBit_mul_two_pow]
  cases hbit : source.testBit i with
  | true => rw [testBit_imp_of_and_eq h hbit, Bool.and_true]
  | false =>
    by_cases hle : k ≤ i
    · rw [Nat.testBit_div_two_pow, Nat.sub_add_cancel hle, hbit, Bool.and_false, Bool.false_and]
    · simp [hle]

section

variable (hf : f.Checked fields isa)

include hf

/-- **The value of a field is one that all its constraints but the enumeration allow.** -/
theorem select (hpos : 0 < f.field.width) (h : source < 2 ^ f.field.width) :
    (∀ b ∈ f.constraint.bounds, b.1 ≤ f.number (f.select source) ∧ f.number (f.select source) ≤ b.2) ∧
    (f.constraint.alignment : ℤ) ∣ f.number (f.select source) ∧
    ∀ m ∈ f.constraint.mask, f.select source &&& m = f.select source := by
  unfold RuntimeField.select
  split_ifs with hbranch
  · obtain ⟨hne, hall⟩ := hf.candidates hbranch
    obtain ⟨⟨hmin, hmax⟩, hdvd, hbounds, hmask⟩ := hall _ (candidate_mem hne (f.masked source))
    rw [number_bits hpos hmin hmax]
    exact ⟨hbounds, hdvd, fun m hm => clear_eq_zero_iff_and.1 (hmask m hm)⟩
  · push Not at hbranch
    cases hbounds : f.constraint.bounds with
    | some bounds =>
      -- a range without a mask
      obtain ⟨low, high⟩ := bounds
      have hrange := hf.range low high hbounds
      have hspan : (0 : ℤ) ≤ (high - low) / f.constraint.alignment :=
        Int.ediv_nonneg (by linarith [hrange.2.1]) (Int.natCast_nonneg _)
      have hmod := Int.emod_lt_of_pos ((f.number (f.masked source) - low) / f.constraint.alignment)
        (by omega : (0 : ℤ) < (high - low) / f.constraint.alignment + 1)
      have hnonneg := Int.emod_nonneg ((f.number (f.masked source) - low) / f.constraint.alignment)
        (by omega : ((high - low) / f.constraint.alignment + 1 : ℤ) ≠ 0)
      obtain ⟨hlow, hhigh, hdvd⟩ := step_mem hf.alignment_pos hrange hnonneg (Int.lt_add_one_iff.1 hmod)
      simp only [align, hbounds]
      rw [number_bits hpos (hrange.1.trans hlow) (hhigh.trans hrange.2.2.1)]
      refine ⟨fun b hb => ?_, hdvd, fun m hm => ?_⟩
      · cases hb
        exact ⟨hlow, hhigh⟩
      · rw [hbounds] at hbranch
        exact absurd (hbranch.2 rfl) (by rw [hm]; simp)
    | none =>
      -- no range: the alignment clears bits of the source
      simp only [align, hbounds]
      have hmasked : f.masked source < 2 ^ f.field.width ∧
          ∀ m ∈ f.constraint.mask, f.masked source &&& m = f.masked source := by
        unfold masked
        cases hmask : f.constraint.mask with
        | none => exact ⟨h, fun m hm => by cases hm⟩
        | some mask =>
          refine ⟨Nat.and_le_left.trans_lt h, fun m hm => ?_⟩
          cases hm
          rw [Nat.and_assoc, Nat.and_self]
      refine ⟨fun b hb => (by cases hb), ?_, fun m hm => ?_⟩
      · have hsub := hf.dvd_pow.trans (dvd_number_bits_sub (f := f)
          (f.number (f.masked source) / f.constraint.alignment * f.constraint.alignment))
        exact (dvd_iff_dvd_of_dvd_sub hsub).2 (dvd_mul_left _ _)
      · rw [hf.align_bits hmasked.1]
        obtain ⟨k, -, hk⟩ := hf.aligned
        rw [hk]
        exact aligned_and (hmasked.2 m hm)

/-- The enumeration, where no grid has taken its place. -/
theorem select_enum (hpos : 0 < f.field.width) {e : List ℤ}
    (henum : f.constraint.enum = some e) (hnone : f.constraint.mask = none ∨ f.constraint.bounds = none)
    (source : ℕ) : f.number (f.select source) ∈ e := by
  have hbranch : f.constraint.enum.isSome ∨ f.constraint.bounds.isSome ∧ f.constraint.mask.isSome :=
    .inl (by rw [henum]; rfl)
  obtain ⟨hne, hall⟩ := hf.candidates hbranch
  have hin := candidate_mem hne (f.masked source)
  obtain ⟨⟨hmin, hmax⟩, -⟩ := hall _ hin
  rw [RuntimeField.select, if_pos hbranch, number_bits hpos hmin hmax]
  rwa [hf.listed hnone, henum] at hin

/-- **Where a range and a mask are declared too, the value is one of the grid.** -/
theorem select_grid (hpos : 0 < f.field.width)
    (hmask : f.constraint.mask = some mask) (hbounds : f.constraint.bounds = some (low, high))
    (source : ℕ) : f.number (f.select source) = f.candidate (source &&& mask) := by
  have hbranch : f.constraint.enum.isSome ∨ f.constraint.bounds.isSome ∧ f.constraint.mask.isSome :=
    .inr ⟨by rw [hbounds]; rfl, by rw [hmask]; rfl⟩
  obtain ⟨hne, hall⟩ := hf.candidates hbranch
  obtain ⟨⟨hmin, hmax⟩, -⟩ := hall _ (candidate_mem hne (source &&& mask))
  rw [RuntimeField.select, if_pos hbranch, masked, hmask]
  exact number_bits hpos hmin hmax

/-! ## Values that can be selected -/

/-- The table of a field has no value twice. -/
theorem nodup_candidates : f.candidates.Nodup := by
  have hlisted : f.constraint.mask = none ∨ f.constraint.bounds = none → f.candidates.Nodup := by
    intro hnone
    rw [hf.listed hnone]
    cases henum : f.constraint.enum with
    | none => exact List.nodup_nil
    | some e => exact (hf.enum e henum).2.1
  cases hmask : f.constraint.mask with
  | none => exact hlisted (.inl hmask)
  | some mask =>
    cases hbounds : f.constraint.bounds with
    | none => exact hlisted (.inr hbounds)
    | some bounds =>
      obtain ⟨low, high⟩ := bounds
      have ha : (f.constraint.alignment : ℤ) ≠ 0 := by exact_mod_cast hf.alignment_pos.ne'
      rw [(hf.grid mask low high hmask hbounds).1]
      refine (List.nodup_range.map fun i j heq => ?_).filter _
      exact_mod_cast mul_right_cancel₀ ha (add_left_cancel heq)

/-- Every candidate of a range under a mask is in their grid. -/
theorem mem_grid (hmask : f.constraint.mask = some mask)
    (hbounds : f.constraint.bounds = some (low, high)) (hvalue : f.Candidate value) :
    value ∈ f.field.grid f.constraint.alignment low high mask := by
  obtain ⟨-, hdvd, hin, hclear⟩ := hvalue
  obtain ⟨hlow, hhigh⟩ := hin _ hbounds
  have ha : (0 : ℤ) < f.constraint.alignment := by exact_mod_cast hf.alignment_pos
  obtain ⟨k, hk⟩ := dvd_sub hdvd (hf.range low high hbounds).2.2.2.1
  have hnonneg : 0 ≤ k := by
    by_contra hneg
    nlinarith
  have hle : k ≤ (high - low) / f.constraint.alignment := (Int.le_ediv_iff_mul_le ha).2 (by linarith)
  refine List.mem_filter.2 ⟨List.mem_map.2 ⟨k.toNat, List.mem_range.2 (by omega), ?_⟩,
    decide_eq_true (hclear _ hmask)⟩
  rw [Int.toNat_of_nonneg hnonneg]
  linarith

end

/-- A value under the mask is not changed by it. -/
theorem masked_bits (h : f.Candidate value) : f.masked (f.field.bits value) = f.field.bits value := by
  unfold masked
  cases hmask : f.constraint.mask with
  | none => rfl
  | some mask => exact clear_eq_zero_iff_and.1 (h.2.2.2 mask hmask)

/-- **Range and alignment keep a value that satisfies them.** -/
theorem align_candidate (hf : f.Checked fields isa) (hpos : 0 < f.field.width)
    (h : f.Candidate value) : f.align (f.field.bits value) = value := by
  have ha : (0 : ℤ) < f.constraint.alignment := by exact_mod_cast hf.alignment_pos
  obtain ⟨⟨hmin, hmax⟩, hdvd, hin, -⟩ := h
  unfold align
  rw [number_bits hpos hmin hmax]
  cases hbounds : f.constraint.bounds with
  | none => exact Int.ediv_mul_cancel hdvd
  | some bounds =>
    obtain ⟨low, high⟩ := bounds
    obtain ⟨hlow, hhigh⟩ := hin _ hbounds
    have hstep : (f.constraint.alignment : ℤ) ∣ value - low :=
      dvd_sub hdvd (hf.range low high hbounds).2.2.2.1
    have hle : (value - low) / f.constraint.alignment ≤ (high - low) / f.constraint.alignment :=
      Int.ediv_le_ediv ha (by linarith)
    have hnonneg : 0 ≤ (value - low) / f.constraint.alignment := Int.ediv_nonneg (by linarith) ha.le
    simp only
    rw [Int.emod_eq_of_lt hnonneg (Int.lt_add_one_iff.2 hle), Int.ediv_mul_cancel hstep]
    ring

/-- The number of a value and the value are zero together. -/
theorem number_eq_zero_iff {value : ℕ} (h : value < 2 ^ f.field.width) : f.number value = 0 ↔ value = 0 := by
  constructor
  · intro hzero
    obtain ⟨k, hk⟩ := dvd_number_sub (f := f) value
    rw [hzero, zero_sub] at hk
    have hdvd : 2 ^ f.field.width ∣ value := by
      have : ((2 ^ f.field.width : ℕ) : ℤ) ∣ (value : ℤ) := ⟨-k, by push_cast; linarith⟩
      exact_mod_cast this
    exact Nat.eq_zero_of_dvd_of_lt hdvd h
  · rintro rfl
    simp [number]

/-- The bits of a number of the field. -/
theorem bits_number {value : ℕ} (h : value < 2 ^ f.field.width) : f.field.bits (f.number value) = value := by
  obtain ⟨k, hk⟩ := dvd_number_sub (f := f) value
  have hnumber : f.number value = value + 2 ^ f.field.width * k := by linarith
  have hlt : (value : ℤ) < 2 ^ f.field.width := by exact_mod_cast h
  rw [bits, hnumber, Int.add_mul_emod_self_left,
    Int.emod_eq_of_lt (Int.natCast_nonneg value) hlt, Int.toNat_natCast]

end Checked

/-- **A value that some source may select.** -/
def Selectable (f : RuntimeField) (value : ℤ) : Prop :=
  f.Candidate value ∧
    (f.constraint.mask = none ∨ f.constraint.bounds = none → ∀ e ∈ f.constraint.enum, value ∈ e)

namespace Checked

variable {fields : List LayoutField} {isa : Option IsaContract}

theorem selectable_select (hf : f.Checked fields isa) (hpos : 0 < f.field.width)
    (h : source < 2 ^ f.field.width) : f.Selectable (f.number (f.select source)) := by
  obtain ⟨hbounds, hdvd, hmask⟩ := hf.select hpos h
  have hlt : f.select source < 2 ^ f.field.width := by
    unfold RuntimeField.select
    split_ifs <;> exact bits_lt _
  refine ⟨⟨number_mem hpos hlt, hdvd, hbounds, fun m hm => ?_⟩,
    fun hnone e he => hf.select_enum hpos he hnone source⟩
  rw [bits_number hlt]
  exact clear_eq_zero_iff_and.2 (hmask m hm)

/-- A value that can be selected is in the table, if there is one. -/
theorem mem_candidates (hf : f.Checked fields isa)
    (hbranch : f.constraint.enum.isSome ∨ f.constraint.bounds.isSome ∧ f.constraint.mask.isSome)
    (h : f.Selectable value) : value ∈ f.candidates := by
  have hlisted : f.constraint.mask = none ∨ f.constraint.bounds = none → value ∈ f.candidates := by
    intro hnone
    rw [hf.listed hnone]
    cases henum : f.constraint.enum with
    | some e => exact h.2 hnone e henum
    | none =>
      rw [henum] at hbranch
      obtain ⟨hb, hm⟩ := hbranch.resolve_left (by simp)
      rcases hnone with hnone | hnone
      · rw [hnone] at hm
        cases hm
      · rw [hnone] at hb
        cases hb
  cases hmask : f.constraint.mask with
  | none => exact hlisted (.inl hmask)
  | some mask =>
    cases hbounds : f.constraint.bounds with
    | none => exact hlisted (.inr hbounds)
    | some bounds =>
      obtain ⟨low, high⟩ := bounds
      rw [(hf.grid mask low high hmask hbounds).1]
      exact hf.mem_grid hmask hbounds h.1

/-- A nonzero number of a field of one bit has that bit. -/
theorem bits_eq_one (hwidth : f.field.width = 1) (hmin : f.field.minimum ≤ value)
    (hmax : value ≤ f.field.maximum) (hne : value ≠ 0) : f.field.bits value = 1 := by
  have hlt := bits_lt (f := f) value
  have hnumber := number_bits (f := f) (by omega) hmin hmax
  rw [hwidth] at hlt
  have hzero : f.field.bits value ≠ 0 := by
    intro hzero
    rw [hzero] at hnumber
    exact hne (hnumber.symm.trans ((number_eq_zero_iff (Nat.two_pow_pos _)).2 rfl))
  omega

/-- **One of the two sources of a bit opens a gate exactly when a nonzero value can be selected.** -/
theorem exists_select_ne_zero (hf : f.Checked fields isa) (hwidth : f.field.width = 1) :
    (∃ bit < 2, f.select bit ≠ 0) ↔ ∃ value ≠ 0, f.Selectable value := by
  have hpos : 0 < f.field.width := by omega
  constructor
  · rintro ⟨bit, hbit, hne⟩
    have hlt : f.select bit < 2 ^ f.field.width := by
      unfold RuntimeField.select
      split_ifs <;> exact bits_lt _
    have hbit : bit < 2 ^ f.field.width := by rwa [hwidth]
    exact ⟨_, mt (number_eq_zero_iff hlt).1 hne, hf.selectable_select hpos hbit⟩
  · rintro ⟨value, hne, hvalue⟩
    obtain ⟨⟨hmin, hmax⟩, -, -, -⟩ := hvalue.1
    have hone := bits_eq_one hwidth hmin hmax hne
    have hkept := masked_bits hvalue.1
    rw [hone] at hkept
    by_cases hbranch : f.constraint.enum.isSome ∨ f.constraint.bounds.isSome ∧ f.constraint.mask.isSome
    · -- the value stands in the table at 0 or at 1, since zero is the only other one
      obtain ⟨index, hindex, hget⟩ := List.getElem_of_mem (hf.mem_candidates hbranch hvalue)
      have hother : ∀ other ∈ f.candidates, other ≠ 0 → other = value := by
        intro other hother hzero
        obtain ⟨⟨hmin', hmax'⟩, -⟩ := (hf.candidates hbranch).2 other hother
        rw [← number_bits hpos hmin' hmax', bits_eq_one hwidth hmin' hmax' hzero, ← hone,
          number_bits hpos hmin hmax]
      have hlt : index < 2 := by
        by_contra hge
        have h₀ : f.candidates[0] = 0 := by
          by_contra hzero
          have := hf.nodup_candidates.getElem_inj_iff.1
            ((hother _ (List.getElem_mem (by omega)) hzero).trans hget.symm)
          omega
        have h₁ : f.candidates[1] = 0 := by
          by_contra hzero
          have := hf.nodup_candidates.getElem_inj_iff.1
            ((hother _ (List.getElem_mem (by omega)) hzero).trans hget.symm)
          omega
        exact absurd (hf.nodup_candidates.getElem_inj_iff.1 (h₀.trans h₁.symm)) (by omega)
      have hmasked : f.masked index = index := by
        unfold masked at hkept ⊢
        cases hmask : f.constraint.mask with
        | none => rfl
        | some mask =>
          rw [hmask] at hkept
          interval_cases index
          · exact Nat.zero_and _
          · exact hkept
      refine ⟨index, hlt, ?_⟩
      rw [RuntimeField.select, if_pos hbranch, hmasked, candidate, Nat.mod_eq_of_lt hindex,
        List.getElem?_eq_getElem hindex, hget, Option.getD_some, hone]
      exact one_ne_zero
    · refine ⟨1, Nat.one_lt_two, ?_⟩
      rw [RuntimeField.select, if_neg hbranch, hkept, ← hone, hf.align_candidate hpos hvalue.1, hone]
      exact one_ne_zero

end Checked

end RuntimeField

end Composition

end MyFuzz
