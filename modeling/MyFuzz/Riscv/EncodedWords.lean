import MyFuzz.Riscv.OperandLayout

/-!
# Riscv/EncodedWords — the words that are accepted

What each operand check lets through, and from it the word of every layout: the fixed bits of the
entry and the pieces of its operands (`Spells`), so fields that stay under the layout's mask.

    encodeWord spec operands xlen = .ok w   ⟹   w = scatter spec.fixed pieces operands
                                            ⟹   Filled spec.fixed (spec.layoutMask xlen) w
-/

namespace MyFuzz

open Outcome BitField Scatter

variable {spec : InstructionSpec} {operands : Dict OperandName ℤ} {xlen w : ℕ} {value : Option ℤ}
  {field : String} {v low high : ℤ}

/-! ## Checked operands -/

theorem intOperand_eq_ok : intOperand value field = .ok v ↔ value = some v := by
  cases value with
  | none => exact ⟨fun h => (nomatch h), fun h => (nomatch h)⟩
  | some value => exact ⟨fun h => congrArg some (Except.ok.inj h), fun h => congrArg Except.ok
      (Option.some.inj h)⟩

theorem regOperand_eq_ok {nonzero : Bool} : regOperand value field low high nonzero = .ok v ↔
    value = some v ∧ low ≤ v ∧ v ≤ high ∧ (nonzero = true → v ≠ 0) := by
  unfold regOperand
  rw [bind_ok]
  constructor
  · rintro ⟨value', hvalue, h⟩
    obtain ⟨hrange, hnonzero, h⟩ := ensure_ok₂ h
    cases h
    exact ⟨intOperand_eq_ok.1 hvalue, hrange.1, hrange.2, fun hn hz => hnonzero ⟨hn, hz⟩⟩
  · rintro ⟨hvalue, hlow, hhigh, hnonzero⟩
    refine ⟨v, intOperand_eq_ok.2 hvalue, ensure_ok.2 ⟨⟨hlow, hhigh⟩,
      ensure_ok.2 ⟨fun h => hnonzero h.1 h.2, rfl⟩⟩⟩

theorem reg_eq_ok : reg value field = .ok v ↔ value = some v ∧ 0 ≤ v ∧ v ≤ 31 := by
  rw [reg, regOperand_eq_ok]
  simp only [Bool.false_eq_true, IsEmpty.forall_iff, and_true]

theorem nonzeroReg_eq_ok : nonzeroReg value field = .ok v ↔ value = some v ∧ 0 < v ∧ v ≤ 31 := by
  rw [nonzeroReg, regOperand_eq_ok]
  simp only [forall_true_left]
  refine and_congr_right fun _ => ?_
  omega

theorem primeReg_eq_ok : primeReg value field = .ok v ↔ value = some v ∧ 8 ≤ v ∧ v ≤ 15 := by
  rw [primeReg, regOperand_eq_ok]
  simp only [Bool.false_eq_true, IsEmpty.forall_iff, and_true]

namespace InstructionSpec

/-- The range of an entry's immediate. -/
structure ImmFits (spec : InstructionSpec) (v : ℤ) : Prop where
  low : (if spec.immSigned then -2 ^ (spec.immBits - 1) else 0) ≤ v
  high : v ≤ if spec.immSigned then 2 ^ (spec.immBits - 1) - 1 else 2 ^ spec.immBits - 1
  aligned : v % spec.immAlign = 0
  nonzero : spec.immNonzero = true → v ≠ 0

end InstructionSpec

theorem immOperand_eq_ok : immOperand spec value = .ok v ↔ value = some v ∧ spec.ImmFits v := by
  unfold immOperand
  rw [bind_ok]
  constructor
  · rintro ⟨value', hvalue, h⟩
    obtain ⟨hrange, haligned, hnonzero, h⟩ := ensure_ok₃ h
    cases h
    exact ⟨intOperand_eq_ok.1 hvalue, hrange.1, hrange.2, haligned, fun hn hz => hnonzero ⟨hn, hz⟩⟩
  · rintro ⟨hvalue, hlow, hhigh, haligned, hnonzero⟩
    exact ⟨v, intOperand_eq_ok.2 hvalue, ensure_ok.2 ⟨⟨hlow, hhigh⟩,
      ensure_ok.2 ⟨haligned, ensure_ok.2 ⟨fun h => hnonzero h.1 h.2, rfl⟩⟩⟩⟩

theorem shamtOperand_eq_ok : shamtOperand spec value low xlen = .ok v ↔
    value = some v ∧ low ≤ v ∧ v ≤ spec.shamtLimit xlen := by
  unfold shamtOperand
  rw [bind_ok]
  constructor
  · rintro ⟨value', hvalue, h⟩
    obtain ⟨hrange, h⟩ := ensure_ok.1 h
    cases h
    exact ⟨intOperand_eq_ok.1 hvalue, hrange⟩
  · rintro ⟨hvalue, hrange⟩
    exact ⟨v, intOperand_eq_ok.2 hvalue, ensure_ok.2 ⟨hrange, rfl⟩⟩

theorem aqrlOperand_eq_ok : aqrlOperand field value = .ok v ↔ value.getD 0 = v ∧ 0 ≤ v ∧ v ≤ 3 := by
  unfold aqrlOperand
  rw [ensure_ok]
  constructor
  · rintro ⟨hrange, h⟩
    cases h
    exact ⟨rfl, hrange⟩
  · rintro ⟨rfl, hrange⟩
    exact ⟨hrange, rfl⟩

/-- The register of a load-immediate form keeps off what other instructions mean. -/
theorem ciRegister_eq_ok : ciRegister spec operands = .ok v ↔ (operands.get? .rd = some v ∧ 0 ≤ v ∧ v ≤ 31) ∧
      if spec.name = "C.LUI" then v ≠ 0 ∧ v ≠ 2
      else if spec.name = "C.LI" then v ≠ 0
      else v = 0 → ∃ imm, (operands.get? .imm = some imm ∧ spec.ImmFits imm) ∧ imm = 0 := by
  unfold ciRegister
  rw [bind_ok]
  simp only [reg_eq_ok]
  split_ifs with hlui hli
  · simp only [ensure_ok, pure, Except.pure, Except.ok.injEq]
    grind
  · simp only [ensure_ok, pure, Except.pure, Except.ok.injEq]
    grind
  · constructor
    · rintro ⟨rd, hrd, h⟩
      by_cases hz : rd = 0
      · simp only [hz, if_true, bind_ok, immOperand_eq_ok, ensure_eq_ok, pure, Except.pure,
          Except.ok.injEq] at h
        grind
      · simp only [hz, if_false, pure, Except.pure, Except.ok.injEq] at h
        grind
    · rintro ⟨hrd, h⟩
      refine ⟨v, hrd, ?_⟩
      by_cases hz : v = 0
      · simp only [hz, if_true, bind_ok, immOperand_eq_ok, ensure_eq_ok, pure, Except.pure]
        grind
      · simp only [hz, if_false, pure, Except.pure]

theorem register_lt (h : v ≤ 31) : v.toNat < 2 ^ 5 := by omega

theorem InstructionSpec.shamtLimit_eq (spec : InstructionSpec) (xlen : ℕ) :
    spec.shamtLimit xlen = 31 ∨ spec.shamtLimit xlen = 63 := by
  unfold InstructionSpec.shamtLimit
  split_ifs <;> simp

/-- An upper immediate has 20 unsigned bits. -/
theorem upper_specs : ∀ spec ∈ specs, spec.kind = .u → spec.immBits = 20 ∧ spec.immSigned = false := by
  decide +kernel

/-! ## Fields of integers -/

section Fields

variable {v : ℤ} {s n m : ℕ}

theorem coe_intField (v : ℤ) (s n : ℕ) : (intField v s n : ℤ) = v / 2 ^ s % 2 ^ n :=
  Int.toNat_of_nonneg (Int.emod_nonneg _ (by positivity))

/-- A field of the low bits is a field. -/
theorem readSegment_intField (h : s + n ≤ m) : readSegment (intField v 0 m) s n = intField v s n := by
  have hpow (k : ℕ) : (2 : ℤ) ^ k ≠ 0 := by positivity
  have hm : (2 : ℤ) ^ m = 2 ^ s * (2 ^ n * 2 ^ (m - (s + n))) := by
    rw [← pow_add, ← pow_add]
    congr 1
    omega
  have hlow : v % 2 ^ m = v + 2 ^ s * (2 ^ n * -(2 ^ (m - (s + n)) * (v / 2 ^ m))) := by
    rw [Int.emod_def, hm]
    ring
  refine Int.ofNat_injective ?_
  change ((readSegment (intField v 0 m) s n : ℕ) : ℤ) = (intField v s n : ℤ)
  unfold readSegment
  rw [Nat.and_two_pow_sub_one_eq_mod, Nat.shiftRight_eq_div_pow]
  push_cast
  rw [coe_intField, coe_intField, pow_zero, Int.ediv_one, hlow, Int.add_mul_ediv_left _ _ (hpow s),
    Int.add_mul_emod_self_left]

/-- A number below a power of two is its low bits. -/
theorem coe_intField_of_lt (hlow : 0 ≤ v) (hhigh : v < 2 ^ n) : (intField v 0 n : ℤ) = v := by
  rw [coe_intField, pow_zero, Int.ediv_one, Int.emod_eq_of_lt hlow hhigh]

theorem intField_natCast {d : ℕ} (h : d < 2 ^ n) : intField (d : ℤ) 0 n = d := by
  have hcoe := coe_intField_of_lt (v := d) (by positivity) (by exact_mod_cast h)
  exact_mod_cast hcoe

end Fields

/-! ## Words as pieces -/

namespace InstructionSpec

variable {spec : InstructionSpec} {operands : Dict OperandName ℤ} {pieces : List (Piece OperandName)}
  {o : OperandName} {field : String} {v d : ℤ} {w xlen : ℕ}

/-- An operand in the range of its format. -/
def Fits (spec : InstructionSpec) (o : OperandName) (v : ℤ) : Prop :=
  if o = .imm then spec.ImmFits v else if spec.primed o then 8 ≤ v ∧ v ≤ 15 else 0 ≤ v ∧ v < 2 ^ o.bits

/-- What is scattered over the word. -/
def operandValue (spec : InstructionSpec) (operands : Dict OperandName ℤ) (o : OperandName) : ℕ :=
  intField ((spec.filled operands o).getD 0) 0 32

/-- **A word is the fixed bits and pieces of the operands.** -/
structure Spells (spec : InstructionSpec) (operands : Dict OperandName ℤ) (pieces : List (Piece OperandName))
    (w : ℕ) : Prop where
  word : w = scatter spec.fixed pieces (spec.operandValue operands)
  fits : ∀ p ∈ pieces, ∃ v, spec.filled operands p.operand = some v ∧ spec.Fits p.operand v

theorem spells_nil : spec.Spells operands [] spec.fixed := ⟨rfl, nofun⟩

/-- **One more piece.** -/
theorem Spells.piece (h : spec.Spells operands pieces w) (hv : spec.filled operands o = some v)
    (hfits : spec.Fits o v) (s n t : ℕ) (hn : s + n ≤ 32) :
    spec.Spells operands (pieces ++ [⟨o, s, n, t⟩]) (w ||| intField v s n <<< t) := by
  constructor
  · have hplace : (Piece.mk o s n t).place (spec.operandValue operands) = intField v s n <<< t := by
      unfold Piece.place operandValue
      rw [hv, Option.getD_some, readSegment_intField hn]
    rw [scatter, List.foldl_append, ← hplace, h.word]
    rfl
  · intro p hp
    rcases List.mem_append.1 hp with hp | hp
    · exact h.fits p hp
    · obtain rfl := List.mem_singleton.1 hp
      exact ⟨v, hv, hfits⟩

theorem filled_of_get? (h : operands.get? o = some v) : spec.filled operands o = some v := by
  unfold filled
  rw [h]
  rfl

theorem filled_of_default (h : spec.default o = some d) :
    spec.filled operands o = some ((operands.get? o).getD d) := by
  unfold filled
  rw [h]
  cases operands.get? o <;> rfl

theorem filled_aqrl (hkind : spec.kind = .lr ∨ spec.kind = .amo) (haqrl : (operands.get? .aqrl).getD 0 = v) :
    spec.filled operands .aqrl = some v := by
  have hdefault : spec.default .aqrl = some 0 := by
    unfold default
    rw [if_neg (by rintro ⟨-, h | h⟩ <;> cases h), if_pos ⟨hkind, rfl⟩]
  rw [filled_of_default hdefault, haqrl]

section

variable (h : spec.Spells operands pieces w)

include h

/-- A piece of an immediate. -/
theorem Spells.imm (himm : immOperand spec (operands.get? .imm) = .ok v)
    (s n t : ℕ) (hn : s + n ≤ 32) :
    spec.Spells operands (pieces ++ [⟨.imm, s, n, t⟩]) (w ||| intField v s n <<< t) := by
  obtain ⟨hget, hfits⟩ := immOperand_eq_ok.1 himm
  exact h.piece (filled_of_get? hget) hfits s n t hn

/-- An operand that is a number of its own. -/
theorem Spells.number (hv : spec.filled operands o = some v) (ho : o ≠ .imm)
    (hwide : spec.primed o = false) (hlow : 0 ≤ v) (hhigh : v < 2 ^ o.bits) (ho' : o.bits ≤ 32) (t : ℕ) :
    spec.Spells operands (pieces ++ [⟨o, 0, o.bits, t⟩]) (w ||| v.toNat <<< t) := by
  have hfits : spec.Fits o v := by
    unfold Fits
    rw [if_neg ho, if_neg (Bool.eq_false_iff.1 hwide)]
    exact ⟨hlow, hhigh⟩
  have hbits : v.toNat = intField v 0 o.bits := by
    have := coe_intField_of_lt hlow hhigh
    omega
  rw [hbits]
  exact h.piece hv hfits 0 o.bits t (by omega)

/-- A register. -/
theorem Spells.register (hwide : ∀ o, spec.primed o = false)
    (hreg : operands.get? o = some v ∧ 0 ≤ v ∧ v ≤ 31) (ho : o.bits = 5) (t : ℕ) :
    spec.Spells operands (pieces ++ [⟨o, 0, 5, t⟩]) (w ||| v.toNat <<< t) := by
  obtain ⟨hget, hlow, hhigh⟩ := hreg
  have hne : o ≠ .imm := by
    rintro rfl
    cases ho
  have hnumber := h.number (filled_of_get? hget) hne (hwide o) hlow (by rw [ho]; omega) (by omega) t
  rwa [ho] at hnumber

/-- A register of three bits. -/
theorem Spells.prime (hprimed : spec.primed o = true) (ho : o ≠ .imm)
    (hreg : primeReg (operands.get? o) field = .ok v) (t : ℕ) :
    spec.Spells operands (pieces ++ [⟨o, 0, 3, t⟩]) (w ||| (v - 8).toNat <<< t) := by
  obtain ⟨hget, hrange⟩ := primeReg_eq_ok.1 hreg
  have hfits : spec.Fits o v := by
    unfold Fits
    rw [if_neg ho, if_pos hprimed]
    exact hrange
  have hbits : (v - 8).toNat = intField v 0 3 := by
    unfold intField
    omega
  rw [hbits]
  exact h.piece (filled_of_get? hget) hfits 0 3 t (by decide)

end

theorem primed_of_kind (h : spec.kind ∉ [.ciw, .cl, .ca, .candi, .cb, .cshift]) (o : OperandName) :
    spec.primed o = false := by
  unfold primed
  grind

theorem primed_of_compressed (h : spec.kind ∈ [.ciw, .cl, .ca, .candi, .cb]) :
    ∀ o ≠ .imm, spec.primed o = true := by
  unfold primed
  grind

/-- The only instruction of its operands' format that takes `rd` is the one that loads. -/
theorem contains_rd_iff (hkind : spec.kind = .cl) (hcheck : checkOperands spec operands = .ok ()) :
    operands.contains .rd = true ↔ .rd ∈ spec.operands := by
  unfold checkOperands at hcheck
  simp only [hkind, reduceCtorEq, false_and, or_self, if_false, List.append_nil] at hcheck
  obtain ⟨hrequired, hallowed⟩ := ensure_eq_ok.1 hcheck
  have hkeys : OperandName.rd ∈ operands.keys ↔ operands.contains .rd = true := Dict.mem_keys_iff
  exact ⟨fun h => hallowed (hkeys.2 h), fun h => hkeys.1 (hrequired h)⟩

/-- The pieces that are written: the register of a compressed access is the one that was given. -/
def written (spec : InstructionSpec) (loads : Bool) : List (Piece OperandName) :=
  if spec.kind = .cl then spec.layout.dropLast ++ [⟨if loads then .rd else .rs2, 0, 3, 2⟩] else spec.layout

theorem written_of_check (hcheck : checkOperands spec operands = .ok ()) :
    spec.written (operands.contains .rd) = spec.layout := by
  unfold written layout
  by_cases hkind : spec.kind = .cl
  · rw [if_pos hkind, hkind]
    by_cases hloads : operands.contains .rd = true
    · rw [if_pos hloads, if_pos ((contains_rd_iff hkind hcheck).1 hloads)]
      rfl
    · rw [if_neg hloads, if_neg fun hmem => hloads ((contains_rd_iff hkind hcheck).2 hmem)]
      rfl
  · rw [if_neg hkind]

/-- A shift amount in two pieces. -/
theorem Spells.shamt (h : spec.Spells operands pieces w) (hkind : spec.kind = .cshift)
    (hshamt : shamtOperand spec (operands.get? .shamt) 1 xlen = .ok v) :
    spec.Spells operands (pieces ++ [⟨.shamt, 0, 5, 2⟩] ++ [⟨.shamt, 5, 1, 12⟩])
      (w ||| intField v 0 5 <<< 2 ||| intField v 5 1 <<< 12) := by
  obtain ⟨hget, hlow, hhigh⟩ := shamtOperand_eq_ok.1 hshamt
  have hlimit := spec.shamtLimit_eq xlen
  have hfits : spec.Fits .shamt v := by
    have hwide : spec.primed .shamt = false := by
      unfold primed
      grind
    unfold Fits
    rw [if_neg (by decide), if_neg (Bool.eq_false_iff.1 hwide)]
    change 0 ≤ v ∧ v < 2 ^ 6
    omega
  have hfilled : spec.filled operands .shamt = some v := filled_of_get? hget
  exact (h.piece hfilled hfits 0 5 2 (by decide)).piece hfilled hfits 5 1 12 (by decide)

/-- **An accepted word of 16 bits.** -/
theorem spells_encodeCompressed (h : encodeCompressed spec operands xlen = .ok w) :
    spec.Spells operands (spec.written (operands.contains .rd)) w := by
  have hbase := @spells_nil spec operands
  have hwide := @primed_of_kind spec
  have hcompressed := @primed_of_compressed spec
  unfold encodeCompressed at h
  unfold written layout
  cases hk : spec.kind <;> simp only [hk, reduceCtorEq, if_true, if_false] at h hwide hcompressed ⊢
  case cnop =>
    cases h
    exact hbase
  case ciw =>
    have hprimed := hcompressed (by decide)
    obtain ⟨rd, hrd, imm, himm, h⟩ := bind_ok₂ h
    cases h
    exact ((((hbase.imm himm 4 2 11 (by decide)).imm himm 6 4 7 (by decide)).imm himm 2 1 6
      (by decide)).imm himm
      3 1 5 (by decide)).prime (hprimed .rd (by decide)) (by decide) hrd 2
  case cl =>
    have hprimed := hcompressed (by decide)
    obtain ⟨imm, himm, rs1, hrs1, h⟩ := bind_ok₂ h
    have hword := (((hbase.imm himm 3 3 10 (by decide)).prime (hprimed .rs1 (by decide))
      (by decide) hrs1 7).imm
      himm 2 1 6 (by decide)).imm himm 6 1 5 (by decide)
    by_cases hloads : operands.contains .rd = true
    · rw [if_pos hloads] at h ⊢
      obtain ⟨rd, hrd, h⟩ := bind_ok.1 h
      cases h
      exact hword.prime (hprimed .rd (by decide)) (by decide) hrd 2
    · rw [if_neg hloads] at h ⊢
      obtain ⟨rs2, hrs2, h⟩ := bind_ok.1 h
      cases h
      exact hword.prime (hprimed .rs2 (by decide)) (by decide) hrs2 2
  case ci =>
    obtain ⟨rd, hrd, imm, himm, h⟩ := bind_ok₂ h
    cases h
    exact ((hbase.register (hwide (by decide)) (ciRegister_eq_ok.1 hrd).1 rfl 7).imm himm 0 5 2
      (by decide)).imm
      himm 5 1 12 (by decide)
  case ca =>
    have hprimed := hcompressed (by decide)
    obtain ⟨rd, hrd, rs2, hrs2, h⟩ := bind_ok₂ h
    cases h
    exact (hbase.prime (hprimed .rd (by decide)) (by decide) hrd 7).prime
      (hprimed .rs2 (by decide)) (by decide)
      hrs2 2
  case cr =>
    obtain ⟨rd, hrd, rs2, hrs2, h⟩ := bind_ok₂ h
    cases h
    obtain ⟨hget, hpos, hhigh⟩ := nonzeroReg_eq_ok.1 hrd
    exact (hbase.register (hwide (by decide)) ⟨hget, hpos.le, hhigh⟩ rfl 7).register (hwide (by decide))
      (reg_eq_ok.1 hrs2) rfl 2
  case cshift =>
    obtain ⟨shamt, hshamt, h⟩ := bind_ok.1 h
    by_cases hname : spec.name = "C.SLLI"
    · have hwide : ∀ o, spec.primed o = false := by
        unfold primed
        grind
      rw [if_pos hname] at h ⊢
      obtain ⟨rd, hrd, h⟩ := bind_ok.1 h
      cases h
      obtain ⟨hget, hpos, hhigh⟩ := nonzeroReg_eq_ok.1 hrd
      exact (hbase.register hwide ⟨hget, hpos.le, hhigh⟩ rfl 7).shamt hk hshamt
    · have hprimed : spec.primed .rd = true := by
        unfold primed
        grind
      rw [if_neg hname] at h ⊢
      obtain ⟨rd, hrd, h⟩ := bind_ok.1 h
      cases h
      exact (hbase.prime hprimed (by decide) hrd 7).shamt hk hshamt
  case candi =>
    have hprimed := hcompressed (by decide)
    obtain ⟨imm, himm, rd, hrd, h⟩ := bind_ok₂ h
    cases h
    exact ((hbase.prime (hprimed .rd (by decide)) (by decide) hrd 7).imm himm 0 5 2
      (by decide)).imm himm 5 1 12
      (by decide)
  case cj =>
    obtain ⟨imm, himm, h⟩ := bind_ok.1 h
    cases h
    exact (((((((hbase.imm himm 11 1 12 (by decide)).imm himm 4 1 11 (by decide)).imm himm 8 2 9
      (by decide)).imm
      himm 10 1 8 (by decide)).imm himm 6 1 7 (by decide)).imm himm 7 1 6 (by decide)).imm himm 1 3 3
      (by decide)).imm himm 5 1 2 (by decide)
  case cb =>
    have hprimed := hcompressed (by decide)
    obtain ⟨imm, himm, rs1, hrs1, h⟩ := bind_ok₂ h
    cases h
    exact (((((hbase.imm himm 8 1 12 (by decide)).imm himm 3 2 10 (by decide)).prime
      (hprimed .rs1 (by decide))
      (by decide) hrs1 7).imm himm 6 2 5 (by decide)).imm himm 1 2 3 (by decide)).imm himm 5 1 2 (by decide)
  case clsp =>
    obtain ⟨imm, himm, rd, hrd, h⟩ := bind_ok₂ h
    cases h
    obtain ⟨hget, hpos, hhigh⟩ := nonzeroReg_eq_ok.1 hrd
    exact (((hbase.register (hwide (by decide)) ⟨hget, hpos.le, hhigh⟩ rfl 7).imm himm 5 1 12 (by decide)).imm
      himm 2 3 4 (by decide)).imm himm 6 2 2 (by decide)
  case cssp =>
    obtain ⟨imm, himm, rs2, hrs2, h⟩ := bind_ok₂ h
    cases h
    exact ((hbase.register (hwide (by decide)) (reg_eq_ok.1 hrs2) rfl 2).imm himm 2 4 9 (by decide)).imm himm
      6 2 7 (by decide)

/-- **An accepted word.** -/
theorem spells_encodeWord (hspec : spec ∈ specs) (h : encodeWord spec operands xlen = .ok w) :
    spec.Spells operands (spec.written (operands.contains .rd)) w := by
  have hcompressed := @spells_encodeCompressed spec operands w xlen
  have hbase := @spells_nil spec operands
  have hprimed := @primed_of_kind spec
  unfold encodeWord at h
  unfold written layout at hcompressed ⊢
  cases hk : spec.kind <;> simp only [hk, reduceCtorEq, if_true, if_false] at h hcompressed hprimed ⊢ <;>
    try exact hcompressed h
  all_goals have hwide := hprimed (by decide)
  case r =>
    obtain ⟨rd, hrd, rs1, hrs1, rs2, hrs2, h⟩ := bind_ok₃ h
    cases h
    exact ((hbase.register hwide (reg_eq_ok.1 hrd) rfl 7).register hwide (reg_eq_ok.1 hrs1) rfl
      15).register hwide
      (reg_eq_ok.1 hrs2) rfl 20
  case i | load =>
    obtain ⟨rd, hrd, rs1, hrs1, imm, himm, h⟩ := bind_ok₃ h
    cases h
    exact ((hbase.register hwide (reg_eq_ok.1 hrd) rfl 7).register hwide (reg_eq_ok.1 hrs1) rfl
      15).imm himm 0 12
      20 (by decide)
  case shift =>
    obtain ⟨shamt, hshamt, rd, hrd, rs1, hrs1, h⟩ := bind_ok₃ h
    cases h
    obtain ⟨hget, hlow, hhigh⟩ := shamtOperand_eq_ok.1 hshamt
    have hlimit := spec.shamtLimit_eq xlen
    exact ((hbase.register hwide (reg_eq_ok.1 hrd) rfl 7).register hwide (reg_eq_ok.1 hrs1) rfl 15).number
      (filled_of_get? hget) (by decide) (hwide _) hlow (by change shamt < 2 ^ 6; omega) (by decide) 20
  case store =>
    obtain ⟨rs1, hrs1, rs2, hrs2, imm, himm, h⟩ := bind_ok₃ h
    cases h
    simp only [storeBits, ← Nat.or_assoc]
    exact (((hbase.register hwide (reg_eq_ok.1 hrs1) rfl 15).register hwide (reg_eq_ok.1 hrs2) rfl
      20).imm himm 5 7
      25 (by decide)).imm himm 0 5 7 (by decide)
  case b =>
    obtain ⟨rs1, hrs1, rs2, hrs2, imm, himm, h⟩ := bind_ok₃ h
    cases h
    simp only [branchBits, ← Nat.or_assoc]
    exact (((((hbase.register hwide (reg_eq_ok.1 hrs1) rfl 15).register hwide (reg_eq_ok.1 hrs2) rfl
      20).imm himm
      12 1 31 (by decide)).imm himm 5 6 25 (by decide)).imm himm 1 4 8 (by decide)).imm himm 11 1
        7 (by decide)
  case u =>
    obtain ⟨rd, hrd, imm, himm, h⟩ := bind_ok₂ h
    cases h
    obtain ⟨hbits, hsigned⟩ := upper_specs spec hspec hk
    have hrange := (immOperand_eq_ok.1 himm).2
    have hlow := hrange.low
    have hhigh := hrange.high
    rw [hsigned, if_neg Bool.false_ne_true] at hlow hhigh
    rw [hbits] at hhigh
    have hfield : imm.toNat = intField imm 0 20 := by
      have := coe_intField_of_lt (n := 20) hlow (by omega)
      omega
    rw [hfield]
    exact (hbase.register hwide (reg_eq_ok.1 hrd) rfl 7).imm himm 0 20 12 (by decide)
  case j =>
    obtain ⟨rd, hrd, imm, himm, h⟩ := bind_ok₂ h
    cases h
    simp only [jalBits, ← Nat.or_assoc]
    exact ((((hbase.register hwide (reg_eq_ok.1 hrd) rfl 7).imm himm 20 1 31 (by decide)).imm himm 1 10 21
      (by decide)).imm himm 11 1 20 (by decide)).imm himm 12 8 12 (by decide)
  case fence =>
    obtain ⟨pred, hpred, succ, hsucc, h⟩ := bind_ok₂ h
    cases h
    obtain ⟨hp, hplow, hphigh, -⟩ := regOperand_eq_ok.1 hpred
    obtain ⟨hs, hslow, hshigh, -⟩ := regOperand_eq_ok.1 hsucc
    have hpred : spec.filled operands .pred = some pred :=
      (filled_of_default (if_pos ⟨hk, Or.inl rfl⟩)).trans hp
    have hsucc : spec.filled operands .succ = some succ :=
      (filled_of_default (if_pos ⟨hk, Or.inr rfl⟩)).trans hs
    exact (hbase.number hpred (by decide) (hwide _) hplow (by change pred < 2 ^ 4; omega)
      (by decide) 24).number hsucc
      (by decide) (hwide _) hslow (by change succ < 2 ^ 4; omega) (by decide) 20
  case fencei | system =>
    cases h
    exact hbase
  case lr =>
    obtain ⟨aqrl, haqrl, rd, hrd, rs1, hrs1, h⟩ := bind_ok₃ h
    cases h
    obtain ⟨haqrl, hlow, hhigh⟩ := aqrlOperand_eq_ok.1 haqrl
    have hfilled := filled_aqrl (Or.inl hk) haqrl
    exact ((hbase.register hwide (reg_eq_ok.1 hrd) rfl 7).register hwide (reg_eq_ok.1 hrs1) rfl
      15).number hfilled
      (by decide) (hwide _) hlow (by change aqrl < 2 ^ 2; omega) (by decide) 25
  case amo =>
    obtain ⟨aqrl, haqrl, rd, hrd, h⟩ := bind_ok₂ h
    obtain ⟨rs1, hrs1, rs2, hrs2, h⟩ := bind_ok₂ h
    cases h
    obtain ⟨haqrl, hlow, hhigh⟩ := aqrlOperand_eq_ok.1 haqrl
    have hfilled := filled_aqrl (Or.inr hk) haqrl
    exact (((hbase.register hwide (reg_eq_ok.1 hrd) rfl 7).register hwide (reg_eq_ok.1 hrs1) rfl
      15).register hwide
      (reg_eq_ok.1 hrs2) rfl 20).number hfilled (by decide) (hwide _) hlow (by change aqrl < 2 ^ 2; omega)
      (by decide) 25
  case csr =>
    obtain ⟨csr, hcsr, rd, hrd, rs1, hrs1, h⟩ := bind_ok₃ h
    cases h
    obtain ⟨hget, hlow, hhigh, -⟩ := regOperand_eq_ok.1 hcsr
    exact ((hbase.register hwide (reg_eq_ok.1 hrd) rfl 7).register hwide (reg_eq_ok.1 hrs1) rfl 15).number
      (filled_of_get? hget) (by decide) (hwide _) hlow (by change csr < 2 ^ 12; omega) (by decide) 20
  case csrI =>
    obtain ⟨csr, hcsr, zimm, hzimm, rd, hrd, h⟩ := bind_ok₃ h
    cases h
    obtain ⟨hget, hlow, hhigh, -⟩ := regOperand_eq_ok.1 hcsr
    obtain ⟨hzget, hzlow, hzhigh, -⟩ := regOperand_eq_ok.1 hzimm
    exact ((hbase.register hwide (reg_eq_ok.1 hrd) rfl 7).register hwide ⟨hzget, hzlow, hzhigh⟩ rfl 15).number
      (filled_of_get? hget) (by decide) (hwide _) hlow (by change csr < 2 ^ 12; omega) (by decide) 20

/-! ## The mask of a format -/

/-- The bits an entry's fields can set. -/
def layoutMask (spec : InstructionSpec) (xlen : ℕ) : ℕ :=
  let rd := 0x1F <<< 7
  let rs1 := 0x1F <<< 15
  let rs2 := 0x1F <<< 20
  match spec.kind with
  | .r => rd ||| rs1 ||| rs2
  | .i | .load | .csr | .csrI => rd ||| rs1 ||| 0xFFF <<< 20
  | .shift => rd ||| rs1 ||| spec.shamtLimit xlen <<< 20
  | .store | .b => rs1 ||| rs2 ||| 0x7F <<< 25 ||| rd
  | .u | .j => rd ||| 0xFFFFF <<< 12
  | .fence => 0xFF <<< 20
  | .fencei | .system | .cnop => 0
  | .lr => rd ||| rs1 ||| 3 <<< 25
  | .amo => rd ||| rs1 ||| rs2 ||| 3 <<< 25
  | .ciw | .cl | .ci | .cj | .cb | .clsp | .cssp => 0x1FFC
  | .cr => rd ||| 0x1F <<< 2
  | .ca => 7 <<< 7 ||| 7 <<< 2
  | .candi => 7 <<< 7 ||| 0x1F <<< 2 ||| 1 <<< 12
  | .cshift => (if spec.name = "C.SLLI" then rd else 7 <<< 7) ||| 0x1F <<< 2 |||
      if spec.shamtLimit xlen = 31 then 0 else 1 <<< 12

/-- The number of bits that an operand can have. -/
def top (spec : InstructionSpec) (xlen : ℕ) (o : OperandName) : ℕ :=
  if o = .shamt then if spec.shamtLimit xlen = 31 then 5 else 6 else 32

/-- **The pieces of an entry lie under its mask**, and shifts have the shift amounts. -/
theorem specs_mask (xlen : ℕ) (h : xlen = 32 ∨ xlen = 64) : ∀ spec ∈ specs, ∀ loads, ∀ p ∈ spec.written loads,
    (2 ^ min p.width (spec.top xlen p.operand - p.source) - 1) <<< p.target &&& spec.layoutMask xlen =
      (2 ^ min p.width (spec.top xlen p.operand - p.source) - 1) <<< p.target ∧
    (p.operand = .shamt → spec.kind = .shift ∨ spec.kind = .cshift) := by
  rcases h with rfl | rfl <;> decide +kernel

/-- The shift amount of an accepted word. -/
theorem shamt_of_encodeWord (h : encodeWord spec operands xlen = .ok w)
    (hkind : spec.kind = .shift ∨ spec.kind = .cshift) :
    ∃ shamt, operands.get? .shamt = some shamt ∧ 0 ≤ shamt ∧ shamt ≤ spec.shamtLimit xlen := by
  unfold encodeWord encodeCompressed at h
  rcases hkind with hk | hk
  all_goals
    simp only [hk] at h
    obtain ⟨shamt, hshamt, -⟩ := bind_ok.1 h
    obtain ⟨hget, hlow, hhigh⟩ := shamtOperand_eq_ok.1 hshamt
    exact ⟨shamt, hget, by omega, hhigh⟩

/-- **A piece of an accepted word is read back.** -/
theorem read_encodeWord (hspec : spec ∈ specs) (hcheck : checkOperands spec operands = .ok ())
    (h : encodeWord spec operands xlen = .ok w) {p : Piece OperandName} (hp : p ∈ spec.layout)
    (hv : operands.get? p.operand = some v) (hn : p.source + p.width ≤ 32) :
    readSegment w p.target p.width = intField v p.source p.width := by
  have hspells := spells_encodeWord hspec h
  rw [written_of_check hcheck] at hspells
  rw [hspells.word, readSegment_scatter (specs_layout spec hspec).1 hp, operandValue,
    filled_of_get? hv, Option.getD_some,
    readSegment_intField hn]

end InstructionSpec

open InstructionSpec in
/-- **An accepted word is its entry's fixed bits and fields under the mask.** -/
theorem filled_encodeWord (hxlen : xlen = 32 ∨ xlen = 64) (hspec : spec ∈ specs)
    (h : encodeWord spec operands xlen = .ok w) : Filled spec.fixed (spec.layoutMask xlen) w := by
  have hmask := specs_mask xlen hxlen spec hspec (operands.contains .rd)
  rw [(spells_encodeWord hspec h).word]
  refine filled_scatter (spec.top xlen) (fun p hp => ?_) fun p hp => (hmask p hp).1
  by_cases hshamt : p.operand = .shamt
  · obtain ⟨shamt, hget, hlow, hhigh⟩ := shamt_of_encodeWord h ((hmask p hp).2 hshamt)
    rw [hshamt, top, if_pos rfl, operandValue, filled_of_get? hget, Option.getD_some, intField]
    rcases spec.shamtLimit_eq xlen with hlimit | hlimit
    · rw [hlimit] at hhigh ⊢
      rw [if_pos rfl]
      omega
    · rw [hlimit] at hhigh ⊢
      rw [if_neg (by decide)]
      omega
  · rw [top, if_neg hshamt]
    exact intField_lt _ 0 32

end MyFuzz
