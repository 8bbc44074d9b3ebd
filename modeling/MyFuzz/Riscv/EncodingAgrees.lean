import MyFuzz.Isa.Repair
import MyFuzz.Riscv.EncodedWords

/-!
# Riscv/EncodingAgrees — the encoder and the decoder

Two descriptions of one instruction set: the table behind `encode`, and the templates of a
transducer.  An entry and a template of one name agree on the fixed bits, and the fields of the entry
stay clear of them, so an accepted word matches the template.  What is left is the reserved encodings
of the compressed forms: the operand checks exclude all of them but one,

    C.MV rd, x0  =  C.JR rd          C.ADD rd, x0  =  C.JALR rd
-/

namespace MyFuzz

open Outcome BitField RepairedWord RiscvInstructionTransducer InstructionTemplate InstructionSpec

variable {spec : InstructionSpec} {operands : Dict OperandName ℤ} {xlen w : ℕ}

/-! ## Entries and templates -/

variable {name : String} {n s fixed : ℕ} {v : ℤ}

theorem encode_eq_ok : encode name xlen operands = .ok w ↔
    ∃ spec ∈ specs, spec.name = name ∧ spec.minXlen ≤ xlen ∧ checkOperands spec operands = .ok () ∧
      encodeWord spec operands xlen = .ok w := by
  unfold encode specFor
  constructor
  · intro h
    obtain ⟨spec, hspec, h⟩ := bind_ok.1 h
    obtain ⟨hxlen, h⟩ := ensure_ok.1 h
    obtain ⟨u, hcheck, h⟩ := bind_ok.1 h
    cases hfound : catalog name with
    | none => rw [hfound] at hspec; cases hspec
    | some found =>
      rw [hfound] at hspec
      obtain rfl := Except.ok.inj hspec
      obtain ⟨hmem, hname⟩ := mem_of_catalog hfound
      exact ⟨found, hmem, hname, hxlen, hcheck, h⟩
  · rintro ⟨spec, hmem, rfl, hxlen, hcheck, h⟩
    rw [catalog_of_mem hmem]
    exact ensure_ok.2 ⟨hxlen, bind_ok.2 ⟨(), hcheck, h⟩⟩

/-- **An entry and a template of one name fix the same bits**, and the entry's fields stay clear of
them. -/
theorem specs_templates (xlen : ℕ) (h : xlen = 32 ∨ xlen = 64) :
    ∀ spec ∈ specs, ∀ t ∈ (IsaContract.full xlen h).allTemplates, t.name = spec.name →
      spec.fixed &&& t.fixedMask = t.fixedValue ∧ spec.layoutMask xlen &&& t.fixedMask = 0 ∧
        spec.fixed < 2 ^ t.width ∧ spec.layoutMask xlen < 2 ^ t.width := by
  rcases h with rfl | rfl <;> decide +kernel

/-- An accepted word has the width and the fixed bits of its template. -/
theorem matches_encodeWord {x : RiscvInstructionTransducer} {t : InstructionTemplate}
    (ht : t ∈ x.templates) (hspec : spec ∈ specs) (hname : t.name = spec.name)
    (h : encodeWord spec operands x.contract.xlen = .ok w) : w < 2 ^ t.width ∧ t.Matches w := by
  obtain ⟨hfixed, hapart, hlt, hmask⟩ := specs_templates _ x.contract.xlen_eq spec hspec t
    ((sublist_templates x).subset ht) hname
  have hfilled := filled_encodeWord x.contract.xlen_eq hspec h
  exact ⟨hfilled.lt hlt hmask, (hfilled.and_eq hapart).trans hfixed⟩

/-! ## Reserved encodings -/

/-- A nonzero field under a mask is seen by it. -/
theorem field_and_ne_zero {v m : ℕ} (hv : v < 2 ^ n) (hne : v ≠ 0)
    (hm : (2 ^ n - 1) <<< s &&& m = (2 ^ n - 1) <<< s) : v <<< s &&& m ≠ 0 := by
  have hunder : v <<< s &&& (2 ^ n - 1) <<< s = v <<< s :=
    (and_shiftLeft_eq_iff s).2 (by rw [Nat.shiftLeft_shiftRight, and_full hv])
  rw [← hunder, Nat.and_assoc, hm, hunder, Nat.shiftLeft_eq]
  exact Nat.mul_ne_zero hne (Nat.two_pow_pos s).ne'

/-- An immediate of six bits is zero when both its parts are. -/
theorem intField_six_ne_zero (hlow : -32 ≤ v) (hhigh : v ≤ 63) (hne : v ≠ 0) :
    intField v 0 5 ≠ 0 ∨ intField v 5 1 ≠ 0 := by
  unfold intField
  omega

/-- The immediate of a compressed form is seen under its mask. -/
theorem immediate_ne_zero (hlow : -32 ≤ v) (hhigh : v ≤ 63) (hne : v ≠ 0) :
    (w ||| intField v 0 5 <<< 2 ||| intField v 5 1 <<< 12) &&& cImmediateMask ≠ 0 := by
  rcases intField_six_ne_zero hlow hhigh hne with h | h
  · exact and_or_ne_zero_left (and_or_ne_zero (field_and_ne_zero (intField_lt v 0 5) h (by decide)))
  · exact and_or_ne_zero (field_and_ne_zero (intField_lt v 5 1) h (by decide))

/-- The destination of a compressed form is read back behind its immediate. -/
theorem rd_of_ci {rd : ℤ} (hrd : 0 ≤ rd ∧ rd ≤ 31) (hfixed : fixed &&& cRdMask = 0) :
    (fixed ||| rd.toNat <<< 7 ||| intField v 0 5 <<< 2 ||| intField v 5 1 <<< 12) &&& cRdMask =
      rd.toNat <<< 7 := by
  rw [or_field_and (intField_lt v 5 1) (by decide), or_field_and (intField_lt v 0 5) (by decide)]
  exact or_field_self (register_lt hrd.2) hfixed

theorem shiftLeft_ne_zero (h : n ≠ 0) : n <<< s ≠ 0 := by
  rw [Nat.shiftLeft_eq]
  exact Nat.mul_ne_zero h (Nat.two_pow_pos s).ne'

theorem settled_addi4spn (h : encodeWord ((ofC "C.ADDI4SPN" .ciw 0x0000 [.rd, .imm] true
    false).withImm 10 false 4 true) operands xlen = .ok w) : Settled "C.ADDI4SPN" w := by
  obtain ⟨rd, -, imm, himm, h⟩ := bind_ok₂ h
  cases h
  obtain ⟨-, hlow, hhigh, haligned, hnonzero⟩ := immOperand_eq_ok.1 himm
  have hne : imm ≠ 0 := hnonzero rfl
  change (0 : ℤ) ≤ imm at hlow
  change imm ≤ 1023 at hhigh
  change imm % 4 = 0 at haligned
  have hpart : intField imm 4 2 ≠ 0 ∨ intField imm 6 4 ≠ 0 ∨ intField imm 2 1 ≠ 0 ∨ intField imm 3 1 ≠ 0 := by
    unfold intField
    omega
  show _ &&& cAddi4spnImmediateMask ≠ 0
  refine and_or_ne_zero_left ?_
  rcases hpart with h | h | h | h
  · exact and_or_ne_zero_left (and_or_ne_zero_left (and_or_ne_zero_left (and_or_ne_zero
      (field_and_ne_zero (intField_lt imm 4 2) h (by decide)))))
  · exact and_or_ne_zero_left (and_or_ne_zero_left (and_or_ne_zero
      (field_and_ne_zero (intField_lt imm 6 4) h (by decide))))
  · exact and_or_ne_zero_left (and_or_ne_zero
      (field_and_ne_zero (intField_lt imm 2 1) h (by decide)))
  · exact and_or_ne_zero (field_and_ne_zero (intField_lt imm 3 1) h (by decide))

theorem settled_addi (h : encodeWord ((ofC "C.ADDI" .ci 0x0001 [.rd, .imm] true
    true).withImm 6 true 1 false) operands xlen = .ok w) : Settled "C.ADDI" w := by
  obtain ⟨rd, hrd, imm, himm, h⟩ := bind_ok₂ h
  cases h
  obtain ⟨hreg, hzero⟩ := ciRegister_eq_ok.1 hrd
  show ¬ (_ &&& cRdMask = 0 ∧ _ &&& cImmediateMask ≠ 0)
  rw [rd_of_ci hreg.2 (by decide)]
  rintro ⟨hz, himmediate⟩
  have hrd0 : rd = 0 := by
    by_contra hne
    exact shiftLeft_ne_zero (show rd.toNat ≠ 0 by omega) hz
  obtain ⟨imm', ⟨himm', -⟩, rfl⟩ := hzero hrd0
  obtain rfl : (0 : ℤ) = imm := Option.some.inj (himm'.symm.trans (immOperand_eq_ok.1 himm).1)
  subst hrd0
  exact himmediate rfl

theorem settled_li (h : encodeWord ((ofC "C.LI" .ci 0x4001 [.rd, .imm] true
    true).withImm 6 true 1 false) operands xlen = .ok w) : Settled "C.LI" w := by
  obtain ⟨rd, hrd, imm, -, h⟩ := bind_ok₂ h
  cases h
  obtain ⟨hreg, hne⟩ := ciRegister_eq_ok.1 hrd
  change rd ≠ 0 at hne
  show _ &&& cRdMask ≠ 0
  rw [rd_of_ci hreg.2 (by decide)]
  exact shiftLeft_ne_zero (by omega)

theorem settled_lui (h : encodeWord ((ofC "C.LUI" .ci 0x6001 [.rd, .imm] true
    true).withImm 6 true 1 true) operands xlen = .ok w) : Settled "C.LUI" w := by
  obtain ⟨rd, hrd, imm, himm, h⟩ := bind_ok₂ h
  cases h
  obtain ⟨hreg, hne⟩ := ciRegister_eq_ok.1 hrd
  change rd ≠ 0 ∧ rd ≠ 2 at hne
  obtain ⟨-, hlow, hhigh, -, hnonzero⟩ := immOperand_eq_ok.1 himm
  change (-32 : ℤ) ≤ imm at hlow
  change imm ≤ 31 at hhigh
  show _ &&& cRdMask ∉ [0, 2 <<< 7] ∧ _ &&& cImmediateMask ≠ 0
  refine ⟨?_, immediate_ne_zero hlow (by omega) (hnonzero rfl)⟩
  rw [rd_of_ci hreg.2 (by decide)]
  simp only [List.mem_cons, List.not_mem_nil, or_false, Nat.shiftLeft_eq]
  omega

theorem settled_shift (hname : name = "C.SRLI" ∨ name = "C.SRAI")
    (h : encodeWord (ofC name .cshift fixed [.rd, .shamt] true true) operands xlen =
      .ok w) : Settled name w := by
  obtain ⟨shamt, hshamt, h⟩ := bind_ok.1 h
  obtain ⟨-, hlow, hhigh⟩ := shamtOperand_eq_ok.1 hshamt
  have hlimit := shamtLimit_eq (ofC name .cshift fixed
    [.rd, .shamt] true true) xlen
  have hnot : name ≠ "C.SLLI" := by rcases hname with rfl | rfl <;> decide
  split at h
  · rename_i hslli
    exact absurd hslli hnot
  obtain ⟨rd, -, h⟩ := bind_ok.1 h
  cases h
  have himm := immediate_ne_zero (w := fixed ||| (rd - 8).toNat <<< 7) (v := shamt) (by omega)
    (by omega) (by omega)
  rcases hname with rfl | rfl <;> exact ⟨fun h => absurd h (by decide), himm⟩

theorem settled_slli (h : encodeWord (ofC "C.SLLI" .cshift 0x0002 [.rd, .shamt] true
    true) operands xlen = .ok w) : Settled "C.SLLI" w := by
  obtain ⟨shamt, hshamt, h⟩ := bind_ok.1 h
  obtain ⟨-, hlow, hhigh⟩ := shamtOperand_eq_ok.1 hshamt
  have hlimit := shamtLimit_eq (ofC "C.SLLI" .cshift 0x0002
    [.rd, .shamt] true true) xlen
  obtain ⟨rd, hrd, h⟩ := bind_ok.1 h
  cases h
  obtain ⟨-, hpos, hle⟩ := nonzeroReg_eq_ok.1 hrd
  refine ⟨fun _ => ?_, immediate_ne_zero (by omega) (by omega) (by omega)⟩
  rw [rd_of_ci ⟨hpos.le, hle⟩ (by decide)]
  exact shiftLeft_ne_zero (by omega)

theorem settled_lwsp (h : encodeWord ((ofC "C.LWSP" .clsp 0x4002 [.rd, .imm] true
    false).withImm 8 false 4 false) operands xlen = .ok w) : Settled "C.LWSP" w := by
  obtain ⟨imm, -, rd, hrd, h⟩ := bind_ok₂ h
  cases h
  obtain ⟨-, hpos, hle⟩ := nonzeroReg_eq_ok.1 hrd
  show _ &&& cRdMask ≠ 0
  exact and_or_ne_zero_left (and_or_ne_zero_left (and_or_ne_zero_left (and_or_ne_zero
    (field_and_ne_zero (register_lt hle) (by omega) (by decide)))))

/-- A move or an addition is settled exactly when its source is not `x0`. -/
theorem settled_move (hname : name = "C.MV" ∨ name = "C.ADD") (hfixed : fixed &&& cRs2Mask = 0)
    (h : encodeWord (ofC name .cr fixed [.rd, .rs2] true true) operands xlen =
      .ok w) : Settled name w ↔ operands.get? .rs2 ≠ some 0 := by
  obtain ⟨rd, hrd, rs2, hrs2, h⟩ := bind_ok₂ h
  cases h
  obtain ⟨-, hpos, hle⟩ := nonzeroReg_eq_ok.1 hrd
  obtain ⟨hget, hlow, hhigh⟩ := reg_eq_ok.1 hrs2
  have hrd' : (fixed ||| rd.toNat <<< 7 ||| rs2.toNat <<< 2) &&& cRdMask ≠ 0 :=
    and_or_ne_zero_left (and_or_ne_zero (field_and_ne_zero (register_lt hle) (by omega) (by decide)))
  have hrs2' : (fixed ||| rd.toNat <<< 7 ||| rs2.toNat <<< 2) &&& cRs2Mask = rs2.toNat <<< 2 := by
    refine or_field_self (register_lt hhigh) ?_
    rw [or_field_and (register_lt hle) (by decide)]
    exact hfixed
  have hiff : Settled name (fixed ||| rd.toNat <<< 7 ||| rs2.toNat <<< 2) ↔
      (fixed ||| rd.toNat <<< 7 ||| rs2.toNat <<< 2) &&& cRdMask ≠ 0 ∧
        (fixed ||| rd.toNat <<< 7 ||| rs2.toNat <<< 2) &&& cRs2Mask ≠ 0 := by
    rcases hname with rfl | rfl <;> rfl
  show Settled name (fixed ||| rd.toNat <<< 7 ||| rs2.toNat <<< 2) ↔ _
  refine (hiff.trans (and_iff_right hrd')).trans ?_
  rw [hrs2', hget, Nat.shiftLeft_eq, ne_eq, ne_eq, Option.some.injEq]
  omega

/-- The entries with a reserved encoding. -/
theorem repaired_specs : ∀ spec ∈ specs, spec.name ∈ repairedNames → spec ∈
    [(ofC "C.ADDI4SPN" .ciw 0x0000 [.rd, .imm] true false).withImm 10 false 4 true,
      (ofC "C.ADDI" .ci 0x0001 [.rd, .imm] true true).withImm 6 true 1 false,
      (ofC "C.LI" .ci 0x4001 [.rd, .imm] true true).withImm 6 true 1 false,
      (ofC "C.LUI" .ci 0x6001 [.rd, .imm] true true).withImm 6 true 1 true,
      ofC "C.MV" .cr 0x8002 [.rd, .rs2] true true,
      ofC "C.ADD" .cr 0x9002 [.rd, .rs2] true true,
      ofC "C.SRLI" .cshift 0x8001 [.rd, .shamt] true true,
      ofC "C.SRAI" .cshift 0x8401 [.rd, .shamt] true true,
      ofC "C.SLLI" .cshift 0x0002 [.rd, .shamt] true true,
      (ofC "C.LWSP" .clsp 0x4002 [.rd, .imm] true false).withImm 8 false 4 false] := by
  decide +kernel

/-- **An accepted word is settled** but for a move or an addition of `x0`. -/
theorem settled_encodeWord (hspec : spec ∈ specs) (h : encodeWord spec operands xlen = .ok w) :
    Settled spec.name w ↔ ¬ (spec.name ∈ ["C.MV", "C.ADD"] ∧ operands.get? .rs2 = some 0) := by
  by_cases hname : spec.name ∈ repairedNames
  · have hmem := repaired_specs spec hspec hname
    simp only [List.mem_cons, List.not_mem_nil, or_false] at hmem
    rcases hmem with rfl | rfl | rfl | rfl | rfl | rfl | rfl | rfl | rfl | rfl
    · exact iff_of_true (settled_addi4spn h) fun hm => absurd hm.1 (by decide)
    · exact iff_of_true (settled_addi h) fun hm => absurd hm.1 (by decide)
    · exact iff_of_true (settled_li h) fun hm => absurd hm.1 (by decide)
    · exact iff_of_true (settled_lui h) fun hm => absurd hm.1 (by decide)
    · exact (settled_move (.inl rfl) (by decide) h).trans
        (not_congr (and_iff_right (by decide)).symm)
    · exact (settled_move (.inr rfl) (by decide) h).trans
        (not_congr (and_iff_right (by decide)).symm)
    · exact iff_of_true (settled_shift (.inl rfl) h) fun hm => absurd hm.1 (by decide)
    · exact iff_of_true (settled_shift (.inr rfl) h) fun hm => absurd hm.1 (by decide)
    · exact iff_of_true (settled_slli h) fun hm => absurd hm.1 (by decide)
    · exact iff_of_true (settled_lwsp h) fun hm => absurd hm.1 (by decide)
  · have hnot : spec.name ∉ ["C.MV", "C.ADD"] := fun hm => hname (by
      rcases List.mem_pair.1 hm with hm | hm <;> rw [hm] <;> decide)
    exact iff_of_true (settled_of_notMem hname) fun hm => hnot hm.1

/-! ## Agreement -/

namespace RiscvInstructionTransducer

variable {x : RiscvInstructionTransducer} {t : InstructionTemplate}

/-- A word that is a legal instruction of one operation. -/
structure Accepts (x : RiscvInstructionTransducer) (t : InstructionTemplate) (w : ℕ) : Prop where
  in_range : w < 2 ^ t.width
  legal : x.provider.isLegalWord w (t.width = 16) = true
  fixpoint : ∃ choice, x.repairForOperation t.name w = .ok choice ∧ choice.word = w

/-- A word with the fixed bits of a template is its instruction exactly when it is settled. -/
theorem accepts_iff_settled (ht : t ∈ x.templates) (hw : w < 2 ^ t.width) (h : t.Matches w) :
    x.Accepts t w ↔ Settled t.name w := by
  have hrepair : x.repairForOperation t.name w = x.repairTemplate t w := by
    unfold repairForOperation
    simp only [get?_byName ht]
  constructor
  · rintro ⟨-, -, choice, hchoice, hword⟩
    rw [hrepair, repairTemplate_eq ht w] at hchoice
    cases hchoice
    rw [← hword]
    exact (repairedWord_spec ht w).2.2.1
  · intro hs
    refine ⟨hw, isLegalWord_of_settled ht hw h hs, _, hrepair.trans (repairTemplate_eq ht w), ?_⟩
    show (repairedWord t w).word = w
    have hbase : (clear w t.fixedMask ||| t.fixedValue) &&& (2 ^ t.width - 1) = w := by
      rw [← h, clear_or_and_self, and_full hw]
    unfold repairedWord
    rw [hbase]
    exact congrArg RepairedWord.word (repairFields_of_settled hs)

/-- **The encoder and the decoder agree** on every operand choice but a compressed move or addition
of `x0`, whose words are a jump. -/
theorem accepts_encode_iff (ht : t ∈ x.templates) (h : encode t.name x.contract.xlen operands = .ok w) :
    x.Accepts t w ↔ ¬ (t.name ∈ ["C.MV", "C.ADD"] ∧ operands.get? .rs2 = some 0) := by
  obtain ⟨spec, hspec, hname, -, -, hword⟩ := encode_eq_ok.mp h
  obtain ⟨hlt, hmatches⟩ := matches_encodeWord ht hspec hname.symm hword
  rw [accepts_iff_settled ht hlt hmatches, ← hname]
  exact settled_encodeWord hspec hword

/-- `c.add x5, x6` at RV32IMC. -/
theorem accepts_encode_add : (⟨IsaContract.full 32 (.inl rfl), by decide⟩ :
    RiscvInstructionTransducer).Accepts (compressedTemplate "C.ADD" 2 4 (1 <<< 12) (1 <<< 12)) 0x929A := by
  have hencode : encode "C.ADD" 32 ⟨[(.rd, 5), (.rs2, 6)], by decide⟩ = .ok 0x929A := by
    decide +kernel
  refine Iff.mpr (accepts_encode_iff (t := compressedTemplate "C.ADD" 2 4 (1 <<< 12) (1 <<< 12))
    (by decide +kernel) hencode) (by decide)

/-- `c.mv x1, x0` is encoded as the word of `c.jr x1`. -/
theorem move_of_zero_is_jump : ∃ w, encode "C.MV" 32 ⟨[(.rd, 1), (.rs2, 0)], by decide⟩ = .ok w ∧
    ¬ (⟨IsaContract.full 32 (.inl rfl), by decide⟩ : RiscvInstructionTransducer).Accepts
      (compressedTemplate "C.MV" 2 4 (1 <<< 12) 0) w ∧
    (⟨IsaContract.full 32 (.inl rfl), by decide⟩ : RiscvInstructionTransducer).Accepts
      (compressedTemplate "C.JR" 2 4 (1 <<< 12 ||| cRs2Mask) 0) w := by
  refine ⟨0x8082, by decide +kernel, fun h => ?_, ?_⟩
  · have hs := (accepts_iff_settled (by decide +kernel) (by decide) (by unfold Matches; decide)).mp h
    change 0x8082 &&& cRdMask ≠ 0 ∧ 0x8082 &&& cRs2Mask ≠ 0 at hs
    exact hs.2 (by decide)
  · refine (accepts_iff_settled (by decide +kernel) (by decide) (by unfold Matches; decide)).mpr ?_
    show 0x8082 &&& cRdMask ≠ 0
    decide

end RiscvInstructionTransducer

end MyFuzz
