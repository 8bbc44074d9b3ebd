import MyFuzz.Foundations.Rv64i
import MyFuzz.Fuzz.F1Rv64
import Mathlib.Data.Nat.Bitwise

/-!
# Fuzz/F1Rv64Words — what an admitted word means

Every word that the subset admits is a straight-line RV64I instruction, and its fields are the operands of
that instruction.  The interpreter computes with integers that it cuts to 64 bits, the machine with words;
both cut in the same places:

    u64 v  =  (ofInt 64 v).toNat            sext32 v  =  (ofInt 32 v).toInt
-/

namespace MyFuzz

open Rv64i

namespace F1Rv64

open Rv32i (Reg Alu field signed reg)
open Rv64i (Instr Machine)

/-! ## Cutting -/

theorem u64_eq (value : ℤ) : u64 value = (BitVec.ofInt 64 value).toNat := by
  rw [BitVec.toNat_ofInt]
  rfl

variable {n k : ℕ} {d : Decoded}

theorem u64_natCast (h : n < 2 ^ 64) : u64 n = n := by
  unfold u64
  omega

theorem mask32_eq (value : ℤ) : mask32 value = (BitVec.ofInt 32 value).toNat := by
  rw [BitVec.toNat_ofInt]
  rfl

theorem mask32_lt (value : ℤ) : mask32 value < 2 ^ 32 := by
  rw [mask32_eq]
  exact BitVec.isLt _

theorem mask32_natCast (h : n < 2 ^ 32) : mask32 n = n := by
  unfold mask32
  omega

/-- The sign bit and the bits below it. -/
theorem sext_eq_signed {value : ℕ} (h : value < 2 ^ (k + 1)) : sext value (k + 1) = signed (k + 1) value := by
  have hlow : value &&& (1 <<< k - 1) = value % 2 ^ k := by
    rw [Nat.one_shiftLeft, Nat.and_two_pow_sub_one_eq_mod]
  have hhigh : value &&& 1 <<< k = 2 ^ k * (value / 2 ^ k) := by
    have hbit : value / 2 ^ k < 2 := Nat.div_lt_of_lt_mul (by rwa [pow_succ] at h)
    rw [Nat.one_shiftLeft, Nat.and_comm, Nat.two_pow_and, Nat.testBit_eq_decide_div_mod_eq,
      Nat.mod_eq_of_lt hbit]
    congr 1
    interval_cases value / 2 ^ k <;> rfl
  have hsplit := Nat.div_add_mod value (2 ^ k)
  unfold sext signed
  rw [Nat.add_sub_cancel, hlow, hhigh]
  split_ifs with hlt
  · rw [Nat.div_eq_of_lt hlt, Nat.mod_eq_of_lt hlt, Nat.mul_zero, Nat.cast_zero, sub_zero]
  · have hone : value / 2 ^ k = 1 := by
      refine Nat.div_eq_of_lt_le ?_ ?_
      · rw [Nat.one_mul]
        exact not_lt.1 hlt
      · rwa [Nat.succ_mul, Nat.one_mul, ← Nat.two_mul, Nat.mul_comm, ← pow_succ]
    rw [hone, Nat.mul_one] at hsplit
    have hcast : ((2 ^ k : ℕ) : ℤ) + ((value % 2 ^ k : ℕ) : ℤ) = value := by exact_mod_cast hsplit
    have htop : ((2 ^ k : ℕ) : ℤ) = 2 ^ k := by push_cast; rfl
    rw [hone, Nat.mul_one, pow_succ]
    omega

theorem sext32_eq (value : ℤ) : sext32 value = (BitVec.ofInt 32 value).toInt := by
  unfold sext32
  rw [sext_eq_signed (mask32_lt value), BitVec.toInt_eq_toNat_cond, ← mask32_eq]
  unfold signed
  split_ifs <;> omega

/-- **A result of 32 bits, extended and cut.** -/
theorem u64_sext32 (value : ℤ) : u64 (sext32 value) = ((BitVec.ofInt 32 value).signExtend 64).toNat := by
  rw [u64_eq, sext32_eq]
  rfl

/-! ## Fields -/

theorem shiftRight_and (w lo len : ℕ) : w >>> lo &&& (2 ^ len - 1) = field w lo len := by
  unfold field
  rw [Nat.shiftRight_eq_div_pow, Nat.and_two_pow_sub_one_eq_mod]

theorem upper_bits (w : ℕ) : w &&& 0xFFFFF000 = field w 12 20 * 2 ^ 12 := by
  have hmask : (0xFFFFF000 : ℕ) = (2 ^ 20 - 1) <<< 12 := by decide
  rw [hmask, ← shiftRight_and, ← Nat.shiftLeft_eq]
  refine Nat.eq_of_testBit_eq fun i => ?_
  rw [Nat.testBit_and, Nat.testBit_shiftLeft, Nat.testBit_shiftLeft, Nat.testBit_and, Nat.testBit_shiftRight]
  by_cases hi : i ≥ 12
  · rw [Nat.add_sub_cancel' hi]
    cases w.testBit i <;> simp [hi]
  · simp [hi]

/-! ## Meaning -/

/-- **A decoded word and its instruction.** -/
inductive Means : Decoded → Instr → Prop
  | lui (rd : Reg) (imm : ℤ) (value : Rv64i.Word) (heq : value.toNat = u64 (sext32 imm)) :
      Means { name := .lui, rd := rd, imm := imm } (.lui rd value)
  | addi (rd rs1 : Reg) (imm : ℤ) :
      Means { name := .addi, rd := rd, rs1 := rs1, imm := imm } (.opImm .add rd rs1 (BitVec.ofInt 64 imm))
  | addiw (rd rs1 : Reg) (imm : ℤ) :
      Means { name := .addiw, rd := rd, rs1 := rs1, imm := imm } (.opImmW .add rd rs1 (BitVec.ofInt 32 imm))
  | op {name : Name} {alu : Alu} (rd rs1 rs2 : Reg)
      (h : (name, alu) ∈ [(.add, .add), (.sub, .sub), (.and, .and), (.or, .or),
        ((.xor : Name), (.xor : Alu))]) :
      Means { name := name, rd := rd, rs1 := rs1, rs2 := some rs2 } (.op alu rd rs1 rs2)
  | addw (rd rs1 rs2 : Reg) :
      Means { name := .addw, rd := rd, rs1 := rs1, rs2 := some rs2 } (.opW .add rd rs1 rs2)
  | shift {name : Name} {alu : Alu} (rd rs1 : Reg) (shamt : ℕ) (hlt : shamt < 32)
      (h : (name, alu) ∈ [(.slliw, .sll), (.srliw, .srl), ((.sraiw : Name), (.sra : Alu))]) :
      Means { name := name, rd := rd, rs1 := rs1, shamt := shamt }
        (.opImmW alu rd rs1 (BitVec.ofNat 32 shamt))
  | ld (rd rs1 : Reg) (imm : ℤ) :
      Means { name := .ld, rd := rd, rs1 := rs1, imm := imm } (.load 8 true rd rs1 (BitVec.ofInt 64 imm))
  | sd (rs1 rs2 : Reg) (imm : ℤ) :
      Means { name := .sd, rd := 0, rs1 := rs1, rs2 := some (rs2 : ℕ), imm := imm }
        (.store 8 rs1 rs2 (BitVec.ofInt 64 imm))

theorem sext12 (w lo : ℕ) : sext (field w lo 12) 12 = signed 12 (field w lo 12) :=
  sext_eq_signed (Nat.mod_lt _ (by decide))

/-- The offset of a store is in two fields. -/
theorem sext_store (w : ℕ) : sext (field w 25 7 <<< 5 ||| field w 7 5) 12 =
    signed 12 (field w 25 7 * 2 ^ 5 + field w 7 5) := by
  have hhigh : field w 25 7 < 2 ^ 7 := Nat.mod_lt _ (by decide)
  have hlow : field w 7 5 < 2 ^ 5 := Nat.mod_lt _ (by decide)
  rw [Rv32i.shiftLeft_or_eq_add hlow]
  exact sext_eq_signed (by omega)

/-- One case of a chain, or the rest of it. -/
theorem of_ite_eq_ok {c : Prop} [Decidable c] {a : Decoded} {rest : Except Exn Decoded}
    (h : (if c then .ok a else rest) = .ok d) : c ∧ a = d ∨ rest = .ok d := by
  split_ifs at h with hc
  · exact .inl ⟨hc, Except.ok.inj h⟩
  · exact .inr h

/-- **An admitted word is a straight-line instruction.** -/
theorem exists_means {word : ℤ} (h : decode word = .ok d) :
    ∃ i, Rv64i.decode (mask32 word) = some i ∧ Means d i := by
  have hw := mask32_lt word
  unfold decode at h
  generalize mask32 word = w at h hw ⊢
  have hopcode : w &&& 0x7F = field w 0 7 := shiftRight_and w 0 7
  have hrd : w >>> 7 &&& 31 = field w 7 5 := shiftRight_and w 7 5
  have hfunct3 : w >>> 12 &&& 7 = field w 12 3 := shiftRight_and w 12 3
  have hrs1 : w >>> 15 &&& 31 = field w 15 5 := shiftRight_and w 15 5
  have hrs2 : w >>> 20 &&& 31 = field w 20 5 := shiftRight_and w 20 5
  have hfunct7 : w >>> 25 &&& 0x7F = field w 25 7 := shiftRight_and w 25 7
  have himm : w >>> 20 &&& 0xFFF = field w 20 12 := shiftRight_and w 20 12
  simp only [hopcode, hrd, hfunct3, hrs1, hrs2, hfunct7, himm, sext12, sext_store, upper_bits w] at h
  by_cases hparcel : w &&& 3 ≠ 3
  · rw [if_pos hparcel] at h
    cases h
  rw [if_neg hparcel] at h
  unfold Rv64i.decode
  rcases of_ite_eq_ok h with ⟨hlui, rfl⟩ | h
  · refine ⟨.lui (reg w 7) (Rv64i.upper w), by simp only [hlui, if_true], .lui (reg w 7) _ _ ?_⟩
    rw [u64_sext32, BitVec.ofInt_natCast]
    rfl
  rcases of_ite_eq_ok h with ⟨haddi, rfl⟩ | h
  · refine ⟨_, ?_, .addi (reg w 7) (reg w 15) _⟩
    simp [haddi, Rv32i.aluOf, Rv64i.immediateI]
  rcases of_ite_eq_ok h with ⟨haddiw, rfl⟩ | h
  · refine ⟨_, ?_, .addiw (reg w 7) (reg w 15) _⟩
    simp [haddiw, Rv64i.immediateI]
  rcases of_ite_eq_ok h with ⟨hadd, rfl⟩ | h
  · refine ⟨.op .add (reg w 7) (reg w 15) (reg w 20), ?_, .op (reg w 7) (reg w 15) (reg w 20) ?_⟩
    · simp [hadd, Rv32i.aluOf]
    · decide
  rcases of_ite_eq_ok h with ⟨hsub, rfl⟩ | h
  · refine ⟨.op .sub (reg w 7) (reg w 15) (reg w 20), ?_, .op (reg w 7) (reg w 15) (reg w 20) ?_⟩
    · simp [hsub, Rv32i.aluOf]
    · decide
  rcases of_ite_eq_ok h with ⟨hand, rfl⟩ | h
  · refine ⟨.op .and (reg w 7) (reg w 15) (reg w 20), ?_, .op (reg w 7) (reg w 15) (reg w 20) ?_⟩
    · simp [hand, Rv32i.aluOf]
    · decide
  rcases of_ite_eq_ok h with ⟨hor, rfl⟩ | h
  · refine ⟨.op .or (reg w 7) (reg w 15) (reg w 20), ?_, .op (reg w 7) (reg w 15) (reg w 20) ?_⟩
    · simp [hor, Rv32i.aluOf]
    · decide
  rcases of_ite_eq_ok h with ⟨hxor, rfl⟩ | h
  · refine ⟨.op .xor (reg w 7) (reg w 15) (reg w 20), ?_, .op (reg w 7) (reg w 15) (reg w 20) ?_⟩
    · simp [hxor, Rv32i.aluOf]
    · decide
  rcases of_ite_eq_ok h with ⟨haddw, rfl⟩ | h
  · refine ⟨_, ?_, .addw (reg w 7) (reg w 15) (reg w 20)⟩
    simp [haddw, Rv32i.aluOf]
  rcases of_ite_eq_ok h with ⟨hslliw, rfl⟩ | h
  · refine ⟨.opImmW .sll (reg w 7) (reg w 15) _, ?_,
      .shift (reg w 7) (reg w 15) (field w 20 5) (Nat.mod_lt _ (by decide)) ?_⟩
    · simp [hslliw, Rv64i.shiftOf]
    · decide
  rcases of_ite_eq_ok h with ⟨hsrliw, rfl⟩ | h
  · refine ⟨.opImmW .srl (reg w 7) (reg w 15) _, ?_,
      .shift (reg w 7) (reg w 15) (field w 20 5) (Nat.mod_lt _ (by decide)) ?_⟩
    · simp [hsrliw, Rv64i.shiftOf]
    · decide
  rcases of_ite_eq_ok h with ⟨hsraiw, rfl⟩ | h
  · refine ⟨.opImmW .sra (reg w 7) (reg w 15) _, ?_,
      .shift (reg w 7) (reg w 15) (field w 20 5) (Nat.mod_lt _ (by decide)) ?_⟩
    · simp [hsraiw, Rv64i.shiftOf]
    · decide
  rcases of_ite_eq_ok h with ⟨hld, rfl⟩ | h
  · refine ⟨_, ?_, .ld (reg w 7) (reg w 15) _⟩
    simp [hld, Rv64i.loadOf, Rv64i.immediateI]
  rcases of_ite_eq_ok h with ⟨hsd, rfl⟩ | h
  · refine ⟨_, ?_, .sd (reg w 15) (reg w 20) _⟩
    simp [hsd, Rv64i.immediateS]
  cases h

/-! ## Values -/

theorem ofInt_toNat (x : BitVec n) : BitVec.ofInt k (x.toNat : ℤ) = x.setWidth k := by
  rw [BitVec.ofInt_natCast, BitVec.ofNat_toNat]

/-- Cutting to 64 bits does not change the low 32. -/
theorem ofInt32_u64 (value : ℤ) : BitVec.ofInt 32 (u64 value : ℤ) = BitVec.ofInt 32 value := by
  apply BitVec.eq_of_toNat_eq
  rw [BitVec.toNat_ofInt, BitVec.toNat_ofInt]
  unfold u64
  omega

/-- A shift amount of a word form. -/
theorem shamt_eq {shamt : ℕ} (h : shamt < 32) : (BitVec.ofNat 32 shamt).toNat % 32 = shamt := by
  rw [BitVec.toNat_ofNat]
  omega

theorem ofInt32_shiftLeft (x : BitVec 64) (shamt : ℕ) :
    BitVec.ofInt 32 ((x.toNat <<< shamt : ℕ) : ℤ) = x.setWidth 32 <<< shamt := by
  apply BitVec.eq_of_toNat_eq
  rw [BitVec.ofInt_natCast, BitVec.toNat_ofNat, BitVec.toNat_shiftLeft, BitVec.toNat_setWidth,
    Nat.shiftLeft_eq, Nat.shiftLeft_eq, Nat.mod_mul_mod]

theorem ofInt32_shiftRight (x : BitVec 64) (shamt : ℕ) :
    BitVec.ofInt 32 ((mask32 x.toNat >>> shamt : ℕ) : ℤ) = x.setWidth 32 >>> shamt := by
  apply BitVec.eq_of_toNat_eq
  rw [mask32_eq, ofInt_toNat, BitVec.ofInt_natCast, BitVec.toNat_ofNat, BitVec.toNat_ushiftRight]
  exact Nat.mod_eq_of_lt ((Nat.shiftRight_le _ _).trans_lt (BitVec.isLt _))

/-- The value of a register, by its number. -/
def valueOf (m : Machine) (r : ℕ) : ℕ := if h : r < 32 then (m.x ⟨r, h⟩).toNat else 0

theorem valueOf_reg (m : Machine) (r : Reg) : valueOf m r = (m.x r).toNat := dif_pos r.isLt

/-- The word is a load or a store. -/
def Decoded.Accesses (d : Decoded) : Prop := d.name = .ld ∨ d.name = .sd

/-- **The interpreter and the machine compute the same value.** -/
theorem outcome_arithmetic {i : Instr} (h : Means d i) (hd : ¬ d.Accesses) (m : Machine) :
    ((outcome m i).rd : ℕ) = d.rd ∧ (outcome m i).memory = m.memory ∧
      (outcome m i).value.toNat = arithmetic d (valueOf m d.rs1) ((d.rs2.map (valueOf m)).getD 0) := by
  cases h with
  | lui rd imm value heq => exact ⟨rfl, rfl, heq⟩
  | addi rd rs1 imm =>
    refine ⟨rfl, rfl, ?_⟩
    unfold arithmetic outcome eval
    dsimp only
    rw [valueOf_reg, u64_eq, BitVec.ofInt_add, ofInt_toNat, BitVec.setWidth_eq]
  | addiw rd rs1 imm =>
    refine ⟨rfl, rfl, ?_⟩
    unfold arithmetic outcome eval
    dsimp only
    rw [valueOf_reg, u64_sext32, ofInt32_u64, BitVec.ofInt_add, ofInt_toNat]
  | addw rd rs1 rs2 =>
    refine ⟨rfl, rfl, ?_⟩
    unfold arithmetic outcome eval
    dsimp only
    rw [Option.map_some, Option.getD_some, valueOf_reg, valueOf_reg, u64_sext32, BitVec.ofInt_add,
      ofInt_toNat, ofInt_toNat]
  | op rd rs1 rs2 hpair =>
    refine ⟨rfl, rfl, ?_⟩
    have hx := (m.x rs1).isLt
    have hy := (m.x rs2).isLt
    simp only [List.mem_cons, List.not_mem_nil, or_false, Prod.mk.injEq] at hpair
    rcases hpair with ⟨rfl, rfl⟩ | ⟨rfl, rfl⟩ | ⟨rfl, rfl⟩ | ⟨rfl, rfl⟩ | ⟨rfl, rfl⟩ <;>
      unfold arithmetic outcome eval <;> dsimp only <;>
      rw [Option.map_some, Option.getD_some, valueOf_reg, valueOf_reg]
    · rw [u64_eq, BitVec.ofInt_add, ofInt_toNat, ofInt_toNat, BitVec.setWidth_eq, BitVec.setWidth_eq]
    · rw [BitVec.toNat_sub]
      unfold u64
      omega
    · rw [BitVec.toNat_and]
      exact (u64_natCast (Nat.and_le_left.trans_lt hx)).symm
    · rw [BitVec.toNat_or]
      exact (u64_natCast (Nat.or_lt_two_pow hx hy)).symm
    · rw [BitVec.toNat_xor]
      exact (u64_natCast (Nat.xor_lt_two_pow hx hy)).symm
  | shift rd rs1 shamt hlt hpair =>
    refine ⟨rfl, rfl, ?_⟩
    simp only [List.mem_cons, List.not_mem_nil, or_false, Prod.mk.injEq] at hpair
    rcases hpair with ⟨rfl, rfl⟩ | ⟨rfl, rfl⟩ | ⟨rfl, rfl⟩ <;>
      unfold arithmetic outcome eval <;> dsimp only <;>
      rw [valueOf_reg, u64_sext32, shamt_eq hlt]
    · rw [ofInt32_shiftLeft]
    · rw [ofInt32_shiftRight]
    · rw [sext32_eq, ofInt_toNat]
      rfl
  | ld => exact absurd (.inl rfl) hd
  | sd => exact absurd (.inr rfl) hd

end F1Rv64

end MyFuzz
