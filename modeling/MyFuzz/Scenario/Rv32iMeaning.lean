import MyFuzz.Foundations.BitField
import MyFuzz.Foundations.Rv32i
import MyFuzz.Scenario.Rv32iSources

/-!
# Scenario/Rv32iMeaning — encoded instructions mean their operations

Every supported instruction is laid out in the fields of its word, so its word decodes to the
operation it names, passes the byte check, and runs as RV32I:

    Rv32iInstruction ──word──▸ layout ──decode──▸ meaning
-/

namespace MyFuzz

open Outcome Rv32i Rv32iInstruction

namespace Rv32iInstruction

/-- The fields of the word: upper part, source, function, destination, opcode. -/
def fieldsOf (i : Rv32iInstruction) : ℕ × ℕ × ℕ × ℕ × ℕ :=
  match i.operation with
  | .nop => (0, 0, 0, 0, 0x13)
  | .lui => (i.immediate.toNat / 2 ^ 8, i.immediate.toNat / 2 ^ 3 % 2 ^ 5,
      i.immediate.toNat % 2 ^ 3, i.rd.val, 0x37)
  | .and => (i.rs2.val, i.rs1.val, 7, i.rd.val, 0x33)
  | .or => (i.rs2.val, i.rs1.val, 6, i.rd.val, 0x33)
  | .slli => (i.immediate.toNat, i.rs1.val, 1, i.rd.val, 0x13)
  | .srli => (i.immediate.toNat, i.rs1.val, 5, i.rd.val, 0x13)
  | .srai => (i.immediate.toNat + 2 ^ 10, i.rs1.val, 5, i.rd.val, 0x13)
  | .addi => (lowBits 12 i.immediate, i.rs1.val, 0, i.rd.val, 0x13)
  | .xori => (lowBits 12 i.immediate, i.rs1.val, 4, i.rd.val, 0x13)
  | .ori => (lowBits 12 i.immediate, i.rs1.val, 6, i.rd.val, 0x13)
  | .andi => (lowBits 12 i.immediate, i.rs1.val, 7, i.rd.val, 0x13)
  | .lw => (lowBits 12 i.immediate, i.rs1.val, 2, i.rd.val, 0x03)
  | .sw => (lowBits 7 (i.immediate >>> (5 : ℕ)) * 2 ^ 5 + i.rs2.val, i.rs1.val, 2,
      lowBits 5 i.immediate, 0x23)
  | .sb => (lowBits 7 (i.immediate >>> (5 : ℕ)) * 2 ^ 5 + i.rs2.val, i.rs1.val, 0,
      lowBits 5 i.immediate, 0x23)

/-- The word of the fields. -/
def laidOut (i : Rv32iInstruction) : ℕ :=
  layout i.fieldsOf.1 i.fieldsOf.2.1 i.fieldsOf.2.2.1 i.fieldsOf.2.2.2.1 i.fieldsOf.2.2.2.2

theorem lowBits_lt (n : ℕ) (value : ℤ) : lowBits n value < 2 ^ n := by
  unfold lowBits
  have hpos : (0 : ℤ) < 2 ^ n := by positivity
  have hlt := Int.emod_lt_of_pos value hpos
  have hnonneg := Int.emod_nonneg value hpos.ne'
  zify
  rw [Int.toNat_of_nonneg hnonneg]
  exact_mod_cast hlt

theorem fields_fieldsOf (i : Rv32iInstruction) :
    Fields i.fieldsOf.1 i.fieldsOf.2.1 i.fieldsOf.2.2.1 i.fieldsOf.2.2.2.1 i.fieldsOf.2.2.2.2 := by
  obtain ⟨operation, rd, rs1, rs2, immediate, h⟩ := i
  have hrd := rd.isLt
  have hrs1 := rs1.isLt
  have hrs2 := rs2.isLt
  have h12 := lowBits_lt 12 immediate
  have h7 := lowBits_lt 7 (immediate >>> (5 : ℕ))
  have h5 := lowBits_lt 5 immediate
  cases operation <;> simp only [Operation.Operands] at h <;>
    constructor <;> simp only [fieldsOf] <;> omega

theorem lowBits_of_lt {n : ℕ} {value : ℕ} (h : value < 2 ^ n) : lowBits n value = value := by
  unfold lowBits
  rw [Int.emod_eq_of_lt (by positivity) (by exact_mod_cast h), Int.toNat_natCast]

/-- The offset of a store beside its data register. -/
theorem shiftLeft_offset (high : ℕ) (rs2 : Fin 32) :
    (high * 2 ^ 5 + rs2.val) <<< 20 = high <<< 25 ||| rs2.val <<< 20 := by
  rw [← shiftLeft_or_eq_add rs2.isLt, Nat.shiftLeft_or_distrib, ← Nat.shiftLeft_add]

/-- An upper immediate fills the fields above the destination. -/
theorem lui_eq_layout {immediate rd : ℕ} (hrd : rd < 2 ^ 5) :
    immediate <<< 12 ||| rd <<< 7 ||| 0x37
      = layout (immediate / 2 ^ 8) (immediate / 2 ^ 3 % 2 ^ 5) (immediate % 2 ^ 3) rd 0x37 := by
  rw [Nat.or_assoc, shiftLeft_or_eq_add (n := 7) (by norm_num),
    shiftLeft_or_eq_add (n := 12) (by omega), layout]
  omega

/-- **The word of an instruction is its fields side by side.** -/
theorem word_eq_laidOut (i : Rv32iInstruction) : i.word = i.laidOut := by
  have hfields := fields_fieldsOf i
  obtain ⟨operation, rd, rs1, rs2, immediate, h⟩ := i
  unfold laidOut
  cases operation <;> simp only [Operation.Operands] at h
  case nop => exact (by decide : 0x13 = layout 0 0 0 0 0x13)
  case lui => exact lui_eq_layout rd.isLt
  case slli | srli =>
    rw [← or_eq_layout hfields]
    have himm : lowBits 12 immediate = immediate.toNat := by
      rw [← Int.toNat_of_nonneg h.1.1]
      exact lowBits_of_lt (by omega)
    simp only [word, fieldsOf, himm]
  case srai =>
    rw [← or_eq_layout hfields]
    have himm : lowBits 12 (immediate.toNat ||| 0x400 : ℕ) = immediate.toNat + 2 ^ 10 := by
      have hor : immediate.toNat ||| 0x400 = 1 * 2 ^ 10 + immediate.toNat := by
        rw [Nat.or_comm]
        exact shiftLeft_or_eq_add (n := 10) (a := 1) (by omega)
      rw [hor, lowBits_of_lt (by omega)]
      omega
    simp only [word, fieldsOf, himm]
  case sw | sb =>
    rw [← or_eq_layout hfields]
    simp only [word, fieldsOf, shiftLeft_offset]
  all_goals
    rw [← or_eq_layout hfields]
    rfl

theorem word_lt (i : Rv32iInstruction) : i.word < 2 ^ 32 := by
  rw [word_eq_laidOut]
  exact layout_lt (fields_fieldsOf i)

/-! ## Meaning -/

/-- What an instruction does. -/
def meaning (i : Rv32iInstruction) : Instr :=
  match i.operation with
  | .nop => .opImm .add 0 0 0
  | .lui => .lui i.rd (BitVec.ofNat 32 (i.immediate.toNat * 2 ^ 12))
  | .and => .op .and i.rd i.rs1 i.rs2
  | .or => .op .or i.rd i.rs1 i.rs2
  | .slli => .opImm .sll i.rd i.rs1 (BitVec.ofNat 32 i.immediate.toNat)
  | .srli => .opImm .srl i.rd i.rs1 (BitVec.ofNat 32 i.immediate.toNat)
  | .srai => .opImm .sra i.rd i.rs1 (BitVec.ofNat 32 i.immediate.toNat)
  | .addi => .opImm .add i.rd i.rs1 (BitVec.ofInt 32 i.immediate)
  | .xori => .opImm .xor i.rd i.rs1 (BitVec.ofInt 32 i.immediate)
  | .ori => .opImm .or i.rd i.rs1 (BitVec.ofInt 32 i.immediate)
  | .andi => .opImm .and i.rd i.rs1 (BitVec.ofInt 32 i.immediate)
  | .lw => .load 4 true i.rd i.rs1 (BitVec.ofInt 32 i.immediate)
  | .sw => .store 4 i.rs1 i.rs2 (BitVec.ofInt 32 i.immediate)
  | .sb => .store 1 i.rs1 i.rs2 (BitVec.ofInt 32 i.immediate)

/-- **An encoded instruction decodes to its meaning.** -/
theorem decode_word (i : Rv32iInstruction) : decode i.word = some i.meaning := by
  have hfields := fields_fieldsOf i
  rw [word_eq_laidOut, laidOut]
  obtain ⟨operation, rd, rs1, rs2, immediate, h⟩ := i
  cases operation <;> simp only [Operation.Operands] at h
  case nop => exact (by decide : decode (layout 0 0 0 0 0x13) = some (.opImm .add 0 0 0))
  case lui =>
    refine (decode_lui hfields).trans ?_
    simp only [fieldsOf, meaning]
    congr 4
    omega
  case and | or => exact decode_op hfields
  case slli | srli =>
    refine (decode_opImm hfields).trans ?_
    have hlow : immediate.toNat % 2 ^ 5 = immediate.toNat := by omega
    have hhigh : immediate.toNat / 2 ^ 5 = 0 := by omega
    simp only [fieldsOf, hlow, hhigh]
    rfl
  case srai =>
    refine (decode_opImm hfields).trans ?_
    have hlow : (immediate.toNat + 2 ^ 10) % 2 ^ 5 = immediate.toNat := by omega
    have hhigh : (immediate.toNat + 2 ^ 10) / 2 ^ 5 = 0x20 := by omega
    simp only [fieldsOf, hlow, hhigh]
    rfl
  case addi | xori | ori | andi =>
    refine (decode_opImm hfields).trans ?_
    simp only [fieldsOf, lowBits, signed_emod h.1]
    rfl
  case lw =>
    refine (decode_load hfields).trans ?_
    simp only [fieldsOf, lowBits, signed_emod h.1]
    rfl
  case sw | sb =>
    refine (decode_store hfields).trans ?_
    have himm : lowBits 7 (immediate >>> (5 : ℕ)) * 2 ^ 5 + lowBits 5 immediate
        = (immediate % 2 ^ 12).toNat := by
      unfold lowBits
      rw [Int.shiftRight_eq_div_pow]
      omega
    simp only [fieldsOf, himm, signed_emod h.1]
    rfl

/-! ## The byte check -/

theorem and_mask (w n : ℕ) : w &&& (2 ^ n - 1) = field w 0 n := by
  rw [Nat.and_two_pow_sub_one_eq_mod, field, pow_zero, Nat.div_one]

theorem shiftRight_and_mask (w lo n : ℕ) : w >>> lo &&& (2 ^ n - 1) = field w lo n := by
  rw [Nat.and_two_pow_sub_one_eq_mod, Nat.shiftRight_eq_div_pow, field]

variable {w : ℕ}

theorem and_three_of_opcode {opcode : ℕ} (hop : w &&& 0x7f = opcode) (h : opcode % 4 = 3) : w &&& 3 = 3 := by
  have h7 : w &&& 0x7f = w % 2 ^ 7 := Nat.and_two_pow_sub_one_eq_mod w 7
  have h2 : w &&& 3 = w % 2 ^ 2 := Nat.and_two_pow_sub_one_eq_mod w 2
  omega

/-- A register operation without high bits is legal in plain RV32I. -/
theorem isLegalWord_op (hw : w < 2 ^ 32) (hop : w &&& 0x7f = 0x33) (h7 : w >>> 25 &&& 0x7f = 0) :
    (RiscvInstructionProvider.mk IsaContract.rv32i).isLegalWord w false = true := by
  have hlow : w &&& 3 = 3 := and_three_of_opcode hop rfl
  have hbase : (RiscvInstructionProvider.mk IsaContract.rv32i).baseLegal w = true := by
    simp only [RiscvInstructionProvider.baseLegal, hop, h7, Nat.reduceEqDiff, if_true, if_false]
  have hrange : ¬ ((0xFFFFFFFF : ℤ) < w ∨ w &&& 3 ≠ 3) := by omega
  have hsupports : IsaContract.rv32i.SupportsLegalInstructionValidation := by decide
  simp only [RiscvInstructionProvider.isLegalWord, Int.toNat_natCast]
  rw [if_neg (by omega), if_neg (not_not.2 hsupports), if_neg Bool.false_ne_true, if_neg hrange, hbase]

/-- **An encoded instruction passes the byte check.** -/
theorem checkWord_word (i : Rv32iInstruction) (offset : ℕ) : checkWord none i.word offset = .ok () := by
  have hfields := fields_fieldsOf i
  have hop : i.word &&& 0x7f = i.fieldsOf.2.2.2.2 := by
    rw [word_eq_laidOut, ← field_opcode hfields]
    exact and_mask _ 7
  have h3 : i.word >>> 12 &&& 7 = i.fieldsOf.2.2.1 := by
    rw [word_eq_laidOut, ← field_funct3 hfields]
    exact shiftRight_and_mask _ 12 3
  have h7 : i.word >>> 25 &&& 0x7f = i.fieldsOf.1 / 2 ^ 5 := by
    rw [word_eq_laidOut, ← field_funct7 hfields]
    exact shiftRight_and_mask _ 25 7
  have hupper : i.word >>> 20 &&& 0xfff = i.fieldsOf.1 := by
    rw [word_eq_laidOut, ← field_upper hfields]
    exact shiftRight_and_mask _ 20 12
  have hrd : i.word >>> 7 &&& 31 = i.fieldsOf.2.2.2.1 := by
    rw [word_eq_laidOut, ← field_rd hfields]
    exact shiftRight_and_mask _ 7 5
  have hword := word_lt i
  have h25 : i.word >>> 25 = i.fieldsOf.1 / 2 ^ 5 := by
    rw [← h7]
    refine (BitField.and_full (n := 7) ?_).symm
    rw [Nat.shiftRight_eq_div_pow]
    omega
  have hlow : i.word &&& 3 = 3 := by
    refine and_three_of_opcode hop ?_
    unfold fieldsOf
    cases i.operation <;> simp only
  unfold checkWord
  rw [if_neg (not_not.2 hlow)]
  simp only [hop, h3, hupper, h25, hrd]
  obtain ⟨operation, rd, rs1, rs2, immediate, h⟩ := i
  cases operation <;> simp only [Operation.Operands] at h
  case nop | lui | addi | xori | ori | andi => rfl
  case and | or =>
    have hhigh : rs2.val / 2 ^ 5 = 0 := Nat.div_eq_of_lt rs2.isLt
    have hlegal := isLegalWord_op hword hop (h7.trans hhigh)
    simp only [fieldsOf, Option.getD_none, hlegal]
    rfl
  case slli | srli =>
    have hreserved : immediate.toNat >>> 5 = 0 := by
      rw [Nat.shiftRight_eq_div_pow]
      omega
    simp only [fieldsOf, hreserved]
    rfl
  case srai =>
    have hreserved : (immediate.toNat + 2 ^ 10) >>> 5 = 0x20 := by
      rw [Nat.shiftRight_eq_div_pow]
      omega
    simp only [fieldsOf, hreserved]
    rfl
  case lw =>
    have haligned : lowBits 12 immediate % 4 = 0 := by
      unfold lowBits
      omega
    simp only [fieldsOf, haligned]
    rfl
  case sw =>
    have haligned : (((lowBits 7 (immediate >>> (5 : ℕ)) * 2 ^ 5 + rs2.val) / 2 ^ 5) <<< 5 |||
        lowBits 5 immediate) % 4 = 0 := by
      rw [shiftLeft_or_eq_add (lowBits_lt 5 immediate)]
      unfold lowBits
      omega
    simp only [fieldsOf, haligned]
    rfl
  case sb => rfl

theorem checkWords_map : ∀ (instructions : List Rv32iInstruction) (offset : ℕ),
    checkWords none (instructions.map word) offset = .ok ()
  | [], _ => rfl
  | i :: rest, offset => by
      rw [List.map_cons, checkWords, checkWord_word, ok_bind, checkWords_map rest]

theorem length_fragment (instructions : List Rv32iInstruction) :
    (instructions.flatMap fun item => Bytes.leBytes 4 item.word).length
      = 4 * instructions.length := by
  rw [List.length_flatMap]
  simp [Nat.mul_comm]

/-- **The bytes of a fragment pass the check and hold its words.** -/
theorem validate_fragmentBytes {instructions : List Rv32iInstruction} {data : List UInt8}
    (h : fragmentBytes instructions = .ok data) :
    validateInstructionBytes data none = .ok () ∧ Bytes.words data = instructions.map word := by
  obtain ⟨hne, h⟩ := ensure_ok.1 h
  cases h
  have hwords : Bytes.words (instructions.flatMap fun item => Bytes.leBytes 4 item.word)
      = instructions.map word := by
    rw [← List.flatMap_map]
    refine Bytes.words_flatMap fun w hw => ?_
    obtain ⟨i, -, rfl⟩ := List.mem_map.1 hw
    exact word_lt i
  have hlength := length_fragment instructions
  have hpos : 0 < instructions.length := List.length_pos_iff.2 hne
  refine ⟨?_, hwords⟩
  unfold validateInstructionBytes
  rw [ensure_of ⟨List.ne_nil_of_length_pos (by omega), by omega⟩, ok_bind, hwords, checkWords_map]

/-- **Encoded instructions run as their meanings.** -/
theorem exec_words (device : List Rv32i.Access → Word) (instructions : List Rv32iInstruction) (m : Machine) :
    exec device (instructions.map word) m = some (run device (instructions.map meaning) m) := by
  have hdecode : (instructions.map word).mapM decode = some (instructions.map meaning) := by
    induction instructions with
    | nil => rfl
    | cons i rest ih => simp [List.mapM_cons, decode_word, ih]
  rw [exec, hdecode, Option.map_some]

end Rv32iInstruction

/-! ## Constructed instructions -/

variable {operation : Operation} {immediate rd rs1 rs2 : ℤ}

theorem new_eq_ok {i : Rv32iInstruction} (h : new operation rd rs1 rs2 immediate = .ok i) :
    i.operation = operation ∧ (i.rd : ℤ) = rd ∧ (i.rs1 : ℤ) = rs1 ∧ (i.rs2 : ℤ) = rs2 ∧
      i.immediate = immediate := by
  unfold new at h
  split at h
  · cases h
  · next hcheck =>
    obtain ⟨hrd, hrs1, hrs2, -⟩ := checkInstruction_eq_ok.1 hcheck
    cases h
    exact ⟨rfl, Int.toNat_of_nonneg hrd.1, Int.toNat_of_nonneg hrs1.1, Int.toNat_of_nonneg hrs2.1, rfl⟩

/-- **Operands of an operation make an instruction.** -/
theorem exists_new (hrd : 0 ≤ rd ∧ rd < 32) (hrs1 : 0 ≤ rs1 ∧ rs1 < 32) (hrs2 : 0 ≤ rs2 ∧ rs2 < 32)
    (h : operation.Operands rd rs1 rs2 immediate) :
    ∃ i, new operation rd rs1 rs2 immediate = .ok i := by
  have hcheck := checkInstruction_eq_ok.2 ⟨hrd, hrs1, hrs2, h⟩
  unfold new
  split
  · next e he =>
    rw [hcheck] at he
    cases he
  · exact ⟨_, rfl⟩

end MyFuzz
