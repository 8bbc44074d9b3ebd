import MyFuzz.Foundations.Outcome

/-!
# Isa/Constraints — legal RISC-V instruction words

An `IsaContract` declares a word length, extensions, privilege modes and an instruction alignment.
`RiscvInstructionProvider` decides which words of 32 or 16 bits are instructions of that contract,
reading the fields of a word as an assembler lays them out:

    31      25 24   20 19   15 14    12 11    7 6      0
    funct7     rs2     rs1     funct3   rd      opcode        32 bits

    15    13 12 11              7 6            2 1      0
    funct3   ·  rd                rs2            quadrant     16 bits
-/

namespace MyFuzz

open Outcome

/-- Instruction-set facts. -/
structure IsaContract where
  xlen : ℕ
  extensions : List String
  privilegeModes : List String
  instructionAlignment : ℕ
  xlen_eq : xlen = 32 ∨ xlen = 64
  extensions_ne_nil : extensions ≠ []
  nodup_extensions : extensions.Nodup
  extension_ne_empty : ∀ item ∈ extensions, item ≠ ""
  alignment_eq : instructionAlignment = 2 ∨ instructionAlignment = 4
  modes_ne_nil : privilegeModes ≠ []
  mode_ne_empty : ∀ item ∈ privilegeModes, item ≠ ""

namespace IsaContract

/-- The constructor of a contract. -/
def new (xlen : ℕ) (extensions privilegeModes : List String) (instructionAlignment : ℕ) :
    Except Exn IsaContract :=
  if hx : ¬ (xlen = 32 ∨ xlen = 64) then .error (.valueError "xlen must be 32 or 64")
  else if he : extensions = [] ∨ ¬ extensions.Nodup then
    .error (.valueError "extensions must be a nonempty unique set")
  else if hs : ∃ item ∈ extensions, item = "" then
    .error (.valueError "extensions must be nonempty strings")
  else if ha : ¬ (instructionAlignment = 2 ∨ instructionAlignment = 4) then
    .error (.valueError "instruction_alignment must be 2 or 4")
  else if hm : privilegeModes = [] ∨ ∃ item ∈ privilegeModes, item = "" then
    .error (.valueError "privilege_modes must be nonempty strings")
  else
    .ok ⟨xlen, extensions, privilegeModes, instructionAlignment, not_not.mp hx,
      fun h => he (.inl h), not_not.mp fun h => he (.inr h), fun item hi h => hs ⟨item, hi, h⟩,
      not_not.mp ha, fun h => hm (.inl h), fun item hi h => hm (.inr ⟨item, hi, h⟩)⟩

/-- The extensions with an implemented decoder. -/
def implementedExtensions : List String := ["I", "M", "C"]

/-- The base integer set is declared and no extension is unknown. -/
def SupportsLegalInstructionValidation (c : IsaContract) : Prop :=
  "I" ∈ c.extensions ∧ c.extensions ⊆ implementedExtensions

instance (c : IsaContract) : Decidable c.SupportsLegalInstructionValidation :=
  inferInstanceAs (Decidable (_ ∧ _))

/-- The contract of plain RV32I. -/
def rv32i : IsaContract :=
  ⟨32, ["I"], ["M"], 4, .inl rfl, by simp, by simp, by simp, .inr rfl, by simp, by simp⟩

end IsaContract

/-- A decoder of the instructions of one contract. -/
structure RiscvInstructionProvider where
  contract : IsaContract

namespace RiscvInstructionProvider

/-- A word of 16 bits is a compressed instruction. -/
def compressedLegal (p : RiscvInstructionProvider) (value : ℕ) : Bool :=
  if "C" ∉ p.contract.extensions ∨ p.contract.instructionAlignment ≠ 2 ∨ 0xFFFF < value ∨
      value &&& 0b11 = 0b11 then false
  else
    let quadrant := value &&& 0b11
    let funct3 := value >>> 13 &&& 7
    let rd := value >>> 7 &&& 0x1F
    let rs2 := value >>> 2 &&& 0x1F
    let shift := (value >>> 2 &&& 0x1F) ||| (value >>> 12 &&& 1) <<< 5
    if quadrant = 0 then
      if funct3 = 0 then  -- C.ADDI4SPN
        (value &&& 0xF <<< 7) ||| (value &&& 0x3 <<< 11) ||| (value &&& 1 <<< 5) |||
          (value &&& 1 <<< 6) ≠ 0
      else if funct3 ∈ [2, 6] then true  -- C.LW / C.SW
      else funct3 ∈ [3, 7] ∧ p.contract.xlen = 64  -- C.LD / C.SD
    else if quadrant = 1 then
      let immediate := (value >>> 2 &&& 0x1F) ||| (value >>> 12 &&& 1) <<< 5
      if funct3 = 0 then rd ≠ 0 ∨ immediate = 0  -- C.ADDI / C.NOP
      else if funct3 = 1 then p.contract.xlen = 32 ∨ rd ≠ 0  -- C.JAL / C.ADDIW
      else if funct3 = 2 then rd ≠ 0  -- C.LI
      else if funct3 = 3 then
        if rd = 2 then  -- C.ADDI16SP
          (value &&& 1 <<< 12) ||| (value &&& 1 <<< 6) ||| (value &&& 1 <<< 5) |||
            (value &&& 0x3 <<< 3) ||| (value &&& 1 <<< 2) ≠ 0
        else rd ∉ [0, 2] ∧ immediate ≠ 0  -- C.LUI
      else if funct3 ∈ [5, 6, 7] then true  -- C.J / C.BEQZ / C.BNEZ
      else if funct3 ≠ 4 then false
      else
        let operation := value >>> 10 &&& 3
        if operation ≠ 3 then
          if operation ∈ [0, 1] then  -- C.SRLI / C.SRAI
            shift ≠ 0 ∧ (p.contract.xlen = 64 ∨ shift &&& 0x20 = 0)
          else true  -- C.ANDI
        else
          let operation := value >>> 5 &&& 3
          if value >>> 12 &&& 1 ≠ 0 then p.contract.xlen = 64 ∧ operation ∈ [0, 1]
          else operation ∈ [0, 1, 2, 3]  -- C.SUB / C.XOR / C.OR / C.AND
    else if quadrant = 2 then
      if funct3 = 0 then  -- C.SLLI
        rd ≠ 0 ∧ shift ≠ 0 ∧ (p.contract.xlen = 64 ∨ shift &&& 0x20 = 0)
      else if funct3 = 2 then rd ≠ 0  -- C.LWSP
      else if funct3 = 3 then p.contract.xlen = 64 ∧ rd ≠ 0  -- C.LDSP
      else if funct3 = 4 then
        if value >>> 12 &&& 1 = 0 then rd ≠ 0  -- C.JR / C.MV
        else if rd = 0 then rs2 = 0  -- C.EBREAK
        else true  -- C.JALR / C.ADD
      else if funct3 = 6 then true  -- C.SWSP
      else funct3 = 7 ∧ p.contract.xlen = 64  -- C.SDSP
    else false

/-- A word of 32 bits that ends in `11` is an instruction of the base set or of `M`. -/
def baseLegal (p : RiscvInstructionProvider) (value : ℕ) : Bool :=
  let opcode := value &&& 0x7F
  let funct3 := value >>> 12 &&& 7
  let funct7 := value >>> 25 &&& 0x7F
  let rd := value >>> 7 &&& 0x1F
  let rs1 := value >>> 15 &&& 0x1F
  if opcode = 0x13 then  -- OP-IMM
    if funct3 ∈ [0, 2, 3, 4, 6, 7] then true
    else if funct3 = 1 then if p.contract.xlen = 64 then value >>> 26 = 0 else funct7 = 0
    else if funct3 = 5 then
      if p.contract.xlen = 64 then value >>> 26 ∈ [0, 0x10] else funct7 ∈ [0, 0x20]
    else false
  else if opcode = 0x1B then  -- OP-IMM-32
    if p.contract.xlen ≠ 64 then false
    else if funct3 = 0 then true
    else if funct3 = 1 then funct7 = 0
    else funct3 = 5 ∧ funct7 ∈ [0, 0x20]
  else if opcode = 0x3B then  -- OP-32
    if p.contract.xlen ≠ 64 then false
    else if funct7 = 0 then funct3 ∈ [0, 1, 5]
    else if funct7 = 0x20 then funct3 ∈ [0, 5]
    else funct7 = 1 ∧ funct3 ∈ [0, 4, 5, 6, 7] ∧ "M" ∈ p.contract.extensions
  else if opcode = 0x33 then  -- OP
    if funct7 = 1 then "M" ∈ p.contract.extensions
    else if funct7 = 0 then true
    else funct7 = 0x20 ∧ funct3 ∈ [0, 5]
  else if opcode = 0x03 then  -- LOAD
    funct3 ∈ if p.contract.xlen = 32 then [0, 1, 2, 4, 5] else [0, 1, 2, 3, 4, 5, 6]
  else if opcode = 0x23 then  -- STORE
    funct3 ∈ if p.contract.xlen = 32 then [0, 1, 2] else [0, 1, 2, 3]
  else if opcode = 0x63 then funct3 ∈ [0, 1, 4, 5, 6, 7]
  else if opcode ∈ [0x17, 0x37, 0x6F] then true
  else if opcode = 0x67 then funct3 = 0
  else if opcode = 0x0F then  -- FENCE
    funct3 = 0 ∧ rd = 0 ∧ rs1 = 0 ∧ value >>> 28 &&& 0xF = 0
  else if opcode = 0x73 then  -- SYSTEM
    if funct3 ≠ 0 ∨ rd ≠ 0 ∨ rs1 ≠ 0 then false
    else
      let immediate := value >>> 20 &&& 0xFFF
      if immediate ∈ [0, 1] then true  -- ECALL / EBREAK
      else if immediate = 0x302 then "M" ∈ p.contract.privilegeModes  -- MRET
      else if immediate = 0x102 then "S" ∈ p.contract.privilegeModes  -- SRET
      else immediate = 0x105  -- WFI
  else false

/-- A number is an instruction of the contract. -/
def isLegalWord (p : RiscvInstructionProvider) (value : ℤ) (compressed : Bool) : Bool :=
  if value < 0 then false
  else if ¬ p.contract.SupportsLegalInstructionValidation then false
  else if compressed then p.compressedLegal value.toNat
  else if 0xFFFFFFFF < value ∨ value.toNat &&& 0b11 ≠ 0b11 then false
  else p.baseLegal value.toNat

end RiscvInstructionProvider

end MyFuzz
