import MyFuzz.Foundations.BitField
import MyFuzz.Foundations.Dict
import MyFuzz.Isa.Constraints

/-!
# Isa/Transducer — templates that make a payload an instruction

A template fixes some bits of a word and leaves the rest free.  The transducer writes the fixed bits
of one template into a raw payload, then sets single bits where an encoding is reserved:

    raw ──InstructionTemplate.repair──▸ word ──repairFields──▸ word ──isLegalWord──▸ choice
-/

namespace MyFuzz

open BitField Outcome

/-! ## Masks -/

def opcodeMask : ℕ := 0x7F
def funct3Mask : ℕ := 0x7 <<< 12
def funct7Mask : ℕ := 0x7F <<< 25
def rdMask : ℕ := 0x1F <<< 7
def rs1Mask : ℕ := 0x1F <<< 15
def cFormatMask : ℕ := 0x7 <<< 13 ||| 0x3
def cRdMask : ℕ := 0x1F <<< 7
def cRs2Mask : ℕ := 0x1F <<< 2
def cImmediateMask : ℕ := 1 <<< 12 ||| 0x1F <<< 2
def cAddi4spnImmediateMask : ℕ := 1 <<< 12 ||| 0x3 <<< 11 ||| 0xF <<< 7 ||| 0x3 <<< 5

/-! ## Templates -/

/-- An operation by the bits it fixes. -/
structure InstructionTemplate where
  name : String
  width : ℕ
  extension : String
  fixedMask : ℕ
  fixedValue : ℕ
  deriving DecidableEq

namespace InstructionTemplate

/-- The constructor accepts the template: it is named, of a known extension and width, its mask lies
in the word and its value under the mask. -/
def Valid (t : InstructionTemplate) : Prop :=
  t.name ≠ "" ∧ t.extension ∈ ["I", "M", "C"] ∧ t.width ∈ [16, 32] ∧
    clear t.fixedMask (2 ^ t.width - 1) = 0 ∧ clear t.fixedValue t.fixedMask = 0

instance (t : InstructionTemplate) : Decidable t.Valid := inferInstanceAs (Decidable (_ ∧ _))

/-- Write the fixed bits into a payload. -/
def repair (t : InstructionTemplate) (raw : ℤ) : Except Exn ℕ := do
  ensure (0 ≤ raw) (.valueError "raw instruction payload must be a nonnegative integer")
  return (clear raw.toNat t.fixedMask ||| t.fixedValue) &&& (2 ^ t.width - 1)

end InstructionTemplate

/-- An emitted word, with the bits the payload still decides. -/
structure InstructionChoice where
  operation : String
  width : ℕ
  word : ℕ
  freeMask : ℕ
  legal : Bool
  deriving DecidableEq

/-- A template of 32 bits, by opcode and function fields. -/
def baseTemplate (name extension : String) (opcode : ℕ) (funct3 funct7 : Option ℕ)
    (extraMask extraValue : ℕ) : InstructionTemplate :=
  let fixedMask := opcodeMask ||| extraMask
  let fixedValue := opcode ||| extraValue
  let (fixedMask, fixedValue) := match funct3 with
    | none => (fixedMask, fixedValue)
    | some funct3 => (fixedMask ||| funct3Mask, fixedValue ||| funct3 <<< 12)
  let (fixedMask, fixedValue) := match funct7 with
    | none => (fixedMask, fixedValue)
    | some funct7 => (fixedMask ||| funct7Mask, fixedValue ||| funct7 <<< 25)
  ⟨name, 32, extension, fixedMask, fixedValue⟩

/-- A template of 16 bits, by quadrant and function field. -/
def compressedTemplate (name : String) (quadrant funct3 extraMask extraValue : ℕ) : InstructionTemplate :=
  ⟨name, 16, "C", cFormatMask ||| extraMask, funct3 <<< 13 ||| quadrant ||| extraValue⟩

/-! ## The base set -/

/-- Forms of one opcode that differ in the first function field. -/
def funct3Forms (extension : String) (opcode : ℕ) (forms : List (String × ℕ)) : List InstructionTemplate :=
  forms.map fun form => baseTemplate form.1 extension opcode (some form.2) none 0 0

/-- Forms of one opcode that differ in both function fields. -/
def funct7Forms (extension : String) (opcode : ℕ) (forms : List (String × ℕ × ℕ)) :
    List InstructionTemplate :=
  forms.map fun form => baseTemplate form.1 extension opcode (some form.2.1) (some form.2.2) 0 0

/-- The bits above a shift amount. -/
def shiftMask (contract : IsaContract) : ℕ :=
  if contract.xlen = 32 then funct7Mask else 0x3F <<< 26

/-- The immediate shifts. -/
def shiftTemplates (contract : IsaContract) : List InstructionTemplate :=
  [baseTemplate "SLLI" "I" 0x13 (some 1) none (shiftMask contract) 0,
    baseTemplate "SRLI" "I" 0x13 (some 5) none (shiftMask contract) 0,
    baseTemplate "SRAI" "I" 0x13 (some 5) none (shiftMask contract) (0x20 <<< 25)]

/-- The operations on an immediate and the operations on two registers. -/
def opForms : List (String × ℕ × ℕ) :=
  [("ADD", 0, 0), ("SLL", 1, 0), ("SLT", 2, 0), ("SLTU", 3, 0), ("XOR", 4, 0), ("SRL", 5, 0),
    ("OR", 6, 0), ("AND", 7, 0), ("SUB", 0, 0x20), ("SRA", 5, 0x20)]

def opImmForms : List (String × ℕ) :=
  [("ADDI", 0), ("SLTI", 2), ("SLTIU", 3), ("XORI", 4), ("ORI", 6), ("ANDI", 7)]

/-- The loads of a word length. -/
def loadForms (contract : IsaContract) : List (String × ℕ) :=
  [("LB", 0), ("LH", 1), ("LW", 2), ("LBU", 4), ("LHU", 5)] ++
    if contract.xlen = 64 then [("LD", 3), ("LWU", 6)] else []

/-- The stores of a word length. -/
def storeForms (contract : IsaContract) : List (String × ℕ) :=
  [("SB", 0), ("SH", 1), ("SW", 2)] ++ if contract.xlen = 64 then [("SD", 3)] else []

def branchForms : List (String × ℕ) :=
  [("BEQ", 0), ("BNE", 1), ("BLT", 4), ("BGE", 5), ("BLTU", 6), ("BGEU", 7)]

/-- Upper immediates, jumps and the fence. -/
def jumpTemplates : List InstructionTemplate :=
  [baseTemplate "AUIPC" "I" 0x17 none none 0 0, baseTemplate "LUI" "I" 0x37 none none 0 0,
    baseTemplate "JAL" "I" 0x6F none none 0 0, baseTemplate "JALR" "I" 0x67 (some 0) none 0 0,
    baseTemplate "FENCE" "I" 0x0F (some 0) none (0xF <<< 28 ||| rs1Mask ||| rdMask) 0]

/-- The system words of the declared privilege modes. -/
def systemWords (contract : IsaContract) : List (String × ℕ) :=
  [("ECALL", 0x00000073), ("EBREAK", 0x00100073), ("WFI", 0x10500073)] ++
    (if "M" ∈ contract.privilegeModes then [("MRET", 0x30200073)] else []) ++
    if "S" ∈ contract.privilegeModes then [("SRET", 0x10200073)] else []

/-- Words that are wholly fixed. -/
def wordTemplates (words : List (String × ℕ)) : List InstructionTemplate :=
  words.map fun word => ⟨word.1, 32, "I", 0xFFFFFFFF, word.2⟩

/-- The operations on the low halves of two 64-bit registers. -/
def op32Forms : List (String × ℕ × ℕ) :=
  [("ADDW", 0, 0), ("SLLW", 1, 0), ("SRLW", 5, 0), ("SUBW", 0, 0x20), ("SRAW", 5, 0x20)]

/-- The operations on the low half of a 64-bit register. -/
def wideTemplates : List InstructionTemplate :=
  [baseTemplate "ADDIW" "I" 0x1B (some 0) none 0 0, baseTemplate "SLLIW" "I" 0x1B (some 1) (some 0) 0 0,
    baseTemplate "SRLIW" "I" 0x1B (some 5) (some 0) 0 0,
    baseTemplate "SRAIW" "I" 0x1B (some 5) (some 0x20) 0 0] ++
  funct7Forms "I" 0x3B op32Forms

/-- The templates of the base set. -/
def iTemplates (contract : IsaContract) : List InstructionTemplate :=
  funct3Forms "I" 0x13 opImmForms ++ shiftTemplates contract ++ funct7Forms "I" 0x33 opForms ++
    funct3Forms "I" 0x03 (loadForms contract) ++ funct3Forms "I" 0x23 (storeForms contract) ++
    funct3Forms "I" 0x63 branchForms ++ jumpTemplates ++ wordTemplates (systemWords contract) ++
    if contract.xlen = 64 then wideTemplates else []

/-! ## Multiplication and division -/

def mulForms : List (String × ℕ × ℕ) :=
  [("MUL", 0, 1), ("MULH", 1, 1), ("MULHSU", 2, 1), ("MULHU", 3, 1), ("DIV", 4, 1), ("DIVU", 5, 1),
    ("REM", 6, 1), ("REMU", 7, 1)]

def mul32Forms : List (String × ℕ × ℕ) :=
  [("MULW", 0, 1), ("DIVW", 4, 1), ("DIVUW", 5, 1), ("REMW", 6, 1), ("REMUW", 7, 1)]

/-- The templates of the extension `M`. -/
def mTemplates (contract : IsaContract) : List InstructionTemplate :=
  funct7Forms "M" 0x33 mulForms ++ if contract.xlen = 64 then funct7Forms "M" 0x3B mul32Forms else []

/-! ## Compressed instructions -/

/-- The bits of an operation on two compressed registers. -/
def cRegisterMask : ℕ := 1 <<< 12 ||| 0x3 <<< 10 ||| 0x3 <<< 5

/-- RV32C reserves the top bit of a shift amount. -/
def shiftAmountMask (contract : IsaContract) : ℕ := if contract.xlen = 32 then 1 <<< 12 else 0

/-- The templates of the extension `C`. -/
def cTemplates (contract : IsaContract) : List InstructionTemplate :=
  [compressedTemplate "C.ADDI4SPN" 0 0 0 0, compressedTemplate "C.LW" 0 2 0 0,
    compressedTemplate "C.SW" 0 6 0 0, compressedTemplate "C.ADDI" 1 0 0 0] ++
  (if contract.xlen = 32 then [compressedTemplate "C.JAL" 1 1 0 0] else []) ++
  [compressedTemplate "C.LI" 1 2 0 0, compressedTemplate "C.ADDI16SP" 1 3 cRdMask (2 <<< 7),
    compressedTemplate "C.LUI" 1 3 0 0,
    compressedTemplate "C.SRLI" 1 4 (0x3 <<< 10 ||| shiftAmountMask contract) 0,
    compressedTemplate "C.SRAI" 1 4 (0x3 <<< 10 ||| shiftAmountMask contract) (1 <<< 10),
    compressedTemplate "C.ANDI" 1 4 (0x3 <<< 10) (2 <<< 10),
    compressedTemplate "C.SUB" 1 4 cRegisterMask (3 <<< 10),
    compressedTemplate "C.XOR" 1 4 cRegisterMask (3 <<< 10 ||| 1 <<< 5),
    compressedTemplate "C.OR" 1 4 cRegisterMask (3 <<< 10 ||| 2 <<< 5),
    compressedTemplate "C.AND" 1 4 cRegisterMask (3 <<< 10 ||| 3 <<< 5),
    compressedTemplate "C.J" 1 5 0 0, compressedTemplate "C.BEQZ" 1 6 0 0,
    compressedTemplate "C.BNEZ" 1 7 0 0, compressedTemplate "C.SLLI" 2 0 (shiftAmountMask contract) 0,
    compressedTemplate "C.LWSP" 2 2 0 0, compressedTemplate "C.JR" 2 4 (1 <<< 12 ||| cRs2Mask) 0,
    compressedTemplate "C.MV" 2 4 (1 <<< 12) 0, ⟨"C.EBREAK", 16, "C", 0xFFFF, 0x9002⟩,
    compressedTemplate "C.JALR" 2 4 (1 <<< 12 ||| cRs2Mask) (1 <<< 12),
    compressedTemplate "C.ADD" 2 4 (1 <<< 12) (1 <<< 12), compressedTemplate "C.SWSP" 2 6 0 0] ++
  if contract.xlen = 32 then []
  else
    [compressedTemplate "C.LD" 0 3 0 0, compressedTemplate "C.SD" 0 7 0 0,
      compressedTemplate "C.ADDIW" 1 1 0 0,
      compressedTemplate "C.SUBW" 1 4 cRegisterMask (1 <<< 12 ||| 3 <<< 10),
      compressedTemplate "C.ADDW" 1 4 cRegisterMask (1 <<< 12 ||| 3 <<< 10 ||| 1 <<< 5),
      compressedTemplate "C.LDSP" 2 3 0 0, compressedTemplate "C.SDSP" 2 7 0 0]

/-! ## The transducer -/

/-- A selector of the operations of one contract. -/
structure RiscvInstructionTransducer where
  contract : IsaContract
  supports : contract.SupportsLegalInstructionValidation

/-- A word under repair, with the bits that were set on the way. -/
structure RepairedWord where
  word : ℕ
  repairedMask : ℕ

namespace RepairedWord

/-- Set a bit. -/
def setBit (r : RepairedWord) (bit : ℕ) : RepairedWord := ⟨r.word ||| bit, r.repairedMask ||| bit⟩

/-- Set the lowest bit of a field that is zero. -/
def ensureNonzero (r : RepairedWord) (mask : ℕ) : RepairedWord :=
  if r.word &&& mask = 0 then r.setBit (lowestBit mask) else r

/-- Leave the reserved encodings of an operation. -/
def repairFields (r : RepairedWord) (name : String) : RepairedWord :=
  if name = "C.ADDI4SPN" then r.ensureNonzero cAddi4spnImmediateMask
  else if name = "C.ADDI" then
    if r.word &&& cRdMask = 0 ∧ r.word &&& cImmediateMask ≠ 0 then r.setBit (1 <<< 7) else r
  else if name ∈ ["C.LI", "C.ADDIW", "C.LWSP", "C.LDSP", "C.JR", "C.JALR"] then
    r.ensureNonzero cRdMask
  else if name = "C.ADDI16SP" then r.ensureNonzero cImmediateMask
  else if name = "C.LUI" then
    (if r.word &&& cRdMask ∈ [0, 2 <<< 7] then r.setBit (1 <<< 7) else r).ensureNonzero
      cImmediateMask
  else if name ∈ ["C.SRLI", "C.SRAI", "C.SLLI"] then
    (if name = "C.SLLI" then r.ensureNonzero cRdMask else r).ensureNonzero cImmediateMask
  else if name ∈ ["C.MV", "C.ADD"] then (r.ensureNonzero cRdMask).ensureNonzero cRs2Mask
  else r

end RepairedWord

namespace RiscvInstructionTransducer

variable (x : RiscvInstructionTransducer)

/-- The decoder of the same contract. -/
def provider : RiscvInstructionProvider := ⟨x.contract⟩

/-- The operations of the contract. -/
def templates : List InstructionTemplate :=
  iTemplates x.contract ++ (if "M" ∈ x.contract.extensions then mTemplates x.contract else []) ++
    if "C" ∈ x.contract.extensions ∧ x.contract.instructionAlignment = 2 then cTemplates x.contract
    else []

/-- The operations by name. -/
def byName : Dict String InstructionTemplate :=
  Dict.empty.update (x.templates.map fun t => (t.name, t))

/-- Make a payload an instruction of one template. -/
def repairTemplate (template : InstructionTemplate) (rawPayload : ℤ) : Except Exn InstructionChoice := do
  let word ← template.repair rawPayload
  let r := RepairedWord.repairFields ⟨word, 0⟩ template.name
  let freeMask := clear (2 ^ template.width - 1) (template.fixedMask ||| r.repairedMask)
  ensure (x.provider.isLegalWord r.word (template.width = 16))
    (.other ("instruction template produced an illegal word: " ++ template.name))
  return ⟨template.name, template.width, r.word, freeMask, true⟩

/-- Make a payload an instruction of the operation of a name. -/
def repairForOperation (operation : String) (rawPayload : ℤ) : Except Exn InstructionChoice :=
  match x.byName.get? operation with
  | none => .error (.valueError ("unavailable operation: " ++ operation))
  | some template => x.repairTemplate template rawPayload

/-- A word that is no instruction. -/
def illegalChoice (rawPayload : ℤ) (width : ℕ) : Except Exn InstructionChoice := do
  ensure (0 ≤ rawPayload) (.valueError "raw instruction payload must be a nonnegative integer")
  if width = 16 then
    let freeMask := 0x7 <<< 2
    let word := rawPayload.toNat &&& freeMask
    return ⟨"ILLEGAL", 16, word, freeMask, x.provider.isLegalWord word true⟩
  else
    let wordMask := 2 ^ width - 1
    let word := clear (rawPayload.toNat &&& wordMask) opcodeMask ||| 0x4B
    return ⟨"ILLEGAL", 32, word, clear wordMask opcodeMask, x.provider.isLegalWord word false⟩

/-- The bits of a selector. -/
def selectorWidth : ℕ := 8

/-- Select a choice, with preimages whose sizes differ by at most one. -/
def selectBalanced {α : Type} (raw rawWidth : ℕ) (choices : List α) : Except Exn α :=
  match choices[min (choices.length - 1) (raw * choices.length / 2 ^ rawWidth)]? with
  | some choice => if 0 < rawWidth ∧ raw < 2 ^ rawWidth then .ok choice
      else .error (.valueError "invalid selection")
  | none => .error (.valueError "invalid selection")

/-- The operations of a width, and the choice that is none. -/
def choices (illegal : Bool) (width : ℤ) : List (Option InstructionTemplate) :=
  (x.templates.filter fun t => t.width = width).map some ++ if illegal then [none] else []

/-- **Select an operation and make a payload an instruction of it.** -/
def repair (rawSelector rawPayload : ℤ) (illegal : Bool) (width : ℤ) : Except Exn InstructionChoice := do
  ensure (0 ≤ rawSelector ∧ rawSelector < 2 ^ selectorWidth)
    (.valueError "raw instruction selector must fit eight bits")
  ensure (width = 16 ∨ width = 32) (.valueError "instruction width must be 16 or 32")
  ensure ((x.templates.filter fun t => t.width = width) ≠ [])
    (.valueError "no operations available for instruction width")
  match ← selectBalanced rawSelector.toNat selectorWidth (x.choices illegal width) with
  | none => x.illegalChoice rawPayload width.toNat
  | some template => x.repairTemplate template rawPayload

/-- Select an operation by the highest bits of a payload, and make the payload an instruction of it. -/
def repairPayload (rawPayload width : ℤ) (illegal : Bool) : Except Exn InstructionChoice := do
  ensure (0 ≤ rawPayload) (.valueError "raw instruction payload must be a nonnegative integer")
  ensure (width = 16 ∨ width = 32) (.valueError "instruction width must be 16 or 32")
  let selector := rawPayload.toNat >>> (width.toNat - selectorWidth) &&& (2 ^ selectorWidth - 1)
  x.repair selector rawPayload illegal width

end RiscvInstructionTransducer

end MyFuzz
