import MyFuzz.Foundations.Bytes
import MyFuzz.Foundations.Draw
import MyFuzz.Riscv.Encoding

/-!
# Riscv/Program — seeded straight-line programs

A program fills four-byte slots with instructions drawn from the pool of a profile.  A declared RAM
window adds the memory instructions; its base is put into a reserved register by a prologue of one or
two slots.

    generateProgram profile options : Draw Program
      prologue      lui (+ addi) into the last register
      slots         one instruction of 32 bits, or two of 16
-/

namespace MyFuzz

open Outcome

/-! ## Profiles -/

/-- **The facts of a CPU profile that generation depends on**: one base set is declared, and its
embedded form has 16 registers and 32 bits. -/
structure RiscvProfile where
  xlen : ℕ
  extensions : List String
  registerCount : ℕ
  xlen_eq : xlen = 32 ∨ xlen = 64
  base : ("I" ∈ extensions ∧ "E" ∉ extensions) ∨ ("E" ∈ extensions ∧ "I" ∉ extensions)
  embedded : "E" ∈ extensions → xlen = 32
  registerCount_eq : registerCount = if "E" ∈ extensions then 16 else 32

/-- The profile declares the extension and the word length an entry needs. -/
def extensionAvailable (profile : RiscvProfile) (spec : InstructionSpec) : Prop :=
  spec.minXlen ≤ profile.xlen ∧
    if spec.extension = "I" then "I" ∈ profile.extensions ∨ "E" ∈ profile.extensions
    else spec.extension ∈ profile.extensions

instance (profile : RiscvProfile) (spec : InstructionSpec) : Decidable (extensionAvailable profile spec) := by
  unfold extensionAvailable
  infer_instance

/-! ## Programs -/

/-- One generated instruction and its place in the image. -/
structure ProgramInstruction where
  pc : ℕ
  word : ℕ
  width : ℕ
  extension : String
  operands : Dict OperandName ℤ
  address : Option ℕ

/-- What a caller asks for. -/
structure ProgramOptions where
  count : ℕ
  ramBase : ℕ
  ramSize : ℕ
  includeNonF1 : Bool
  compressed : Option Bool

/-- A generated program and its four-byte records. -/
structure Program where
  records : List (List UInt8)
  instructions : List ProgramInstruction

/-- The layouts that access memory. -/
def InstructionKind.isMemory (kind : InstructionKind) : Bool := kind ∈ [.load, .store, .lr, .amo]

/-- The layouts that are never generated. -/
def InstructionKind.unsupported (kind : InstructionKind) : Bool := kind ∈ [.system, .csr, .csrI]

/-- Generated accesses are aligned to four bytes at least. -/
def accessAlign (spec : InstructionSpec) : ℕ := max 4 spec.immAlign

/-- The entries a program may draw from. -/
def pool (profile : RiscvProfile) (options : ProgramOptions) (compressed : Bool) : List InstructionSpec :=
  specs.filter fun spec =>
    spec.compressed = compressed ∧ ¬ (spec.controlFlow ∨ spec.kind.unsupported) ∧
      ¬ (spec.compressed ∧ ¬ spec.f1Safe) ∧ extensionAvailable profile spec ∧
      ¬ (¬ options.includeNonF1 ∧ ¬ spec.f1Safe) ∧
      ¬ (spec.kind.isMemory ∧ (options.ramSize < 4 ∨ options.ramSize < accessAlign spec))

/-! ## Operands -/

/-- The registers that may be written. -/
def destinations (profile : RiscvProfile) (reserved : List ℕ) : List ℕ :=
  (List.range' 1 (profile.registerCount - 1)).filter (· ∉ reserved)

/-- The registers that may be read: `x0` and those written before. -/
def sources (profile : RiscvProfile) (written : List ℕ) : List ℕ :=
  (List.range profile.registerCount).filter fun reg => reg = 0 ∨ reg ∈ written

def pickDest (profile : RiscvProfile) (reserved : List ℕ) : Draw ℕ :=
  if destinations profile reserved = [] then
    Draw.raise (.valueError "no allocatable destination register in this profile")
  else Draw.choice (destinations profile reserved)

def pickSource (profile : RiscvProfile) (written : List ℕ) : Draw ℕ :=
  Draw.choice (sources profile written)

/-- An aligned offset into the window that 12 bits reach. -/
def windowOffset (align ramSize : ℕ) : Draw ℤ := do
  let limit : ℤ := min ((ramSize : ℤ) - align) 2044
  let limit := limit - limit % align
  return (← Draw.randrange 0 (limit / align + 1)) * align

/-- Draw an operand that an entry takes. -/
def pickOperand (spec : InstructionSpec) (name : OperandName) (draw : Draw ℕ)
    (operands : Dict OperandName ℤ) : Draw (Dict OperandName ℤ) :=
  if name ∈ spec.operands then do
    let reg ← draw
    return operands.set name reg
  else return operands

/-- The registers of an entry's operands. -/
def pickRegisters (spec : InstructionSpec) (profile : RiscvProfile) (written reserved : List ℕ)
    (baseReg : ℕ) : Draw (Dict OperandName ℤ) := do
  let operands ← pickOperand spec .rd (pickDest profile reserved) Dict.empty
  let operands ← pickOperand spec .rs1
    (if spec.kind.isMemory then pure baseReg else pickSource profile written) operands
  pickOperand spec .rs2 (pickSource profile written) operands

/-- The other operands of an entry, and the address it accesses. -/
def pickRest (spec : InstructionSpec) (profile : RiscvProfile) (options : ProgramOptions)
    (operands : Dict OperandName ℤ) : Draw (Dict OperandName ℤ × Option ℕ) := do
  if spec.kind = .lr ∨ spec.kind = .amo then return (operands, some options.ramBase)
  else if spec.kind.isMemory then
    let offset ← windowOffset (accessAlign spec) options.ramSize
    return (operands.set .imm offset, some (options.ramBase + offset).toNat)
  else if spec.kind = .i then
    return (operands.set .imm (← Draw.randrange (-2048) 2048), none)
  else if spec.kind = .shift then
    let limit := spec.shamtLimit profile.xlen
    return (operands.set .shamt
      (← Draw.randint 0 (if options.includeNonF1 then limit else min limit 31 : ℕ)), none)
  else if spec.kind = .u then
    return (operands.set .imm (← Draw.randrange 0 (2 ^ 20)), none)
  else if spec.kind = .fence then return ((operands.set .pred 0xF).set .succ 0xF, none)
  else return (operands, none)

/-! ## Instructions -/

/-- One instruction of 32 bits, and the registers written after it. -/
def emit32 (spec : InstructionSpec) (profile : RiscvProfile) (options : ProgramOptions)
    (written reserved : List ℕ) (baseReg pc : ℕ) : Draw (ProgramInstruction × List ℕ) := do
  let operands ← pickRegisters spec profile written reserved baseReg
  let (operands, address) ← pickRest spec profile options operands
  let word ← Draw.lift (encode spec.name profile.xlen operands)
  let written := if spec.writesRd then (operands.getD .rd 0).toNat :: written else written
  return (⟨pc, word, 4, spec.extension, operands, address⟩, written)

/-- The compressed registers that may be written. -/
def primes (profile : RiscvProfile) (reserved : List ℕ) : List ℕ :=
  [12, 13, 14, 15].filter fun reg => reg < profile.registerCount ∧ reg ∉ reserved

/-- The immediates of `c.lui`: six signed bits but zero. -/
def luiImmediates : List ℤ :=
  ((List.range 32).map fun i : ℕ => (i : ℤ) - 32) ++ (List.range' 1 31).map fun i : ℕ => (i : ℤ)

/-- The immediate or shift amount of a compressed instruction. -/
def pickCompressedRest (spec : InstructionSpec) (profile : RiscvProfile)
    (operands : Dict OperandName ℤ) : Draw (Dict OperandName ℤ) := do
  if spec.kind = .ci then
    if spec.name = "C.LUI" then
      return operands.set .imm (← Draw.choice luiImmediates)
    else return operands.set .imm (← Draw.randint (-32) 31)
  else if spec.kind = .candi then return operands.set .imm (← Draw.randint (-32) 31)
  else if spec.kind = .cshift then
    return operands.set .shamt (← Draw.randint 1 (spec.shamtLimit profile.xlen))
  else return operands

/-- One instruction of 16 bits, and the registers written after it. -/
def emitCompressed (spec : InstructionSpec) (profile : RiscvProfile) (written reserved : List ℕ)
    (pc : ℕ) : Draw (ProgramInstruction × List ℕ) := do
  let prime := primes profile reserved
  if prime = [] then
    Draw.raise (.valueError "no F1-safe compressed destination register available")
  else
    let rd ← Draw.choice prime
    let operands : Dict OperandName ℤ := Dict.empty.set .rd rd
    let operands ← pickOperand spec .rs2 (Draw.choice prime) operands
    let operands ← pickCompressedRest spec profile operands
    let word ← Draw.lift (encode spec.name profile.xlen operands)
    return (⟨pc, word, 2, spec.extension, operands, none⟩, rd :: written)

/-! ## Slots -/

/-- A word of 16 bits that is no part of a longer one. -/
def half (word : ℕ) (field : String) : Except Exn ℕ := do
  ensure (word ≤ 0xFFFF) (.valueError (field ++ " " ++ toString word ++ " is not a 16-bit instruction"))
  ensure (word &&& 3 ≠ 3) (.valueError (field ++ " is a 32-bit-length encoding"))
  return word

/-- Two words of 16 bits in one slot. -/
def packCompressedPair (first second : ℕ) : Except Exn (List UInt8) := do
  let low ← half first "first"
  let high ← half second "second"
  return Bytes.leBytes 4 (low ||| high <<< 16)

/-- A program under construction. -/
structure Generation where
  program : Program
  written : List ℕ
  pc : ℕ

/-- Add a record and its instructions. -/
def Generation.add (g : Generation) (record : List UInt8) (instructions : List ProgramInstruction)
    (written : List ℕ) : Generation :=
  ⟨⟨g.program.records ++ [record], g.program.instructions ++ instructions⟩, written, g.pc + 4⟩

/-- Whether a slot holds a compressed pair: when asked for, or tossed. -/
def useCompressed (profile : RiscvProfile) (options : ProgramOptions) : Draw Bool :=
  if options.compressed = some true then pure true
  else if options.compressed = none ∧ pool profile options true ≠ [] then Draw.coin
  else pure false

/-- A slot of two instructions of 16 bits. -/
def emitPair (profile : RiscvProfile) (options : ProgramOptions) (reserved : List ℕ)
    (g : Generation) : Draw Generation := do
  let (first, written) ← emitCompressed (← Draw.choice (pool profile options true)) profile g.written
    reserved g.pc
  let (second, written) ← emitCompressed (← Draw.choice (pool profile options true)) profile written
    reserved (g.pc + 2)
  let record ← Draw.lift (packCompressedPair first.word second.word)
  return g.add record [first, second] written

/-- A slot of one instruction of 32 bits. -/
def emitWide (profile : RiscvProfile) (options : ProgramOptions) (reserved : List ℕ) (baseReg : ℕ)
    (g : Generation) : Draw Generation := do
  let (item, written) ← emit32 (← Draw.choice (pool profile options false)) profile options g.written
    reserved baseReg g.pc
  return g.add (Bytes.leBytes 4 item.word) [item] written

/-- One slot. -/
def emitSlot (profile : RiscvProfile) (options : ProgramOptions) (reserved : List ℕ) (baseReg : ℕ)
    (g : Generation) : Draw Generation := do
  let use ← useCompressed profile options
  if use then emitPair profile options reserved g
  else emitWide profile options reserved baseReg g

/-- The slots that are still to be filled. -/
def emitSlots (profile : RiscvProfile) (options : ProgramOptions) (reserved : List ℕ) (baseReg : ℕ) :
    ℕ → Generation → Draw Generation
  | 0, g => pure g
  | n + 1, g => do
      let g ← emitSlot profile options reserved baseReg g
      emitSlots profile options reserved baseReg n g

/-! ## Generation -/

/-- The upper half of a window base, compensated for the sign of the lower. -/
def upperHalf (ramBase : ℕ) : ℕ := (ramBase + 0x800) / 2 ^ 12 % 2 ^ 20

/-- The lower half, as the signed immediate that is added. -/
def lowerHalf (ramBase : ℕ) : ℤ :=
  let lo := ((ramBase : ℤ) - upperHalf ramBase * 2 ^ 12) % 2 ^ 32
  if 2 ^ 31 ≤ lo then lo - 2 ^ 32 else lo

/-- The instructions that put a window base into a register. -/
def prologue (ramBase baseReg : ℕ) : List (String × Dict OperandName ℤ) :=
  ("LUI", (Dict.empty.set .rd (baseReg : ℤ)).set .imm (upperHalf ramBase : ℤ)) ::
    if lowerHalf ramBase = 0 then []
    else [("ADDI", ((Dict.empty.set .rd (baseReg : ℤ)).set .rs1 (baseReg : ℤ)).set .imm
      (lowerHalf ramBase))]

/-- Encode the prologue, one slot an instruction. -/
def emitPrologue (profile : RiscvProfile) :
    List (String × Dict OperandName ℤ) → Generation → Except Exn Generation
  | [], g => return g
  | (name, operands) :: rest, g => do
      let word ← encode name profile.xlen operands
      let spec ← specFor name
      emitPrologue profile rest
        (g.add (Bytes.leBytes 4 word) [⟨g.pc, word, 4, spec.extension, operands, none⟩] g.written)

/-- The window a caller asks for is one the prologue can reach. -/
def checkOptions (profile : RiscvProfile) (options : ProgramOptions) : Except Exn Unit := do
  ensure (1 ≤ options.count) (.valueError "count must be a positive integer")
  ensure (¬ (options.ramSize ≠ 0 ∧ (options.ramBase % 4 ≠ 0 ∨ options.ramSize % 4 ≠ 0 ∨ options.ramSize < 4)))
    (.valueError "ram_base and ram_size must be 4-aligned, ram_size >= 4")
  ensure (¬ (options.ramSize ≠ 0 ∧ 2 ^ 32 < options.ramBase + options.ramSize))
    (.valueError "RAM window must fit the 32-bit address space")
  ensure (¬ (options.ramSize ≠ 0 ∧ profile.xlen = 64 ∧ 2 ^ 31 < options.ramBase + options.ramSize + 0x800))
    (.valueError ("RV64 RAM window must stay below 2 GiB-2 KiB so the lui/addi " ++
      "prologue does not sign-extend the base"))
  ensure ("I" ∈ profile.extensions ∨ "E" ∈ profile.extensions) (.valueError "profile must declare I or E")

/-- The window has a base that a register has to hold. -/
def ProgramOptions.hasBase (options : ProgramOptions) : Prop :=
  options.ramSize ≠ 0 ∧ options.ramBase ≠ 0

instance (options : ProgramOptions) : Decidable options.hasBase :=
  inferInstanceAs (Decidable (_ ∧ _))

/-- The register that holds the base: `x0` for a window at zero. -/
def baseRegister (profile : RiscvProfile) (options : ProgramOptions) : ℕ :=
  if options.hasBase then profile.registerCount - 1 else 0

/-- The registers no instruction behind the prologue may write. -/
def reservedRegisters (profile : RiscvProfile) (options : ProgramOptions) : List ℕ :=
  if options.hasBase then [baseRegister profile options] else []

/-- The prologue of a program. -/
def prologueOf (profile : RiscvProfile) (options : ProgramOptions) : List (String × Dict OperandName ℤ) :=
  if options.hasBase then prologue options.ramBase (baseRegister profile options) else []

/-- **Generate a straight-line program.** -/
def generateProgram (profile : RiscvProfile) (options : ProgramOptions) : Draw Program := do
  Draw.lift (checkOptions profile options)
  let start := prologueOf profile options
  Draw.lift (ensure (start.length ≤ options.count)
    (.valueError "count must cover the RAM-base prologue slots"))
  let g ← Draw.lift (emitPrologue profile start
    ⟨⟨[], []⟩, reservedRegisters profile options, 0⟩)
  Draw.lift (ensure (¬ (pool profile options false = [] ∧ pool profile options true = []))
    (.valueError "no instruction is available for this profile/window"))
  Draw.lift (ensure (¬ (options.compressed = some true ∧ pool profile options true = []))
    (.valueError "profile has no F1-safe compressed instruction pool"))
  let g ← emitSlots profile options (reservedRegisters profile options)
    (baseRegister profile options) (options.count - start.length) g
  return g.program

end MyFuzz
