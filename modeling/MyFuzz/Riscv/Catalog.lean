import Mathlib.Tactic

/-!
# Riscv/Catalog — the instruction table

One entry for each instruction: its fixed bits, the layout of its fields, its operands and the range
of its immediate.  Encoding and generation read nothing else about an instruction.

    InstructionSpec  = name, extension, kind, fixed, operands, …
    specs            the entries, in table order
-/

namespace MyFuzz

/-- The layout of an instruction's fields. -/
inductive InstructionKind where
  | r | i | shift | load | store | b | u | j | fence | fencei | system | lr | amo | csr | csrI
  | cnop | ciw | cl | ci | ca | cr | cshift | candi | cj | cb | clsp | cssp
  deriving DecidableEq

/-- The name of an operand; one that no instruction takes is an `other`. -/
inductive OperandName where
  | rd | rs1 | rs2 | imm | shamt | pred | succ | csr | zimm | aqrl
  | other (name : String)
  deriving DecidableEq

/-- An operand's name as the source spells it. -/
def OperandName.text : OperandName → String
  | rd => "rd"
  | rs1 => "rs1"
  | rs2 => "rs2"
  | imm => "imm"
  | shamt => "shamt"
  | pred => "pred"
  | succ => "succ"
  | csr => "csr"
  | zimm => "zimm"
  | aqrl => "aqrl"
  | other name => name

/-- One instruction's static encoding facts. -/
structure InstructionSpec where
  name : String
  extension : String
  kind : InstructionKind
  fixed : ℕ
  operands : List OperandName
  writesRd : Bool := false
  f1Safe : Bool := false
  immBits : ℕ := 0
  immSigned : Bool := true
  immAlign : ℕ := 1
  immNonzero : Bool := false
  minXlen : ℕ := 32
  compressed : Bool := false
  controlFlow : Bool := false
  deriving DecidableEq

namespace InstructionSpec

/-! ## Families -/

/-- An operation on two registers. -/
def ofR (name : String) (funct3 funct7 opcode : ℕ) (ext : String) (f1 : Bool) (xlen : ℕ) : InstructionSpec :=
  { name := name, extension := ext, kind := .r, fixed := opcode ||| funct3 <<< 12 ||| funct7 <<< 25,
    operands := [.rd, .rs1, .rs2], writesRd := true, f1Safe := f1, minXlen := xlen }

/-- An operation on a register and an immediate. -/
def ofI (name : String) (funct3 opcode : ℕ) (f1 : Bool) (align xlen : ℕ) (controlFlow : Bool) :
    InstructionSpec :=
  { name := name, extension := "I", kind := .i, fixed := opcode ||| funct3 <<< 12,
    operands := [.rd, .rs1, .imm], writesRd := true, f1Safe := f1, immBits := 12, immAlign := align,
    minXlen := xlen, controlFlow := controlFlow }

def ofLoad (name : String) (funct3 align : ℕ) (f1 : Bool) (xlen : ℕ) : InstructionSpec :=
  { name := name, extension := "I", kind := .load, fixed := 0x03 ||| funct3 <<< 12,
    operands := [.rd, .rs1, .imm], writesRd := true, f1Safe := f1, immBits := 12, immAlign := align,
    minXlen := xlen }

def ofStore (name : String) (funct3 align : ℕ) (f1 : Bool) (xlen : ℕ) : InstructionSpec :=
  { name := name, extension := "I", kind := .store, fixed := 0x23 ||| funct3 <<< 12,
    operands := [.rs2, .rs1, .imm], f1Safe := f1, immBits := 12, immAlign := align, minXlen := xlen }

def ofBranch (name : String) (funct3 : ℕ) : InstructionSpec :=
  { name := name, extension := "I", kind := .b, fixed := 0x63 ||| funct3 <<< 12,
    operands := [.rs1, .rs2, .imm], immBits := 13, immAlign := 2, controlFlow := true }

def ofShift (name : String) (funct3 : ℕ) (arithmetic : Bool) (opcode xlen : ℕ) (f1 : Bool) :
    InstructionSpec :=
  { name := name, extension := "I", kind := .shift,
    fixed := opcode ||| funct3 <<< 12 ||| if arithmetic then 0x400 <<< 20 else 0,
    operands := [.rd, .rs1, .shamt], writesRd := true, f1Safe := f1, minXlen := xlen }

def ofAmo (name : String) (funct5 : ℕ) (loadReserved : Bool) : InstructionSpec :=
  { name := name, extension := "A", kind := if loadReserved then .lr else .amo,
    fixed := 0x2F ||| 2 <<< 12 ||| funct5 <<< 27,
    operands := if loadReserved then [.rd, .rs1] else [.rd, .rs1, .rs2], writesRd := true }

def ofCsr (name : String) (funct3 : ℕ) (immediate : Bool) : InstructionSpec :=
  { name := name, extension := "ZICSR", kind := if immediate then .csrI else .csr,
    fixed := 0x73 ||| funct3 <<< 12,
    operands := if immediate then [.rd, .zimm, .csr] else [.rd, .rs1, .csr], writesRd := true }

/-- A compressed instruction without an immediate. -/
def ofC (name : String) (kind : InstructionKind) (fixed : ℕ) (operands : List OperandName)
    (writesRd f1 : Bool) : InstructionSpec :=
  { name := name, extension := "C", kind := kind, fixed := fixed, operands := operands,
    writesRd := writesRd, f1Safe := f1, compressed := true }

/-- The same with an immediate. -/
def withImm (spec : InstructionSpec) (bits : ℕ) (signed : Bool) (align : ℕ) (nonzero : Bool) :
    InstructionSpec :=
  { spec with immBits := bits, immSigned := signed, immAlign := align, immNonzero := nonzero }

/-- A compressed branch or jump. -/
def ofCJump (name : String) (kind : InstructionKind) (fixed : ℕ) (operands : List OperandName)
    (bits : ℕ) : InstructionSpec :=
  { (ofC name kind fixed operands false false).withImm bits true 2 false with controlFlow := true }

end InstructionSpec

open InstructionSpec

/-! ## The entries -/

/-- RV32I register and immediate operations. -/
def aluSpecs : List InstructionSpec :=
  [("ADD", 0), ("SUB", 0), ("SLL", 1), ("SLT", 2), ("SLTU", 3), ("XOR", 4), ("SRL", 5), ("SRA", 5),
    ("OR", 6), ("AND", 7)].map (fun (name, funct3) =>
      ofR name funct3 (if name ∈ ["SUB", "SRA"] then 0x20 else 0) 0x33 "I" true 32) ++
  [("ADDI", 0), ("SLTI", 2), ("SLTIU", 3), ("XORI", 4), ("ORI", 6), ("ANDI", 7)].map
    (fun (name, funct3) => ofI name funct3 0x13 true 1 32 false) ++
  [("SLLI", 1, false), ("SRLI", 5, false), ("SRAI", 5, true)].map
    (fun (name, funct3, arithmetic) => ofShift name funct3 arithmetic 0x13 32 true)

/-- RV32I loads, stores, branches, upper immediates, jumps and system words. -/
def baseSpecs : List InstructionSpec :=
  [("LB", 0, 1, false), ("LH", 1, 2, false), ("LW", 2, 4, true), ("LBU", 4, 1, false),
    ("LHU", 5, 2, false)].map (fun (name, funct3, align, f1) => ofLoad name funct3 align f1 32) ++
  [("SB", 0, 1, true), ("SH", 1, 2, false), ("SW", 2, 4, true)].map
    (fun (name, funct3, align, f1) => ofStore name funct3 align f1 32) ++
  [("BEQ", 0), ("BNE", 1), ("BLT", 4), ("BGE", 5), ("BLTU", 6), ("BGEU", 7)].map
    (fun (name, funct3) => ofBranch name funct3) ++
  [{ name := "LUI", extension := "I", kind := .u, fixed := 0x37, operands := [.rd, .imm],
      writesRd := true, f1Safe := true, immBits := 20, immSigned := false },
    { name := "AUIPC", extension := "I", kind := .u, fixed := 0x17, operands := [.rd, .imm],
      writesRd := true, immBits := 20, immSigned := false },
    { name := "JAL", extension := "I", kind := .j, fixed := 0x6F, operands := [.rd, .imm],
      writesRd := true, immBits := 21, immAlign := 2, controlFlow := true },
    ofI "JALR" 0 0x67 false 2 32 true,
    { name := "FENCE", extension := "I", kind := .fence, fixed := 0x0F, operands := [.pred, .succ] },
    { name := "FENCE.I", extension := "ZIFENCEI", kind := .fencei, fixed := 0x100F, operands := [] },
    { name := "ECALL", extension := "I", kind := .system, fixed := 0x73, operands := [] },
    { name := "EBREAK", extension := "I", kind := .system, fixed := 0x100073, operands := [] }]

/-- RV32M. -/
def mulSpecs : List InstructionSpec :=
  [("MUL", 0), ("MULH", 1), ("MULHSU", 2), ("MULHU", 3), ("DIV", 4), ("DIVU", 5), ("REM", 6),
    ("REMU", 7)].map fun (name, funct3) => ofR name funct3 1 0x33 "M" true 32

/-- RV32A and Zicsr. -/
def systemSpecs : List InstructionSpec :=
  [ofAmo "LR.W" 0b00010 true, ofAmo "SC.W" 0b00011 false] ++
  [("AMOSWAP.W", 0b00001), ("AMOADD.W", 0b00000), ("AMOXOR.W", 0b00100), ("AMOAND.W", 0b01100),
    ("AMOOR.W", 0b01000), ("AMOMIN.W", 0b10000), ("AMOMAX.W", 0b10100), ("AMOMINU.W", 0b11000),
    ("AMOMAXU.W", 0b11100)].map (fun (name, funct5) => ofAmo name funct5 false) ++
  [("CSRRW", 1, false), ("CSRRS", 2, false), ("CSRRC", 3, false), ("CSRRWI", 5, true),
    ("CSRRSI", 6, true), ("CSRRCI", 7, true)].map
      (fun (name, funct3, immediate) => ofCsr name funct3 immediate)

/-- RV32C. -/
def compressedSpecs : List InstructionSpec :=
  [(ofC "C.ADDI4SPN" .ciw 0x0000 [.rd, .imm] true false).withImm 10 false 4 true,
    (ofC "C.LW" .cl 0x4000 [.rd, .rs1, .imm] true false).withImm 7 false 4 false,
    (ofC "C.SW" .cl 0xC000 [.rs2, .rs1, .imm] false false).withImm 7 false 4 false,
    ofC "C.NOP" .cnop 0x0001 [] false false,
    (ofC "C.ADDI" .ci 0x0001 [.rd, .imm] true true).withImm 6 true 1 false,
    (ofC "C.LI" .ci 0x4001 [.rd, .imm] true true).withImm 6 true 1 false,
    (ofC "C.LUI" .ci 0x6001 [.rd, .imm] true true).withImm 6 true 1 true,
    ofC "C.MV" .cr 0x8002 [.rd, .rs2] true true, ofC "C.ADD" .cr 0x9002 [.rd, .rs2] true true,
    ofC "C.SUB" .ca 0x8C01 [.rd, .rs2] true true, ofC "C.XOR" .ca 0x8C21 [.rd, .rs2] true true,
    ofC "C.OR" .ca 0x8C41 [.rd, .rs2] true true, ofC "C.AND" .ca 0x8C61 [.rd, .rs2] true true,
    ofC "C.SRLI" .cshift 0x8001 [.rd, .shamt] true true, ofC "C.SRAI" .cshift 0x8401 [.rd, .shamt] true true,
    ofC "C.SLLI" .cshift 0x0002 [.rd, .shamt] true true,
    (ofC "C.ANDI" .candi 0x8801 [.rd, .imm] true true).withImm 6 true 1 false,
    ofCJump "C.J" .cj 0xA001 [.imm] 12, ofCJump "C.BEQZ" .cb 0xC001 [.rs1, .imm] 9,
    ofCJump "C.BNEZ" .cb 0xE001 [.rs1, .imm] 9,
    (ofC "C.LWSP" .clsp 0x4002 [.rd, .imm] true false).withImm 8 false 4 false,
    (ofC "C.SWSP" .cssp 0xC002 [.rs2, .imm] false false).withImm 8 false 4 false]

/-- RV64. -/
def wideSpecs : List InstructionSpec :=
  [ofI "ADDIW" 0 0x1B false 1 64 false, ofShift "SLLIW" 1 false 0x1B 64 false,
    ofShift "SRLIW" 5 false 0x1B 64 false, ofShift "SRAIW" 5 true 0x1B 64 false,
    ofLoad "LD" 3 8 false 64, ofStore "SD" 3 8 false 64, ofLoad "LWU" 6 4 false 64] ++
  [("ADDW", 0, 0x00), ("SUBW", 0, 0x20), ("SLLW", 1, 0x00), ("SRLW", 5, 0x00), ("SRAW", 5, 0x20)].map
    (fun (name, funct3, funct7) => ofR name funct3 funct7 0x3B "I" false 64) ++
  [("MULW", 0), ("DIVW", 4), ("DIVUW", 5), ("REMW", 6), ("REMUW", 7)].map
    (fun (name, funct3) => ofR name funct3 1 0x3B "M" false 64)

/-- **The instruction table.** -/
def specs : List InstructionSpec :=
  aluSpecs ++ baseSpecs ++ mulSpecs ++ systemSpecs ++ compressedSpecs ++ wideSpecs

/-- **No two entries share a name.** -/
theorem nodup_specs : (specs.map InstructionSpec.name).Nodup := by decide +kernel

/-- The entry of a name. -/
def catalog (name : String) : Option InstructionSpec := specs.find? fun spec => spec.name = name

variable {spec : InstructionSpec}

theorem mem_of_catalog {name : String} (h : catalog name = some spec) : spec ∈ specs ∧ spec.name = name :=
  ⟨List.mem_of_find?_eq_some h, by simpa using List.find?_some h⟩

theorem catalog_of_mem (h : spec ∈ specs) : catalog spec.name = some spec := by
  obtain ⟨found, hfound⟩ : ∃ found, catalog spec.name = some found := by
    refine Option.isSome_iff_exists.1 (List.find?_isSome.2 ⟨spec, h, ?_⟩)
    exact decide_eq_true rfl
  obtain ⟨hmem, hname⟩ := mem_of_catalog hfound
  rw [hfound, List.inj_on_of_nodup_map nodup_specs hmem h hname]

namespace InstructionSpec

/-- The largest shift amount of an instruction. -/
def shamtLimit (spec : InstructionSpec) (xlen : ℕ) : ℕ :=
  if spec.name ∈ ["SLLIW", "SRLIW", "SRAIW"] then 31 else if xlen = 64 then 63 else 31

end InstructionSpec

end MyFuzz
