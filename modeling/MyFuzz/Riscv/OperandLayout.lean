import MyFuzz.Foundations.Scatter
import MyFuzz.Riscv.Encoding
import MyFuzz.Riscv.Machine

/-!
# Riscv/OperandLayout — where a format has its operands

The formats of the RISC-V manual, as places of pieces of operands.  A piece `⟨imm, 5, 6, 25⟩` is
`imm[10:5]` in the bits `30 … 25`.  Compressed registers have three bits and stand for `x8 … x15`.

    B    imm[12] │ imm[10:5] │ rs2 │ rs1 │ funct3 │ imm[4:1] │ imm[11] │ opcode
    CJ   funct3 │ imm[11│4│9:8│10│6│7│3:1│5] │ op

`InstructionSpec.decode` reads an operand by its pieces, and sign-extends an immediate.
-/

namespace MyFuzz

open Outcome BitField Scatter

/-! ## Formats -/

/-- How many bits an operand has in the wide formats, where it is a number of its own. -/
def OperandName.bits : OperandName → ℕ
  | rd | rs1 | rs2 | zimm => 5
  | shamt => 6
  | pred | succ => 4
  | csr => 12
  | aqrl => 2
  | imm | other _ => 0

namespace InstructionSpec

variable (spec : InstructionSpec)

/-- The register `rd` in its place, and so on. -/
def layoutRd : Piece OperandName := ⟨.rd, 0, 5, 7⟩

def layoutRs1 : Piece OperandName := ⟨.rs1, 0, 5, 15⟩

def layoutRs2 : Piece OperandName := ⟨.rs2, 0, 5, 20⟩

/-- **The layout of a format.** -/
def layout : List (Piece OperandName) :=
  match spec.kind with
  | .r => [layoutRd, layoutRs1, layoutRs2]
  | .i | .load => [layoutRd, layoutRs1, ⟨.imm, 0, 12, 20⟩]
  | .shift => [layoutRd, layoutRs1, ⟨.shamt, 0, 6, 20⟩]
  | .store => [layoutRs1, layoutRs2, ⟨.imm, 5, 7, 25⟩, ⟨.imm, 0, 5, 7⟩]
  | .b => [layoutRs1, layoutRs2, ⟨.imm, 12, 1, 31⟩, ⟨.imm, 5, 6, 25⟩, ⟨.imm, 1, 4, 8⟩, ⟨.imm, 11, 1, 7⟩]
  | .u => [layoutRd, ⟨.imm, 0, 20, 12⟩]
  | .j => [layoutRd, ⟨.imm, 20, 1, 31⟩, ⟨.imm, 1, 10, 21⟩, ⟨.imm, 11, 1, 20⟩, ⟨.imm, 12, 8, 12⟩]
  | .fence => [⟨.pred, 0, 4, 24⟩, ⟨.succ, 0, 4, 20⟩]
  | .fencei | .system | .cnop => []
  | .lr => [layoutRd, layoutRs1, ⟨.aqrl, 0, 2, 25⟩]
  | .amo => [layoutRd, layoutRs1, layoutRs2, ⟨.aqrl, 0, 2, 25⟩]
  | .csr => [layoutRd, layoutRs1, ⟨.csr, 0, 12, 20⟩]
  | .csrI => [layoutRd, ⟨.zimm, 0, 5, 15⟩, ⟨.csr, 0, 12, 20⟩]
  | .ciw => [⟨.imm, 4, 2, 11⟩, ⟨.imm, 6, 4, 7⟩, ⟨.imm, 2, 1, 6⟩, ⟨.imm, 3, 1, 5⟩, ⟨.rd, 0, 3, 2⟩]
  | .cl => [⟨.imm, 3, 3, 10⟩, ⟨.rs1, 0, 3, 7⟩, ⟨.imm, 2, 1, 6⟩, ⟨.imm, 6, 1, 5⟩,
      ⟨if .rd ∈ spec.operands then .rd else .rs2, 0, 3, 2⟩]
  | .ci => [layoutRd, ⟨.imm, 0, 5, 2⟩, ⟨.imm, 5, 1, 12⟩]
  | .ca => [⟨.rd, 0, 3, 7⟩, ⟨.rs2, 0, 3, 2⟩]
  | .cr => [layoutRd, ⟨.rs2, 0, 5, 2⟩]
  | .cshift => [if spec.name = "C.SLLI" then layoutRd else ⟨.rd, 0, 3, 7⟩, ⟨.shamt, 0, 5, 2⟩,
      ⟨.shamt, 5, 1, 12⟩]
  | .candi => [⟨.rd, 0, 3, 7⟩, ⟨.imm, 0, 5, 2⟩, ⟨.imm, 5, 1, 12⟩]
  | .cj => [⟨.imm, 11, 1, 12⟩, ⟨.imm, 4, 1, 11⟩, ⟨.imm, 8, 2, 9⟩, ⟨.imm, 10, 1, 8⟩, ⟨.imm, 6, 1, 7⟩,
      ⟨.imm, 7, 1, 6⟩, ⟨.imm, 1, 3, 3⟩, ⟨.imm, 5, 1, 2⟩]
  | .cb => [⟨.imm, 8, 1, 12⟩, ⟨.imm, 3, 2, 10⟩, ⟨.rs1, 0, 3, 7⟩, ⟨.imm, 6, 2, 5⟩, ⟨.imm, 1, 2, 3⟩,
      ⟨.imm, 5, 1, 2⟩]
  | .clsp => [layoutRd, ⟨.imm, 5, 1, 12⟩, ⟨.imm, 2, 3, 4⟩, ⟨.imm, 6, 2, 2⟩]
  | .cssp => [⟨.rs2, 0, 5, 2⟩, ⟨.imm, 2, 4, 9⟩, ⟨.imm, 6, 2, 7⟩]

/-- The formats whose immediate is an unsigned number. -/
def unsignedImmediate : Bool := spec.kind ∈ [.u, .ciw, .cl, .clsp, .cssp]

/-- A register of three bits. -/
def primed (o : OperandName) : Bool :=
  o ≠ .imm ∧ (spec.kind ∈ [.ciw, .cl, .ca, .candi, .cb] ∨ spec.kind = .cshift ∧
    spec.name ≠ "C.SLLI" ∧ o = .rd)

/-- **An operand as its format has it in a word.** -/
def decode (w : ℕ) (o : OperandName) : ℤ :=
  let bits := gather spec.layout o w
  if o = .imm then if spec.unsignedImmediate then bits else Machine.signed bits (reach spec.layout .imm)
  else if spec.primed o then bits + 8
  else bits

/-- What an operand is when it is left out. -/
def default (o : OperandName) : Option ℤ :=
  if spec.kind = .fence ∧ (o = .pred ∨ o = .succ) then some 0xF
  else if (spec.kind = .lr ∨ spec.kind = .amo) ∧ o = .aqrl then some 0
  else none

/-- **Operands with their defaults.** -/
def filled (operands : Dict OperandName ℤ) (o : OperandName) : Option ℤ := operands.get? o <|> spec.default o

/-! ## The table -/

/-- How many bits an operand has. -/
def operandBits (o : OperandName) :
    ℕ := if o = .imm then spec.immBits else if spec.primed o then 3 else o.bits

/-- The lowest bit of an operand that may be set. -/
def operandLow (o : OperandName) : ℕ := if o = .imm then Nat.log2 spec.immAlign else 0

/-- The operands that an instruction takes. -/
def allowed : List OperandName :=
  spec.operands ++ if spec.kind = .lr ∨ spec.kind = .amo then [.aqrl] else []

/-- **The table fits the formats.**  The pieces of an instruction keep apart and cover its operands,
and there is none of another operand. -/
theorem specs_layout : ∀ spec ∈ specs, Apart spec.fixed spec.layout ∧
    (∀ p ∈ spec.layout, Covers spec.layout p.operand (spec.operandLow p.operand)
      (spec.operandBits p.operand)) ∧
    ∀ o ∈ spec.allowed, o ∈ spec.layout.map Piece.operand := by
  decide +kernel

/-- **The range of an immediate is the one of its format.** -/
theorem specs_immediate : ∀ spec ∈ specs, .imm ∈ spec.layout.map Piece.operand →
    spec.immAlign = 2 ^ spec.operandLow .imm ∧ spec.operandLow .imm ≤ 32 ∧ 0 < spec.immBits ∧
      spec.immBits ≤ 32 ∧
      spec.immSigned = !spec.unsignedImmediate ∧ reach spec.layout .imm = spec.immBits := by
  decide +kernel

end InstructionSpec

end MyFuzz
