import MyFuzz.Foundations.Draw
import MyFuzz.Fuzz.F1Rv64

/-!
# Fuzz/F1Rv64Generator — slot programs drawn at random

The generator draws the operands of one instruction after another and encodes each:

    LUI x, _ ──▸ ALU on a written register | LD into a fresh one | SD of a written one ──▸ …

A word may read only what the words before it wrote, so a draft carries its written registers beside
its operands.
-/

namespace MyFuzz

namespace F1Rv64

/-! ## Encoding -/

/-- The operation fields of a register form. -/
def operationFields : Name → ℕ × ℕ
  | .sub => (0x20, 0)
  | .and => (0, 7)
  | .or => (0, 6)
  | .xor => (0, 4)
  | _ => (0, 0)

/-- **Encode one instruction of the subset.** -/
def encode (decoded : Decoded) : ℕ :=
  let rd := decoded.rd
  let rs1 := decoded.rs1
  let rs2 := decoded.rs2.getD 0
  let imm := decoded.imm
  match decoded.name with
  | .lui => (mask32 imm &&& 0xFFFFF000 ||| rd <<< 7 ||| 0x37) &&& 0xFFFFFFFF
  | .addi | .addiw =>
    let opcode := if decoded.name = .addi then 0x13 else 0x1B
    ((mask32 imm &&& 0xFFF) <<< 20 ||| rs1 <<< 15 ||| rd <<< 7 ||| opcode) &&& 0xFFFFFFFF
  | .add | .sub | .and | .or | .xor =>
    let (funct7, funct3) := operationFields decoded.name
    (funct7 <<< 25 ||| rs2 <<< 20 ||| rs1 <<< 15 ||| funct3 <<< 12 ||| rd <<< 7 ||| 0x33) &&& 0xFFFFFFFF
  | .addw => (rs2 <<< 20 ||| rs1 <<< 15 ||| rd <<< 7 ||| 0x3B) &&& 0xFFFFFFFF
  | .slliw | .srliw | .sraiw =>
    let funct7 := if decoded.name = .sraiw then 0x20 else 0
    let funct3 := if decoded.name = .slliw then 1 else 5
    let shamt := decoded.shamt &&& 0x1F
    (funct7 <<< 25 ||| shamt <<< 20 ||| rs1 <<< 15 ||| funct3 <<< 12 ||| rd <<< 7 ||| 0x1B) &&& 0xFFFFFFFF
  | .ld => ((mask32 imm &&& 0xFFF) <<< 20 ||| rs1 <<< 15 ||| 3 <<< 12 ||| rd <<< 7 ||| 0x03) &&& 0xFFFFFFFF
  | .sd =>
    ((mask32 (imm >>> (5 : ℕ)) &&& 0x7F) <<< 25 ||| rs2 <<< 20 ||| rs1 <<< 15 ||| 3 <<< 12 |||
      (mask32 imm &&& 0x1F) <<< 7 |||
      0x23) &&& 0xFFFFFFFF

/-! ## Drawing -/

def aluNames : List Name := [.addi, .add, .sub, .and, .or, .xor, .addiw, .addw, .slliw, .srliw, .sraiw]

def tempRegisters : List ℕ := [5, 6, 7, 10, 11, 12, 13, 14, 15, 16, 17, 19, 20, 21]

def immediates : List ℤ := [1, 2, 3, 7, 0x1F, -1, -2, 0x2AB, 0x7FF, -0x800]

/-- The operands of the first word. -/
def upperImmediates : List ℤ := [0x1, 0x2AB, 0x12345, 0x7FFFF]

/-- A program so far: the operands of its words, and the registers that they write. -/
structure Draft where
  operands : List Decoded
  written : List ℕ

def Draft.append (draft : Draft) (decoded : Decoded) : Draft :=
  { draft with operands := draft.operands ++ [decoded] }

/-- A register that is written is not listed twice. -/
def Draft.write (draft : Draft) (rd : ℕ) : Draft :=
  if rd ∈ draft.written then draft else { draft with written := draft.written ++ [rd] }

/-- The offset of a doubleword of the window. -/
def drawOffset (windowBytes : ℤ) : Draw ℤ := do return 8 * (← Draw.randrange 0 (windowBytes / 8))

def drawStore (windowBytes : ℤ) (draft : Draft) : Draw Draft := do
  let offset ← drawOffset windowBytes
  let target ← Draw.choice draft.written
  return draft.append { name := .sd, rd := 0, rs1 := 18, rs2 := some target, imm := offset }

def drawLoad (windowBytes : ℤ) (draft : Draft) : Draw Draft := do
  let offset ← drawOffset windowBytes
  let fresh := tempRegisters.filter fun reg => reg ∉ draft.written
  let rd ← Draw.choice (if fresh = [] then tempRegisters else fresh)
  return (draft.append { name := .ld, rd := rd, rs1 := 18, imm := offset }).write rd

def drawAlu (draft : Draft) : Draw Draft := do
  let rd ← Draw.choice draft.written
  let name ← Draw.choice aluNames
  if name = .addi ∨ name = .addiw then
    let imm ← Draw.choice immediates
    return draft.append { name := name, rd := rd, rs1 := rd, imm := imm }
  else if name = .slliw ∨ name = .srliw ∨ name = .sraiw then
    let shamt ← Draw.randrange 1 32
    return draft.append { name := name, rd := rd, rs1 := rd, shamt := shamt.toNat }
  else
    let source ← Draw.choice (draft.written ++ [18])
    return draft.append { name := name, rd := rd, rs1 := rd, rs2 := some source }

/-- One more word; the kind is `random()` in hundredths. -/
def drawWord (windowBytes : ℤ) (draft : Draft) : Draw Draft := do
  let kind ← Draw.next
  if kind % 100 < 18 ∧ 2 ≤ draft.written.length then drawStore windowBytes draft
  else if kind % 100 < 30 then drawLoad windowBytes draft
  else drawAlu draft

/-- The operands of a program, in order. -/
def drawOperands (maxWords : ℕ) (windowBytes : ℤ) : Draw (List Decoded) := do
  let rd ← Draw.choice tempRegisters
  let imm ← Draw.choice upperImmediates
  let first : Decoded := { name := .lui, rd := rd, imm := imm }
  let draft ← Draw.rounds (fun draft => decide (draft.operands.length < maxWords))
    (drawWord windowBytes) maxWords ⟨[first], [rd]⟩
  return draft.operands

/-- **Generate a program.** -/
def generateProgram (maxWords : ℕ) (windowBytes : ℤ) : Draw (List ℕ) := do
  return (← drawOperands maxWords windowBytes).map encode

end F1Rv64

end MyFuzz
