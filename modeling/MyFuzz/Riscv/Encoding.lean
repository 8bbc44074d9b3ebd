import MyFuzz.Foundations.BitField
import MyFuzz.Foundations.Dict
import MyFuzz.Foundations.Outcome
import MyFuzz.Riscv.Catalog

/-!
# Riscv/Encoding — instruction words from operands

The encoder checks every operand against its instruction's entry and refuses instead of truncating.

    encode name xlen operands = fixed ||| field ||| field ||| …
-/

namespace MyFuzz

open Outcome BitField

/-! ## Operands -/

/-- The bits of an integer from an offset on, `(v >> offset) & (2 ** width - 1)`. -/
def intField (v : ℤ) (offset width : ℕ) : ℕ := (v / 2 ^ offset % 2 ^ width).toNat

theorem intField_lt (v : ℤ) (offset width : ℕ) : intField v offset width < 2 ^ width := by
  have hpos : (0 : ℤ) < 2 ^ width := by positivity
  have hlt := Int.emod_lt_of_pos (v / 2 ^ offset) hpos
  rw [intField]
  exact (Int.toNat_lt (Int.emod_nonneg _ hpos.ne')).2 (by exact_mod_cast hlt)

/-- The entry of a name, or the refusal. -/
def specFor (name : String) : Except Exn InstructionSpec :=
  match catalog name with
  | none => .error (.valueError ("unknown instruction '" ++ name ++ "'"))
  | some spec => .ok spec

/-- An operand that has to be there. -/
def intOperand (value : Option ℤ) (field : String) : Except Exn ℤ :=
  match value with
  | none => .error (.valueError (field ++ " must be an integer"))
  | some value => .ok value

/-- An operand in a range. -/
def regOperand (value : Option ℤ) (field : String) (low high : ℤ) (nonzero : Bool) : Except Exn ℤ := do
  let value ← intOperand value field
  ensure (low ≤ value ∧ value ≤ high)
    (.valueError (field ++ " " ++ toString value ++ " outside [" ++ toString low ++ ", " ++
      toString high ++ "]"))
  ensure (¬ (nonzero ∧ value = 0)) (.valueError (field ++ " must not be x0"))
  return value

/-- A register. -/
def reg (value : Option ℤ) (field : String) : Except Exn ℤ := regOperand value field 0 31 false

/-- A register other than `x0`. -/
def nonzeroReg (value : Option ℤ) (field : String) : Except Exn ℤ := regOperand value field 0 31 true

/-- A register of the compressed forms. -/
def primeReg (value : Option ℤ) (field : String) : Except Exn ℤ := regOperand value field 8 15 false

/-- An immediate in its entry's range. -/
def immOperand (spec : InstructionSpec) (value : Option ℤ) : Except Exn ℤ := do
  let value ← intOperand value "imm"
  let low : ℤ := if spec.immSigned then -2 ^ (spec.immBits - 1) else 0
  let high : ℤ := if spec.immSigned then 2 ^ (spec.immBits - 1) - 1 else 2 ^ spec.immBits - 1
  ensure (low ≤ value ∧ value ≤ high)
    (.valueError (spec.name ++ " immediate " ++ toString value ++ " outside " ++
      (if spec.immSigned then "signed" else "unsigned") ++ " " ++ toString spec.immBits ++ "-bit range"))
  ensure (value % spec.immAlign = 0)
    (.valueError (spec.name ++ " immediate " ++ toString value ++ " not aligned to " ++
      toString spec.immAlign))
  ensure (¬ (spec.immNonzero ∧ value = 0)) (.valueError (spec.name ++ " immediate must be nonzero"))
  return value

/-- A list of operand names as a message shows it. -/
def nameList (names : List OperandName) : String :=
  "[" ++ ", ".intercalate
    (((names.map OperandName.text).mergeSort fun a b => a ≤ b).map fun name => "'" ++ name ++ "'") ++ "]"

/-- The operands are the ones of the entry; a fence's are optional, as are an atomic's ordering
bits. -/
def checkOperands (spec : InstructionSpec) (operands : Dict OperandName ℤ) : Except Exn Unit :=
  let required := spec.operands
  let allowed := required ++ if spec.kind = .lr ∨ spec.kind = .amo then [.aqrl] else []
  let supplied := operands.keys
  if spec.kind = .fence ∧ supplied ⊆ [.pred, .succ] then .ok ()
  else ensure (required ⊆ supplied ∧ supplied ⊆ allowed)
    (.valueError (spec.name ++ " operands " ++ nameList supplied ++ " must include " ++
      nameList required ++ " and allow " ++ nameList allowed ++ " (missing=" ++
      nameList (required.filter (· ∉ supplied)) ++ ", extra=" ++
      nameList (supplied.filter (· ∉ allowed)) ++ ")"))

/-! ## Scattered immediates -/

def branchBits (offset : ℤ) : ℕ :=
  intField offset 12 1 <<< 31 ||| intField offset 5 6 <<< 25 ||| intField offset 1 4 <<< 8 |||
    intField offset 11 1 <<< 7

def jalBits (offset : ℤ) : ℕ :=
  intField offset 20 1 <<< 31 ||| intField offset 1 10 <<< 21 ||| intField offset 11 1 <<< 20 |||
    intField offset 12 8 <<< 12

def storeBits (imm : ℤ) : ℕ := intField imm 5 7 <<< 25 ||| intField imm 0 5 <<< 7

/-! ## Words -/

/-- The ordering bits of an atomic. -/
def aqrlOperand (label : String) (value : Option ℤ) : Except Exn ℤ := do
  let aqrl := value.getD 0
  ensure (0 ≤ aqrl ∧ aqrl ≤ 3) (.valueError (label ++ " aqrl " ++ toString aqrl ++ " outside [0, 3]"))
  return aqrl

/-- A shift amount in its range. -/
def shamtOperand (spec : InstructionSpec) (value : Option ℤ) (low : ℤ) (xlen : ℕ) : Except Exn ℤ := do
  let shamt ← intOperand value "shamt"
  ensure (low ≤ shamt ∧ shamt ≤ spec.shamtLimit xlen)
    (.valueError (spec.name ++ " shamt " ++ toString shamt ++ " outside [" ++ toString low ++ ", " ++
      toString (spec.shamtLimit xlen) ++ "]"))
  return shamt

/-- The register of a load-immediate form, which excludes what other instructions mean. -/
def ciRegister (spec : InstructionSpec) (operands : Dict OperandName ℤ) : Except Exn ℤ := do
  let rd ← reg (operands.get? .rd) "rd"
  if spec.name = "C.LUI" then
    ensure (rd ≠ 0 ∧ rd ≠ 2) (.valueError "C.LUI rd must not be x0 or x2 (sp)")
  else if spec.name = "C.LI" then
    ensure (rd ≠ 0) (.valueError "C.LI rd must not be x0")
  else if rd = 0 then
    let imm ← immOperand spec (operands.get? .imm)
    ensure (imm = 0) (.valueError "C.ADDI rd=x0 only encodes C.NOP (imm 0)")
  return rd

/-- The words of 16 bits. -/
def encodeCompressed (spec : InstructionSpec) (operands : Dict OperandName ℤ) (xlen : ℕ) : Except Exn ℕ :=
  let get := operands.get?
  match spec.kind with
  | .cnop => return spec.fixed
  | .ciw => do
    let rd ← primeReg (get .rd) "rd"
    let imm ← immOperand spec (get .imm)
    return spec.fixed ||| intField imm 4 2 <<< 11 ||| intField imm 6 4 <<< 7 |||
      intField imm 2 1 <<< 6 ||| intField imm 3 1 <<< 5 ||| (rd - 8).toNat <<< 2
  | .cl => do
    let imm ← immOperand spec (get .imm)
    let rs1 ← primeReg (get .rs1) "rs1"
    let word := spec.fixed ||| intField imm 3 3 <<< 10 ||| (rs1 - 8).toNat <<< 7 |||
      intField imm 2 1 <<< 6 ||| intField imm 6 1 <<< 5
    if operands.contains .rd then
      let rd ← primeReg (get .rd) "rd"
      return word ||| (rd - 8).toNat <<< 2
    else
      let rs2 ← primeReg (get .rs2) "rs2"
      return word ||| (rs2 - 8).toNat <<< 2
  | .ci => do
    let rd ← ciRegister spec operands
    let imm ← immOperand spec (get .imm)
    return spec.fixed ||| rd.toNat <<< 7 ||| intField imm 0 5 <<< 2 ||| intField imm 5 1 <<< 12
  | .ca => do
    let rd ← primeReg (get .rd) "rd"
    let rs2 ← primeReg (get .rs2) "rs2"
    return spec.fixed ||| (rd - 8).toNat <<< 7 ||| (rs2 - 8).toNat <<< 2
  | .cr => do
    let rd ← nonzeroReg (get .rd) "rd"
    let rs2 ← reg (get .rs2) "rs2"
    return spec.fixed ||| rd.toNat <<< 7 ||| rs2.toNat <<< 2
  | .cshift => do
    let shamt ← shamtOperand spec (get .shamt) 1 xlen
    if spec.name = "C.SLLI" then
      let rd ← nonzeroReg (get .rd) "rd"
      return spec.fixed ||| rd.toNat <<< 7 ||| intField shamt 0 5 <<< 2 ||| intField shamt 5 1 <<< 12
    else
      let rd ← primeReg (get .rd) "rd"
      return spec.fixed ||| (rd - 8).toNat <<< 7 ||| intField shamt 0 5 <<< 2 |||
        intField shamt 5 1 <<< 12
  | .candi => do
    let imm ← immOperand spec (get .imm)
    let rd ← primeReg (get .rd) "rd"
    return spec.fixed ||| (rd - 8).toNat <<< 7 ||| intField imm 0 5 <<< 2 ||| intField imm 5 1 <<< 12
  | .cj => do
    let imm ← immOperand spec (get .imm)
    return spec.fixed ||| intField imm 11 1 <<< 12 ||| intField imm 4 1 <<< 11 |||
      intField imm 8 2 <<< 9 ||| intField imm 10 1 <<< 8 ||| intField imm 6 1 <<< 7 |||
      intField imm 7 1 <<< 6 ||| intField imm 1 3 <<< 3 ||| intField imm 5 1 <<< 2
  | .cb => do
    let imm ← immOperand spec (get .imm)
    let rs1 ← primeReg (get .rs1) "rs1"
    return spec.fixed ||| intField imm 8 1 <<< 12 ||| intField imm 3 2 <<< 10 |||
      (rs1 - 8).toNat <<< 7 ||| intField imm 6 2 <<< 5 ||| intField imm 1 2 <<< 3 |||
      intField imm 5 1 <<< 2
  | .clsp => do
    let imm ← immOperand spec (get .imm)
    let rd ← nonzeroReg (get .rd) "rd"
    return spec.fixed ||| rd.toNat <<< 7 ||| intField imm 5 1 <<< 12 ||| intField imm 2 3 <<< 4 |||
      intField imm 6 2 <<< 2
  | .cssp => do
    let imm ← immOperand spec (get .imm)
    let rs2 ← reg (get .rs2) "rs2"
    return spec.fixed ||| rs2.toNat <<< 2 ||| intField imm 2 4 <<< 9 ||| intField imm 6 2 <<< 7
  | _ => .error (.valueError (spec.name ++ " has unsupported compressed kind"))

/-- The word of an entry under checked operands. -/
def encodeWord (spec : InstructionSpec) (operands : Dict OperandName ℤ) (xlen : ℕ) : Except Exn ℕ :=
  let get := operands.get?
  match spec.kind with
  | .r => do
    let rd ← reg (get .rd) "rd"
    let rs1 ← reg (get .rs1) "rs1"
    let rs2 ← reg (get .rs2) "rs2"
    return spec.fixed ||| rd.toNat <<< 7 ||| rs1.toNat <<< 15 ||| rs2.toNat <<< 20
  | .i | .load => do
    let rd ← reg (get .rd) "rd"
    let rs1 ← reg (get .rs1) "rs1"
    let imm ← immOperand spec (get .imm)
    return spec.fixed ||| rd.toNat <<< 7 ||| rs1.toNat <<< 15 ||| intField imm 0 12 <<< 20
  | .shift => do
    let shamt ← shamtOperand spec (get .shamt) 0 xlen
    let rd ← reg (get .rd) "rd"
    let rs1 ← reg (get .rs1) "rs1"
    return spec.fixed ||| rd.toNat <<< 7 ||| rs1.toNat <<< 15 ||| shamt.toNat <<< 20
  | .store => do
    let rs1 ← reg (get .rs1) "rs1"
    let rs2 ← reg (get .rs2) "rs2"
    let imm ← immOperand spec (get .imm)
    return spec.fixed ||| rs1.toNat <<< 15 ||| rs2.toNat <<< 20 ||| storeBits imm
  | .b => do
    let rs1 ← reg (get .rs1) "rs1"
    let rs2 ← reg (get .rs2) "rs2"
    let imm ← immOperand spec (get .imm)
    return spec.fixed ||| rs1.toNat <<< 15 ||| rs2.toNat <<< 20 ||| branchBits imm
  | .u => do
    let rd ← reg (get .rd) "rd"
    let imm ← immOperand spec (get .imm)
    return spec.fixed ||| rd.toNat <<< 7 ||| imm.toNat <<< 12
  | .j => do
    let rd ← reg (get .rd) "rd"
    let imm ← immOperand spec (get .imm)
    return spec.fixed ||| rd.toNat <<< 7 ||| jalBits imm
  | .fence => do
    let pred ← regOperand (some ((get .pred).getD 0xF)) "pred" 0 15 false
    let succ ← regOperand (some ((get .succ).getD 0xF)) "succ" 0 15 false
    return spec.fixed ||| pred.toNat <<< 24 ||| succ.toNat <<< 20
  | .fencei | .system => return spec.fixed
  | .lr => do
    let aqrl ← aqrlOperand "LR.W" (get .aqrl)
    let rd ← reg (get .rd) "rd"
    let rs1 ← reg (get .rs1) "rs1"
    return spec.fixed ||| rd.toNat <<< 7 ||| rs1.toNat <<< 15 ||| aqrl.toNat <<< 25
  | .amo => do
    let aqrl ← aqrlOperand spec.name (get .aqrl)
    let rd ← reg (get .rd) "rd"
    let rs1 ← reg (get .rs1) "rs1"
    let rs2 ← reg (get .rs2) "rs2"
    return spec.fixed ||| rd.toNat <<< 7 ||| rs1.toNat <<< 15 ||| rs2.toNat <<< 20 |||
      aqrl.toNat <<< 25
  | .csr => do
    let csr ← regOperand (get .csr) "csr" 0 0xFFF false
    let rd ← reg (get .rd) "rd"
    let rs1 ← reg (get .rs1) "rs1"
    return spec.fixed ||| rd.toNat <<< 7 ||| rs1.toNat <<< 15 ||| csr.toNat <<< 20
  | .csrI => do
    let csr ← regOperand (get .csr) "csr" 0 0xFFF false
    let zimm ← regOperand (get .zimm) "zimm" 0 31 false
    let rd ← reg (get .rd) "rd"
    return spec.fixed ||| rd.toNat <<< 7 ||| zimm.toNat <<< 15 ||| csr.toNat <<< 20
  | _ => encodeCompressed spec operands xlen

/-- **Encode one instruction word**; the word length gates the RV64 encodings. -/
def encode (name : String) (xlen : ℕ) (operands : Dict OperandName ℤ) : Except Exn ℕ := do
  let spec ← specFor name
  ensure (spec.minXlen ≤ xlen)
    (.valueError (spec.name ++ " requires xlen " ++ toString spec.minXlen ++ ", not " ++ toString xlen))
  checkOperands spec operands
  encodeWord spec operands xlen

end MyFuzz
