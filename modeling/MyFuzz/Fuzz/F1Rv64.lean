import MyFuzz.Foundations.Dict
import MyFuzz.Foundations.Outcome

/-!
# Fuzz/F1Rv64 — the RV64I records of a slot program

A record is a short straight-line program over one data window.  It is decoded, validated and interpreted
by three descriptions of one instruction subset:

    words ──validate──▸ words ──execute──▸ trace, memory ──▸ the window afterwards

A word may read a register only after the program wrote it, so the trace states nothing of the firmware.
-/

namespace MyFuzz

namespace F1Rv64

/-! ## Words -/

/-- The low 32 bits of an integer. -/
def mask32 (value : ℤ) : ℕ := (value % 2 ^ 32).toNat

def u64 (value : ℤ) : ℕ := (value % 2 ^ 64).toNat

/-- The low bits of a number read as a signed one. -/
def sext (value bits : ℕ) : ℤ :=
  ((value &&& (1 <<< (bits - 1) - 1) : ℕ) : ℤ) - (value &&& 1 <<< (bits - 1) : ℕ)

def sext32 (value : ℤ) : ℤ := sext (mask32 value) 32

/-- Hexadecimal digits, with leading zeros. -/
def hexPadded (width n : ℕ) : String :=
  let digits := Nat.toDigits 16 n
  String.ofList (List.replicate (width - digits.length) '0' ++ digits)

/-! ## Decoding -/

inductive Name where
  | lui | addi | add | sub | and | or | xor | addiw | addw | slliw | srliw | sraiw | ld | sd
  deriving DecidableEq

/-- The opcodes that the subset admits. -/
def subset : String :=
  "LUI, ADDI, ADD, SUB, AND, OR, XOR, ADDIW, ADDW, SLLIW, SRLIW, SRAIW, LD, SD"

/-- A decoded word, with the fields that its form has. -/
structure Decoded where
  name : Name
  rd : ℕ
  rs1 : ℕ := 0
  rs2 : Option ℕ := none
  imm : ℤ := 0
  shamt : ℕ := 0

/-- **Decode one admitted word.** -/
def decode (word : ℤ) : Except Exn Decoded :=
  let word := mask32 word
  let opcode := word &&& 0x7F
  let rd := word >>> 7 &&& 31
  let funct3 := word >>> 12 &&& 7
  let rs1 := word >>> 15 &&& 31
  let rs2 := word >>> 20 &&& 31
  let funct7 := word >>> 25 &&& 0x7F
  let shamt5 := word >>> 20 &&& 0x1F
  let immI := sext (word >>> 20 &&& 0xFFF) 12
  let immS := sext ((word >>> 25 &&& 0x7F) <<< 5 ||| (word >>> 7 &&& 0x1F)) 12
  if word &&& 3 ≠ 3 then .error (.valueError ("not one 32-bit instruction: 0x" ++ hexPadded 8 word))
  else if opcode = 0x37 then .ok { name := .lui, rd := rd, imm := (word &&& 0xFFFFF000 : ℕ) }
  else if opcode = 0x13 ∧ funct3 = 0 then .ok { name := .addi, rd := rd, rs1 := rs1, imm := immI }
  else if opcode = 0x1B ∧ funct3 = 0 then .ok { name := .addiw, rd := rd, rs1 := rs1, imm := immI }
  else if opcode = 0x33 ∧ funct7 = 0 ∧ funct3 = 0 then
    .ok { name := .add, rd := rd, rs1 := rs1, rs2 := some rs2 }
  else if opcode = 0x33 ∧ funct7 = 0x20 ∧ funct3 = 0 then
    .ok { name := .sub, rd := rd, rs1 := rs1, rs2 := some rs2 }
  else if opcode = 0x33 ∧ funct7 = 0 ∧ funct3 = 7 then
    .ok { name := .and, rd := rd, rs1 := rs1, rs2 := some rs2 }
  else if opcode = 0x33 ∧ funct7 = 0 ∧ funct3 = 6 then
    .ok { name := .or, rd := rd, rs1 := rs1, rs2 := some rs2 }
  else if opcode = 0x33 ∧ funct7 = 0 ∧ funct3 = 4 then
    .ok { name := .xor, rd := rd, rs1 := rs1, rs2 := some rs2 }
  else if opcode = 0x3B ∧ funct7 = 0 ∧ funct3 = 0 then
    .ok { name := .addw, rd := rd, rs1 := rs1, rs2 := some rs2 }
  else if opcode = 0x1B ∧ funct3 = 1 ∧ funct7 = 0 then
    .ok { name := .slliw, rd := rd, rs1 := rs1, shamt := shamt5 }
  else if opcode = 0x1B ∧ funct3 = 5 ∧ funct7 = 0 then
    .ok { name := .srliw, rd := rd, rs1 := rs1, shamt := shamt5 }
  else if opcode = 0x1B ∧ funct3 = 5 ∧ funct7 = 0x20 then
    .ok { name := .sraiw, rd := rd, rs1 := rs1, shamt := shamt5 }
  else if opcode = 0x03 ∧ funct3 = 3 then .ok { name := .ld, rd := rd, rs1 := rs1, imm := immI }
  else if opcode = 0x23 ∧ funct3 = 3 then
    .ok { name := .sd, rd := 0, rs1 := rs1, rs2 := some rs2, imm := immS }
  else .error (.valueError ("instruction 0x" ++ hexPadded 8 word ++
    " is outside the declared RV64I subset (" ++
    subset ++ ")"))

/-- The registers that a decoded word reads. -/
def readRegisters (decoded : Decoded) : List ℕ :=
  if decoded.name = .lui then []
  else
    match decoded.rs2 with
    | some rs2 => [decoded.rs1, rs2]
    | none => [decoded.rs1]

/-! ## Validation -/

/-- The mailbox pointer, the reserved register and the data-window base. -/
def reservedDestinations : List ℕ := [8, 9, 18]

/-- A record: an entry with its fields, or plain words. -/
inductive Record where
  | entry (fields : Option (List ℤ))
  | words (words : List ℤ)

def recordWords : Record → Except Exn (List ℕ)
  | .entry none => .error (.valueError "an F1 RV64 record carries no words")
  | .entry (some fields) => .ok (fields.map mask32)
  | .words words => .ok (words.map mask32)

/-- A memory word addresses the declared window. -/
def checkAccess (windowBytes : ℤ) (index : ℕ) (decoded : Decoded) : Except Exn Unit :=
  if decoded.name = .ld ∨ decoded.name = .sd then do
    ensure (decoded.rs1 = 18) (.valueError ("F1 RV64 memory word " ++ toString index ++
      " must use x18, the declared data-window base"))
    ensure (¬ (decoded.imm < 0 ∨ decoded.imm % 8 ≠ 0 ∨ windowBytes - 8 < decoded.imm))
      (.valueError ("F1 RV64 memory word " ++ toString index ++ " offset " ++ toString decoded.imm ++
        " is not an 8-byte aligned word inside the declared data window"))
  else .ok ()

/-- Check one word, and say which registers are written after it. -/
def checkWord (windowBytes : ℤ) (index : ℕ) (written : List ℕ) (word : ℕ) : Except Exn (List ℕ) := do
  let decoded ← decode word
  checkAccess windowBytes index decoded
  (readRegisters decoded).forM fun source =>
    ensure (source ∈ written ∨ source = 0 ∨ source = 18) (.valueError ("F1 RV64 word " ++ toString index ++
      " reads x" ++ toString source ++
      " before this program wrote it; the reference trace would depend on firmware state"))
  ensure (decoded.rd ∉ reservedDestinations) (.valueError ("F1 RV64 word " ++ toString index ++
    " writes x" ++ toString decoded.rd ++ ", a reserved register"))
  return if decoded.rd ≠ 0 then decoded.rd :: written else written

def checkWords (windowBytes : ℤ) : ℕ → List ℕ → List ℕ → Except Exn Unit
  | _, _, [] => .ok ()
  | index, written, word :: words => do
    let written ← checkWord windowBytes index written word
    checkWords windowBytes (index + 1) written words

/-- **Validate a record.** -/
def validateRv64Record (record : Record) (maxWords : ℕ) (windowBytes : ℤ) : Except Exn (List ℕ) := do
  let words ← recordWords record
  ensure (words ≠ []) (.valueError "F1 RV64 program is empty")
  ensure (words.length ≤ maxWords) (.valueError ("F1 RV64 program has " ++ toString words.length ++
    " words; the scenario declares at most " ++ toString maxWords))
  checkWords windowBytes 0 [0] words
  return words

/-! ## Execution -/

structure Retired where
  pc : ℕ
  insnWord : ℕ
  rd : ℕ
  wdata : ℕ
  deriving DecidableEq

structure Execution where
  pc : ℕ
  registers : Dict ℕ ℕ
  memory : Dict ℕ ℕ
  trace : List Retired := []

/-- The value of an arithmetic word. -/
def arithmetic (decoded : Decoded) (a b : ℕ) : ℕ :=
  match decoded.name with
  | .lui => u64 (sext (mask32 decoded.imm) 32)
  | .addi => u64 (a + decoded.imm)
  | .addiw => u64 (sext32 (u64 (a + decoded.imm)))
  | .add => u64 (a + b)
  | .sub => u64 (a - b)
  | .and => u64 (a &&& b : ℕ)
  | .or => u64 (a ||| b : ℕ)
  | .xor => u64 (a ^^^ b : ℕ)
  | .addw => u64 (sext32 (a + b))
  | .slliw => u64 (sext32 (a <<< decoded.shamt : ℕ))
  | .srliw => u64 (sext32 (mask32 a >>> decoded.shamt : ℕ))
  | .sraiw => u64 (sext32 (sext32 a >>> decoded.shamt))
  | .ld => 0
  | .sd => 0

/-- A word that is not a store retires with the register it writes. -/
def Execution.retire (s : Execution) (word : ℤ) (rd value : ℕ) : Execution where
  pc := u64 (s.pc + 4)
  registers := if rd ≠ 0 then s.registers.set rd value else s.registers
  memory := s.memory
  trace := s.trace ++ [⟨s.pc, mask32 word, rd, if rd ≠ 0 then value else 0⟩]

/-- A store retires without a register. -/
def Execution.store (s : Execution) (word : ℤ) (address value : ℕ) : Execution where
  pc := u64 (s.pc + 4)
  registers := s.registers
  memory := s.memory.set address value
  trace := s.trace ++ [⟨s.pc, mask32 word, 0, 0⟩]

/-- Execute one word. -/
def executeWord (s : Execution) (word : ℤ) : Except Exn Execution := do
  let decoded ← decode word
  let a := s.registers.getD decoded.rs1 0
  let b := (decoded.rs2.map fun rs2 => s.registers.getD rs2 0).getD 0
  match decoded.name with
  | .ld =>
    let address := u64 (a + decoded.imm)
    ensure (address % 8 = 0) (.valueError "LD address is not 8-byte aligned")
    return s.retire word decoded.rd (u64 (s.memory.getD address 0))
  | .sd =>
    let address := u64 (a + decoded.imm)
    ensure (address % 8 = 0) (.valueError "SD address is not 8-byte aligned")
    return s.store word address (u64 b)
  | _ => return s.retire word decoded.rd (arithmetic decoded a b)

def execute (words : List ℤ) (slot : ℤ) (dataBase : ℕ) (memory : Dict ℕ ℕ) : Except Exn Execution :=
  words.foldlM executeWord {
    pc := u64 slot
    registers := (Dict.empty.set 0 0).set 18 (u64 dataBase)
    memory := memory }

/-! ## Expectations -/

/-- The bytes of a 64-bit number, lowest first. -/
def bytes64 (value : ℕ) : List ℕ := (List.range 8).map fun index => value / 256 ^ index % 256

/-- FNV-1a 64 of a trace. -/
def traceHash64 (trace : List Retired) : String :=
  let bytes := trace.flatMap fun entry => [entry.pc, entry.insnWord, entry.rd, entry.wdata].flatMap bytes64
  "fnv1a64:" ++ hexPadded 16 (bytes.foldl
    (fun digest byte => (digest ^^^ byte) * 1099511628211 % 2 ^ 64) 14695981039346656037)

/-- The declared data words as the doublewords that the subset loads. -/
def windowMemory (window : List ℤ) (dataBase : ℕ) : Dict ℕ ℕ :=
  (List.range (window.length / 2)).foldl (fun memory k =>
    memory.set (dataBase + 4 * (2 * k))
      (u64 (mask32 (window.getD (2 * k) 0) ||| mask32 (window.getD (2 * k + 1) 0) <<< 32 : ℕ))) Dict.empty

/-- Put a doubleword back into the window words. -/
def mergeWindow (dataBase : ℕ) (final : List ℕ) (e : ℕ × ℕ) : List ℕ :=
  let offset : ℤ := (e.1 : ℤ) - dataBase
  if 0 ≤ offset ∧ offset < 4 * final.length ∧ offset % 4 = 0 then
    let place := (offset / 4).toNat
    let final := final.set place (mask32 e.2)
    if place + 1 < final.length then final.set (place + 1) (mask32 (e.2 >>> 32 : ℕ)) else final
  else final

/-- The last retirement that writes a register. -/
def lastWrite (trace : List Retired) : ℕ × ℕ × ℕ :=
  trace.foldl (fun last entry => if entry.rd ≠ 0 then (entry.rd, entry.wdata, entry.pc) else last) (0, 0, 0)

structure Expectation where
  trace : List Retired
  retired : ℕ
  traceHash : String
  lastRd : ℕ
  lastWdata : ℕ
  lastPc : ℕ
  windowAfter : List ℕ
  windowChanged : ℕ
  words : ℕ

/-- **The complete expectation of one record.** -/
def expectation (words : List ℤ) (slot : ℤ) (dataBase : ℕ) (window : List ℤ) : Except Exn Expectation := do
  let _ ← validateRv64Record (.words words) words.length (4 * window.length)
  let executed ← execute words slot dataBase (windowMemory window dataBase)
  let final := executed.memory.entries.foldl (mergeWindow dataBase) (window.map mask32)
  return {
    trace := executed.trace
    retired := executed.trace.length
    traceHash := traceHash64 executed.trace
    lastRd := (lastWrite executed.trace).1
    lastWdata := (lastWrite executed.trace).2.1
    lastPc := (lastWrite executed.trace).2.2
    windowAfter := final
    windowChanged := ((window.zip final).filter fun pair => pair.1 ≠ pair.2).length
    words := words.length }

end F1Rv64

end MyFuzz
