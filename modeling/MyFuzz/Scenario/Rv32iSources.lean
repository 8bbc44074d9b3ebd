import MyFuzz.Foundations.Bytes
import MyFuzz.Isa.Constraints

/-!
# Scenario/Rv32iSources — constrained RV32I fragments

The instructions that startup images and online slots are made of, the device windows they may reach,
and the fragments built from them: a load or store behind the upper half of its address, a store of
a constant, and the fragment that entropy bytes decode to.  Every refusal names a code and the field
that failed.
-/

namespace MyFuzz

open Outcome

/-! ## Rejections -/

/-- Why a candidate is refused. -/
inductive RejectionCode where
  | isaDisallowedOperation
  | isaUnexpectedOperand
  | isaReservedImmBit
  | fieldBadRegister
  | fieldRegisterConflict
  | fieldBadImmediate
  | fieldBadShamt
  | fieldBadAlignment
  | fieldBadAddress
  | fragmentInvalidSequence
  | mmioBadWindow
  | mmioBadPermission
  | mmioBadWidth
  | mmioNoWindow
  | mmioOutOfWindow
  | mmioReadOnly
  | mmioWriteOnly
  | mmioWindowDenied
  | mmioNoAlignedAddress
  | decodeMalformedRecord
  | decodeMalformedEntropy
  deriving DecidableEq

/-- A code as the source spells it. -/
def RejectionCode.text : RejectionCode → String
  | isaDisallowedOperation => "isa.disallowed_operation"
  | isaUnexpectedOperand => "isa.unexpected_operand"
  | isaReservedImmBit => "isa.reserved_imm_bit"
  | fieldBadRegister => "field.bad_register"
  | fieldRegisterConflict => "field.register_conflict"
  | fieldBadImmediate => "field.bad_immediate"
  | fieldBadShamt => "field.bad_shamt"
  | fieldBadAlignment => "field.bad_alignment"
  | fieldBadAddress => "field.bad_address"
  | fragmentInvalidSequence => "fragment.invalid_sequence"
  | mmioBadWindow => "mmio.bad_window"
  | mmioBadPermission => "mmio.bad_permission"
  | mmioBadWidth => "mmio.bad_width"
  | mmioNoWindow => "mmio.no_window"
  | mmioOutOfWindow => "mmio.out_of_window"
  | mmioReadOnly => "mmio.read_only"
  | mmioWriteOnly => "mmio.write_only"
  | mmioWindowDenied => "mmio.window_denied"
  | mmioNoAlignedAddress => "mmio.no_aligned_address"
  | decodeMalformedRecord => "decode.malformed_record"
  | decodeMalformedEntropy => "decode.malformed_entropy"

/-- The error of a refusal. -/
def reject (code : RejectionCode) (message pointer : String) : Exn :=
  .rejected code.text message pointer

/-! ## Instructions -/

/-- The supported operations. -/
inductive Operation where
  | lui | addi | xori | ori | andi | and | or | slli | srli | srai | lw | sw | sb | nop
  deriving DecidableEq

namespace Operation

/-- An operation as the source spells it. -/
def text : Operation → String
  | lui => "LUI"
  | addi => "ADDI"
  | xori => "XORI"
  | ori => "ORI"
  | andi => "ANDI"
  | and => "AND"
  | or => "OR"
  | slli => "SLLI"
  | srli => "SRLI"
  | srai => "SRAI"
  | lw => "LW"
  | sw => "SW"
  | sb => "SB"
  | nop => "NOP"

/-- The operations on memory. -/
def memory : List Operation := [lw, sw, sb]

end Operation

/-- A number names a register. -/
def checkRegister (value : ℤ) (name pointer : String) : Except Exn Unit :=
  ensure (0 ≤ value ∧ value < 32)
    (reject .fieldBadRegister (name ++ " must be an RV32I register number 0..31") pointer)

/-- An immediate fits twelve signed bits. -/
def signed12 (value : ℤ) : Except Exn Unit :=
  ensure (-2 ^ 11 ≤ value ∧ value < 2 ^ 11)
    (reject .fieldBadImmediate "immediate must fit signed 12 bits" "instruction.immediate")

/-- The operands of an operation. -/
def Operation.Operands (operation : Operation) (rd rs1 rs2 immediate : ℤ) : Prop :=
  match operation with
  | .lui => (0 ≤ immediate ∧ immediate < 2 ^ 20) ∧ rs1 = 0 ∧ rs2 = 0
  | .and | .or => immediate = 0
  | .nop => rd = 0 ∧ rs1 = 0 ∧ rs2 = 0 ∧ immediate = 0
  | .slli | .srli | .srai => (0 ≤ immediate ∧ immediate < 32) ∧ rs2 = 0
  | .addi | .xori | .ori | .andi => (-2 ^ 11 ≤ immediate ∧ immediate < 2 ^ 11) ∧ rs2 = 0
  | .lw => (-2 ^ 11 ≤ immediate ∧ immediate < 2 ^ 11) ∧ rs2 = 0 ∧ immediate % 4 = 0
  | .sw => (-2 ^ 11 ≤ immediate ∧ immediate < 2 ^ 11) ∧ rd = 0 ∧ immediate % 4 = 0
  | .sb => (-2 ^ 11 ≤ immediate ∧ immediate < 2 ^ 11) ∧ rd = 0

/-- The checks of an instruction. -/
def checkInstruction (operation : Operation) (rd rs1 rs2 immediate : ℤ) : Except Exn Unit := do
  checkRegister rd "rd" "instruction.rd"
  checkRegister rs1 "rs1" "instruction.rs1"
  checkRegister rs2 "rs2" "instruction.rs2"
  match operation with
  | .lui =>
      ensure (0 ≤ immediate ∧ immediate < 2 ^ 20) (reject .fieldBadImmediate
        "LUI immediate must fit unsigned 20 bits" "instruction.immediate")
      ensure (rs1 = 0 ∧ rs2 = 0) (reject .isaUnexpectedOperand "LUI has no source registers"
        ("instruction." ++ if rs1 ≠ 0 then "rs1" else "rs2"))
  | .and | .or =>
      ensure (immediate = 0) (reject .fieldBadImmediate
        "register logic instructions have no immediate" "instruction.immediate")
  | .nop =>
      ensure (rd = 0 ∧ rs1 = 0 ∧ rs2 = 0 ∧ immediate = 0) (reject .isaUnexpectedOperand
        "NOP has no operands" ("instruction." ++
          if rd ≠ 0 then "rd" else if rs1 ≠ 0 then "rs1" else if rs2 ≠ 0 then "rs2"
          else "immediate"))
  | .slli | .srli | .srai =>
      ensure (0 ≤ immediate ∧ immediate < 32) (reject .fieldBadShamt
        "shift amount must be an RV32I shamt 0..31" "instruction.shamt")
      ensure (rs2 = 0) (reject .isaUnexpectedOperand (operation.text ++ " has no rs2")
        "instruction.rs2")
  | _ =>
      signed12 immediate
      ensure (operation ∈ [.addi, .xori, .ori, .andi, .lw] → rs2 = 0)
        (reject .isaUnexpectedOperand (operation.text ++ " has no rs2") "instruction.rs2")
      ensure (operation ∈ [.sw, .sb] → rd = 0)
        (reject .isaUnexpectedOperand (operation.text ++ " has no rd") "instruction.rd")
      ensure (operation ∈ [.lw, .sw] → immediate % 4 = 0)
        (reject .fieldBadAlignment "LW/SW offset must be word aligned" "instruction.immediate")

/-- One supported instruction. -/
structure Rv32iInstruction where
  operation : Operation
  rd : Fin 32
  rs1 : Fin 32
  rs2 : Fin 32
  immediate : ℤ
  operands : operation.Operands rd.val rs1.val rs2.val immediate

/-- **The checks accept exactly the operands of an operation.** -/
theorem checkInstruction_eq_ok {operation : Operation} {rd rs1 rs2 immediate : ℤ} :
    checkInstruction operation rd rs1 rs2 immediate = .ok () ↔
      (0 ≤ rd ∧ rd < 32) ∧ (0 ≤ rs1 ∧ rs1 < 32) ∧ (0 ≤ rs2 ∧ rs2 < 32) ∧
        operation.Operands rd rs1 rs2 immediate := by
  unfold checkInstruction checkRegister
  rw [ensure_ok, ensure_ok, ensure_ok]
  refine and_congr_right fun _ => and_congr_right fun _ => and_congr_right fun _ => ?_
  cases operation <;>
    simp [Operation.Operands, ensure_ok, signed12, ensure_eq_ok]

namespace Rv32iInstruction

/-- The constructor of an instruction. -/
def new (operation : Operation) (rd rs1 rs2 immediate : ℤ) : Except Exn Rv32iInstruction :=
  match h : checkInstruction operation rd rs1 rs2 immediate with
  | .error e => .error e
  | .ok () =>
      .ok ⟨operation, ⟨rd.toNat, by have := (checkInstruction_eq_ok.mp h).1; omega⟩,
        ⟨rs1.toNat, by have := (checkInstruction_eq_ok.mp h).2.1; omega⟩,
        ⟨rs2.toNat, by have := (checkInstruction_eq_ok.mp h).2.2.1; omega⟩, immediate, by
          obtain ⟨hrd, hrs1, hrs2, hop⟩ := checkInstruction_eq_ok.mp h
          simpa [Int.toNat_of_nonneg hrd.1, Int.toNat_of_nonneg hrs1.1, Int.toNat_of_nonneg hrs2.1] using hop⟩

/-- The low `n` bits of a number, `value & (2 ** n - 1)`. -/
def lowBits (n : ℕ) (value : ℤ) : ℕ := (value % 2 ^ n).toNat

/-- The word of an instruction. -/
def word (i : Rv32iInstruction) : ℕ :=
  let imm := i.immediate
  match i.operation with
  | .nop => 0x00000013
  | .lui => imm.toNat <<< 12 ||| i.rd.val <<< 7 ||| 0x37
  | .and => i.rs2.val <<< 20 ||| i.rs1.val <<< 15 ||| 7 <<< 12 ||| i.rd.val <<< 7 ||| 0x33
  | .or => i.rs2.val <<< 20 ||| i.rs1.val <<< 15 ||| 6 <<< 12 ||| i.rd.val <<< 7 ||| 0x33
  | .slli => lowBits 12 imm <<< 20 ||| i.rs1.val <<< 15 ||| 1 <<< 12 ||| i.rd.val <<< 7 ||| 0x13
  | .srli => lowBits 12 imm <<< 20 ||| i.rs1.val <<< 15 ||| 5 <<< 12 ||| i.rd.val <<< 7 ||| 0x13
  | .srai =>
      lowBits 12 (imm.toNat ||| 0x400 : ℕ) <<< 20 ||| i.rs1.val <<< 15 ||| 5 <<< 12 |||
        i.rd.val <<< 7 ||| 0x13
  | .addi => lowBits 12 imm <<< 20 ||| i.rs1.val <<< 15 ||| 0 <<< 12 ||| i.rd.val <<< 7 ||| 0x13
  | .xori => lowBits 12 imm <<< 20 ||| i.rs1.val <<< 15 ||| 4 <<< 12 ||| i.rd.val <<< 7 ||| 0x13
  | .ori => lowBits 12 imm <<< 20 ||| i.rs1.val <<< 15 ||| 6 <<< 12 ||| i.rd.val <<< 7 ||| 0x13
  | .andi => lowBits 12 imm <<< 20 ||| i.rs1.val <<< 15 ||| 7 <<< 12 ||| i.rd.val <<< 7 ||| 0x13
  | .lw => lowBits 12 imm <<< 20 ||| i.rs1.val <<< 15 ||| 2 <<< 12 ||| i.rd.val <<< 7 ||| 0x03
  | .sw =>
      lowBits 7 (imm >>> (5 : ℕ)) <<< 25 ||| i.rs2.val <<< 20 ||| i.rs1.val <<< 15 ||| 2 <<< 12 |||
        lowBits 5 imm <<< 7 ||| 0x23
  | .sb =>
      lowBits 7 (imm >>> (5 : ℕ)) <<< 25 ||| i.rs2.val <<< 20 ||| i.rs1.val <<< 15 ||| 0 <<< 12 |||
        lowBits 5 imm <<< 7 ||| 0x23

end Rv32iInstruction

/-- Encode a program fragment. -/
def fragmentBytes (instructions : List Rv32iInstruction) : Except Exn (List UInt8) := do
  ensure (instructions ≠ []) (reject .fragmentInvalidSequence
    "a nonempty RV32I instruction tuple is required" "fragment.instructions")
  return instructions.flatMap fun item => Bytes.leBytes 4 item.word

/-! ## Device windows -/

/-- A device range and the accesses it permits. -/
structure MmioWindow where
  base : ℕ
  size : ℕ
  readable : Bool
  writable : Bool
  writeWidths : List ℕ
  size_pos : 0 < size
  fits : base + size ≤ 2 ^ 32
  permits : readable = true ∨ writable = true
  widths_ne_nil : writeWidths ≠ []
  width_eq : ∀ width ∈ writeWidths, width = 1 ∨ width = 4
  nodup_widths : writeWidths.Nodup

namespace MmioWindow

/-- The constructor of a window. -/
def new (base size : ℤ) (readable writable : Bool) (writeWidths : List ℕ) : Except Exn MmioWindow :=
  let message := "MMIO window must fit a nonempty RV32 address range"
  if hb : ¬ (0 ≤ base ∧ base < 2 ^ 32) then .error (reject .mmioBadWindow message "window.base")
  else if hs : size ≤ 0 then .error (reject .mmioBadWindow message "window.size")
  else if hr : 2 ^ 32 < base + size then .error (reject .mmioBadWindow message "window.range")
  else if hp : ¬ (readable = true ∨ writable = true) then
    .error (reject .mmioBadPermission "MMIO window must permit a read or write" "window.permissions")
  else if hw : writeWidths = [] ∨ (∃ width ∈ writeWidths, ¬ (width = 1 ∨ width = 4)) ∨
      ¬ writeWidths.Nodup then
    .error (reject .mmioBadWidth "MMIO write widths must be a unique tuple of 1 and/or 4"
      "window.write_widths")
  else
    .ok ⟨base.toNat, size.toNat, readable, writable, writeWidths, by omega, by omega,
      not_not.mp hp, fun h => hw (.inl h),
      fun width hwidth => not_not.mp fun h => hw (.inr (.inl ⟨width, hwidth, h⟩)),
      not_not.mp fun h => hw (.inr (.inr h))⟩

/-- An access lies in the window. -/
def Contains (w : MmioWindow) (address width : ℤ) : Prop :=
  0 < width ∧ w.base ≤ address ∧ address + width ≤ w.base + w.size

instance (w : MmioWindow) (address width : ℤ) : Decidable (w.Contains address width) :=
  inferInstanceAs (Decidable (_ ∧ _))

/-- The window permits the direction of an operation. -/
def Permits (w : MmioWindow) (operation : Operation) : Prop :=
  if operation = .lw then w.readable = true else w.writable = true

instance (w : MmioWindow) (operation : Operation) : Decidable (w.Permits operation) := by
  unfold Permits
  infer_instance

end MmioWindow

/-- Split an address for an upper immediate and a signed offset. -/
def splitAddress (address : ℤ) : ℤ × ℤ :=
  let low := (address % 0x1000 + 0x800) % 0x1000 - 0x800
  let high := (address - low) / 2 ^ 12 % 2 ^ 20
  (high, low)

/-- The windows of an access are declared. -/
def windowsArgument (windows : List MmioWindow) : Except Exn Unit :=
  ensure (windows ≠ [])
    (reject .mmioNoWindow "at least one MMIO window is required" "mmio.windows")

/-- The bytes an operation accesses. -/
def accessWidth (operation : Operation) : ℕ := if operation = .sb then 1 else 4

/-- The load or store of an access. -/
def accessInstruction (operation : Operation) (baseRegister dataRegister low : ℤ) :
    Except Exn Rv32iInstruction :=
  if operation = .lw then Rv32iInstruction.new .lw dataRegister baseRegister 0 low
  else Rv32iInstruction.new operation 0 baseRegister dataRegister low

/-- The upper half of an address, then one access to it. -/
def mmioAccessFragment (operation : Operation) (address : ℤ) (windows : List MmioWindow)
    (baseRegister dataRegister : ℤ) : Except Exn (List Rv32iInstruction) := do
  ensure (operation ∈ Operation.memory) (reject .isaDisallowedOperation
    "MMIO access must be LW, SW, or SB" "mmio.operation")
  windowsArgument windows
  checkRegister baseRegister "base_register" "mmio.base_register"
  checkRegister dataRegister "data_register" "mmio.data_register"
  ensure (baseRegister ≠ 0) (reject .fieldRegisterConflict
    "MMIO base and data registers must be distinct nonzero registers" "mmio.base_register")
  ensure (dataRegister ≠ 0 ∧ baseRegister ≠ dataRegister) (reject .fieldRegisterConflict
    "MMIO base and data registers must be distinct nonzero registers" "mmio.data_register")
  let width : ℤ := accessWidth operation
  ensure (0 ≤ address ∧ address < 2 ^ 32)
    (reject .fieldBadAddress "MMIO address must fit RV32" "mmio.address")
  ensure (address % width = 0) (reject .fieldBadAlignment "MMIO access address is misaligned" "mmio.address")
  let containing := windows.filter fun window => window.Contains address width
  ensure (containing ≠ []) (reject .mmioOutOfWindow
    "MMIO access is outside declared target windows" "mmio.address")
  ensure (∃ window ∈ containing, window.Permits operation)
    (reject (if operation = .lw then .mmioWriteOnly else .mmioReadOnly)
      "MMIO access is not permitted by declared target windows" "mmio.address")
  ensure (operation ≠ .lw → ∃ window ∈ containing,
      window.writable = true ∧ accessWidth operation ∈ window.writeWidths)
    (reject .mmioBadWidth "MMIO access width is not supported by declared target windows"
      "mmio.width")
  let split := splitAddress address
  let loadBase ← Rv32iInstruction.new .lui baseRegister 0 0 split.1
  let access ← accessInstruction operation baseRegister dataRegister split.2
  return [loadBase, access]

/-- Load a constant, then store it. -/
def mmioWriteFragment (operation : Operation) (address value : ℤ) (windows : List MmioWindow)
    (baseRegister dataRegister : ℤ) : Except Exn (List Rv32iInstruction) := do
  ensure (operation ∈ [Operation.sw, .sb]) (reject .isaDisallowedOperation
    "MMIO write must be SW or SB" "mmio.operation")
  ensure (0 ≤ value ∧ value < 2 ^ 32)
    (reject .fieldBadImmediate "MMIO write value must fit RV32" "mmio.value")
  let access ← mmioAccessFragment operation address windows baseRegister dataRegister
  let split := splitAddress value
  let upper ← Rv32iInstruction.new .lui dataRegister 0 0 split.1
  let lower ← Rv32iInstruction.new .addi dataRegister dataRegister 0 split.2
  return upper :: lower :: access

/-! ## Decoding entropy -/

/-- The windows with an aligned address for an operation, and the window entropy selects. -/
def selectWindow (operation : Operation) (entropy : List UInt8) (windows : List MmioWindow) :
    Except Exn MmioWindow := do
  ensure (4 ≤ entropy.length) (reject .decodeMalformedEntropy
    "MMIO mutation requires at least four entropy bytes" "mutation.entropy")
  windowsArgument windows
  ensure (operation ∈ Operation.memory) (reject .isaDisallowedOperation
    "MMIO access must be LW, SW, or SB" "mmio.operation")
  let width := accessWidth operation
  let accessible := windows.filter fun window => window.Permits operation
  ensure (accessible ≠ []) (reject .mmioWindowDenied "no MMIO window permits this operation"
    "mmio.operation")
  let widthPermitted := accessible.filter fun window =>
    operation = .lw ∨ width ∈ window.writeWidths
  ensure (widthPermitted ≠ []) (reject .mmioBadWidth
    ("no MMIO window supports " ++ operation.text ++ " access width") "mmio.width")
  let permitted := widthPermitted.filter fun window =>
    (window.base + width - 1) / width * width + width ≤ window.base + window.size
  match permitted[(entropy.getD 0 0).toNat % permitted.length]? with
  | none => throw (reject .mmioNoAlignedAddress
      ("no MMIO window has an aligned " ++ operation.text ++ " address") "mmio.windows")
  | some window => return window

/-- The aligned address of a window that entropy selects. -/
def selectAddress (operation : Operation) (entropy : List UInt8) (window : MmioWindow) : ℕ :=
  let width := accessWidth operation
  let first := (window.base + width - 1) / width * width
  let slots := (window.base + window.size - width - first) / width + 1
  first + Bytes.readLe ((entropy.drop 1).take 3) % slots * width

/-- An access to an aligned address of a declared window. -/
def mutateMmioAccess (operation : Operation) (entropy : List UInt8) (windows : List MmioWindow)
    (baseRegister dataRegister : ℤ) : Except Exn (List Rv32iInstruction) := do
  let window ← selectWindow operation entropy windows
  mmioAccessFragment operation (selectAddress operation entropy window) windows baseRegister
    dataRegister

/-- Twelve bits as a signed number. -/
def signExtend12 (immediate : ℕ) : ℤ :=
  if immediate &&& 0x800 ≠ 0 then immediate - 0x1000 else immediate

/-- An upper immediate and the edits of its constant. -/
def decodeEdit (raw : List UInt8) (register immediate : ℤ) (edit : ℕ) :
    Except Exn (List Rv32iInstruction) := do
  let upper ← Rv32iInstruction.new .lui register 0 0
    (Bytes.readLe ((raw.drop 7).take 4) &&& 0xfffff : ℕ)
  let lower ← Rv32iInstruction.new .addi register register 0 immediate
  if edit = 0x80 then return [upper]
  else if edit = 0xc0 then
    let flip ← Rv32iInstruction.new .xori register register 0
      (signExtend12 (Bytes.readLe ((raw.drop 4).take 2) &&& 0xfff))
    return [upper, flip, lower]
  else return [upper, lower]

/-- The fragment of an arithmetic choice. -/
def decodeArithmetic (raw : List UInt8) (register : ℤ) : Except Exn (List Rv32iInstruction) :=
  let byte (i : ℕ) : ℕ := (raw.getD i 0).toNat
  let immediate := signExtend12 (Bytes.readLe ((raw.drop 2).take 2) &&& 0xfff)
  let edit := byte 6 &&& 0xc0
  if edit ≠ 0 then decodeEdit raw register immediate edit
  else if byte 4 &&& 0x20 ≠ 0 then do
    let operation := if byte 6 % 3 = 0 then Operation.slli else if byte 6 % 3 = 1 then .srli else .srai
    let shift ← Rv32iInstruction.new operation register (byte 4 &&& 31 : ℕ) 0 (immediate % 32)
    return [shift]
  else do
    let operation :=
      if byte 4 &&& 0x80 = 0 then if byte 4 &&& 0x40 = 0 then Operation.addi else .ori
      else if byte 4 &&& 0x40 = 0 then .xori else .andi
    let arithmetic ← Rv32iInstruction.new operation register (byte 4 &&& 31 : ℕ) 0 immediate
    return [arithmetic]

/-- The constant that a decoded store writes. -/
def decodeConstant (raw : List UInt8) : Except Exn (List Rv32iInstruction) := do
  let split := splitAddress (Bytes.readLe ((raw.drop 8).take 4))
  let upper ← Rv32iInstruction.new .lui 2 0 0 split.1
  let lower ← Rv32iInstruction.new .addi 2 2 0 split.2
  return [upper, lower]

/-- The fragment of an access choice. -/
def decodeAccess (raw : List UInt8) (windows : List MmioWindow) (operation : Operation) :
    Except Exn (List Rv32iInstruction) := do
  let access ← mutateMmioAccess operation ((raw.drop 1).take 4) windows 1 2
  if operation = .lw then return access
  else
    let constant ← decodeConstant raw
    return constant ++ access

/-- Twelve bytes of entropy, the missing ones zero. -/
def rawEntropy (entropy : List UInt8) : List UInt8 := (entropy ++ List.replicate 12 0).take 12

/-- The kind of fragment entropy selects. -/
def fragmentChoice (raw : List UInt8) (windows : List MmioWindow) (allowed : List Operation) : ℕ :=
  (raw.getD 0 0).toNat % if windows ≠ [] then 3 + allowed.length else 3

/-- **The fragment of entropy bytes.** -/
def decodeInstructionFragment (entropy : List UInt8) (windows : List MmioWindow)
    (allowedMmioOperations : List Operation) : Except Exn (List Rv32iInstruction) := do
  ensure (entropy ≠ []) (reject .decodeMalformedEntropy
    "instruction entropy must be nonempty bytes" "mutation.entropy")
  ensure (allowedMmioOperations ≠ [] ∧ (∀ operation ∈ allowedMmioOperations,
      operation ∈ Operation.memory) ∧ allowedMmioOperations.Nodup)
    (reject .isaDisallowedOperation
      "allowed MMIO operations must be a nonempty unique tuple of LW, SW, SB"
      "mmio.allowed_operations")
  let raw := rawEntropy entropy
  let choice := fragmentChoice raw windows allowedMmioOperations
  let register : ℤ := 1 + (raw.getD 1 0).toNat % 31
  if choice = 0 then
    let nop ← Rv32iInstruction.new .nop 0 0 0 0
    return [nop]
  else if choice = 1 then
    let upper ← Rv32iInstruction.new .lui register 0 0
      (Bytes.readLe ((raw.drop 2).take 4) &&& 0xfffff : ℕ)
    return [upper]
  else if choice = 2 then decodeArithmetic raw register
  else decodeAccess raw windows (allowedMmioOperations.getD (choice - 3) .lw)

/-! ## Checking instruction bytes -/

/-- The pointer to an offset of a fragment. -/
def fragmentAt (offset : ℕ) : String := "fragment[" ++ toString offset ++ "]"

/-- A half word is a compressed operation on the data registers. -/
def safeCompressed (half : ℕ) : Bool :=
  let quadrant := half &&& 3
  let funct3 := half >>> 13 &&& 7
  let rd := half >>> 7 &&& 31
  let rs2 := half >>> 2 &&& 31
  let compactRd := 8 + (half >>> 7 &&& 7)
  let compactRs2 := 8 + (half >>> 2 &&& 7)
  (quadrant = 1 ∧ funct3 ∈ [0, 2, 3] ∧ 12 ≤ rd ∧ rd ≤ 15) ∨
    (quadrant = 1 ∧ funct3 = 4 ∧ (12 ≤ compactRd ∧ compactRd ≤ 15) ∧
      (half >>> 10 &&& 3 ≠ 3 ∨ 12 ≤ compactRs2 ∧ compactRs2 ≤ 15)) ∨
    (quadrant = 2 ∧ funct3 = 0 ∧ 12 ≤ rd ∧ rd ≤ 15) ∨
    (quadrant = 2 ∧ funct3 = 4 ∧ (12 ≤ rd ∧ rd ≤ 15) ∧ 12 ≤ rs2 ∧ rs2 ≤ 15)

/-- A half word of a compressed pair. -/
def checkHalf (isa : IsaContract) (half offset : ℕ) : Except Exn Unit :=
  ensure (safeCompressed half ∧ (RiscvInstructionProvider.mk isa).isLegalWord half true)
    (reject .isaDisallowedOperation "F1 compressed pair requires safe straight-line ALU words"
      (fragmentAt offset))

/-- One word of a fragment. -/
def checkWord (isa : Option IsaContract) (word offset : ℕ) : Except Exn Unit :=
  if word &&& 3 ≠ 3 then
    match isa with
    | none => .error (reject .isaDisallowedOperation
        "compressed instruction requires declared C extension" (fragmentAt offset))
    | some isa => do
        ensure ("C" ∈ isa.extensions ∧ isa.instructionAlignment = 2) (reject .isaDisallowedOperation
          "compressed instruction requires declared C extension" (fragmentAt offset))
        checkHalf isa (word % 2 ^ 16) offset
        checkHalf isa (word / 2 ^ 16) (offset + 2)
  else
    let opcode := word &&& 0x7f
    let funct3 := word >>> 12 &&& 7
    if opcode = 0x37 ∨ opcode = 0x13 ∧ funct3 ∈ [0, 2, 3, 4, 6, 7] then .ok ()
    else if opcode = 0x33 ∧
        (RiscvInstructionProvider.mk (isa.getD IsaContract.rv32i)).isLegalWord word false then .ok ()
    else if opcode = 0x13 ∧ funct3 ∈ [1, 5] then
      let reserved := (word >>> 20 &&& 0xfff) >>> 5
      ensure (reserved = 0 ∨ funct3 = 5 ∧ reserved = 0x20) (reject .isaReservedImmBit
        "unsupported RV32I shift immediate encoding" (fragmentAt offset ++ ".immediate"))
    else if opcode = 0x03 ∧ funct3 = 2 then
      ensure ((word >>> 20 &&& 0xfff) % 4 = 0) (reject .fieldBadAlignment
        "unsupported first-stage RV32I instruction encoding" (fragmentAt offset ++ ".immediate"))
    else if opcode = 0x23 ∧ funct3 ∈ [0, 2] then
      ensure (funct3 = 0 ∨ ((word >>> 25) <<< 5 ||| (word >>> 7 &&& 31)) % 4 = 0)
        (reject .fieldBadAlignment "unsupported first-stage RV32I instruction encoding"
          (fragmentAt offset ++ ".immediate"))
    else if opcode = 0x13 then
      .error (reject .isaDisallowedOperation ("unsupported RV32I OP-IMM funct3 " ++
        toString funct3 ++ " at byte offset " ++ toString offset) (fragmentAt offset ++ ".funct3"))
    else .error (reject .isaDisallowedOperation
      "unsupported first-stage RV32I instruction encoding" (fragmentAt offset))

/-- The words of a fragment from an offset on. -/
def checkWords (isa : Option IsaContract) : List ℕ → ℕ → Except Exn Unit
  | [], _ => .ok ()
  | word :: rest, offset => do
      checkWord isa word offset
      checkWords isa rest (offset + 4)

/-- Instruction bytes are in the supported subset. -/
def validateInstructionBytes (data : List UInt8) (isa : Option IsaContract) : Except Exn Unit := do
  ensure (data ≠ [] ∧ data.length % 4 = 0) (reject .decodeMalformedRecord
    "instruction fragment requires complete 32-bit words" "fragment.data")
  checkWords isa (Bytes.words data) 0

end MyFuzz
