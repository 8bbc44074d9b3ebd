import MyFuzz.Foundations.Packing
import MyFuzz.Foundations.Sequence
import MyFuzz.Isa.Transducer

/-!
# Composition/RuntimeProjection — the constraints of an input layout, applied to raw samples

The constructor checks a layout and reads the constraint of every field once.  A raw sample is then projected
field by field:

    slice ──mask──▸ source ──candidates, or range and alignment──▸ value ──instruction repair──▸ word
    words ──zero gates──▸ packed into the raw layout ──▸ physical ports

A field that declares an enumeration, or a range and a mask, has a table of candidates.
-/

namespace MyFuzz

namespace Composition

open BitField Outcome Packing

/-! ## Layouts -/

/-- A value that a constraint may hold; `none` in a sequence is an item that is no integer. -/
inductive ConstraintValue where
  | none
  | int (n : ℤ)
  | bool (b : Bool)
  | text (s : String)
  | sequence (items : List (Option ℤ))
  | other
  deriving DecidableEq

/-- A field of the raw sample and the part of a port that it drives. -/
structure LayoutField where
  fieldId : String
  owner : String
  role : String
  width : ℕ
  rawLo : ℕ
  rawHi : ℕ
  encoding : String
  constraint : Dict String ConstraintValue
  dependencyGroup : Option String := none
  port : String := ""
  signed : Bool := false
  evidence : List String := []
  memberPath : List String := []
  portRawLo : Option ℤ := none
  portRawHi : Option ℤ := none
  portWidth : Option ℤ := none

structure InputLayout where
  rawWidth : ℕ
  fields : List LayoutField

/-- The place of the next raw-bit use, or the error of a gap. -/
def validateUse (cursor : ℕ) (field : LayoutField) : Except Exn ℕ := do
  ensure (field.rawLo = cursor ∧ field.rawLo ≤ field.rawHi)
    (.valueError "raw-bit mapping must be contiguous and nonempty")
  ensure (field.rawHi - field.rawLo + 1 ≤ field.width)
    (.valueError "raw-bit mapping references an invalid destination slice")
  return field.rawHi + 1

/-- **Every raw bit is used by exactly one field.** -/
def InputLayout.validateTotalUse (layout : InputLayout) : Except Exn Unit := do
  ensure (0 < layout.rawWidth) (.valueError "raw_width must be positive")
  let cursor ← (layout.fields.insertionSort fun a b => a.rawLo ≤ b.rawLo).foldlM validateUse 0
  ensure (cursor = layout.rawWidth) (.valueError "raw-bit mapping does not cover raw_width")

/-! ## Constraints -/

/-- The constraint of a field, read. -/
structure FieldConstraint where
  alignment : ℕ
  mask : Option ℕ
  bounds : Option (ℤ × ℤ)
  enum : Option (List ℤ)
  gatedBy : Option String

/-- A field with its constraint and its candidates. -/
structure RuntimeField where
  field : LayoutField
  constraint : FieldConstraint
  candidates : List ℤ

namespace LayoutField

variable (field : LayoutField)

/-- The least and the greatest value of a field. -/
def minimum : ℤ := if field.signed then -(2 ^ (field.width - 1)) else 0

def maximum : ℤ := if field.signed then 2 ^ (field.width - 1) - 1 else 2 ^ field.width - 1

/-- The bits of a value in the field. -/
def bits (value : ℤ) : ℕ := (value % 2 ^ field.width).toNat

def constraintKeys : List String :=
  ["range", "alignment", "enum", "mask", "randomizable", "gated_by", "byte_enable_width"]

def readAlignment : Except Exn ℕ :=
  match field.constraint.getD "alignment" (.int 1) with
  | .int alignment =>
    if 0 < alignment ∧ alignment.toNat &&& (alignment.toNat - 1) = 0 ∧ alignment ≤ 2 ^ field.width then
      .ok alignment.toNat
    else .error (.valueError "invalid runtime alignment")
  | _ => .error (.valueError "invalid runtime alignment")

def readMask : Except Exn (Option ℕ) :=
  match field.constraint.getD "mask" .none with
  | .none => .ok none
  | .int mask =>
    if 0 ≤ mask ∧ mask < 2 ^ field.width then .ok (some mask.toNat)
    else .error (.valueError "invalid runtime mask")
  | _ => .error (.valueError "invalid runtime mask")

def readRange (alignment : ℕ) : Except Exn (Option (ℤ × ℤ)) :=
  match field.constraint.getD "range" .none with
  | .none => .ok none
  | .sequence [some low, some high] =>
    if field.minimum ≤ low ∧ low ≤ high ∧ high ≤ field.maximum ∧ (alignment : ℤ) ∣ low ∧
        (alignment : ℤ) ∣ high then .ok (some (low, high))
    else .error (.valueError "runtime range/alignment conflict")
  | _ => .error (.valueError "invalid runtime range")

/-- The values of a sequence of integers. -/
def integers (items : List (Option ℤ)) : Option (List ℤ) := items.mapM id

/-- Check an enumeration against the width and the other constraints. -/
def checkEnum (alignment : ℕ) (mask : Option ℕ) (bounds : Option (ℤ × ℤ)) (enum : List ℤ) :
    Except Exn Unit := do
  ensure (∀ value ∈ enum, field.minimum ≤ value ∧ value ≤ field.maximum)
    (.valueError "runtime enum outside field width")
  ensure (∀ value ∈ enum, (alignment : ℤ) ∣ value) (.valueError "runtime enum/alignment conflict")
  ensure (∀ b ∈ bounds, ∀ value ∈ enum, b.1 ≤ value ∧ value ≤ b.2) (.valueError "runtime enum/range conflict")
  ensure (∀ m ∈ mask, ∀ value ∈ enum, clear (field.bits value) m = 0)
    (.valueError "runtime enum/mask conflict")

def readEnum (alignment : ℕ) (mask : Option ℕ) (bounds : Option (ℤ × ℤ)) : Except Exn (Option (List ℤ)) :=
  match field.constraint.getD "enum" .none with
  | .none => .ok none
  | .sequence items =>
    match integers items with
    | some enum =>
      if enum ≠ [] ∧ enum.Nodup then do
        field.checkEnum alignment mask bounds enum
        return some enum
      else .error (.valueError "invalid runtime enum")
    | none => .error (.valueError "invalid runtime enum")
  | _ => .error (.valueError "invalid runtime enum")

/-- The aligned values of a range that a mask allows. -/
def grid (alignment : ℕ) (low high : ℤ) (mask : ℕ) : List ℤ :=
  ((List.range (((high - low) / alignment).toNat + 1)).map fun index : ℕ =>
    low + (index : ℤ) * (alignment : ℤ)).filter fun value => clear (field.bits value) mask = 0

/-- The candidates of a field: the enumeration, replaced by the grid of a range under a mask. -/
def readCandidates (c : FieldConstraint) : Except Exn (List ℤ) :=
  match c.mask, c.bounds with
  | some mask, some (low, high) => do
    ensure ((high - low) / c.alignment ≤ 1000000)
      (.valueError "runtime range/mask intersection is not bounded")
    ensure (field.grid c.alignment low high mask ≠ []) (.valueError "runtime range/mask conflict")
    return field.grid c.alignment low high mask
  | _, _ => return c.enum.getD []

/-- The gate of a field: a valid bit of the same owner. -/
def readGate (fields : List LayoutField) (bounds : Option (ℤ × ℤ)) : Except Exn (Option String) :=
  match field.constraint.getD "gated_by" .none with
  | .none => .ok none
  | .text gate =>
    if ∃ other ∈ fields, other.fieldId = gate ∧ other.width = 1 ∧ other.role = "valid" ∧
        other.owner = field.owner ∧ field.role ≠ "valid" then do
      ensure (∀ b ∈ bounds, b.1 ≤ 0 ∧ 0 ≤ b.2) (.valueError "runtime gate/range conflict")
      return some gate
    else .error (.valueError "invalid runtime gate")
  | _ => .error (.valueError "invalid runtime gate")

/-- Byte enables have one bit for each byte of the data field. -/
def checkByteEnable (fields : List LayoutField) : Except Exn Unit := do
  let declared := field.constraint.getD "byte_enable_width" .none
  ensure (declared = .none ∨ declared = .int field.width) (.valueError "invalid byte enable constraint")
  if field.role = "byte_enable" then
    match fields.find? fun other => other.fieldId = field.owner ++ ":data" with
    | none => throw (.valueError "byte-enable/data width mismatch")
    | some data =>
      ensure (data.width % 8 = 0 ∧ field.width = data.width / 8)
        (.valueError "byte-enable/data width mismatch")
  else ensure (declared = .none) (.valueError "byte-enable constraint requires byte-enable field")

/-- What an instruction field may declare and needs. -/
def checkInstruction (isa : Option IsaContract) : Except Exn Unit := do
  ensure ((∀ key ∈ field.constraint.keys, key = "randomizable") ∧ field.signed = false)
    (.valueError "unsupported instruction constraint intersection")
  match isa with
  | none => throw (.valueError "missing implemented instruction contract")
  | some contract => do
    ensure (contract.SupportsLegalInstructionValidation ∧ (field.width = 16 ∨ field.width = 32))
      (.valueError "missing implemented instruction contract")
    ensure (field.width = 16 → "C" ∈ contract.extensions ∧ contract.instructionAlignment = 2)
      (.valueError "compressed instruction contract mismatch")

def isBool : ConstraintValue → Bool
  | .bool _ => true
  | _ => false

/-- **Check one field and read its constraint.** -/
def check (layout : InputLayout) (isa : Option IsaContract) (requireCompilerProvenance : Bool) :
    Except Exn RuntimeField := do
  ensure (field.dependencyGroup = none) (.valueError "unbound runtime dependency group")
  ensure (∀ key ∈ field.constraint.keys, key ∈ constraintKeys) (.valueError "unsupported runtime constraint")
  ensure (field.encoding ∈ ["bits", "raw_instruction", "riscv_imc"])
    (.valueError "unsupported runtime encoding")
  ensure (requireCompilerProvenance → field.memberPath ≠ [] → "compiler_elaboration" ∈ field.evidence)
    (.valueError "packed runtime binding lacks compiler provenance")
  ensure (isBool (field.constraint.getD "randomizable" (.bool false)))
    (.valueError "runtime randomizable must be boolean")
  if field.encoding = "riscv_imc" then field.checkInstruction isa
  let alignment ← field.readAlignment
  let mask ← field.readMask
  let bounds ← field.readRange alignment
  let enum ← field.readEnum alignment mask bounds
  let candidates ← field.readCandidates ⟨alignment, mask, bounds, enum, none⟩
  let gatedBy ← field.readGate layout.fields bounds
  field.checkByteEnable layout.fields
  return ⟨field, ⟨alignment, mask, bounds, enum, gatedBy⟩, candidates⟩

/-! ## Ports -/

/-- The coordinates of a field in its port. -/
def checkCoordinates : Except Exn Unit :=
  if field.memberPath = [] then
    ensure (field.portRawLo = none ∧ field.portRawHi = none ∧ field.portWidth = none)
      (.valueError "packed runtime binding lacks member path")
  else
    match field.portRawLo, field.portRawHi, field.portWidth with
    | some low, some high, some width =>
      ensure (0 ≤ low ∧ low ≤ high ∧ high < width ∧ high - low + 1 = field.width)
        (.valueError "packed runtime binding has invalid range")
    | _, _, _ => .error (.valueError "packed runtime binding is incomplete")

/-- The first bit of a field in its port. -/
def portOffset : ℕ := (field.portRawLo.getD 0).toNat

end LayoutField

/-- The place of the next member of a port. -/
def validateMember (port : String) (cursor : ℤ) (field : LayoutField) : Except Exn ℤ := do
  ensure (field.portRawLo = some cursor)
    (.valueError ("packed runtime binding is incomplete or overlapping: " ++ port))
  return field.portRawHi.getD 0 + 1

/-- The members of a port cover it, or it is one whole field. -/
def validatePort (port : String) (fields : List LayoutField) : Except Exn Unit := do
  let members := fields.filter fun field => field.memberPath ≠ []
  ensure (members = [] ∨ members.length = fields.length)
    (.valueError ("packed runtime binding mixes whole port: " ++ port))
  match members with
  | [] => ensure (fields.length = 1) (.valueError ("runtime port binding is duplicated: " ++ port))
  | first :: rest => do
    ensure (∀ other ∈ rest, other.portWidth = first.portWidth)
      (.valueError ("packed runtime binding has inconsistent width: " ++ port))
    let cursor ← ((first :: rest).insertionSort fun a b =>
      a.portRawLo.getD 0 ≤ b.portRawLo.getD 0).foldlM (validateMember port) 0
    ensure (first.portWidth = some cursor) (.valueError ("packed runtime binding is incomplete: " ++ port))

def validatePortBindings (fields : List LayoutField) : Except Exn Unit := do
  let bound := fields.filter fun field => field.port ≠ ""
  bound.forM LayoutField.checkCoordinates
  (Sequence.firsts (bound.map LayoutField.port)).forM fun port =>
    validatePort port (bound.filter fun field => field.port = port)

/-! ## The projector -/

structure RuntimeProjector where
  rawWidth : ℕ
  fields : List RuntimeField
  transducer : Option RiscvInstructionTransducer

/-- **Check a layout.** -/
def RuntimeProjector.new (layout : InputLayout) (isa : Option IsaContract)
    (requireCompilerProvenance : Bool) : Except Exn RuntimeProjector := do
  ensure (∀ field ∈ layout.fields, field.rawLo + field.width = field.rawHi + 1)
    (.valueError "runtime field width must equal raw slice width")
  layout.validateTotalUse
  let transducer := isa.bind fun contract =>
    if h : contract.SupportsLegalInstructionValidation then
      some (⟨contract, h⟩ : RiscvInstructionTransducer)
    else none
  ensure ((layout.fields.map LayoutField.fieldId).Nodup) (.valueError "duplicate runtime field")
  let fields ← layout.fields.mapM fun field => field.check layout isa requireCompilerProvenance
  validatePortBindings layout.fields
  return ⟨layout.rawWidth, fields, transducer⟩

namespace RuntimeField

variable (f : RuntimeField)

/-- The bits of a field in a raw sample. -/
def slice (raw : ℕ) : ℕ := readSegment raw f.field.rawLo f.field.width

/-- The bits under the mask. -/
def masked (source : ℕ) : ℕ :=
  match f.constraint.mask with
  | none => source
  | some mask => source &&& mask

/-- The number that a field of bits stands for. -/
def number (value : ℕ) : ℤ :=
  if f.field.signed ∧ value.testBit (f.field.width - 1) then value - 2 ^ f.field.width else value

/-- The candidate that is selected by the source. -/
def candidate (source : ℕ) : ℤ := (f.candidates[source % f.candidates.length]?).getD 0

/-- Map the source onto the range and the alignment. -/
def align (source : ℕ) : ℤ :=
  match f.constraint.bounds with
  | none => f.number source / f.constraint.alignment * f.constraint.alignment
  | some (low, high) =>
    low + (f.number source - low) / f.constraint.alignment % ((high - low) / f.constraint.alignment + 1) *
      f.constraint.alignment

/-- The value of a field, before instructions are repaired. -/
def select (source : ℕ) : ℕ :=
  if f.constraint.enum.isSome ∨ f.constraint.bounds.isSome ∧ f.constraint.mask.isSome then
    f.field.bits (f.candidate (f.masked source))
  else f.field.bits (f.align (f.masked source))

/-- **The value of a field.** -/
def value (transducer : Option RiscvInstructionTransducer) (raw : ℕ) : Except Exn ℕ :=
  if f.field.encoding = "riscv_imc" then
    match transducer with
    | some transducer => do
      let choice ← transducer.repairPayload (f.select (f.slice raw)) f.field.width false
      return choice.word
    | none => .error (.other "AssertionError")
  else .ok (f.select (f.slice raw))

end RuntimeField

namespace RuntimeProjector

variable (p : RuntimeProjector)

/-- The values of all fields, and each that is behind a gate of value zero. -/
def gated (values : Dict String ℕ) (f : RuntimeField) : ℕ :=
  match f.constraint.gatedBy with
  | none => values.getD f.field.fieldId 0
  | some gate => if values.getD gate 0 = 0 then 0 else values.getD f.field.fieldId 0

/-- **Project a raw sample.** -/
def project (raw : ℤ) : Except Exn ℕ := do
  ensure (0 ≤ raw ∧ raw < 2 ^ p.rawWidth) (.valueError "raw sample outside layout")
  let values ← p.fields.foldlM (fun (values : Dict String ℕ) f => do
    let value ← f.value p.transducer raw.toNat
    return values.set f.field.fieldId value) Dict.empty
  return pack (fun f : RuntimeField => f.field.rawLo) (gated values) p.fields

/-- Join a field to its port. -/
def joinPort (projected : ℕ) (ports : Dict String ℕ) (f : RuntimeField) : Except Exn (Dict String ℕ) := do
  ensure (f.field.port ≠ "") (.valueError ("runtime field has no physical port: " ++ f.field.fieldId))
  if f.field.memberPath = [] then return ports.set f.field.port (f.slice projected)
  else return ports.set f.field.port (ports.getD f.field.port 0 ||| f.slice projected <<< f.field.portOffset)

/-- **Project a raw sample and put the physical ports together.** -/
def projectPorts (raw : ℤ) : Except Exn (Dict String ℕ) := do
  let projected ← p.project raw
  p.fields.foldlM (joinPort projected) Dict.empty

end RuntimeProjector

end Composition

end MyFuzz
