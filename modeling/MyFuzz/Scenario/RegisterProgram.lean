import MyFuzz.Scenario.Memory
import MyFuzz.Scenario.RuntimeContract
import MyFuzz.Scenario.Rv32iSources

/-!
# Scenario/RegisterProgram — register accesses compiled to RV32I

One access to a declared register field becomes a straight-line program: a planned operation is
checked against the profile of its component, the declared windows and the memory the program lives
in, and then built from access fragments.

    profile, capability ──plan──▸ offset, mask, value ──compile──▸ instructions, bytes, source

Loading a capability document is a parameter: a compilation reloads the document it was made from and
compares.
-/

namespace MyFuzz

open Outcome

/-! ## Profiles and capabilities -/

/-- One declared register. -/
structure RegisterSpec where
  name : String
  offset : ℤ
  width : ℤ
  deriving DecidableEq

/-- The address map of a component. -/
structure AddressSpec where
  windowSize : ℤ
  alignment : ℤ
  registers : List RegisterSpec
  deriving DecidableEq

/-- The parts of a profile that register operations read. -/
structure ComponentProfile where
  address : Option AddressSpec
  capabilities : Dict String JsonScalar

/-- A declared field of a register. -/
structure RegisterFieldSemantics where
  register : String
  field : String
  lsb : ℕ
  width : ℕ
  access : String
  readMask : ℕ
  writeMask : ℕ
  resetValue : Option ℕ
  sideEffect : String
  evidenceRef : String
  writePolicy : Option String
  deriving DecidableEq

/-- A loaded capability: its register fields, its other typed fields, the document they were read
from and the fingerprint of that document. -/
structure IPTestCapability (Document View : Type) where
  registerSemantics : List RegisterFieldSemantics
  view : View
  sourceDocument : Document
  sidecarFingerprint : String

/-- Where an operation goes and what it transfers. -/
structure RegisterOperationPlan where
  register : String
  field : String
  operation : String
  offset : ℤ
  fieldWidth : ℕ
  busMask : ℕ
  busValue : Option ℕ
  sideEffect : String
  evidenceRef : String
  deriving DecidableEq

section Plan

variable {Document View : Type} [DecidableEq View]
variable (load : Document → ComponentProfile → Except Exn (IPTestCapability Document View))

/-- Reload the document of a capability and compare. -/
def revalidateIpTestCapability (capability : IPTestCapability Document View)
    (profile : ComponentProfile) : Except Exn (IPTestCapability Document View) := do
  let canonical ← load capability.sourceDocument profile
  ensure (capability.sidecarFingerprint = canonical.sidecarFingerprint)
    (.valueError "test-capability-fingerprint-mismatch")
  ensure (capability.view = canonical.view ∧ capability.registerSemantics = canonical.registerSemantics)
    (.valueError "test-capability-typed-contract-mismatch")
  return canonical

/-- The mask and value of a read. -/
def planRead (semantics : RegisterFieldSemantics) (value : Option ℤ) : Except Exn (ℕ × Option ℕ) := do
  ensure (value = none) (.valueError "register-read-value-not-allowed")
  ensure (semantics.access ∈ ["ro", "rw"] ∧ semantics.readMask ≠ 0) (.valueError
    ("register-field-not-readable:" ++ semantics.register ++ "." ++ semantics.field))
  return (semantics.readMask <<< semantics.lsb, none)

/-- The mask and value of a write; a value fits when the mask leaves it alone. -/
def planWrite (semantics : RegisterFieldSemantics) (value : Option ℤ) : Except Exn (ℕ × Option ℕ) := do
  ensure (semantics.access ∈ ["wo", "rw"] ∧ semantics.writeMask ≠ 0) (.valueError
    ("register-field-not-writable:" ++ semantics.register ++ "." ++ semantics.field))
  match value with
  | none => throw (.valueError "register-field-value-outside-width")
  | some value =>
      ensure (0 ≤ value ∧ value < 2 ^ semantics.width) (.valueError "register-field-value-outside-width")
      ensure (value.toNat &&& semantics.writeMask = value.toNat)
        (.valueError "register-field-value-exceeds-write-mask")
      return (semantics.writeMask <<< semantics.lsb, some (value.toNat <<< semantics.lsb))

/-- The mask and value of an operation. -/
def planTransfer (semantics : RegisterFieldSemantics) (operation : String) (value : Option ℤ) :
    Except Exn (ℕ × Option ℕ) :=
  if operation = "register_read" then planRead semantics value else planWrite semantics value

/-- **Plan one access to a register field.** -/
def planRegisterOperation (profile : ComponentProfile) (capability : IPTestCapability Document View)
    (register field operation : String) (value : Option ℤ) (allowSideEffect : Bool) :
    Except Exn RegisterOperationPlan := do
  let capability ← revalidateIpTestCapability load capability profile
  ensure (operation ∈ ["register_read", "register_write"])
    (.valueError ("invalid-register-operation:" ++ operation))
  match profile.address with
  | none => throw (.valueError "register-operation-requires-address-map")
  | some address =>
      match address.registers.find? fun item => item.name = register with
      | none => throw (.valueError ("unknown-register-reference:" ++ register))
      | some record =>
          match capability.registerSemantics.find? fun item =>
              item.register = register ∧ item.field = field with
          | none => throw (.valueError
              ("register-field-semantics-not-declared:" ++ register ++ "." ++ field))
          | some semantics => do
              let (busMask, busValue) ← planTransfer semantics operation value
              ensure (semantics.sideEffect = "none" ∨ allowSideEffect = true) (.valueError
                ("register-side-effect-requires-explicit-authorization:" ++ semantics.sideEffect))
              return ⟨register, field, operation, record.offset, semantics.width, busMask, busValue,
                semantics.sideEffect, semantics.evidenceRef⟩

end Plan

/-! ## Checks -/

/-- The effects a compiled write may have. -/
def writeEffects : List String :=
  ["none", "write_drives_output_enable", "write_drives_pads", "write_one_sets", "write_one_clears"]

/-- The effects a compiled read may have. -/
def readEffects : List String := ["none", "write_drives_output_enable", "write_drives_pads"]

/-- A value of 32 bits. -/
def IsUint (value : ℤ) : Prop := 0 ≤ value ∧ value < 2 ^ 32

instance (value : ℤ) : Decidable (IsUint value) := inferInstanceAs (Decidable (_ ∧ _))

/-- Two ranges overlap. -/
def Overlap (a size b otherSize : ℤ) : Prop := a < b + otherSize ∧ b < a + size

instance (a size b otherSize : ℤ) : Decidable (Overlap a size b otherSize) :=
  inferInstanceAs (Decidable (_ ∧ _))

/-- No region of a list overlaps a later one. -/
def checkApart : List MemoryRegion → Except Exn Unit
  | [] => .ok ()
  | region :: rest => do
      ensure (∀ other ∈ rest, ¬ Overlap region.base region.size other.base other.size)
        (.valueError "register-program-ambiguous-ram-regions")
      checkApart rest

/-- The regions of a program are plain memory outside the device aperture. -/
def checkRegions (regions : List MemoryRegion) (mmioBase aperture : ℤ) : Except Exn Unit := do
  ensure (regions ≠ []) (.valueError "register-program-explicit-ram-regions-required")
  regions.forM fun region =>
    ensure (IsUint region.base ∧ region.base + region.size ≤ 2 ^ 32 ∧ region.aliases = [] ∧
        ¬ Overlap region.base region.size mmioBase aperture)
      (.valueError "register-program-ram-region-invalid-or-overlaps-mmio")
  checkApart regions

/-- The bits of a register that plain readable and writable fields cover. -/
def plainMask : List RegisterFieldSemantics → ℕ → Except Exn ℕ
  | [], covered => .ok covered
  | row :: rest, covered => do
      let mask := 2 ^ row.width - 1
      ensure (row.access = "rw" ∧ row.sideEffect = "none" ∧ row.readMask = mask ∧ row.writeMask = mask)
        (.valueError "register-program-rmw-requires-complete-plain-rw-register")
      plainMask rest (covered ||| mask <<< row.lsb)

/-- A register may be read, modified and written back. -/
def checkReadModifyWrite (rows : List RegisterFieldSemantics) (profile : ComponentProfile)
    (plan : RegisterOperationPlan) (register operation : String)
    (maskRegister baseRegister dataRegister : ℤ) : Except Exn Unit := do
  let covered ← plainMask (rows.filter fun row => row.register = register) 0
  ensure (operation = "register_write" ∧ plan.sideEffect = "none" ∧
      profile.capabilities.get? "read" = some (.bool true) ∧ covered = 0xffffffff)
    (.valueError "register-program-rmw-requires-complete-plain-rw-register")
  ensure (maskRegister ≠ baseRegister ∧ maskRegister ≠ dataRegister)
    (.valueError "register-program-rmw-mask-register-conflict")

/-- The bits of a register that plain readable fields cover, and the last row of the field. -/
def readableMask (register field : String) : List RegisterFieldSemantics → ℕ →
    Option RegisterFieldSemantics → Except Exn (ℕ × Option RegisterFieldSemantics)
  | [], covered, found => .ok (covered, found)
  | row :: rest, covered, found =>
      if row.register ≠ register then readableMask register field rest covered found
      else do
        let mask := 2 ^ row.width - 1
        let busMask := mask <<< row.lsb
        ensure (row.access ∈ ["ro", "rw"] ∧ row.sideEffect = "none" ∧ row.readMask = mask ∧
            covered &&& busMask = 0) (.valueError
            "register-program-field-read-requires-full-word-complete-plain-readable-register")
        readableMask register field rest (covered ||| busMask) (if row.field = field then some row else found)

/-- The field that a read extracts, when it is not the whole word. -/
def readField (rows : List RegisterFieldSemantics) (plan : RegisterOperationPlan)
    (register field operation : String) (maskRegister baseRegister dataRegister : ℤ) :
    Except Exn (Option RegisterFieldSemantics) :=
  if operation = "register_read" ∧ plan.busMask ≠ 0xffffffff then do
    let (covered, found) ← readableMask register field rows 0 none
    ensure (covered = 0xffffffff ∧ found ≠ none) (.valueError
      "register-program-field-read-requires-full-word-complete-plain-readable-register")
    ensure (maskRegister ≠ baseRegister ∧ maskRegister ≠ dataRegister)
      (.valueError "register-program-field-read-mask-register-conflict")
    return found
  else .ok none

/-- The bus and the register transfer whole words, in the direction of the operation. -/
def checkTransfer (profile : ComponentProfile) (width : ℤ) (operation : String) : Except Exn Unit := do
  ensure (profile.capabilities.get? "data_width" = some (.int 32) ∧ width = 32)
    (.valueError "register-program-requires-32-bit-bus-and-register")
  ensure (profile.capabilities.get? (if operation = "register_read" then "read" else "write")
      = some (.bool true)) (.valueError "register-program-profile-bus-permission-denied")

/-- The operation covers its word and has a supported effect. -/
def checkEffect (plan : RegisterOperationPlan) (operation : String) (readModifyWrite : Bool) :
    Except Exn Unit := do
  ensure (operation = "register_write" → readModifyWrite = false →
      plan.sideEffect ∉ ["write_one_sets", "write_one_clears"] → plan.busMask = 0xffffffff)
    (.valueError "register-program-full-word-field-required")
  ensure ((operation = "register_read" → plan.sideEffect ∈ readEffects) ∧
      (operation = "register_write" → plan.sideEffect ∈ writeEffects))
    (.valueError "register-program-unsupported-side-effect")

/-- The device aperture fits the address space and holds the windows. -/
def checkAperture (addressBase alignment aperture : ℤ) (windows : List MmioWindow) : Except Exn Unit := do
  ensure (IsUint addressBase) (.valueError "register-program-invalid-mmio-base")
  ensure (alignment ≠ 0) (.other "ZeroDivisionError")
  ensure (addressBase % alignment = 0 ∧ addressBase + aperture ≤ 2 ^ 32)
    (.valueError "register-program-invalid-mmio-base")
  ensure (windows ≠ []) (.valueError "register-program-explicit-mmio-windows-required")
  windows.forM fun window =>
    ensure (addressBase ≤ window.base ∧ window.base + window.size ≤ addressBase + aperture)
      (.valueError "register-program-window-exceeds-profile-aperture")

/-- The slot of the program lies in one readable and writable region. -/
def checkSlot (programAddress programSize : ℤ) (regions : List MemoryRegion)
    (addressBase aperture : ℤ) : Except Exn Unit := do
  ensure (IsUint programAddress ∧ programAddress % 4 = 0 ∧ 4 ≤ programSize ∧ programSize % 4 = 0 ∧
      programAddress + programSize ≤ 2 ^ 32) (.valueError "register-program-invalid-program-slot")
  checkRegions regions addressBase aperture
  ensure (regions.countP (fun region => region.readable = true ∧ region.writable = true ∧
      region.base ≤ programAddress ∧ programAddress + programSize ≤ region.base + region.size) = 1)
    (.valueError "register-program-slot-outside-authorized-ram")

/-- The result of a read is stored in one writable region beside the program. -/
def checkResult (resultAddress : ℤ) (regions : List MemoryRegion)
    (programAddress programSize addressBase aperture : ℤ) : Except Exn Unit := do
  checkRegions regions addressBase aperture
  ensure (regions.countP (fun region => region.writable = true ∧ region.base ≤ resultAddress ∧
        resultAddress + 4 ≤ region.base + region.size) = 1 ∧
      ¬ Overlap resultAddress 4 programAddress programSize)
    (.valueError "register-program-read-result-outside-ram-or-overlaps-slot")

/-! ## Programs -/

/-- The registers a program may use. -/
structure ProgramRegisters where
  base : ℤ
  data : ℤ
  mask : ℤ

/-- The two instructions that load a constant, cut from the store of it. -/
def constantFragment (address value : ℤ) (windows : List MmioWindow) (base register : ℤ) :
    Except Exn (List Rv32iInstruction) := do
  let fragment ← mmioWriteFragment .sw address value windows base register
  return fragment.take 2

/-- Load the word, clear the mask, set the value, store the word. -/
def modifyInstructions (address : ℤ) (windows : List MmioWindow) (busMask busValue : ℕ)
    (regs : ProgramRegisters) : Except Exn (List Rv32iInstruction) := do
  let read ← mmioAccessFragment .lw address windows regs.base regs.data
  let clear ← constantFragment address ((-1 - busMask) % 2 ^ 32) windows regs.base regs.mask
  let setValue ← constantFragment address busValue windows regs.base regs.mask
  let store ← mmioAccessFragment .sw address windows regs.base regs.data
  let and ← Rv32iInstruction.new .and regs.data regs.data regs.mask 0
  let or ← Rv32iInstruction.new .or regs.data regs.data regs.mask 0
  return read ++ clear ++ [and] ++ setValue ++ [or] ++ store.drop 1

/-- Shift the field down. -/
def shiftInstructions (lsb : ℕ) (regs : ProgramRegisters) : Except Exn (List Rv32iInstruction) :=
  if lsb ≠ 0 then do
    let shift ← Rv32iInstruction.new .srli regs.data regs.data 0 lsb
    return [shift]
  else .ok []

/-- Keep the bits of the field. -/
def maskInstructions (address : ℤ) (windows : List MmioWindow) (mask : ℕ)
    (regs : ProgramRegisters) : Except Exn (List Rv32iInstruction) :=
  if mask ≤ 0x7ff then do
    let keep ← Rv32iInstruction.new .andi regs.data regs.data 0 mask
    return [keep]
  else do
    let constant ← constantFragment address mask windows regs.base regs.mask
    let keep ← Rv32iInstruction.new .and regs.data regs.data regs.mask 0
    return constant ++ [keep]

/-- Extract the selected field. -/
def extractInstructions (address : ℤ) (windows : List MmioWindow)
    (field : Option RegisterFieldSemantics) (regs : ProgramRegisters) :
    Except Exn (List Rv32iInstruction) :=
  match field with
  | none => .ok []
  | some row => do
      let shift ← shiftInstructions row.lsb regs
      let keep ← maskInstructions address windows row.readMask regs
      return shift ++ keep

/-- Load the word, extract the field, store the result. -/
def readInstructions (address resultAddress : ℤ) (windows : List MmioWindow)
    (field : Option RegisterFieldSemantics) (regs : ProgramRegisters) :
    Except Exn (List Rv32iInstruction) := do
  let extraction ← extractInstructions address windows field regs
  let read ← mmioAccessFragment .lw address windows regs.base regs.data
  let window ← MmioWindow.new resultAddress 4 false true [4]
  let store ← mmioAccessFragment .sw resultAddress [window] regs.base regs.data
  return read ++ extraction ++ store

/-- An instruction fragment for reserved slots. -/
structure OnlineInstruction where
  actionId : String
  component : String
  address : ℤ
  data : List UInt8
  deriving DecidableEq

/-- The constructor of an online instruction. -/
def OnlineInstruction.new (actionId component : String) (address : ℤ) (data : List UInt8) :
    Except Exn OnlineInstruction := do
  ensure (actionId ≠ "" ∧ component ≠ "")
    (.valueError "instruction action identity and component are required")
  ensure (0 ≤ address ∧ address % 4 = 0) (.valueError "instruction address must be word aligned")
  ensure (data ≠ [] ∧ data.length % 4 = 0) (.valueError "instruction data must contain whole 32-bit words")
  return ⟨actionId, component, address, data⟩

/-- A compiled program. -/
structure RegisterProgram where
  instructions : List Rv32iInstruction
  fragment : List UInt8
  source : OnlineInstruction

/-- What a compilation is asked for. -/
structure RegisterRequest where
  register : String
  field : String
  operation : String
  addressBase : ℤ
  windows : List MmioWindow
  cpuComponent : String
  actionId : String
  programAddress : ℤ
  programSize : ℤ
  programRegions : List MemoryRegion
  value : Option ℤ
  allowSideEffect : Bool
  resultAddress : Option ℤ
  resultRegions : List MemoryRegion
  regs : ProgramRegisters
  readModifyWrite : Bool

/-- The instructions of a write. -/
def writeProgram (request : RegisterRequest) (plan : RegisterOperationPlan) (address : ℤ) :
    Except Exn (List Rv32iInstruction) := do
  ensure (request.resultAddress = none ∧ request.resultRegions = [])
    (.valueError "register-program-write-result-storage-not-allowed")
  match plan.busValue with
  | none => throw (.other "TypeError")
  | some busValue =>
      if request.readModifyWrite then
        modifyInstructions address request.windows plan.busMask busValue request.regs
      else
        mmioWriteFragment .sw address busValue request.windows request.regs.base request.regs.data

/-- The instructions of a read. -/
def readProgram (request : RegisterRequest) (field : Option RegisterFieldSemantics)
    (address aperture : ℤ) : Except Exn (List Rv32iInstruction) :=
  match request.resultAddress with
  | none => .error (.valueError "register-program-explicit-aligned-read-result-required")
  | some resultAddress => do
      ensure (IsUint resultAddress ∧ resultAddress % 4 = 0)
        (.valueError "register-program-explicit-aligned-read-result-required")
      checkResult resultAddress request.resultRegions request.programAddress request.programSize
        request.addressBase aperture
      readInstructions address resultAddress request.windows field request.regs

/-- The instructions of a program. -/
def programInstructions (request : RegisterRequest) (plan : RegisterOperationPlan)
    (field : Option RegisterFieldSemantics) (address aperture : ℤ) :
    Except Exn (List Rv32iInstruction) :=
  if request.operation = "register_write" then writeProgram request plan address
  else readProgram request field address aperture

/-- Encode a program and place it in its slot. -/
def assemble (request : RegisterRequest) (instructions : List Rv32iInstruction) :
    Except Exn RegisterProgram := do
  let fragment ← fragmentBytes instructions
  validateInstructionBytes fragment none
  ensure ((fragment.length : ℤ) ≤ request.programSize)
    (.valueError "register-program-fragment-exceeds-authorized-slot")
  ensure (IsName request.cpuComponent ∧ IsName request.actionId)
    (.valueError "register-program-source-identity-invalid")
  let source ← OnlineInstruction.new request.actionId request.cpuComponent request.programAddress
    fragment
  return ⟨instructions, fragment, source⟩

section Compile

variable {Document View : Type} [DecidableEq View]
variable (load : Document → ComponentProfile → Except Exn (IPTestCapability Document View))

/-- The modification of a register, when one is asked for. -/
def checkModification (rows : List RegisterFieldSemantics) (profile : ComponentProfile)
    (request : RegisterRequest) (plan : RegisterOperationPlan) : Except Exn Unit :=
  if request.readModifyWrite then
    checkReadModifyWrite rows profile plan request.register request.operation request.regs.mask
      request.regs.base request.regs.data
  else .ok ()

/-- The address of the planned register inside the aperture. -/
def registerAddress (request : RegisterRequest) (plan : RegisterOperationPlan) (aperture : ℤ) :
    Except Exn ℤ := do
  let address := request.addressBase + plan.offset
  ensure (request.addressBase ≤ address ∧ address + 4 ≤ request.addressBase + aperture)
    (.valueError "register-program-register-outside-aperture")
  return address

/-- **Compile one register access.** -/
def compileRegisterProgram (profile : ComponentProfile)
    (capability : IPTestCapability Document View) (request : RegisterRequest) :
    Except Exn RegisterProgram := do
  let plan ← planRegisterOperation load profile capability request.register request.field
    request.operation request.value request.allowSideEffect
  ensure (1 ≤ request.regs.mask ∧ request.regs.mask ≤ 31)
    (.valueError "register-program-rmw-invalid-mask-register")
  checkModification capability.registerSemantics profile request plan
  match profile.address with
  | none => throw (.other "AttributeError")
  | some address =>
      match address.registers.find? fun row => row.name = request.register with
      | none => throw (.other "StopIteration")
      | some reg => do
          checkTransfer profile reg.width request.operation
          let field ← readField capability.registerSemantics plan request.register request.field
            request.operation request.regs.mask request.regs.base request.regs.data
          checkEffect plan request.operation request.readModifyWrite
          checkAperture request.addressBase address.alignment address.windowSize request.windows
          checkSlot request.programAddress request.programSize request.programRegions
            request.addressBase address.windowSize
          let target ← registerAddress request plan address.windowSize
          let instructions ← programInstructions request plan field target address.windowSize
          assemble request instructions

end Compile

end MyFuzz
