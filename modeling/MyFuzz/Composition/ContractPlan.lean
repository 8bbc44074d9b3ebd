import MyFuzz.Isa.Transducer
import Mathlib.Data.List.Sort
import Mathlib.Data.Prod.Lex
import Mathlib.Data.String.Basic

/-!
# Composition/ContractPlan — compiling a bus contract

A plan says which windows of the address space a memory target owns, what is loaded into them before a
test, and how the bits of a raw cycle are divided into fields:

    raw windows ──validate, sort──▸ windows        images ──check──▸ beats        fields ──▸ layout

Windows are beat-aligned and disjoint, windows of one physical memory have one size and one policy, and
the loaded beats fit the capacity.
-/

namespace MyFuzz

namespace Contract

/-! ## Windows -/

inductive MemoryMode where
  | addressSpace
  | declaredWindows
  deriving DecidableEq

inductive Permission where
  | readOnly
  | readWrite
  deriving DecidableEq

/-- Where the bytes of a window come from. -/
inductive InitializationPolicy where
  | onDemand
  | preload
  | rom
  deriving DecidableEq

namespace Permission

def text : Permission → String
  | readOnly => "read_only"
  | readWrite => "read_write"

def parse (s : String) : Option Permission :=
  if s = "read_only" ∨ s = "ro" then some readOnly
  else if s = "read_write" ∨ s = "rw" then some readWrite
  else none

end Permission

namespace InitializationPolicy

def text : InitializationPolicy → String
  | onDemand => "on_demand"
  | preload => "preload"
  | rom => "rom"

/-- The policies of the schema. -/
def schemaPolicies : List String := ["on_demand", "preload", "rom", "alias", "none"]

/-- A policy that the transducer supports. -/
def parse (s : String) : Except Exn InitializationPolicy :=
  if s = "on_demand" then .ok onDemand
  else if s = "preload" then .ok preload
  else if s = "rom" then .ok rom
  else if s ∈ schemaPolicies then
    .error (.valueError ("initialization_policy '" ++ s ++
      "' is schema-valid but unsupported by the transducer"))
  else .error (.valueError "initialization_policy is unsupported")

/-- The window is loaded from an image. -/
def loaded : InitializationPolicy → Bool
  | onDemand => false
  | preload => true
  | rom => true

end InitializationPolicy

/-- A window as it is declared. -/
structure RawWindow where
  base : ℤ
  size : ℤ
  permissions : String
  physicalMemoryId : Option String
  initializationPolicy : Option String

structure MemoryWindow where
  base : ℕ
  size : ℕ
  permissions : Permission
  physicalMemoryId : String
  initializationPolicy : InitializationPolicy
  deriving DecidableEq

/-- Hexadecimal digits. -/
def hex (n : ℕ) : String := String.ofList (Nat.toDigits 16 n)

/-- The physical memory and the policy of a window; a window that names none has one of its own. -/
def RawWindow.physical (raw : RawWindow) : String × String :=
  match raw.physicalMemoryId with
  | none => ("virtual:" ++ hex raw.base.toNat ++ ":" ++ hex raw.size.toNat, "on_demand")
  | some id => (id, raw.initializationPolicy.getD "")

/-- One window: a beat-aligned range with permissions and a supported policy. -/
def normalizeWindow (addressWidth byteCount : ℕ) (raw : RawWindow) : Except Exn MemoryWindow := do
  ensure (raw.physicalMemoryId.isSome = raw.initializationPolicy.isSome)
    (.valueError "physical_memory_id and initialization_policy must be declared together")
  ensure (0 ≤ raw.base ∧ 0 < raw.size ∧ raw.base + raw.size ≤ 2 ^ addressWidth)
    (.valueError "memory window base/size is not a valid address range")
  ensure (raw.base.toNat % byteCount = 0 ∧ raw.size.toNat % byteCount = 0)
    (.valueError "memory window must be beat-aligned")
  match Permission.parse raw.permissions with
  | none => throw (.valueError "memory window permissions must be read_only or read_write")
  | some permission =>
    ensure (raw.physical.1 ≠ "") (.valueError "physical_memory_id must be a nonempty string")
    let policy ← InitializationPolicy.parse raw.physical.2
    ensure (policy ≠ .rom ∨ permission = .readOnly) (.valueError "ROM memory window must be read-only")
    return ⟨raw.base.toNat, raw.size.toNat, permission, raw.physical.1, policy⟩

/-- The canonical order of windows. -/
def MemoryWindow.key (w : MemoryWindow) : ℕ ×ₗ ℕ ×ₗ String ×ₗ String ×ₗ String :=
  toLex (w.base, toLex (w.size, toLex (w.permissions.text, toLex (w.physicalMemoryId,
    w.initializationPolicy.text))))

/-- One size and one policy for every physical memory. -/
def checkPhysical (physical : Dict String (ℕ × InitializationPolicy)) (w : MemoryWindow) :
    Except Exn (Dict String (ℕ × InitializationPolicy)) :=
  if ∃ previous ∈ physical.get? w.physicalMemoryId, previous ≠ (w.size, w.initializationPolicy) then
    .error (.valueError ("conflicting physical memory " ++ w.physicalMemoryId))
  else .ok (physical.set w.physicalMemoryId (w.size, w.initializationPolicy))

/-- **The regions a memory target may own.** -/
def normalizeMemoryWindows (windows : List RawWindow) (addressWidth dataWidth : ℕ) (mode : MemoryMode) :
    Except Exn (List MemoryWindow) := do
  let records ← windows.mapM (normalizeWindow addressWidth (dataWidth / 8))
  let ordered := records.insertionSort fun a b => a.key ≤ b.key
  ensure (∀ pair ∈ ordered.zip ordered.tail, pair.1.base + pair.1.size ≤ pair.2.base)
    (.valueError "memory windows must not overlap")
  let _ ← ordered.foldlM checkPhysical Dict.empty
  ensure (mode = .declaredWindows → ordered ≠ [])
    (.valueError "declared_windows memory mode requires memory windows")
  ensure (mode = .addressSpace → ordered = [])
    (.valueError "address_space memory mode does not accept memory_windows")
  return ordered

/-! ## Images -/

/-- The window that stands for each physical memory. -/
def physicalWindows (windows : List MemoryWindow) : Dict String MemoryWindow :=
  Dict.empty.update (windows.map fun w => (w.physicalMemoryId, w))

/-- One image: bytes that fit a memory that is loaded. -/
def normalizeImage (physical : Dict String MemoryWindow) (image : String × List ℤ) :
    Except Exn (String × List ℕ) :=
  match physical.get? image.1 with
  | none => .error (.valueError "memory image names an unknown physical memory")
  | some window => do
    ensure window.initializationPolicy.loaded
      (.valueError (window.initializationPolicy.text ++ " physical memory does not accept an image"))
    ensure (∀ value ∈ image.2, 0 ≤ value ∧ value ≤ 0xFF)
      (.valueError "memory image byte must be an integer from 0 through 255")
    ensure (image.2.length ≤ window.size) (.valueError "memory image exceeds physical memory size")
    return (image.1, image.2.map Int.toNat)

/-- The beats that an image fills. -/
def populatedBeats (byteCount : ℕ) (image : List ℕ) : ℕ := (image.length + byteCount - 1) / byteCount

/-- **The images of the loaded memories.** -/
def normalizeMemoryImages (images : Dict String (List ℤ)) (windows : List MemoryWindow)
    (dataWidth capacity : ℕ) : Except Exn (List (String × List ℕ)) := do
  let physical := physicalWindows windows
  let missing := (physical.entries.filter fun e =>
    e.2.initializationPolicy.loaded && !images.contains e.1).map Prod.fst
  match missing.insertionSort (· ≤ ·) with
  | first :: _ =>
    throw (.valueError ("preload/rom physical memory requires an explicit image: " ++ first))
  | [] =>
    let normalized ← images.entries.mapM (normalizeImage physical)
    ensure ((normalized.map fun e => populatedBeats (dataWidth / 8) e.2).sum ≤ capacity)
      (.valueError "memory image populated beats exceed memory capacity")
    return normalized.insertionSort fun a b => a.1 ≤ b.1

/-- A beat that is loaded. -/
structure ImageBeat where
  physicalMemoryId : String
  offset : ℕ
  value : ℕ
  byteEnable : ℕ

/-- Bytes as a number, the first one lowest. -/
def littleEndian : List ℕ → ℕ
  | [] => 0
  | byte :: bytes => byte + 256 * littleEndian bytes

/-- The beats of one image; the last one may be partial. -/
def imageBeats (byteCount : ℕ) (image : String × List ℕ) : List ImageBeat :=
  (List.range (populatedBeats byteCount image.2)).map fun k =>
    let chunk := (image.2.drop (k * byteCount)).take byteCount
    ⟨image.1, k * byteCount, littleEndian chunk, 2 ^ chunk.length - 1⟩

/-! ## Fields of a raw cycle -/

inductive FieldName where
  | instructionSelector (index : ℕ)
  | instructionPayload
  | instructionCompressed
  | responseChoice
  | responseData
  | external (name : String)
  deriving DecidableEq

/-- Fields one above the other, with their widths. -/
abbrev CycleInputLayout := List (FieldName × ℕ)

/-- The bits of a raw cycle. -/
def CycleInputLayout.rawWidth (layout : CycleInputLayout) : ℕ := (layout.map Prod.snd).sum

/-- The bits of a field. -/
def fieldValue (name : FieldName) : CycleInputLayout → ℕ → Option ℕ
  | [], _ => none
  | (n, width) :: layout, raw =>
    if n = name then some (raw % 2 ^ width) else fieldValue name layout (raw >>> width)

/-! ## Plans -/

/-- The contract with its names in order. -/
def normalizedIsa (isa : IsaContract) : IsaContract where
  xlen := isa.xlen
  extensions := isa.extensions.insertionSort (· ≤ ·)
  privilegeModes := isa.privilegeModes.dedup.insertionSort (· ≤ ·)
  instructionAlignment := isa.instructionAlignment
  xlen_eq := isa.xlen_eq
  extensions_ne_nil := fun h => isa.extensions_ne_nil
    (List.length_eq_zero_iff.mp (by rw [← List.length_insertionSort (· ≤ ·), h]; rfl))
  nodup_extensions := (List.perm_insertionSort _ _).nodup_iff.mpr isa.nodup_extensions
  extension_ne_empty := fun item h => isa.extension_ne_empty item (List.mem_insertionSort _ |>.mp h)
  alignment_eq := isa.alignment_eq
  modes_ne_nil := fun h => by
    obtain ⟨item, hitem⟩ := List.exists_mem_of_ne_nil _ isa.modes_ne_nil
    have hmem := (List.mem_insertionSort (· ≤ ·)).mpr (List.mem_dedup.mpr hitem)
    rw [h] at hmem
    exact List.not_mem_nil hmem
  mode_ne_empty := fun item h =>
    isa.mode_ne_empty item (List.mem_dedup.mp (List.mem_insertionSort _ |>.mp h))

/-- A compiled contract.  The hashes identify the layout and the contract in a test header. -/
structure ContractTransducerPlan where
  instruction : RiscvInstructionTransducer
  addressWidth : ℕ
  dataWidth : ℕ
  memoryDomains : Dict String String
  externalInputs : List (String × ℕ)
  maxWaitCycles : ℕ
  allowError : Bool
  memoryCapacityEntries : ℕ
  cycleLayout : CycleInputLayout
  memoryMode : MemoryMode
  memoryWindows : List MemoryWindow
  memoryImages : List (String × List ℕ)
  layoutHash : String
  contractHash : String

/-- The bytes of a beat. -/
def ContractTransducerPlan.byteCount (plan : ContractTransducerPlan) : ℕ := plan.dataWidth / 8

/-- The beats that are loaded before a test. -/
def planMemoryImageBeats (plan : ContractTransducerPlan) : List ImageBeat :=
  plan.memoryImages.flatMap (imageBeats plan.byteCount)

/-- What a plan is compiled from. -/
structure ContractRequest where
  isa : IsaContract
  protocol : String × String
  addressWidth : ℤ
  dataWidth : ℤ
  memoryDomains : Dict String String
  externalInputs : Dict String ℤ := Dict.empty
  maxWaitCycles : ℤ := 16
  allowError : Bool := true
  memoryCapacityEntries : ℤ := 256
  memoryMode : MemoryMode := .addressSpace
  memoryWindows : List RawWindow := []
  memoryImages : Dict String (List ℤ) := Dict.empty
  layoutHash : String
  contractHash : String

/-- The parcels of an instruction beat can be compressed. -/
def compressedFields (isa : IsaContract) : Prop := "C" ∈ isa.extensions ∧ isa.instructionAlignment = 2

instance (isa : IsaContract) : Decidable (compressedFields isa) := inferInstanceAs (Decidable (_ ∧ _))

/-- The fields of a raw cycle. -/
def buildLayout (isa : IsaContract) (dataWidth : ℕ) (externals : List (String × ℕ)) : CycleInputLayout :=
  (List.range (dataWidth / if compressedFields isa then 16 else 32)).map
      (fun index => (.instructionSelector index, RiscvInstructionTransducer.selectorWidth)) ++
    (.instructionPayload, dataWidth) ::
    (if compressedFields isa then [(.instructionCompressed, 1)] else []) ++
    (.responseChoice, 3) :: (.responseData, dataWidth) :: externals.map fun e => (.external e.1, e.2)

def maxMemoryCapacityEntries : ℕ := 4096

/-- **Compile a contract.** -/
def compileContractTransducer (r : ContractRequest) : Except Exn ContractTransducerPlan := do
  ensure (r.protocol = ("processor-memory-beat", "1"))
    (.valueError "unsupported protocol: expected processor-memory-beat@1")
  ensure (1 ≤ r.addressWidth ∧ r.addressWidth ≤ 64) (.valueError "address_width must be between 1 and 64")
  ensure (r.dataWidth = 32 ∨ r.dataWidth = 64) (.valueError "contract data_width must be 32 or 64")
  ensure (1 ≤ r.memoryCapacityEntries ∧ r.memoryCapacityEntries ≤ maxMemoryCapacityEntries)
    (.valueError ("memory_capacity_entries must be between 1 and " ++ toString maxMemoryCapacityEntries))
  ensure (r.memoryDomains.entries ≠ []) (.valueError "memory_domains must explicitly bind memory functions")
  ensure (∀ function ∈ r.memoryDomains.keys,
      function = "instruction_memory_master" ∨ function = "data_memory_master")
    (.valueError "unsupported memory function")
  ensure (∀ e ∈ r.memoryDomains.entries, e.2 ≠ "")
    (.valueError "memory domain must be a nonempty string")
  ensure (∀ e ∈ r.externalInputs.entries, e.1 ≠ "" ∧ 0 < e.2)
    (.valueError "external input requires a nonempty identifier and positive width")
  let windows ← normalizeMemoryWindows r.memoryWindows r.addressWidth.toNat r.dataWidth.toNat r.memoryMode
  let images ← normalizeMemoryImages r.memoryImages windows r.dataWidth.toNat
    r.memoryCapacityEntries.toNat
  if h : (normalizedIsa r.isa).SupportsLegalInstructionValidation then
    ensure (0 < r.maxWaitCycles) (.valueError "max_wait_cycles must be positive")
    let externals := (r.externalInputs.entries.map fun e => (e.1, e.2.toNat)).insertionSort
      fun a b => a.1 ≤ b.1
    return {
      instruction := ⟨normalizedIsa r.isa, h⟩
      addressWidth := r.addressWidth.toNat
      dataWidth := r.dataWidth.toNat
      memoryDomains := r.memoryDomains
      externalInputs := externals
      maxWaitCycles := r.maxWaitCycles.toNat
      allowError := r.allowError
      memoryCapacityEntries := r.memoryCapacityEntries.toNat
      cycleLayout := buildLayout (normalizedIsa r.isa) r.dataWidth.toNat externals
      memoryMode := r.memoryMode
      memoryWindows := windows
      memoryImages := images
      layoutHash := r.layoutHash
      contractHash := r.contractHash }
  else throw (.valueError "instruction transducer requires an implemented ISA contract")

end Contract

end MyFuzz
