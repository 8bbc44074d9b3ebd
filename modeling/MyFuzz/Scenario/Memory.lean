import MyFuzz.Foundations.Dict
import MyFuzz.Foundations.Outcome

/-!
# Scenario/Memory — the byte memory of one continuously running testcase

`PersistentMemory` is sparse: a byte has a cell once something determined it, and a first read
determines it from the seed.  A cell carries its value and who wrote it, under a version
`(generation, sequence)`.

    preload ──┐                       ┌── read (first reads materialise)
    image   ──┤                       │
    accept  ──┼──▸ bytes : key ⇀ cell ┤
    store   ──┘                       └── cold reset: a new generation of the initial images

Every region is mapped at its base and at its aliases; `resolve` sends an address of any window to
the byte offset in its memory.  SHA-256 and the check of instruction words against the declared ISA
are parameters of the configuration.  A call returns what it answers beside the memory it leaves,
since two of them can still raise after their effect.
-/

namespace MyFuzz

open Outcome

/-- A byte of a memory. -/
abbrev ByteKey : Type := String × ℕ

/-- A version: generation and commit sequence. -/
abbrev Version : Type := ℕ × ℕ

/-- One past the largest address. -/
def addressSpan : ℕ := 2 ^ 64

/-- An integer argument that must not be negative. -/
def natural (value : ℤ) (name : String) : Except Exn ℕ := do
  ensure (0 ≤ value) (.valueError (name ++ " must be a nonnegative integer"))
  .ok value.toNat

/-- A memory and the addresses it is mapped at. -/
structure MemoryRegion where
  memoryId : String
  base : ℕ
  size : ℕ
  aliases : List ℕ
  readable : Bool
  writable : Bool
  valid : memoryId ≠ "" ∧ 0 < size ∧ base + size ≤ addressSpan ∧ ∀ a ∈ aliases, a + size ≤ addressSpan
  deriving DecidableEq

/-- One mapping of a region. -/
structure MemoryWindow where
  base : ℕ
  stop : ℕ
  region : MemoryRegion
  deriving DecidableEq

/-- The mappings of a region: its base and its aliases. -/
def MemoryRegion.windows (r : MemoryRegion) : List MemoryWindow :=
  (r.base :: r.aliases).map fun base => ⟨base, base + r.size, r⟩

/-- What a memory is constructed with: `initialByte` is the first byte of a SHA-256 digest, and `checkWords`
refuses words outside the declared ISA. -/
structure MemoryConfig where
  regions : List MemoryRegion
  initializationSeed : ℕ
  maxInitializedBytes : ℕ
  initialByte : ℕ → String → ℕ → ℕ → UInt8
  checkWords : List UInt8 → Except Exn Unit
  regions_ne_nil : regions ≠ []
  ids_nodup : (regions.map MemoryRegion.memoryId).Nodup
  disjoint : (regions.flatMap MemoryRegion.windows).Pairwise fun w w' =>
    ¬ (w'.base < w.stop ∧ w.base < w'.stop)

/-- Who wrote a cell. -/
inductive WriterKind where
  | initialImage
  | resetImage
  | instructionSource
  | firstRead
  | store
  deriving DecidableEq

/-- The writer kind as the source spells it. -/
def WriterKind.text : WriterKind → String
  | initialImage => "INITIAL_IMAGE"
  | resetImage => "RESET_IMAGE"
  | instructionSource => "INSTRUCTION_SOURCE"
  | firstRead => "FIRST_READ"
  | store => "STORE"

/-- A determined byte. -/
structure ByteCell where
  value : ℕ
  version : Version
  writerKind : WriterKind
  writerEventId : String
  deriving DecidableEq

/-- What a read returns, frozen. -/
structure ReadSnapshot where
  transactionId : String
  memoryId : String
  generation : ℕ
  byteOffset : ℕ
  data : List UInt8
  versions : List Version
  writerEventIds : List String
  materializedOffsets : List ℕ
  writerKinds : List WriterKind
  deriving DecidableEq

/-- What an instruction admission returns. -/
structure InstructionAcceptance where
  memoryId : String
  address : ℤ
  byteOffset : ℕ
  generation : ℕ
  data : List UInt8
  sourceEventId : String
  versions : List Version
  writerEventIds : List String
  writerKinds : List WriterKind
  deriving DecidableEq

/-- The calls on a memory. -/
inductive MemoryCall where
  | preload (address : ℤ) (data : List UInt8)
  | reinstallImage (address : ℤ) (data : List UInt8) (eventId : String)
  | declareInstructionSlots (address count : ℤ)
  | acceptInstructions (address : ℤ) (data : List UInt8) (sourceEventId : String)
  | read (address width : ℤ) (transactionId : String)
  | write (address value width byteEnable : ℤ) (writerEventId : String)
  | warmReset
  | coldReset
  deriving DecidableEq

/-- What a call returns. -/
inductive MemoryAnswer where
  | done
  | image (memoryId : String) (offset : ℕ) (version : Version)
  | acceptance (receipt : InstructionAcceptance)
  | snapshot (snapshot : ReadSnapshot)
  | stored (version : Option Version)
  deriving DecidableEq

/-- The memory.  `issued` holds the acceptances that are still valid; `handedOut` every version
`_next_version` has returned, in order. -/
structure PersistentMemory where
  generation : ℕ
  bytes : Dict ByteKey ByteCell
  initialImages : Dict ByteKey ℕ
  instructionSlots : Finset ByteKey
  commitSequences : Dict String ℕ
  issued : List InstructionAcceptance
  handedOut : List (String × Version)

namespace MemoryConfig

/-- Every window of every region. -/
def windows (cfg : MemoryConfig) : List MemoryWindow := cfg.regions.flatMap MemoryRegion.windows

/-- The window of an address. -/
def window? (cfg : MemoryConfig) (address : ℕ) : Option MemoryWindow :=
  cfg.windows.find? fun w => w.base ≤ address ∧ address < w.stop

/-- The region and byte offset of an aligned access, if it is permitted. -/
def resolve (cfg : MemoryConfig) (address width : ℤ) (write : Bool) : Except Exn (MemoryRegion × ℕ) := do
  let address ← natural address "address"
  ensure (address < addressSpan) (.valueError "address exceeds address bounds")
  ensure (width = 1 ∨ width = 2 ∨ width = 4 ∨ width = 8) (.valueError "unsupported access width")
  let width := width.toNat
  ensure (address % width = 0) (.valueError "unaligned access")
  ensure (address + width ≤ addressSpan) (.valueError "address span exceeds address bounds")
  match cfg.window? address with
  | none => .error (.valueError "unmapped address; MMIO requires real IP response")
  | some w => do
      ensure (address + width ≤ w.stop) (.valueError "access crosses memory window")
      ensure (¬ (write ∧ ¬ w.region.writable)) (.valueError "read-only memory")
      ensure (¬ (¬ write ∧ ¬ w.region.readable)) (.valueError "write-only memory")
      .ok (w.region, address - w.base)

/-- Check a fragment before online admission: complete words, each of the declared ISA. -/
def validateInstructionBytes (cfg : MemoryConfig) (data : List UInt8) : Except Exn Unit := do
  ensure (data ≠ [] ∧ data.length % 4 = 0) (.valueError "instruction fragment requires complete 32-bit words")
  cfg.checkWords data

end MemoryConfig

/-- The keys of consecutive bytes. -/
def span (memoryId : String) (offset n : ℕ) : List ByteKey :=
  (List.range n).map fun i => (memoryId, offset + i)

/-- Pair consecutive bytes with values. -/
def spanValues (memoryId : String) (offset : ℕ) (data : List UInt8) : List (ByteKey × ℕ) :=
  (span memoryId offset data.length).zip (data.map UInt8.toNat)

/-- The `bytes` constructor: every value must be a byte. -/
def toBytes (values : List ℕ) : Except Exn (List UInt8) := do
  ensure (∀ v ∈ values, v < 256) (.valueError "bytes must be in range(0, 256)")
  .ok (values.map UInt8.ofNat)

/-- The checks of `_acceptance_material` on a receipt. -/
def InstructionAcceptance.WellFormed (r : InstructionAcceptance) : Prop :=
  r.memoryId ≠ "" ∧ r.sourceEventId ≠ "" ∧ 0 ≤ r.address ∧ r.data ≠ [] ∧ r.data.length % 4 = 0 ∧
    r.versions.length = r.data.length ∧ r.writerEventIds.length = r.data.length ∧
    r.writerKinds.length = r.data.length

instance (r : InstructionAcceptance) : Decidable r.WellFormed := by
  unfold InstructionAcceptance.WellFormed
  infer_instance

namespace PersistentMemory

/-- A new memory. -/
def init (cfg : MemoryConfig) : PersistentMemory where
  generation := 0
  bytes := .empty
  initialImages := .empty
  instructionSlots := ∅
  commitSequences := Dict.update .empty (cfg.regions.map fun r => (r.memoryId, 0))
  issued := []
  handedOut := []

/-- The commit sequence of a memory. -/
def commitSequence (m : PersistentMemory) (memoryId : String) : ℕ := m.commitSequences.getD memoryId 0

/-- Advance the commit sequence of a memory. -/
def nextVersion (m : PersistentMemory) (memoryId : String) : Version × PersistentMemory :=
  let version := (m.generation, m.commitSequence memoryId + 1)
  (version, { m with
    commitSequences := m.commitSequences.set memoryId (m.commitSequence memoryId + 1)
    handedOut := m.handedOut ++ [(memoryId, version)] })

/-- Set the cells of the listed bytes. -/
def setCells (m : PersistentMemory) (cells : List (ByteKey × ℕ)) (version : Version)
    (kind : WriterKind) (event : ByteKey → String) : PersistentMemory :=
  { m with bytes := m.bytes.update (cells.map fun p => (p.1, ⟨p.2, version, kind, event p.1⟩)) }

/-- The listed bytes that have no cell. -/
def missing (m : PersistentMemory) (keys : List ByteKey) : List ByteKey :=
  keys.filter fun k => (m.bytes.get? k).isNone

/-- A byte of an online slot that awaits its source. -/
def awaited (m : PersistentMemory) (k : ByteKey) : Bool :=
  k ∈ m.instructionSlots ∧ (m.bytes.get? k).isNone

section Calls

variable (cfg : MemoryConfig)

/-- The seeded value of a byte. -/
def initialByte (m : PersistentMemory) (k : ByteKey) : ℕ :=
  (cfg.initialByte cfg.initializationSeed k.1 m.generation k.2).toNat

/-- Room for more determined bytes. -/
def budget (m : PersistentMemory) (additions : ℕ) : Except Exn Unit :=
  ensure (m.bytes.length + additions ≤ cfg.maxInitializedBytes)
    (.valueError "initialized byte budget exceeded")

/-- No byte of the access awaits an instruction source. -/
def checkInstructionReady (m : PersistentMemory) (memoryId : String) (offset width : ℕ) : Except Exn Unit :=
  ensure (¬ ∃ k ∈ span memoryId offset width, m.awaited k)
    (.instructionNotReady "online instruction slot awaits its source")

/-- Reject a read with no state change. -/
def validateRead (m : PersistentMemory) (address width : ℤ) : Except Exn Unit := do
  let (region, offset) ← cfg.resolve address width false
  m.checkInstructionReady region.memoryId offset width.toNat
  let missing := m.missing (span region.memoryId offset width.toNat)
  ensure (¬ (missing ≠ [] ∧ ¬ region.writable)) (.valueError "uninitialized read-only memory")
  m.budget cfg missing.length

/-- The lanes a store writes. -/
def enabledLanes (width : ℕ) (byteEnable : ℕ) : List ℕ :=
  (List.range width).filter fun i => byteEnable.testBit i

/-- Check the shape and capacity of a store without committing a byte. -/
def validateWrite (m : PersistentMemory) (address value width byteEnable : ℤ) : Except Exn Unit := do
  let (region, offset) ← cfg.resolve address width true
  let value ← natural value "value"
  ensure (value < 1 <<< (8 * width.toNat)) (.valueError "value exceeds access width")
  let byteEnable ← natural byteEnable "byte_enable"
  ensure (byteEnable < 1 <<< width.toNat) (.valueError "byte_enable exceeds access width")
  let enabled := (enabledLanes width.toNat byteEnable).map fun i => (region.memoryId, offset + i)
  m.budget cfg (m.missing enabled).length

/-- Run the checks of a call; when they raise nothing has changed. -/
def checked {α β : Type} (m : PersistentMemory) (checks : Except Exn α)
    (effect : α → Except Exn β × PersistentMemory) : Except Exn β × PersistentMemory :=
  match checks with
  | .error e => (.error e, m)
  | .ok a => effect a

/-- Declare an initial image. -/
def preload (m : PersistentMemory) (address : ℤ) (data : List UInt8) : Except Exn Unit × PersistentMemory :=
  m.checked (do
    ensure (data ≠ []) (.valueError "preload data must be nonempty bytes")
    let (region, offset) ← cfg.resolve address 1 false
    ensure (offset + data.length ≤ region.size) (.valueError "preload crosses memory window")
    ensure (¬ ∃ k ∈ span region.memoryId offset data.length, (m.bytes.get? k).isSome ∨ k ∈ m.instructionSlots)
      (.valueError "preload would overwrite initialized or reserved instruction bytes")
    m.budget cfg data.length
    .ok (region, offset)) fun (region, offset) =>
  let cells := spanValues region.memoryId offset data
  (.ok (), { m with initialImages := m.initialImages.update cells }.setCells cells
    (m.generation, 0) .initialImage fun _ => "initial-image")

/-- Replace bytes of a declared initial image after a reset barrier. -/
def reinstallImage (m : PersistentMemory) (address : ℤ) (data : List UInt8) (eventId : String) :
    Except Exn (String × ℕ × Version) × PersistentMemory :=
  m.checked (do
    ensure (data ≠ [] ∧ eventId ≠ "")
      (.valueError "reset image requires bytes and an event identity")
    let (region, offset) ← cfg.resolve address 1 false
    ensure (offset + data.length ≤ region.size) (.valueError "reset image crosses memory window")
    ensure (∀ k ∈ span region.memoryId offset data.length, (m.initialImages.get? k).isSome)
      (.valueError "reset image must replace declared initial image bytes")
    .ok (region, offset)) fun (region, offset) =>
  let (version, m) := m.nextVersion region.memoryId
  (.ok (region.memoryId, offset, version),
    m.setCells (spanValues region.memoryId offset data) version .resetImage fun _ => eventId)

/-- Reserve empty aligned words for online instructions. -/
def declareInstructionSlots (m : PersistentMemory) (address count : ℤ) : Except Exn Unit × PersistentMemory :=
  m.checked (do
    let count ← natural count "count"
    ensure (count ≠ 0) (.valueError "instruction slot count must be positive")
    let (region, offset) ← cfg.resolve address 4 false
    ensure (offset + count * 4 ≤ region.size) (.valueError "instruction slots cross memory window")
    let keys := span region.memoryId offset (count * 4)
    ensure (¬ ∃ k ∈ keys, (m.bytes.get? k).isSome)
      (.valueError "instruction slots contain determined bytes")
    .ok keys) fun keys =>
  (.ok (), { m with instructionSlots := m.instructionSlots ∪ keys.toFinset })

/-- Record an acceptance that memory has just written. -/
def register (m : PersistentMemory) (receipt : InstructionAcceptance) :
    Except Exn InstructionAcceptance × PersistentMemory :=
  m.checked (ensure receipt.WellFormed (.valueError "invalid instruction acceptance material"))
    fun () => (.ok receipt, { m with issued := m.issued ++ [receipt] })

/-- Fill reserved words once and record their source. -/
def acceptInstructions (m : PersistentMemory) (address : ℤ) (data : List UInt8)
    (sourceEventId : String) : Except Exn InstructionAcceptance × PersistentMemory :=
  m.checked (do
    cfg.validateInstructionBytes data
    ensure (sourceEventId ≠ "") (.valueError "instruction source_event_id must be nonempty")
    let (region, offset) ← cfg.resolve address 4 false
    ensure (offset + data.length ≤ region.size)
      (.valueError "instruction fragment crosses memory window")
    let keys := span region.memoryId offset data.length
    ensure (∀ k ∈ keys, k ∈ m.instructionSlots)
      (.valueError "instruction bytes are outside declared online slots")
    ensure (¬ ∃ k ∈ keys, (m.bytes.get? k).isSome)
      (.valueError "instruction admission would overwrite determined bytes")
    m.budget cfg keys.length
    .ok (region, offset)) fun (region, offset) =>
  let (version, m) := m.nextVersion region.memoryId
  let m := m.setCells (spanValues region.memoryId offset data) version .instructionSource
    fun _ => sourceEventId
  let cells := (span region.memoryId offset data.length).filterMap m.bytes.get?
  m.register {
    memoryId := region.memoryId
    address, data, sourceEventId
    byteOffset := offset
    generation := m.generation
    versions := cells.map ByteCell.version
    writerEventIds := cells.map ByteCell.writerEventId
    writerKinds := cells.map ByteCell.writerKind }

/-- Validate an issued acceptance, without reading memory. -/
def validateInstructionAcceptance (m : PersistentMemory) (receipt : InstructionAcceptance) :
    Except Exn InstructionAcceptance := do
  ensure (receipt ∈ m.issued ∧ receipt.generation = m.generation)
    (.valueError "instruction acceptance is not an unchanged actual issued result")
  .ok receipt

/-- The writer of a first read. -/
def firstReadEvent (k : ByteKey) : String := "init:" ++ k.1 ++ ":" ++ toString k.2

/-- Determine the bytes a read is the first to see. -/
def materialize (m : PersistentMemory) (memoryId : String) (keys : List ByteKey) : PersistentMemory :=
  if m.missing keys = [] then m
  else
    let (version, m') := m.nextVersion memoryId
    m'.setCells ((m.missing keys).map fun k => (k, m.initialByte cfg k)) version .firstRead
      firstReadEvent

/-- Read an aligned access. -/
def read (m : PersistentMemory) (address width : ℤ) (transactionId : String) :
    Except Exn ReadSnapshot × PersistentMemory :=
  m.checked (do
    ensure (transactionId ≠ "") (.valueError "transaction_id must be nonempty")
    let (region, offset) ← cfg.resolve address width false
    m.checkInstructionReady region.memoryId offset width.toNat
    let missing := m.missing (span region.memoryId offset width.toNat)
    ensure (¬ (missing ≠ [] ∧ ¬ region.writable)) (.valueError "uninitialized read-only memory")
    m.budget cfg missing.length
    .ok (region, offset)) fun (region, offset) =>
  let keys := span region.memoryId offset width.toNat
  let m' := m.materialize cfg region.memoryId keys
  let cells := keys.filterMap m'.bytes.get?
  m'.checked (toBytes (cells.map ByteCell.value)) fun data =>
    (.ok {
      transactionId, data
      memoryId := region.memoryId
      generation := m'.generation
      byteOffset := offset
      versions := cells.map ByteCell.version
      writerEventIds := cells.map ByteCell.writerEventId
      materializedOffsets := (m.missing keys).map Prod.snd
      writerKinds := cells.map ByteCell.writerKind }, m')

/-- Store the enabled lanes of a value; no version is taken when none is enabled. -/
def write (m : PersistentMemory) (address value width byteEnable : ℤ) (writerEventId : String) :
    Except Exn (Option Version) × PersistentMemory :=
  m.checked (do
    ensure (writerEventId ≠ "") (.valueError "writer_event_id must be nonempty")
    let (region, offset) ← cfg.resolve address width true
    let value ← natural value "value"
    ensure (value < 1 <<< (8 * width.toNat)) (.valueError "value exceeds access width")
    let byteEnable ← natural byteEnable "byte_enable"
    ensure (byteEnable < 1 <<< width.toNat) (.valueError "byte_enable exceeds access width")
    let enabled := (enabledLanes width.toNat byteEnable).map fun i => (region.memoryId, offset + i)
    m.budget cfg (m.missing enabled).length
    .ok (region, offset, value, byteEnable)) fun (region, offset, value, byteEnable) =>
  let enabled := enabledLanes width.toNat byteEnable
  if enabled = [] then (.ok none, m)
  else
    let (version, m) := m.nextVersion region.memoryId
    (.ok (some version), m.setCells
      (enabled.map fun i => ((region.memoryId, offset + i), value >>> (8 * i) &&& 0xFF)) version
      .store fun _ => writerEventId)

/-- Keep memory through a whole-scene warm reset; only acceptances expire. -/
def warmReset (m : PersistentMemory) : PersistentMemory := { m with issued := [] }

/-- Start a new generation from the declared initial images. -/
def coldReset (m : PersistentMemory) : PersistentMemory :=
  { m with
    generation := m.generation + 1
    bytes := m.initialImages.mapVal fun v =>
      ⟨v, (m.generation + 1, 0), .initialImage, "initial-image"⟩
    commitSequences := Dict.update .empty (cfg.regions.map fun r => (r.memoryId, 0))
    issued := [] }

/-- One call, with its answer. -/
def call (m : PersistentMemory) : MemoryCall → Except Exn MemoryAnswer × PersistentMemory
  | .preload address data => (m.preload cfg address data).map (·.map fun _ => .done) id
  | .reinstallImage address data eventId =>
      (m.reinstallImage cfg address data eventId).map (·.map fun r => .image r.1 r.2.1 r.2.2) id
  | .declareInstructionSlots address count =>
      (m.declareInstructionSlots cfg address count).map (·.map fun _ => .done) id
  | .acceptInstructions address data sourceEventId =>
      (m.acceptInstructions cfg address data sourceEventId).map (·.map .acceptance) id
  | .read address width transactionId =>
      (m.read cfg address width transactionId).map (·.map .snapshot) id
  | .write address value width byteEnable writerEventId =>
      (m.write cfg address value width byteEnable writerEventId).map (·.map .stored) id
  | .warmReset => (.ok .done, m.warmReset)
  | .coldReset => (.ok .done, m.coldReset cfg)

/-- The memory after a call. -/
def step (m : PersistentMemory) (c : MemoryCall) : PersistentMemory := (m.call cfg c).2

end Calls

end PersistentMemory

end MyFuzz
