import MyFuzz.Composition.ContractPlan
import MyFuzz.Foundations.Sequence

/-!
# Composition/ContractRuntime — one arbitrated memory port

A request is accepted in one cycle and answered in a later one.  What answers it is a sparse memory whose
bytes come from images, from writes, or from the entropy of the cycle the request was accepted in:

    request ──accept──▸ pending ──respond──▸ error | write | stored bytes
                           │
                         reset

A call that raises may have changed the state before it did, so every call returns its outcome and the
state it leaves.
-/

namespace MyFuzz

namespace Contract

/-! ## Requests and inputs -/

/-- A normalized request. -/
structure ProcessorBeatRequest where
  address : ℕ
  function : String
  domain : String
  write : Bool
  writeData : ℕ
  byteEnable : Option ℕ
  deriving DecidableEq

/-- Where the data of a response came from, or why there is none. -/
inductive Source where
  | none
  | raw
  | error
  | write
  | stored
  | outOfWindow
  | readOnlyWriteError
  | capacityError
  | provenanceError
  deriving DecidableEq

/-- What the device is driven with in a cycle. -/
structure ProcessorBeatInputs where
  reqReady : Bool := false
  rspValid : Bool := false
  rspData : ℕ := 0
  rspError : Bool := false
  responseRequest : Option ProcessorBeatRequest := none
  responseDataSource : Source := .none
  externalInputs : List (String × ℕ) := []

def unsigned (value : ℤ) (width : ℕ) (label : String) : Except Exn Unit :=
  ensure (0 ≤ value ∧ value < 2 ^ width)
    (.valueError (label ++ " must fit " ++ toString width ++ " unsigned bits"))

/-! ## The protocol -/

structure ProtocolState where
  pending : Option ProcessorBeatRequest := none
  age : ℕ := 0
  acceptAge : ℕ := 0

variable (plan : ContractTransducerPlan)

/-- **One cycle of the protocol**: answer what is pending, or accept what is requested. -/
def protocolStep (state : ProtocolState) (rawChoice rawData : ℕ) (request : Option ProcessorBeatRequest) :
    ProcessorBeatInputs × ProtocolState :=
  match state.pending with
  | some pending =>
    if rawChoice &&& 2 ≠ 0 ∨ plan.maxWaitCycles - 1 ≤ state.age then
      ({ rspValid := true, rspData := rawData, rspError := plan.allowError && decide (rawChoice &&& 4 ≠ 0),
         responseRequest := some pending, responseDataSource := .raw }, {})
    else ({}, { pending := some pending, age := state.age + 1 })
  | none =>
    match request with
    | none => ({}, {})
    | some request =>
      if rawChoice &&& 1 ≠ 0 ∨ plan.maxWaitCycles - 1 ≤ state.acceptAge then
        ({ reqReady := true }, { pending := some request })
      else ({}, { acceptAge := state.acceptAge + 1 })

/-! ## Memory -/

/-- The bytes that have a value. -/
abbrev Bytes := Dict (String × ℕ) ℕ

def validateSpan (address widthBytes : ℕ) : Except Exn Unit := do
  ensure (address ≤ 2 ^ 64 - 1) (.valueError "address must be a bounded nonnegative integer")
  ensure (0 < widthBytes) (.valueError "width_bytes must be positive")
  ensure (widthBytes - 1 ≤ 2 ^ 64 - 1 - address) (.valueError "address span exceeds address bounds")

def validateValue (value widthBytes : ℕ) : Except Exn Unit :=
  ensure (value < 2 ^ (8 * widthBytes)) (.valueError "value exceeds width_bytes")

/-- One byte of a beat. -/
def byteAt (value index : ℕ) : ℕ := value >>> (8 * index) &&& 0xFF

/-- The lanes of a span that have no value. -/
def missing (bytes : Bytes) (domain : String) (address widthBytes : ℕ) : List ℕ :=
  (List.range widthBytes).filter fun index => !bytes.contains (domain, address + index)

/-- Give lanes of a span the bytes of a value. -/
def fill (bytes : Bytes) (domain : String) (address value : ℕ) (lanes : List ℕ) : Bytes :=
  lanes.foldl (fun bytes index => bytes.set (domain, address + index) (byteAt value index)) bytes

/-- The bytes of a span as a number. -/
def collect (bytes : Bytes) (domain : String) (address widthBytes : ℕ) : ℕ :=
  ((List.range widthBytes).map fun index => bytes.getD (domain, address + index) 0 <<< (8 * index)).sum

/-- **Read a span**, giving the bytes that have no value those of an initial one. -/
def readSpan (bytes : Bytes) (domain : String) (address widthBytes : ℕ) (initializer : Except Exn ℕ) :
    Except Exn (ℕ × Bytes) := do
  validateSpan address widthBytes
  match missing bytes domain address widthBytes with
  | [] => return (collect bytes domain address widthBytes, bytes)
  | lanes =>
    let initial ← initializer
    validateValue initial widthBytes
    let bytes := fill bytes domain address initial lanes
    return (collect bytes domain address widthBytes, bytes)

/-- **Write the enabled bytes of a span.** -/
def writeSpan (bytes : Bytes) (domain : String) (address value byteEnable widthBytes : ℕ) :
    Except Exn Bytes := do
  validateSpan address widthBytes
  validateValue value widthBytes
  ensure (byteEnable < 2 ^ widthBytes) (.valueError "byte_enable must fit width_bytes")
  return fill bytes domain address value
    ((List.range widthBytes).filter fun index => byteEnable >>> index &&& 1 ≠ 0)

/-! ## The runtime -/

structure TestHeader where
  schemaVersion : String
  layoutHash : String
  contractHash : String
  bootAddress : ℕ
  illegalInstruction : Bool

/-- Who gave a beat its bytes. -/
inductive Provenance where
  | preloaded
  | cpuWritten
  | instructionGenerated
  | dataGenerated
  deriving DecidableEq

/-- A beat of a physical memory, or of a domain of the address space. -/
abbrev BeatKey := String × ℕ

structure ContractRuntime where
  protocol : ProtocolState := {}
  memory : Bytes := Dict.empty
  allocatedEntries : List BeatKey := []
  memoryProvenance : Dict BeatKey Provenance := Dict.empty
  header : Option TestHeader := none
  acceptedEntropy : Option (ℕ × ℕ) := none
  faultCounts : Dict Source ℕ := Dict.empty

namespace ContractRuntime

def recordFault (s : ContractRuntime) (source : Source) : ContractRuntime :=
  { s with faultCounts := s.faultCounts.set source (s.faultCounts.getD source 0 + 1) }

/-- A cpu or protocol reset abandons the pending transport, not the memory. -/
def resetDut (s : ContractRuntime) : ContractRuntime :=
  { s with protocol := {}, acceptedEntropy := none }

end ContractRuntime

/-- The beat of an address. -/
def beatBase (address : ℕ) : ℕ := address / plan.byteCount * plan.byteCount

/-- A beat lies inside a window. -/
def MemoryWindow.holds (byteCount base : ℕ) (w : MemoryWindow) : Bool :=
  w.base ≤ base ∧ base ≤ w.base + w.size - byteCount

def covers (base : ℕ) (writable : Bool) : Bool :=
  plan.memoryWindows.any fun w =>
    w.holds plan.byteCount base && (!writable || w.permissions = .readWrite)

/-- The window of a beat. -/
def windowFor (base : ℕ) : Except Exn MemoryWindow :=
  match plan.memoryWindows.find? (·.holds plan.byteCount base) with
  | some w => .ok w
  | none => .error (.valueError "address is outside declared memory windows")

/-- The beat of a physical memory. -/
def physicalKey (base : ℕ) : Except Exn BeatKey := do
  let w ← windowFor plan base
  return (w.physicalMemoryId, base - w.base)

/-- A field of a raw cycle. -/
def fieldOf (raw : ℕ) (name : FieldName) : Except Exn ℕ :=
  match fieldValue name plan.cycleLayout raw with
  | some value => .ok value
  | none => .error (.other "KeyError")

/-- One parcel of an instruction beat. -/
def repairSlot (illegal : Bool) (raw slotWidth payload index : ℕ) : Except Exn ℕ := do
  let selector ← fieldOf plan raw (.instructionSelector index)
  let choice ← plan.instruction.repair selector
    ((payload >>> (index * slotWidth)) % 2 ^ slotWidth : ℕ) illegal slotWidth
  return choice.word <<< (index * slotWidth)

/-- The parcels are compressed: by their field, by the address, or at a halfword boot address. -/
def compressedBeat (header : TestHeader) (raw address : ℕ) : Bool :=
  match fieldValue .instructionCompressed plan.cycleLayout raw with
  | some value => value ≠ 0 ∨ address % 4 = 2 ∨
      (beatBase plan address = beatBase plan header.bootAddress ∧ header.bootAddress % 4 = 2)
  | none => false

/-- **An instruction beat from the entropy of a cycle.** -/
def instructionData (header : TestHeader) (raw address : ℕ) : Except Exn ℕ := do
  let payload ← fieldOf plan raw .instructionPayload
  let slotWidth := if compressedBeat plan header raw address then 16 else 32
  (List.range (plan.dataWidth / slotWidth)).foldlM
    (fun word index => do
      let slot ← repairSlot plan header.illegalInstruction raw slotWidth payload index
      return word ||| slot) 0

def testHeaderSchemaVersion : String := "cycle_test.v1"

/-- A header that belongs to the plan. -/
def checkHeader (header : TestHeader) : Except Exn Unit := do
  ensure (header.schemaVersion = testHeaderSchemaVersion) (.valueError "unsupported header schema version")
  ensure (header.layoutHash = plan.layoutHash) (.valueError "header layout hash does not match contract")
  ensure (header.contractHash = plan.contractHash)
    (.valueError "header contract hash does not match contract")
  unsigned header.bootAddress plan.addressWidth "boot address"
  ensure (header.bootAddress % plan.instruction.contract.instructionAlignment = 0)
    (.valueError "boot address violates instruction alignment")

/-- Load one beat of an image. -/
def loadBeat (s : ContractRuntime) (beat : ImageBeat) : Except Exn ContractRuntime := do
  let memory ← writeSpan s.memory beat.physicalMemoryId beat.offset beat.value beat.byteEnable
    plan.byteCount
  return { s with
    memory := memory
    allocatedEntries := Sequence.addNew s.allocatedEntries (beat.physicalMemoryId, beat.offset)
    memoryProvenance := s.memoryProvenance.set (beat.physicalMemoryId, beat.offset) .preloaded }

/-- Load beats one after another; a load that raises keeps the beats before it. -/
def loadBeats : List ImageBeat → ContractRuntime → Except Exn Unit × ContractRuntime
  | [], s => (.ok (), s)
  | beat :: beats, s =>
    match loadBeat plan s beat with
    | .ok s' => loadBeats beats s'
    | .error e => (.error e, s)

/-- **Begin a test**: a new lifetime of the memory, with its images loaded. -/
def beginTest (s : ContractRuntime) (header : TestHeader) : Except Exn Unit × ContractRuntime :=
  match checkHeader plan header with
  | .error e => (.error e, s)
  | .ok () => loadBeats plan (planMemoryImageBeats plan) { header := some header }

/-- A request that the contract binds, inside the address bounds. -/
def validateRequest : Option ProcessorBeatRequest → Except Exn Unit
  | none => .ok ()
  | some request => do
    ensure (plan.memoryDomains.get? request.function = some request.domain)
      (.valueError "request function/domain is not bound by the contract")
    unsigned request.address plan.addressWidth "request address"
    ensure (beatBase plan request.address + plan.byteCount ≤ 2 ^ plan.addressWidth)
      (.valueError "request span exceeds address bounds")
    unsigned request.writeData plan.dataWidth "write data"
    match request.byteEnable with
    | none => pure ()
    | some byteEnable => unsigned byteEnable plan.byteCount "byte enable"
    ensure (¬ (request.function = "instruction_memory_master" ∧ request.write = true))
      (.valueError "instruction memory function does not permit writes")

/-- What the device drives in a cycle. -/
structure DutOutputs where
  request : Option ProcessorBeatRequest
  reset : Bool

/-- The beat a request is for. -/
def requestKey (request : ProcessorBeatRequest) : Except Exn BeatKey :=
  if plan.memoryWindows ≠ [] then physicalKey plan (beatBase plan request.address)
  else .ok (request.domain, beatBase plan request.address)

/-- The beat belongs to a window that is loaded from an image. -/
def loadedBeat (base : ℕ) : Except Exn Bool :=
  if plan.memoryWindows ≠ [] then do
    let w ← windowFor plan base
    return w.initializationPolicy.loaded
  else .ok false

/-- The entropy a beat gets its first value from: that of the cycle its request was accepted in or, without
windows, that of the cycle it is answered in. -/
def entropyOf (s : ContractRuntime) (header : TestHeader) (raw : ℕ) (pending : ProcessorBeatRequest) :
    Except Exn (ℕ × ℕ) :=
  if plan.memoryWindows ≠ [] then
    match s.acceptedEntropy with
    | some entropy => .ok entropy
    | none => .error (.other "AssertionError")
  else do
    let instruction ← instructionData plan header raw pending.address
    let data ← fieldOf plan raw .responseData
    return (instruction, data)

/-- The value of a beat that has none. -/
def initialValue (s : ContractRuntime) (header : TestHeader) (raw : ℕ) (pending : ProcessorBeatRequest)
    (provenance : Option Provenance) : Except Exn ℕ := do
  let loaded ← loadedBeat plan (beatBase plan pending.address)
  if loaded then return 0
  else
    let entropy ← entropyOf plan s header raw pending
    return if pending.function = "instruction_memory_master" ∧ provenance ≠ some .cpuWritten
      then entropy.1 else entropy.2

/-- A refused response: counted, and nothing else. -/
def refuse (s : ContractRuntime) (result : ProcessorBeatInputs) (source : Source) :
    Except Exn ProcessorBeatInputs × ContractRuntime :=
  (.ok { result with rspData := 0, rspError := true, responseDataSource := source }, s.recordFault source)

/-- Answer a write with enabled bytes. -/
def answerWrite (s : ContractRuntime) (result : ProcessorBeatInputs) (pending : ProcessorBeatRequest)
    (key : BeatKey) : Except Exn ProcessorBeatInputs × ContractRuntime :=
  let byteEnable := pending.byteEnable.getD (2 ^ plan.byteCount - 1)
  match writeSpan s.memory key.1 key.2 pending.writeData byteEnable plan.byteCount with
  | .error e => (.error e, s)
  | .ok memory =>
    (.ok { result with rspData := 0, responseDataSource := .write }, { s with
        memory := memory
        memoryProvenance := if byteEnable ≠ 0 then s.memoryProvenance.set key .cpuWritten
          else s.memoryProvenance })

/-- The provenance of a beat that a read gives its first bytes. -/
def newProvenance (loaded : Bool) (pending : ProcessorBeatRequest) : Provenance :=
  if loaded then .preloaded
  else if pending.function = "instruction_memory_master" then .instructionGenerated
  else .dataGenerated

/-- Answer a read. -/
def answerRead (s : ContractRuntime) (header : TestHeader) (raw : ℕ) (result : ProcessorBeatInputs)
    (pending : ProcessorBeatRequest) (key : BeatKey) : Except Exn ProcessorBeatInputs × ContractRuntime :=
  let provenance := s.memoryProvenance.get? key
  if pending.function = "instruction_memory_master" ∧ provenance = some .dataGenerated then
    refuse s result .provenanceError
  else
    match readSpan s.memory key.1 key.2 plan.byteCount
      (initialValue plan s header raw pending provenance) with
    | .error e => (.error e, s)
    | .ok (value, memory) =>
      let response : ProcessorBeatInputs := { result with rspData := value, responseDataSource := .stored }
      match provenance with
      | some _ => (.ok response, { s with memory := memory })
      | none =>
        match loadedBeat plan (beatBase plan pending.address) with
        | .error e => (.error e, { s with memory := memory })
        | .ok loaded => (.ok response, { s with
            memory := memory
            memoryProvenance := s.memoryProvenance.set key (newProvenance loaded pending) })

/-- **Answer a pending request** that is not answered with an injected error. -/
def answer (s : ContractRuntime) (header : TestHeader) (raw : ℕ) (result : ProcessorBeatInputs)
    (pending : ProcessorBeatRequest) : Except Exn ProcessorBeatInputs × ContractRuntime :=
  match requestKey plan pending with
  | .error e => (.error e, s)
  | .ok key =>
    if pending.write ∧ pending.byteEnable = some 0 then
      (.ok { result with rspData := 0, responseDataSource := .write }, s)
    else if plan.memoryWindows ≠ [] ∧ pending.write ∧ ¬ covers plan (beatBase plan pending.address) true then
      refuse s result .readOnlyWriteError
    else if key ∉ s.allocatedEntries ∧ plan.memoryCapacityEntries ≤ s.allocatedEntries.length then
      refuse s result .capacityError
    else
      let s := { s with allocatedEntries := Sequence.addNew s.allocatedEntries key }
      if pending.write then answerWrite plan s result pending key
      else answerRead plan s header raw result pending key

/-- A cycle that is neither a reset nor outside the windows. -/
def stepProtocol (s : ContractRuntime) (header : TestHeader) (raw : ℕ) (external : List (String × ℕ))
    (request : Option ProcessorBeatRequest) (choice data : ℕ) :
    Except Exn ProcessorBeatInputs × ContractRuntime :=
  let (result, protocol) := protocolStep plan s.protocol choice data request
  let result := { result with externalInputs := external }
  let s := { s with protocol := protocol }
  if result.reqReady then
    match instructionData plan header raw ((request.map (·.address)).getD 0) with
    | .error e => (.error e, s)
    | .ok instruction => (.ok result, { s with acceptedEntropy := some (instruction, data) })
  else if ¬ result.rspValid then (.ok result, s)
  else if result.rspError then
    (.ok { result with responseDataSource := .error }, s.recordFault .error)
  else
    match result.responseRequest with
    | some pending => answer plan s header raw result pending
    | none => (.error (.other "AssertionError"), s)

/-- The header of the test that was begun. -/
def ContractRuntime.currentHeader (s : ContractRuntime) : Except Exn TestHeader :=
  match s.header with
  | some header => .ok header
  | none => .error (.valueError "begin_test must be called before step")

/-- What a step checks before it changes anything. -/
def checkStep (s : ContractRuntime) (raw : ℤ) (outputs : DutOutputs) : Except Exn TestHeader := do
  let header ← s.currentHeader
  unsigned raw plan.cycleLayout.rawWidth "raw cycle"
  validateRequest plan outputs.request
  return header

/-- The request lies outside the windows, so the target is not addressed at all. -/
def outOfWindow (s : ContractRuntime) (request : Option ProcessorBeatRequest) : Prop :=
  plan.memoryWindows ≠ [] ∧ s.protocol.pending = none ∧
    ∃ r ∈ request, ¬ covers plan (beatBase plan r.address) false

instance (s : ContractRuntime) (request : Option ProcessorBeatRequest) :
    Decidable (outOfWindow plan s request) :=
  inferInstanceAs (Decidable (_ ∧ _ ∧ _))

/-- The fields that every step reads. -/
def stepFields (raw : ℕ) : Except Exn (List (String × ℕ) × ℕ × ℕ) := do
  let external ← plan.externalInputs.mapM fun e => do
    let value ← fieldOf plan raw (.external e.1)
    return (e.1, value)
  let choice ← fieldOf plan raw .responseChoice
  let data ← fieldOf plan raw .responseData
  return (external, choice, data)

/-- **One cycle.** -/
def step (s : ContractRuntime) (raw : ℤ) (outputs : DutOutputs) :
    Except Exn ProcessorBeatInputs × ContractRuntime :=
  match checkStep plan s raw outputs, stepFields plan raw.toNat with
  | .error e, _ => (.error e, s)
  | .ok _, .error e => (.error e, s)
  | .ok header, .ok (external, choice, data) =>
    if outputs.reset then (.ok { externalInputs := external }, s.resetDut)
    else if outOfWindow plan s outputs.request then
      (.ok { externalInputs := external }, s.recordFault .outOfWindow)
    else stepProtocol plan s header raw.toNat external outputs.request choice data

end Contract

end MyFuzz
