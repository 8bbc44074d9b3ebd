import MyFuzz.Scenario.CpuRecords

/-!
# Scenario/CpuRetirement — retirement witnesses from frozen responses and ordered beats

`CpuRetirementMatcher` certifies retired instructions of several CPUs.  Each CPU scope has a bounded
state: the frozen fetches, and the data beats in the order they were accepted.

    instr_response ──▸ fetches ──┐
    data_accept ─────▸ beats ────┼──▸ cpu_retire ──▸ accepted, ambiguous, incomplete or rejected
    data_response ───▸ (answer)──┘

What the matcher cannot explain makes a scope `degraded`, and a degraded scope certifies nothing.
The tables are bounded: a scope state, a reset epoch and a restored scope are dropped oldest first.
-/

namespace MyFuzz

open CpuEvents

/-! ## Reports -/

/-- How a record is reported. -/
inductive ReportStatus where
  | accepted
  | ambiguous
  | incomplete
  | rejected
  deriving DecidableEq

/-- The writers of a frozen word: their events, versions and kinds. -/
structure WitnessSignature where
  writerEventIds : List String
  versions : List Version
  writerKinds : List String
  deriving DecidableEq

/-- What a report says beside the event it is about. -/
structure Finding where
  status : ReportStatus
  reason : String
  sourceRefs : List String := []
  instructionResponses : List Fetch := []
  instructionOriginStatus : Option String := none
  byteCells : List WitnessSignature := []
  transactionKeys : List CpuTransaction := []
  dataBeats : List DataBeat := []
  deriving DecidableEq

/-- A finding with nothing attached. -/
def finding (status : ReportStatus) (reason : String) : Finding := { status, reason }

/-- The fields of the event a report repeats. -/
structure ReportHeader where
  cpuScope : List (String × Option (Value EventScalar))
  order : Option (Value EventScalar)
  pc : Option (Value EventScalar)
  insn : Option (Value EventScalar)

/-- A report. -/
structure CpuReport where
  header : ReportHeader
  finding : Finding

/-! ## State -/

/-- The fields of a fetch that tell its version. -/
structure FetchSignature where
  address : ℕ
  rdata : ℕ
  witness : Option (ℕ × WitnessSignature)
  deriving DecidableEq

/-- The signature of an instruction response. -/
def Fetch.signature (f : Fetch) : FetchSignature :=
  ⟨f.address, f.rdata, f.frozen.map fun w => (w.value, ⟨w.writerEventIds, w.versions, w.writerKinds⟩)⟩

/-- What is kept of one CPU scope. -/
structure CpuState where
  fetches : List Fetch
  fetchSignatures : List FetchSignature
  recentFetches : Dict CpuTransaction FetchSignature
  beats : List DataBeat
  lastOrder : ℤ
  lastAcceptSequence : ℤ
  lastInstrSequence : ℕ
  degraded : Bool

/-- A scope of which nothing has been seen. -/
def CpuState.new (degraded : Bool) : CpuState :=
  ⟨[], [], .empty, [], -1, -1, 0, degraded⟩

/-- The matcher. -/
structure CpuRetirementMatcher where
  maxPending : ℕ
  states : Dict CpuScope CpuState
  scopeOverflow : Bool
  resetEpochs : Dict (String × String) ℕ
  globalUncertain : Bool
  restoredScopes : Dict CpuScope Unit
  positive : 0 < maxPending

/-! ## Encodings -/

/-- Whether a word may have a memory effect: the load, store and atomic opcodes, and the load and
store groups of the compressed encodings. -/
def memoryEncoding (insn : ℕ) : Bool :=
  if insn &&& 3 ≠ 3 then
    (insn &&& 3 = 0 ∨ insn &&& 3 = 2) ∧ (insn >>> 13 &&& 7) ∈ [1, 2, 3, 5, 6, 7]
  else (insn &&& 127) ∈ [0x03, 0x23, 0x07, 0x27, 0x2f]

/-- A field read as a signed number. -/
def signedField (value bits : ℕ) : ℤ :=
  if value &&& 1 <<< (bits - 1) ≠ 0 then (value : ℤ) - 1 <<< bits else value

/-- The instructions a witness is checked for. -/
inductive RetiredOperation where
  | lui
  | addi
  | xori
  | lw
  | sw
  | sb
  | slli
  | srli
  | srai
  deriving DecidableEq

/-- The legal shift of a word, or nothing when the word is reserved. -/
def shiftOperation (insn opcode funct3 : ℕ) : Option RetiredOperation :=
  if opcode ≠ 0x13 ∨ ¬ (funct3 = 1 ∨ funct3 = 5) then none
  else if insn >>> 25 = 0 then if funct3 = 1 then some .slli else some .srli
  else if funct3 = 5 ∧ insn >>> 25 = 0b0100000 then some .srai
  else none

/-- The operation of a word. -/
def operationOf (insn : ℕ) : Option RetiredOperation :=
  let opcode := insn &&& 127
  let funct3 := insn >>> 12 &&& 7
  if opcode = 0x37 then some .lui
  else if opcode = 0x13 ∧ funct3 = 0 then some .addi
  else if opcode = 0x13 ∧ funct3 = 4 then some .xori
  else if opcode = 3 ∧ funct3 = 2 then some .lw
  else if opcode = 0x23 ∧ funct3 = 2 then some .sw
  else if opcode = 0x23 ∧ funct3 = 0 then some .sb
  else shiftOperation insn opcode funct3

/-- The low 32 bits of an integer. -/
def word32 (value : ℤ) : ℕ := (value % 2 ^ 32).toNat

/-- The result of a shift of a register by an immediate. -/
def shiftResult (operation : RetiredOperation) (rs1Rdata shamt : ℕ) : ℕ :=
  match operation with
  | .slli => word32 (rs1Rdata <<< shamt : ℕ)
  | .srli => rs1Rdata >>> shamt
  | _ => word32 (signedField rs1Rdata 32 >>> shamt)

/-- The bytes an access is expected to touch: the lanes of each word, in order, with the offset of
the byte they carry. -/
def expectedLanes (address width : ℕ) : Dict ℕ (Dict ℕ ℕ) :=
  (List.range width).foldl (fun expected offset =>
    let byteAddress := (address + offset) % 2 ^ 32
    let aligned := wordOf byteAddress
    expected.set aligned ((expected.getD aligned .empty).set (byteAddress % 4) offset)) .empty

/-- A byte of a number. -/
def byteOf (value index : ℕ) : ℕ := value >>> (8 * index) &&& 255

namespace CpuState

/-! ## Fetches and beats -/

/-- A response that repeats an earlier sequence number: harmless only when it repeats its fields. -/
def repeatFetch (s : CpuState) (fetch : Fetch) : Finding × CpuState :=
  let previous := s.fetches.find? fun item => item.transaction = fetch.transaction
  let expected := (previous.map Fetch.signature).or (s.recentFetches.get? fetch.transaction)
  (finding .rejected "nonmonotonic_instruction_response_identity",
    if expected ≠ some fetch.signature then { s with degraded := true } else s)

/-- A response out of sequence leaves a gap. -/
def noteInstrSequence (s : CpuState) (sequence : ℕ) : List Finding × CpuState :=
  if sequence ≠ s.lastInstrSequence + 1 then
    ([finding .incomplete "instruction_response_sequence_gap"],
      { s with degraded := true, lastInstrSequence := sequence })
  else ([], { s with lastInstrSequence := sequence })

/-- Keep the signature of a recent fetch. -/
def noteRecent (maxPending : ℕ) (s : CpuState) (fetch : Fetch) : CpuState :=
  let recent := s.recentFetches.set fetch.transaction fetch.signature
  { s with recentFetches := if recent.length > maxPending then recent.popFirst else recent }

/-- Keep a fetch whose version is new; the oldest is dropped when there are too many. -/
def addFetch (maxPending : ℕ) (s : CpuState) (fetch : Fetch) : List Finding × CpuState :=
  if fetch.signature ∈ s.fetchSignatures then ([], s)
  else
    match s.fetches ++ [fetch] with
    | [] => ([], s)
    | old :: rest =>
      if (old :: rest).length > maxPending then
        ([finding .incomplete "instruction_capacity_exceeded"], { s with
            fetches := rest
            fetchSignatures := (s.fetchSignatures ++ [fetch.signature]).erase old.signature
            degraded := true })
      else
        ([], { s with
          fetches := old :: rest
          fetchSignatures := s.fetchSignatures ++ [fetch.signature] })

/-- An instruction response. -/
def instrResponse (maxPending : ℕ) (s : CpuState) (fetch : Fetch) : List Finding × CpuState :=
  if fetch.transaction.sourceSequence ≤ s.lastInstrSequence then
    let (finding, s) := s.repeatFetch fetch
    ([finding], s)
  else
    let (gap, s) := s.noteInstrSequence fetch.transaction.sourceSequence
    match fetch.frozen with
    | none =>
        (gap ++ [finding .incomplete "missing_frozen_instruction_response"], { s with degraded := true })
    | some _ =>
        let (dropped, s) := (s.noteRecent maxPending fetch).addFetch maxPending fetch
        (gap ++ dropped, s)

/-- The fields of a request that an acceptance or a response may repeat. -/
def sameRequest (beat other : DataBeat) : Bool :=
  beat.rawAddress = other.rawAddress ∧ beat.alignedAddress = other.alignedAddress ∧
    beat.address = other.address ∧ beat.write = other.write ∧ beat.be = other.be ∧ beat.wdata = other.wdata

/-- An acceptance that repeats an earlier sequence number. -/
def repeatAccept (s : CpuState) (beat : DataBeat) : Finding × CpuState :=
  (finding .rejected "duplicate_acceptance_identity",
    match s.beats.find? fun item => item.transaction = beat.transaction with
    | none => { s with degraded := true }
    | some previous => if sameRequest previous beat then s else { s with degraded := true })

/-- An acceptance out of sequence leaves a gap. -/
def noteAcceptSequence (s : CpuState) (sequence : ℕ) : List Finding × CpuState :=
  if (sequence : ℤ) ≠ max 1 (s.lastAcceptSequence + 1) then
    ([finding .incomplete "acceptance_sequence_gap"],
      { s with degraded := true, lastAcceptSequence := sequence })
  else ([], { s with lastAcceptSequence := sequence })

/-- Queue a beat; the oldest is dropped when there are too many. -/
def addBeat (maxPending : ℕ) (s : CpuState) (beat : DataBeat) : List Finding × CpuState :=
  if (s.beats ++ [beat]).length > maxPending then
    ([finding .incomplete "data_capacity_exceeded"],
      { s with beats := (s.beats ++ [beat]).tail, degraded := true })
  else ([], { s with beats := s.beats ++ [beat] })

/-- An accepted data beat. -/
def dataAccept (maxPending : ℕ) (s : CpuState) (beat : DataBeat) : List Finding × CpuState :=
  if (beat.transaction.sourceSequence : ℤ) ≤ s.lastAcceptSequence then
    let (finding, s) := s.repeatAccept beat
    ([finding], s)
  else
    let (gap, s) := s.noteAcceptSequence beat.transaction.sourceSequence
    let (dropped, s) := s.addBeat maxPending beat
    (gap ++ dropped, s)

/-- What a response repeats of its request is what was accepted. -/
def echoes (response : DataResponse) (beat : DataBeat) : Bool :=
  (∀ v ∈ response.rawAddress, v = beat.rawAddress) ∧
    (∀ v ∈ response.alignedAddress, v = beat.alignedAddress) ∧
    (∀ v ∈ response.address, v = beat.address) ∧ (∀ v ∈ response.write, v = beat.write) ∧
    (∀ v ∈ response.be, v = beat.be) ∧ ∀ v ∈ response.wdata, v = beat.wdata

/-- The response repeats one that has been recorded. -/
def repeatsResponse (s : CpuState) (response : DataResponse) : Bool :=
  match s.beats.find? fun beat => beat.transaction = response.transaction with
  | none => false
  | some previous => previous.response = some response.answer ∧ echoes response previous

/-- A response that does not belong to the first open beat. -/
def refuseResponse (s : CpuState) (response : DataResponse) : List Finding × CpuState :=
  ([finding .rejected "response_not_next_accepted_identity"],
    if s.repeatsResponse response then s else { s with degraded := true })

/-- Record the response of the first beat that has none. -/
def answerFirst (response : DataResponse) : List DataBeat → List DataBeat
  | [] => []
  | beat :: beats =>
      if beat.response = none then { beat with response := some response.answer } :: beats
      else beat :: answerFirst response beats

/-- A data response. -/
def dataResponse (s : CpuState) (response : DataResponse) : List Finding × CpuState :=
  match s.beats.find? fun beat => beat.response = none with
  | none => s.refuseResponse response
  | some unanswered =>
      if unanswered.transaction ≠ response.transaction then s.refuseResponse response
      else if echoes response unanswered then
        ([], { s with beats := answerFirst response s.beats })
      else
        ([finding .rejected "response_request_identity_conflict"], { s with degraded := true })

/-! ## Retirement -/

/-- The frozen word of a fetch is usable as a witness of an instruction. -/
def usableWord (w : FrozenWord) (insn : ℕ) : Bool :=
  4 ≤ w.data.length ∧ Bytes.readLe (w.data.take 4) = insn ∧ w.value = insn ∧
    4 ≤ w.writerKinds.length ∧ 4 ≤ w.writerEventIds.length ∧ 4 ≤ w.versions.length ∧
    (∀ kind ∈ w.writerKinds.take 4, kind ∈ writerKindTexts) ∧ ∀ ref ∈ w.writerEventIds.take 4, ref ≠ ""

/-- The writers of the four bytes of a word. -/
def witnessSignature (w : FrozenWord) : WitnessSignature :=
  ⟨w.writerEventIds.take 4, w.versions.take 4, w.writerKinds.take 4⟩

/-- The fetches at the address of a retirement that returned its word. -/
def matching (s : CpuState) (r : Retirement) : List (Fetch × FrozenWord) :=
  s.fetches.filterMap fun f =>
    if f.address = r.pcRdata ∧ f.rdata = r.insn then f.frozen.map fun w => (f, w) else none

/-- The witnesses of a retirement, and whether a matching fetch is unusable. -/
def sources (s : CpuState) (r : Retirement) : List (WitnessSignature × Fetch) × Bool :=
  (((s.matching r).filter fun p => usableWord p.2 r.insn).map fun p => (witnessSignature p.2, p.1),
    (s.matching r).any fun p => !usableWord p.2 r.insn)

/-- The writers of words that only instruction sources wrote, sorted. -/
def sourceRefs (witnesses : List (WitnessSignature × Fetch)) : List String :=
  ((witnesses.filter fun p => p.1.writerKinds.all (· = "INSTRUCTION_SOURCE")).flatMap
    fun p => p.1.writerEventIds).dedup.insertionSort (· ≤ ·)

/-- The report of a retirement whose witnesses are known. -/
def witnessed (witnesses : List (WitnessSignature × Fetch)) (status : ReportStatus)
    (reason : String) : Finding where
  status := status
  reason := reason
  sourceRefs := sourceRefs witnesses
  instructionResponses := witnesses.map Prod.snd
  instructionOriginStatus := some (if sourceRefs witnesses = [] then "unknown" else "typed_writer_refs")
  byteCells := witnesses.map Prod.fst

/-- The register fields of a word. -/
def rs1Of (insn : ℕ) : ℕ := insn >>> 15 &&& 31
def rs2Of (insn : ℕ) : ℕ := insn >>> 20 &&& 31
def rdOf (insn : ℕ) : ℕ := insn >>> 7 &&& 31

/-- The value an instruction without memory effect writes. -/
def registerResult (operation : RetiredOperation) (r : Retirement) : ℕ :=
  let immediate := signedField (r.insn >>> 20) 12
  match operation with
  | .lui => r.insn &&& 0xfffff000
  | .addi => word32 (r.rs1Rdata + immediate)
  | .xori => word32 (Int.xor r.rs1Rdata immediate)
  | _ => shiftResult operation r.rs1Rdata (r.insn >>> 20 &&& 31)

/-- The register effect of a retirement is that of its instruction. -/
def registerEffect (operation : RetiredOperation) (r : Retirement) : Bool :=
  r.rdAddr = rdOf r.insn ∧ (rdOf r.insn = 0 ∨ r.rdWdata = registerResult operation r) ∧
    (operation = .lui ∨ r.rs1Addr = rs1Of r.insn)

/-- The immediate of a load or store. -/
def memoryImmediate (write : Bool) (insn : ℕ) : ℕ :=
  if write then (insn >>> 25) <<< 5 ||| (insn >>> 7 &&& 31) else insn >>> 20

/-- The address of a load or store. -/
def memoryAddress (write : Bool) (r : Retirement) : ℕ :=
  word32 (r.rs1Rdata + signedField (memoryImmediate write r.insn) 12)

/-- The memory effect of a retirement is that of its instruction. -/
def memoryEffect (write : Bool) (width : ℕ) (r : Retirement) : Bool :=
  let mask := 1 <<< width - 1
  let low := 1 <<< (8 * width) - 1
  r.rs1Addr = rs1Of r.insn ∧ r.memAddr = memoryAddress write r ∧
    r.memWmask = (if write then mask else 0) ∧ r.memRmask = (if write then 0 else mask) ∧
    (write = true → r.rs2Addr = rs2Of r.insn ∧ r.memWdata &&& low = r.rs2Rdata &&& low) ∧
    (write = false → r.rdAddr = rdOf r.insn ∧ (rdOf r.insn = 0 ∨ r.rdWdata = r.memRdata))

/-- Check a beat against the word and the lanes it should carry. -/
def checkBeat (write : Bool) (r : Retirement) (raw aligned : ℕ) (lanes : Dict ℕ ℕ)
    (beat : DataBeat) : Except (ReportStatus × String) Unit :=
  if ¬ ((beat.rawAddress = raw ∨ beat.rawAddress = aligned) ∧ beat.alignedAddress = aligned ∧
      (beat.write ≠ 0 ↔ write = true) ∧ beat.be = (lanes.keys.map fun lane => 1 <<< lane).sum) then
    .error (.rejected, "ordered_acceptance_does_not_match")
  else
    match beat.response with
    | none => .error (.incomplete, "missing_or_error_data_response")
    | some response =>
      if response.error ≠ 0 then .error (.incomplete, "missing_or_error_data_response")
      else if ¬ ∀ p ∈ lanes.entries, byteOf (if write then beat.wdata else response.rdata) p.1 =
          byteOf (if write then r.memWdata else r.memRdata) p.2 then
        .error (.rejected, "enabled_byte_data_mismatch")
      else .ok ()

/-- Check the beats in order; only the first may start inside its word. -/
def checkBeats (write : Bool) (r : Retirement) :
    ℕ → List (ℕ × Dict ℕ ℕ) → List DataBeat → Except (ReportStatus × String) Unit
  | raw, (aligned, lanes) :: expected, beat :: beats => do
      checkBeat write r raw aligned lanes beat
      match expected with
      | [] => pure ()
      | (next, _) :: _ => checkBeats write r next expected beats
  | _, _, _ => .ok ()

/-- A retired load or store takes its beats from the head of the queue. -/
def retireMemory (s : CpuState) (witnesses : List (WitnessSignature × Fetch)) (write : Bool)
    (width : ℕ) (r : Retirement) : Finding × CpuState :=
  if !memoryEffect write width r then
    (witnessed witnesses .rejected "illegal_rv32i_memory_effect", s)
  else
    let expected := (expectedLanes (memoryAddress write r) width).entries
    let beats := s.beats.take expected.length
    let keys := beats.map DataBeat.transaction
    if beats.length ≠ expected.length then
      ({ witnessed witnesses .incomplete "missing_accepted_data_beats" with
        transactionKeys := keys }, s)
    else
      match checkBeats write r (memoryAddress write r) expected beats with
      | .error (status, reason) =>
          ({ witnessed witnesses status reason with transactionKeys := keys }, s)
      | .ok () =>
          ({ witnessed witnesses .accepted "matched_ordered_retired_transaction" with
            transactionKeys := keys, dataBeats := beats }, { s with beats := s.beats.drop expected.length })

/-- A retired operation with a witness in a scope that is not degraded. -/
def retireOperation (s : CpuState) (witnesses : List (WitnessSignature × Fetch))
    (operation : RetiredOperation) (r : Retirement) : Finding × CpuState :=
  match operation with
  | .lw => s.retireMemory witnesses false 4 r
  | .sw => s.retireMemory witnesses true 4 r
  | .sb => s.retireMemory witnesses true 1 r
  | operation =>
      if registerEffect operation r then (witnessed witnesses .accepted "matched_instruction", s)
      else (witnessed witnesses .rejected "illegal_register_effect", s)

/-- A retirement in order and without a trap. -/
def retireInstruction (s : CpuState) (r : Retirement) : Finding × CpuState :=
  match operationOf r.insn with
  | none =>
      (finding .rejected "unsupported_instruction_observation_only",
        if memoryEncoding r.insn then { s with degraded := true } else s)
  | some operation =>
      let (witnesses, unknownMatchingVersion) := s.sources r
      if witnesses = [] then
        (witnessed witnesses .incomplete "no_valid_frozen_instruction_witness", s)
      else if s.degraded ∨ unknownMatchingVersion ∨ 1 < (witnesses.map Prod.fst).dedup.length then
        (witnessed witnesses .ambiguous "instruction_versions_or_incomplete_stream", s)
      else s.retireOperation witnesses operation r

/-- Follow the order of retirement; a gap degrades the scope. -/
def noteOrder (s : CpuState) (order : ℕ) : CpuState :=
  { s with
    degraded := s.degraded || decide (0 ≤ s.lastOrder ∧ (order : ℤ) ≠ s.lastOrder + 1)
    lastOrder := order }

/-- The witness of a retirement. -/
def retireWitness (s : CpuState) : RetireRecord → Finding × CpuState
  | .invalidValid =>
      (finding .incomplete "invalid_explicit_retirement_valid", { s with degraded := true })
  | .missingFields => (finding .incomplete "missing_retirement_fields", { s with degraded := true })
  | .outOfRange =>
      (finding .rejected "out_of_range_retirement_fields", { s with degraded := true })
  | .fields r =>
      if (r.order : ℤ) ≤ s.lastOrder then (finding .rejected "nonmonotonic_retirement_order", s)
      else
        let s := s.noteOrder r.order
        if r.trap ≠ 0 then
          (finding .rejected "trap_retirement_observation_only", { s with degraded := true })
        else s.retireInstruction r

/-- A retirement; the word of a record that is not `fields` need not be looked at, for such a record
has degraded the scope. -/
def retire (s : CpuState) (record : RetireRecord) : Finding × CpuState :=
  let (found, s) := s.retireWitness record
  match record with
  | .fields r =>
      -- any unresolved retired memory effect may own the head of the queue
      (found, if found.status ≠ .accepted ∧ memoryEncoding r.insn then { s with degraded := true }
        else s)
  | _ => (found, s)

/-- What a scope does with a record other than a reset or a flush. -/
def observe (maxPending : ℕ) (s : CpuState) : CpuObservation → List Finding × CpuState
  | .reset | .flush => ([], s)
  | .instrResponse fetch => s.instrResponse maxPending fetch
  | .dataAccept beat => s.dataAccept maxPending beat
  | .dataResponse response => s.dataResponse response
  | .retire record =>
      let (found, s) := s.retire record
      ([found], s)

end CpuState

namespace CpuRetirementMatcher

/-! ## The matcher -/

/-- A new matcher. -/
def init (maxPending : ℕ) (positive : 0 < maxPending) : CpuRetirementMatcher :=
  ⟨maxPending, .empty, false, .empty, false, .empty, positive⟩

/-- A record without an identity can affect every scope. -/
def degradeAll (m : CpuRetirementMatcher) : CpuRetirementMatcher :=
  { m with
    globalUncertain := true
    restoredScopes := .empty
    states := m.states.mapVal fun s => { s with degraded := true } }

/-- Make room for one more scope. -/
def makeRoom (m : CpuRetirementMatcher) : CpuRetirementMatcher :=
  if m.maxPending ≤ m.states.length then
    { m with states := m.states.popFirst, scopeOverflow := true }
  else m

/-- Bind the state of a scope. -/
def setState (m : CpuRetirementMatcher) (σ : CpuScope) (s : CpuState) : CpuRetirementMatcher :=
  { m with states := m.states.set σ s }

/-- Keep an incomplete observation of a scope as a barrier. -/
def degrade (m : CpuRetirementMatcher) (σ : CpuScope) : CpuRetirementMatcher :=
  match m.states.get? σ with
  | none => m.makeRoom.setState σ (.new true)
  | some s => m.setState σ { s with degraded := true }

/-- The epochs of a CPU the matcher remembers. -/
def observedEpochs (m : CpuRetirementMatcher) (cpu : String × String) : List ℕ :=
  (m.states.keys.filter fun σ => σ.cpu = cpu).map CpuScope.sourceEpoch ++ (m.resetEpochs.get? cpu).toList

/-- A reset advances the epoch of its CPU. -/
def Advances (m : CpuRetirementMatcher) (σ : CpuScope) : Prop :=
  ∀ e ∈ m.observedEpochs σ.cpu, e < σ.sourceEpoch

instance (m : CpuRetirementMatcher) (σ : CpuScope) : Decidable (m.Advances σ) :=
  inferInstanceAs (Decidable (∀ e ∈ _, _))

/-- The reset table is full of other CPUs: a reset of this one drops the oldest entry. -/
def DropsEpoch (m : CpuRetirementMatcher) (cpu : String × String) : Prop :=
  m.maxPending ≤ m.resetEpochs.length ∧ m.resetEpochs.get? cpu = none

instance (m : CpuRetirementMatcher) (cpu : String × String) : Decidable (m.DropsEpoch cpu) :=
  inferInstanceAs (Decidable (_ ∧ _))

/-- Record the epoch of a reset. -/
def recordReset (m : CpuRetirementMatcher) (σ : CpuScope) : CpuRetirementMatcher :=
  let m := if m.DropsEpoch σ.cpu then
    { m with scopeOverflow := true, resetEpochs := m.resetEpochs.popFirst } else m
  { m with resetEpochs := m.resetEpochs.set σ.cpu (max σ.sourceEpoch (m.resetEpochs.getD σ.cpu 0)) }

/-- Restore the certainty of a scope. -/
def restore (m : CpuRetirementMatcher) (σ : CpuScope) : CpuRetirementMatcher :=
  let restored := if m.maxPending ≤ m.restoredScopes.length ∧ m.restoredScopes.get? σ = none then
    m.restoredScopes.popFirst else m.restoredScopes
  { m with restoredScopes := restored.set σ () }

/-- Forget the scopes of a CPU; the beats they still held are reported. -/
def cancelScopes (m : CpuRetirementMatcher) (cpu : String × String) : List Finding × CpuRetirementMatcher :=
  (((m.states.entries.filter fun p => p.1.cpu = cpu).flatMap fun p => p.2.beats).map fun beat =>
    { finding .incomplete "cpu_reset_cancelled_pending" with transactionKeys := [beat.transaction] },
    { m with states := m.states.filterKeys fun τ => τ.cpu ≠ cpu })

/-- A record of an epoch before the last reset of its CPU. -/
def Precedes (m : CpuRetirementMatcher) (σ : CpuScope) : Prop :=
  σ.sourceEpoch < m.resetEpochs.getD σ.cpu 0

instance (m : CpuRetirementMatcher) (σ : CpuScope) : Decidable (m.Precedes σ) :=
  inferInstanceAs (Decidable (_ < _))

/-- A reset barrier. -/
def reset (m : CpuRetirementMatcher) (σ : CpuScope) : List Finding × CpuRetirementMatcher :=
  if ¬ m.Advances σ then ([finding .rejected "reset_epoch_did_not_advance"], m.degrade σ)
  else
    let m := m.recordReset σ
    if m.Precedes σ then ([finding .rejected "event_precedes_reset_epoch"], m)
    else (m.restore σ).cancelScopes σ.cpu

/-- Open the state of a scope; a scope that may have been forgotten is degraded from the start. -/
def openScope (m : CpuRetirementMatcher) (σ : CpuScope) : List Finding × CpuState × CpuRetirementMatcher :=
  match m.states.get? σ with
  | some s => ([], s, m)
  | none =>
      let m' := m.makeRoom
      (if m.maxPending ≤ m.states.length then
        [finding .incomplete "cpu_scope_capacity_exceeded"] else [],
        .new ((m'.scopeOverflow || m'.globalUncertain) && (m'.restoredScopes.get? σ).isNone), m')

/-- A record of a scope other than a reset or a flush. -/
def observeScope (m : CpuRetirementMatcher) (σ : CpuScope) (observation : CpuObservation) :
    List Finding × CpuRetirementMatcher :=
  let (evicted, s, m) := m.openScope σ
  let (findings, s) := s.observe m.maxPending observation
  (evicted ++ findings, m.setState σ s)

/-- What the matcher does with a record. -/
def consumeRecord (m : CpuRetirementMatcher) : CpuRecord → List Finding × CpuRetirementMatcher
  | .ignored => ([], m)
  | .unidentified reason => ([finding .incomplete reason], m.degradeAll)
  | .malformed σ reason => ([finding .incomplete reason], m.degrade σ)
  | .observed σ .reset => m.reset σ
  | .observed σ observation =>
      if m.Precedes σ then ([finding .rejected "event_precedes_reset_epoch"], m)
      else
        match observation with
        | .flush => ([finding .incomplete "cpu_flush_pairing_barrier"], m.degrade σ)
        | observation => m.observeScope σ observation

/-- What a report repeats of its event. -/
def headerOf : CpuEvent → ReportHeader
  | .dict fields =>
      let identity := match kindOf fields with
        | some kind => identityOf kind fields
        | none => fields
      ⟨["execution_id", "source_component", "source_epoch"].map fun name => (name, get identity name),
        get fields "order", get fields "pc_rdata", get fields "insn"⟩
  | _ =>
      ⟨["execution_id", "source_component", "source_epoch"].map fun name => (name, none), none, none, none⟩

/-- **Feed the matcher one event.** -/
def consume (m : CpuRetirementMatcher) (event : CpuEvent) : List CpuReport × CpuRetirementMatcher :=
  let (findings, m) := m.consumeRecord (classify event)
  (findings.map fun found => ⟨headerOf event, found⟩, m)

end CpuRetirementMatcher

end MyFuzz
