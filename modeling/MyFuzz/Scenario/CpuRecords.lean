import MyFuzz.Foundations.Bytes
import MyFuzz.Scenario.Memory
import MyFuzz.Scenario.RuntimeContract

/-!
# Scenario/CpuRecords — what a measured CPU event says

The retirement matcher is fed dictionaries.  Everything it checks of one before it looks at its own
state depends on the dictionary alone, so an event is read once into a `CpuRecord`:

    not about a CPU ─────────▸ ignored
    no or two identities ────▸ unidentified reason
    identity, bad fields ────▸ malformed scope reason
    identity, good fields ───▸ observed scope observation

The checks stand in the order of the source, which decides the reason of a record with several
faults.
-/

namespace MyFuzz

/-! ## Events -/

/-- The leaves of an event that are not text. -/
inductive EventScalar where
  | none
  | bool (b : Bool)
  | int (n : ℤ)
  | bytes (data : List UInt8)
  | other
  deriving DecidableEq

/-- What the matcher is fed. -/
abbrev CpuEvent : Type := Value EventScalar

/-- The entries of a dictionary. -/
abbrev EventFields : Type := List (String × Value EventScalar)

/-- A CPU in one reset epoch.  The testcase is no part of it: a running CPU may cross cases. -/
structure CpuScope where
  executionId : String
  sourceComponent : String
  sourceEpoch : ℕ
  deriving DecidableEq

/-- The CPU of a scope. -/
def CpuScope.cpu (σ : CpuScope) : String × String := (σ.executionId, σ.sourceComponent)

/-- A full transaction identity. -/
structure CpuTransaction where
  scope : CpuScope
  testcaseId : String
  channelId : String
  sourceSequence : ℕ
  deriving DecidableEq

/-- The frozen word of an instruction response. -/
structure FrozenWord where
  value : ℕ
  data : List UInt8
  writerEventIds : List String
  writerKinds : List String
  versions : List Version
  deriving DecidableEq

/-- An instruction response; the word is there when the response has no error. -/
structure Fetch where
  transaction : CpuTransaction
  address : ℕ
  rdata : ℕ
  frozen : Option FrozenWord
  deriving DecidableEq

/-- What is kept of the response to a data beat. -/
structure BeatResponse where
  rdata : ℕ
  error : ℕ
  deriving DecidableEq

/-- An accepted data beat. -/
structure DataBeat where
  transaction : CpuTransaction
  rawAddress : ℕ
  alignedAddress : ℕ
  address : ℕ
  write : ℕ
  be : ℕ
  wdata : ℕ
  response : Option BeatResponse
  deriving DecidableEq

/-- A data response, with the fields of the request it repeats. -/
structure DataResponse where
  transaction : CpuTransaction
  answer : BeatResponse
  rawAddress : Option ℕ
  alignedAddress : Option ℕ
  address : Option ℕ
  write : Option ℕ
  be : Option ℕ
  wdata : Option ℕ
  deriving DecidableEq

/-- A retired instruction. -/
structure Retirement where
  order : ℕ
  pcRdata : ℕ
  insn : ℕ
  trap : ℕ
  rs1Addr : ℕ
  rs1Rdata : ℕ
  rs2Addr : ℕ
  rs2Rdata : ℕ
  rdAddr : ℕ
  rdWdata : ℕ
  memAddr : ℕ
  memRmask : ℕ
  memWmask : ℕ
  memRdata : ℕ
  memWdata : ℕ
  deriving DecidableEq

/-- What a retirement record holds. -/
inductive RetireRecord where
  | invalidValid
  | missingFields
  | outOfRange
  | fields (r : Retirement)
  deriving DecidableEq

/-- A record of a known CPU with good fields. -/
inductive CpuObservation where
  | reset
  | flush
  | instrResponse (fetch : Fetch)
  | dataAccept (beat : DataBeat)
  | dataResponse (response : DataResponse)
  | retire (record : RetireRecord)
  deriving DecidableEq

/-- What an event says. -/
inductive CpuRecord where
  | ignored
  | unidentified (reason : String)
  | malformed (scope : CpuScope) (reason : String)
  | observed (scope : CpuScope) (observation : CpuObservation)
  deriving DecidableEq

/-- The kinds of events the matcher reads. -/
inductive CpuKind where
  | instrResponse
  | dataAccept
  | dataResponse
  | cpuRetire
  | cpuReset
  | cpuFlush
  deriving DecidableEq

namespace CpuEvents

/-! ## Reading a field -/

/-- `event.get(name)`. -/
def get (fields : EventFields) (name : String) : Option (Value EventScalar) := Dict.lookup name fields

/-- `name in event`. -/
def has (fields : EventFields) (name : String) : Bool := (get fields name).isSome

/-- An unsigned integer of so many bits. -/
def uint? (bits : ℕ) : Option (Value EventScalar) → Option ℕ
  | some (.scalar (.int n)) => if 0 ≤ n ∧ n < 2 ^ bits then some n.toNat else none
  | _ => none

/-- A text that is not blank. -/
def named? : Option (Value EventScalar) → Option String
  | some (.str s) => if s.toList.all isStripped then none else some s
  | _ => none

/-- The members of a list or a tuple. -/
def items? : Option (Value EventScalar) → Option (List (Value EventScalar))
  | some (.list items) | some (.tuple items) => some items
  | _ => none

/-- A field that may be absent and otherwise is an unsigned integer: its value, if it is valid. -/
def optionalUint? (bits : ℕ) (fields : EventFields) (name : String) : Option (Option ℕ) :=
  if has fields name then (uint? bits (get fields name)).map some else some none

/-- The field is absent or this text. -/
def repeatsText (fields : EventFields) (name text : String) : Bool :=
  match get fields name with
  | none => true
  | some (.str s) => s = text
  | some _ => false

/-- The field is absent or this integer. -/
def repeatsNat (fields : EventFields) (name : String) (n : ℕ) : Bool :=
  match get fields name with
  | none => true
  | some (.scalar (.int i)) => i = n
  | some _ => false

/-! ## Identity -/

/-- The kind of an event, if it is about a CPU. -/
def kindOf (fields : EventFields) : Option CpuKind :=
  match get fields "kind" with
  | some (.str s) =>
      if s = "instr_response" then some .instrResponse
      else if s = "data_accept" then some .dataAccept
      else if s = "data_response" then some .dataResponse
      else if s = "cpu_retire" then some .cpuRetire
      else if s = "cpu_reset" then some .cpuReset
      else if s = "cpu_flush" then some .cpuFlush
      else none
  | _ => none

/-- The kinds that carry a transaction. -/
def carriesTransaction : CpuKind → Bool
  | .instrResponse | .dataAccept | .dataResponse => true
  | .cpuRetire | .cpuReset | .cpuFlush => false

/-- Where the identity of an event stands. -/
def identityOf (kind : CpuKind) (fields : EventFields) : EventFields :=
  if carriesTransaction kind then
    match get fields "transaction" with
    | some (.dict transaction) => transaction
    | _ => []
  else fields

/-- The scope an identity names. -/
def scopeOf (identity : EventFields) : Option CpuScope := do
  let executionId ← named? (get identity "execution_id")
  let sourceComponent ← named? (get identity "source_component")
  let sourceEpoch ← uint? 64 (get identity "source_epoch")
  pure ⟨executionId, sourceComponent, sourceEpoch⟩

/-- What the event itself says of its identity agrees with it. -/
def consistentScope (fields : EventFields) (σ : CpuScope) : Bool :=
  repeatsText fields "execution_id" σ.executionId &&
    repeatsText fields "source_component" σ.sourceComponent &&
    repeatsNat fields "source_epoch" σ.sourceEpoch && repeatsText fields "component" σ.sourceComponent &&
    repeatsNat fields "reset_epoch" σ.sourceEpoch

/-- The fields of a transaction. -/
def transactionFields : List String :=
  ["execution_id", "testcase_id", "source_component", "source_epoch", "channel_id", "source_sequence"]

/-- The transaction of a channel; the fields of its scope have been checked. -/
def transactionOf (channel : String) (σ : CpuScope) (transaction : EventFields) : Option CpuTransaction := do
  guard (∀ e ∈ transaction, e.1 ∈ transactionFields)
  let testcaseId ← named? (get transaction "testcase_id")
  let channelId ← named? (get transaction "channel_id")
  guard (channelId = channel)
  let sourceSequence ← uint? 64 (get transaction "source_sequence")
  guard (0 < sourceSequence)
  pure ⟨σ, testcaseId, channelId, sourceSequence⟩

/-! ## Fields -/

/-- The start of the word of an address: `address & ~3`. -/
def wordOf (address : ℕ) : ℕ := address / 4 * 4

/-- The raw, aligned and repeated address of a request. -/
def addressTriplet (fields : EventFields) : Option (ℕ × ℕ × ℕ) := do
  let raw ← uint? 32 (get fields "raw_address")
  let aligned ← uint? 32 (get fields "aligned_address")
  let address ← uint? 32 (get fields "address")
  guard (address = raw)
  guard (aligned = wordOf raw)
  pure (raw, aligned, address)

/-- The beat of an acceptance. -/
def acceptanceOf (transaction : CpuTransaction) (fields : EventFields) : Option DataBeat := do
  let (raw, aligned, address) ← addressTriplet fields
  let wdata ← uint? 32 (get fields "wdata")
  let be ← uint? 4 (get fields "be")
  let write ← uint? 1 (get fields "write")
  pure ⟨transaction, raw, aligned, address, write, be, wdata, none⟩

/-- The writer kinds a frozen word may have. -/
def writerKindTexts : List String := ["INSTRUCTION_SOURCE", "INITIAL_IMAGE", "FIRST_READ", "STORE"]

/-- The `data` of a snapshot: it may be absent, and is bytes otherwise. -/
def snapshotData? (snapshot : EventFields) : Option (Option (List UInt8)) :=
  match get snapshot "data" with
  | none => some none
  | some (.scalar (.bytes data)) => some (some data)
  | some _ => none

/-- The `data_hex` of a snapshot: it may be absent, and is the text of bytes otherwise. -/
def snapshotHex? (snapshot : EventFields) : Option (Option (List UInt8)) :=
  match get snapshot "data_hex" with
  | none => some none
  | some (.str s) =>
      if s.toList.length = 8 then (fromHex s.toList).map fun bytes => some (bytes.map UInt8.ofNat)
      else none
  | some _ => none

/-- The bytes of a snapshot, given once or twice alike. -/
def snapshotBytes? (snapshot : EventFields) : Option (List UInt8) := do
  let raw ← snapshotData? snapshot
  let encoded ← snapshotHex? snapshot
  match raw, encoded with
  | some data, some hex => if data = hex then some data else none
  | some data, none => some data
  | none, some hex => some hex
  | none, none => none

/-- A writer kind. -/
def writerKind? : Value EventScalar → Option String
  | .str s => if s ∈ writerKindTexts then some s else none
  | _ => none

/-- A version. -/
def version? (v : Value EventScalar) : Option Version := do
  match ← items? (some v) with
  | [generation, sequence] => do
      let generation ← uint? 64 (some generation)
      let sequence ← uint? 64 (some sequence)
      pure (generation, sequence)
  | _ => none

/-- Four members of a list, each read by `f`. -/
def fourOf {α : Type} (f : Value EventScalar → Option α) (v : Option (Value EventScalar)) :
    Option (List α) := do
  let items ← items? v
  guard (items.length = 4)
  items.mapM f

/-- **The frozen word of an instruction response without error**, if its snapshot is valid. -/
def validFrozenInstruction (address rdata : ℕ) (v : Option (Value EventScalar)) : Option FrozenWord := do
  match v with
  | some (.dict snapshot) =>
      let value ← uint? 32 (get snapshot "value")
      let data ← snapshotBytes? snapshot
      guard (data.length = 4)
      guard (Bytes.readLe data = value ∧ value = rdata)
      guard (has snapshot "address" = true → uint? 32 (get snapshot "address") = some address)
      let writerKinds ← fourOf writerKind? (get snapshot "writer_kinds")
      let writerEventIds ← fourOf (named? ∘ some) (get snapshot "writer_event_ids")
      let versions ← fourOf version? (get snapshot "versions")
      pure ⟨value, data, writerEventIds, writerKinds, versions⟩
  | _ => none

/-- The data and error flag of a response. -/
def answerOf (fields : EventFields) : Option BeatResponse := do
  let rdata ← uint? 32 (get fields "rdata")
  let error ← uint? 1 (get fields "error")
  pure ⟨rdata, error⟩

/-- The address of an instruction response; what it repeats of a request must be that of a read. -/
def fetchAddress (fields : EventFields) : Option ℕ := do
  let address ← uint? 32 (get fields "address")
  guard ((has fields "raw_address" ∨ has fields "aligned_address") → (addressTriplet fields).isSome = true)
  let write ← optionalUint? 1 fields "write"
  let _ ← optionalUint? 4 fields "be"
  let _ ← optionalUint? 32 fields "wdata"
  guard (write = none ∨ write = some 0)
  pure address

/-- The fetch of an instruction response. -/
def fetchOf (transaction : CpuTransaction) (fields : EventFields) : Except String Fetch :=
  match answerOf fields with
  | none => .error "malformed_response_fields"
  | some answer =>
    match fetchAddress fields with
    | none => .error "malformed_instruction_response_address"
    | some address =>
      if answer.error = 0 then
        match validFrozenInstruction address answer.rdata (get fields "snapshot") with
        | none => .error "malformed_frozen_instruction_snapshot"
        | some frozen => .ok ⟨transaction, address, answer.rdata, some frozen⟩
      else .ok ⟨transaction, address, answer.rdata, none⟩

/-- What a data response repeats of its request. -/
def echoOf (transaction : CpuTransaction) (answer : BeatResponse) (fields : EventFields) :
    Option DataResponse := do
  guard ((has fields "raw_address" ∨ has fields "aligned_address" ∨ has fields "address") →
    (addressTriplet fields).isSome = true)
  let write ← optionalUint? 1 fields "write"
  let be ← optionalUint? 4 fields "be"
  let wdata ← optionalUint? 32 fields "wdata"
  pure ⟨transaction, answer, uint? 32 (get fields "raw_address"),
    uint? 32 (get fields "aligned_address"), uint? 32 (get fields "address"), write, be, wdata⟩

/-- A data response. -/
def responseOf (transaction : CpuTransaction) (fields : EventFields) : Except String DataResponse :=
  match answerOf fields with
  | none => .error "malformed_response_fields"
  | some answer =>
    match echoOf transaction answer fields with
    | none => .error "malformed_response_request_echo"
    | some response => .ok response

/-- The fields of a retirement with their widths. -/
def retirementWidths : List (String × ℕ) :=
  [("order", 64), ("pc_rdata", 32), ("insn", 32), ("trap", 1), ("rs1_addr", 5), ("rs1_rdata", 32),
    ("rs2_addr", 5), ("rs2_rdata", 32), ("rd_addr", 5), ("rd_wdata", 32), ("mem_addr", 32),
    ("mem_rmask", 4), ("mem_wmask", 4), ("mem_rdata", 32), ("mem_wdata", 32)]

/-- The value is an integer. -/
def isInt : Option (Value EventScalar) → Bool
  | some (.scalar (.int _)) => true
  | _ => false

/-- An explicit `valid` flag is set. -/
def validRetirement (fields : EventFields) : Bool :=
  !has fields "valid" || uint? 1 (get fields "valid") = some 1

/-- The fields of a retirement, each in the range of its width. -/
def retirementOf (fields : EventFields) : Option Retirement := do
  let order ← uint? 64 (get fields "order")
  let pcRdata ← uint? 32 (get fields "pc_rdata")
  let insn ← uint? 32 (get fields "insn")
  let trap ← uint? 1 (get fields "trap")
  let rs1Addr ← uint? 5 (get fields "rs1_addr")
  let rs1Rdata ← uint? 32 (get fields "rs1_rdata")
  let rs2Addr ← uint? 5 (get fields "rs2_addr")
  let rs2Rdata ← uint? 32 (get fields "rs2_rdata")
  let rdAddr ← uint? 5 (get fields "rd_addr")
  let rdWdata ← uint? 32 (get fields "rd_wdata")
  let memAddr ← uint? 32 (get fields "mem_addr")
  let memRmask ← uint? 4 (get fields "mem_rmask")
  let memWmask ← uint? 4 (get fields "mem_wmask")
  let memRdata ← uint? 32 (get fields "mem_rdata")
  let memWdata ← uint? 32 (get fields "mem_wdata")
  pure { order, pcRdata, insn, trap, rs1Addr, rs1Rdata, rs2Addr, rs2Rdata, rdAddr, rdWdata, memAddr,
         memRmask, memWmask, memRdata, memWdata }

/-- The record of a retirement. -/
def retireRecordOf (fields : EventFields) : RetireRecord :=
  if !validRetirement fields then .invalidValid
  else if retirementWidths.any fun field => !isInt (get fields field.1) then .missingFields
  else
    match retirementOf fields with
    | none => .outOfRange
    | some r => .fields r

/-- The transaction of a kind's channel, or the reason there is none. -/
def requireTransaction (channel : String) (σ : CpuScope) (identity : EventFields) :
    Except String CpuTransaction :=
  match transactionOf channel σ identity with
  | none => .error "malformed_transaction_identity"
  | some transaction => .ok transaction

/-- The observation of a kind, or the reason its fields are malformed. -/
def observationOf (kind : CpuKind) (σ : CpuScope) (fields : EventFields) : Except String CpuObservation :=
  match kind with
  | .instrResponse => do
      let transaction ← requireTransaction "instr" σ (identityOf kind fields)
      let fetch ← fetchOf transaction fields
      pure (.instrResponse fetch)
  | .dataAccept => do
      let transaction ← requireTransaction "data" σ (identityOf kind fields)
      match acceptanceOf transaction fields with
      | none => .error "malformed_acceptance_fields"
      | some beat => pure (.dataAccept beat)
  | .dataResponse => do
      let transaction ← requireTransaction "data" σ (identityOf kind fields)
      let response ← responseOf transaction fields
      pure (.dataResponse response)
  | .cpuRetire => pure (.retire (retireRecordOf fields))
  | .cpuReset => pure .reset
  | .cpuFlush => pure .flush

/-- **What an event says.** -/
def classify : CpuEvent → CpuRecord
  | .dict fields =>
      match kindOf fields with
      | none => .ignored
      | some kind =>
        match scopeOf (identityOf kind fields) with
        | none => .unidentified "missing_cpu_identity"
        | some σ =>
          if (!carriesTransaction kind && has fields "transaction") || !consistentScope fields σ then
            .unidentified "conflicting_cpu_identity"
          else
            match observationOf kind σ fields with
            | .error reason => .malformed σ reason
            | .ok observation => .observed σ observation
  | _ => .unidentified "malformed_cpu_event"

end CpuEvents

end MyFuzz
