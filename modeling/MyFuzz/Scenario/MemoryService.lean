import MyFuzz.Foundations.Effect
import MyFuzz.Foundations.Repr
import MyFuzz.Scenario.Ledger
import MyFuzz.Scenario.Memory

/-!
# Scenario/MemoryService — RAM responses frozen under a transaction ledger

A `MemoryService` answers the requests of one bus master.  Each request is executed once, under its
transaction key; the ledger keeps its receipt and returns that to every retransmission.

    request ─▸ validate ─▸ ledger ─┬─ seen: frozen receipt
                                   └─ new:  callback ─▸ memory, events ─▸ publication

With the commit stream enabled a completed store is also published: it waits in `pendingCommits`,
under the digest of its document, until a prefix of the stream is acknowledged.

The callback runs between two updates of the ledger and does not call it, so the state is split into
the ledger and the rest (`ServiceCore`).  Python objects compared by identity carry an allocation
number.  SHA-256 is a parameter, over payloads and over commit documents.
-/

namespace MyFuzz

open Outcome Repr

/-- The payload of a request. -/
inductive Payload where
  | read (address widthBytes : ℤ)
  | write (address value widthBytes byteEnable : ℤ)
  deriving DecidableEq

/-- A stored byte, as a commit document lists it. -/
structure CommitCell where
  byteOffset : ℕ
  value : ℕ
  version : Version
  writerKind : WriterKind
  writerEventId : String
  deriving DecidableEq

/-- What a store did, before its digest is added. -/
structure CommitDocument where
  schemaVersion : String := "memory_write_commit_receipt.v1"
  fullkey : TransactionKey
  memoryKind : String := "modeled_host_persistent_memory"
  memoryId : String
  generation : ℕ
  byteOffset : ℕ
  widthBytes : ℤ
  byteEnable : ℤ
  version : Option Version
  payloadSha256 : String
  commitStatus : String := "complete"
  performedEffect : Bool
  enabledByteCells : List CommitCell
  deriving DecidableEq

/-- A commit document with its digest: the frozen bytes of a receipt. -/
structure CommitRecord where
  document : CommitDocument
  commitId : String
  deriving DecidableEq

/-- The receipt of a store.  `ident` tells receipts apart as objects. -/
structure WriteReceipt where
  ident : ℕ
  transactionId : TransactionKey
  version : Option Version
  byteEnable : ℤ
  commitJson : CommitRecord
  deriving DecidableEq

/-- The receipt of a request. -/
inductive ServiceReceipt where
  | snapshot (snapshot : ReadSnapshot)
  | written (receipt : WriteReceipt)
  deriving DecidableEq

/-- The receipt is this very object. -/
def ServiceReceipt.Is : ServiceReceipt → WriteReceipt → Prop
  | .snapshot _, _ => False
  | .written r, receipt => r.ident = receipt.ident

instance (receipt : WriteReceipt) : DecidablePred (ServiceReceipt.Is · receipt)
  | .snapshot _ => inferInstanceAs (Decidable False)
  | .written r => inferInstanceAs (Decidable (r.ident = receipt.ident))

/-- An event of the commit stream. -/
structure CommitEvent where
  kind : String := "memory_write_commit"
  schemaVersion : String := "memory_write_commit.v1"
  serviceCommitSequence : ℕ
  transaction : TransactionKey
  commitId : String
  commitDocument : CommitRecord
  deriving DecidableEq

/-- A published store that is not acknowledged. -/
structure PendingCommit where
  receipt : WriteReceipt
  frozen : CommitRecord
  event : CommitEvent
  deriving DecidableEq

/-- The hexadecimal text of bytes. -/
def hexText (data : List UInt8) : String :=
  String.ofList (data.flatMap fun b => hexDigits 2 b.toNat)

/-- The value of bytes, the least significant first. -/
def littleEndian : List UInt8 → ℕ
  | [] => 0
  | b :: data => b.toNat + 256 * littleEndian data

/-- The events a service records. -/
inductive MemoryEvent where
  | instructionSource (address : ℤ) (dataHex sourceEventId : String) (generation : ℕ)
  | initialization (transaction : TransactionKey) (memoryId : String) (generation byteOffset : ℕ)
      (value : UInt8) (version : Version) (writerEventId : String)
  | read (transaction : TransactionKey) (address widthBytes : ℤ) (memoryId : String)
      (generation byteOffset value : ℕ) (dataHex : String) (versions : List Version)
      (writerEventIds : List String) (writerKinds : Option (List WriterKind))
  | write (transaction : TransactionKey) (address widthBytes : ℤ) (memoryId : String)
      (generation byteOffset : ℕ) (value byteEnable : ℤ) (version : Option Version)
  deriving DecidableEq

/-- The text of a key: the class name and every field. -/
def TransactionKey.str (printable : Char → Bool) (k : TransactionKey) : String :=
  "TransactionKey(execution_id=" ++ reprText printable k.executionId ++
    ", testcase_id=" ++ reprText printable k.testcaseId ++
    ", source_component=" ++ reprText printable k.sourceComponent ++
    ", source_epoch=" ++ k.sourceEpoch.repr ++ ", channel_id=" ++ reprText printable k.channelId ++
    ", source_sequence=" ++ k.sourceSequence.repr ++ ")"

/-- What a service is constructed with. -/
structure ServiceConfig where
  memory : MemoryConfig
  includeWriterKinds : Bool
  commitStreamCapacity : Option ℕ
  printable : Char → Bool
  digest : Payload → String
  commitHash : CommitDocument → String
  capacity_pos : ∀ n ∈ commitStreamCapacity, 0 < n

namespace ServiceConfig

/-- Stores are published. -/
def commitStreamEnabled (cfg : ServiceConfig) : Bool := cfg.commitStreamCapacity.isSome

/-- The text of a key under this configuration. -/
def str (cfg : ServiceConfig) (key : TransactionKey) : String := key.str cfg.printable

end ServiceConfig

/-- The state of a service beside its ledger.  `allocated` counts the receipts made. -/
structure ServiceCore where
  memory : PersistentMemory
  events : List MemoryEvent
  pendingCommits : Dict String PendingCommit
  issuedReceiptIds : Dict ℕ String
  serviceCommitSequence : ℕ
  commitReserved : ℕ
  allocated : ℕ

/-- The service. -/
structure MemoryService extends ServiceCore where
  ledger : TransactionLedger String ServiceReceipt

/-- The variables of a `write` call that its callback assigns. -/
structure WriteLocals where
  actualCallback : Option (WriteReceipt × CommitRecord)
  reserved : Bool

/-- Two integers below `2 ^ 64`. -/
def typedVersion (v : Version) : Prop := v.1 < 2 ^ 64 ∧ v.2 < 2 ^ 64

instance (v : Version) : Decidable (typedVersion v) :=
  inferInstanceAs (Decidable (v.1 < 2 ^ 64 ∧ v.2 < 2 ^ 64))

namespace ServiceCore

variable (cfg : ServiceConfig)

/-- Run a memory call. -/
def onMemory {α : Type} (f : Effect PersistentMemory α) : Effect ServiceCore α :=
  Effect.zoom memory (fun s memory => { s with memory }) f

/-- Append an event. -/
def record (event : MemoryEvent) : Effect ServiceCore Unit :=
  Effect.modify fun s => { s with events := s.events ++ [event] }

/-- The event of a byte the read materialised. -/
def initializationEvent (key : TransactionKey) (snapshot : ReadSnapshot) (byteOffset : ℕ) :
    Except Exn MemoryEvent :=
  let lane := byteOffset - snapshot.byteOffset
  match snapshot.data[lane]?, snapshot.versions[lane]?, snapshot.writerEventIds[lane]? with
  | some value, some version, some writerEventId =>
      .ok (.initialization key snapshot.memoryId snapshot.generation byteOffset value version
        writerEventId)
  | _, _, _ => .error (.other "IndexError")

/-- The event of a read. -/
def readEvent (key : TransactionKey) (address widthBytes : ℤ) (snapshot : ReadSnapshot) : MemoryEvent :=
  .read key address widthBytes snapshot.memoryId snapshot.generation snapshot.byteOffset
    (littleEndian snapshot.data) (hexText snapshot.data) snapshot.versions snapshot.writerEventIds
    (if cfg.includeWriterKinds then some snapshot.writerKinds else none)

/-- The callback of a read. -/
def readCommit (key : TransactionKey) (address widthBytes : ℤ) : Effect ServiceCore ServiceReceipt := do
  let snapshot ← onMemory fun m => m.read cfg.memory address widthBytes (cfg.str key)
  Effect.each (fun byteOffset => do
    let event ← Effect.lift (initializationEvent key snapshot byteOffset)
    record event) snapshot.materializedOffsets
  record (readEvent cfg key address widthBytes snapshot)
  pure (.snapshot snapshot)

/-- No room is left in the commit stream. -/
def streamFull (s : ServiceCore) : Bool :=
  match cfg.commitStreamCapacity with
  | none => false
  | some capacity => s.pendingCommits.length + s.commitReserved ≥ capacity

/-- The refusal of a store that the stream has no room for. -/
def capacityExceeded : Exn :=
  .runtimeError "memory commit stream capacity exceeded before effect"

/-- The committed memory is not what the store should have left. -/
def outcomeConflict : Exn := .runtimeError "host memory write outcome conflicts with commit"

/-- The version a store returned is the one its memory is at. -/
def VersionAgrees (byteEnable : ℤ) (generation sequence : ℕ) : Option Version → Prop
  | none => byteEnable = 0
  | some v =>
      byteEnable ≠ 0 ∧ typedVersion v ∧ v.1 = generation ∧ v.2 = sequence ∧ v.2 ≠ 0

instance (byteEnable : ℤ) (generation sequence : ℕ) :
    DecidablePred (VersionAgrees byteEnable generation sequence)
  | none => inferInstanceAs (Decidable (byteEnable = 0))
  | some v => inferInstanceAs (Decidable
      (byteEnable ≠ 0 ∧ typedVersion v ∧ v.1 = generation ∧ v.2 = sequence ∧ v.2 ≠ 0))

/-- A stored byte read back, checked against the store. -/
def committedCell (m : PersistentMemory) (memoryId : String) (byteOffset value : ℕ)
    (version : Option Version) (writer : String) (lane : ℕ) : Except Exn CommitCell :=
  match m.bytes.get? (memoryId, byteOffset + lane) with
  | none => .error (.other "KeyError")
  | some cell => do
      ensure (typedVersion cell.version ∧ version = some cell.version ∧ cell.value < 256 ∧
        cell.writerKind = .store ∧ cell.writerEventId = writer ∧
        cell.value = value >>> (8 * lane) &&& 0xFF) outcomeConflict
      .ok ⟨byteOffset + lane, cell.value, cell.version, cell.writerKind, cell.writerEventId⟩

/-- The document of a store. -/
def commitDocument (key : TransactionKey) (memoryId : String) (generation byteOffset : ℕ)
    (address value widthBytes byteEnable : ℤ) (version : Option Version) (cells : List CommitCell) :
    CommitDocument where
  fullkey := key
  memoryId := memoryId
  generation := generation
  byteOffset := byteOffset
  widthBytes := widthBytes
  byteEnable := byteEnable
  version := version
  payloadSha256 := cfg.digest (.write address value widthBytes byteEnable)
  performedEffect := version.isSome
  enabledByteCells := cells

/-- Take a place in the commit stream. -/
def reserve : Effect (ServiceCore × WriteLocals) Unit := do
  let s ← Effect.get
  Effect.lift (ensure (s.1.streamFull cfg = false) capacityExceeded)
  if cfg.commitStreamEnabled then
    Effect.modify fun s =>
      ({ s.1 with commitReserved := s.1.commitReserved + 1 }, { s.2 with reserved := true })

/-- Run a part of a callback that assigns no local. -/
def onCore {α τ : Type} (x : Effect ServiceCore α) : Effect (ServiceCore × τ) α :=
  Effect.zoom Prod.fst (fun s core => (core, s.2)) x

/-- A fresh receipt of a store. -/
def allocate (key : TransactionKey) (version : Option Version) (byteEnable : ℤ)
    (commitJson : CommitRecord) : Effect ServiceCore WriteReceipt := do
  let s ← Effect.get
  Effect.modify fun s => { s with allocated := s.allocated + 1 }
  pure ⟨s.allocated, key, version, byteEnable, commitJson⟩

/-- The callback of a store after the memory's `write`: compare what it committed with what was
asked, and freeze the document. -/
def confirmStore (key : TransactionKey) (address value widthBytes byteEnable : ℤ)
    (memoryId : String) (generation byteOffset : ℕ) (version : Option Version) :
    Effect (ServiceCore × WriteLocals) ServiceReceipt := do
  let (actualRegion, actualOffset) ← Effect.lift (cfg.memory.resolve address widthBytes true)
  let s ← Effect.get
  Effect.lift (ensure (memoryId ≠ "" ∧ generation < 2 ^ 64 ∧ byteOffset < 2 ^ 64 ∧
      memoryId = actualRegion.memoryId ∧ byteOffset = actualOffset ∧ generation = s.1.memory.generation)
    (.runtimeError "host memory span identity conflicts with commit"))
  Effect.lift (ensure
    (VersionAgrees byteEnable generation (s.1.memory.commitSequence memoryId) version)
    outcomeConflict)
  let cells ← Effect.lift ((PersistentMemory.enabledLanes widthBytes.toNat byteEnable.toNat).mapM
    (committedCell s.1.memory memoryId byteOffset value.toNat version (cfg.str key)))
  let document := commitDocument cfg key memoryId generation byteOffset address value widthBytes
    byteEnable version cells
  let frozen : CommitRecord := ⟨document, cfg.commitHash document⟩
  let receipt ← onCore (allocate key version byteEnable frozen)
  onCore (record (.write key address widthBytes memoryId generation byteOffset value byteEnable
    version))
  Effect.modify fun s => (s.1, { s.2 with actualCallback := some (receipt, frozen) })
  pure (.written receipt)

/-- The callback of a store. -/
def writeCommit (key : TransactionKey) (address value widthBytes byteEnable : ℤ) :
    Effect (ServiceCore × WriteLocals) ServiceReceipt := do
  reserve cfg
  let s ← Effect.get
  let (region, byteOffset) ← Effect.lift (cfg.memory.resolve address widthBytes true)
  let version ← onCore (onMemory fun m =>
    m.write cfg.memory address value widthBytes byteEnable (cfg.str key))
  confirmStore cfg key address value widthBytes byteEnable region.memoryId s.1.memory.generation
    byteOffset version

end ServiceCore

namespace MemoryService

variable (cfg : ServiceConfig)

/-- A new service. -/
def init : MemoryService where
  memory := .init cfg.memory
  events := []
  pendingCommits := .empty
  issuedReceiptIds := .empty
  serviceCommitSequence := 0
  commitReserved := 0
  allocated := 0
  ledger := .init

/-- Execute a request once: the operation runs on everything but the ledger. -/
def executeOnce {τ : Type} (s : MemoryService) (key : TransactionKey) (payload : Payload)
    (operation : Effect (ServiceCore × τ) ServiceReceipt) (locals : τ) :
    Except Exn ServiceReceipt × MemoryService × τ :=
  let (result, ledger, core, locals) := s.ledger.runOperation
    (s.ledger.executeBegin (fun p => .ok (cfg.digest p)) key payload) operation
    (s.toServiceCore, locals)
  (result, ⟨core, ledger⟩, locals)

/-- Answer a read. -/
def read (s : MemoryService) (key : TransactionKey) (address widthBytes : ℤ) :
    Except Exn ServiceReceipt × MemoryService :=
  match s.memory.validateRead cfg.memory address widthBytes with
  | .error e => (.error e, s)
  | .ok () =>
      let (result, s, _) := s.executeOnce cfg key (.read address widthBytes)
        (ServiceCore.onCore (ServiceCore.readCommit cfg key address widthBytes)) ()
      (result, s)

/-- Everything `write` checks before the ledger. -/
def admitWrite (s : MemoryService) (key : TransactionKey)
    (address value widthBytes byteEnable : ℤ) : Except Exn Unit := do
  ensure (key.sourceEpoch < 2 ^ 64 ∧ key.sourceSequence < 2 ^ 64)
    (.valueError "write requires a complete typed transaction key")
  s.memory.validateWrite cfg.memory address value widthBytes byteEnable
  ensure (¬ (s.ledger.entries.get? key = none ∧ s.streamFull cfg = true))
    ServiceCore.capacityExceeded

/-- Publish a completed store in the commit stream. -/
def publish (s : MemoryService) (key : TransactionKey) (result : ServiceReceipt)
    (receipt : WriteReceipt) (frozen : CommitRecord) : Except Exn ServiceReceipt × MemoryService :=
  let completed : Bool := match s.ledger.entries.get? key with
    | some ⟨_, .complete r⟩ => decide (r.Is receipt)
    | _ => false
  if completed = true ∧ result.Is receipt ∧ receipt.commitJson = frozen then
    let event : CommitEvent := {
      serviceCommitSequence := s.serviceCommitSequence + 1
      transaction := key
      commitId := frozen.commitId
      commitDocument := frozen }
    (.ok result, { s with
      serviceCommitSequence := s.serviceCommitSequence + 1
      pendingCommits := s.pendingCommits.set frozen.commitId ⟨receipt, frozen, event⟩
      issuedReceiptIds := s.issuedReceiptIds.set receipt.ident frozen.commitId })
  else
    (.error (.runtimeError "memory commit publication requires actual completed callback"), s)

/-- Give the reserved place back. -/
def release (s : MemoryService) (locals : WriteLocals) : MemoryService :=
  if locals.reserved then { s with commitReserved := s.commitReserved - 1 } else s

/-- The end of a store: publish it if its callback ran, and give the reserved place back. -/
def finishWrite (s : MemoryService) (key : TransactionKey) (result : Except Exn ServiceReceipt)
    (locals : WriteLocals) : Except Exn ServiceReceipt × MemoryService :=
  let (result, s) := match result, cfg.commitStreamEnabled, locals.actualCallback with
    | .ok result, true, some (receipt, frozen) => s.publish key result receipt frozen
    | result, _, _ => (result, s)
  (result, s.release locals)

/-- Answer a store. -/
def write (s : MemoryService) (key : TransactionKey) (address value widthBytes byteEnable : ℤ) :
    Except Exn ServiceReceipt × MemoryService :=
  match s.admitWrite cfg key address value widthBytes byteEnable with
  | .error e => (.error e, s)
  | .ok () =>
      let (result, s, locals) := s.executeOnce cfg key
        (.write address value widthBytes byteEnable)
        (ServiceCore.writeCommit cfg key address value widthBytes byteEnable) ⟨none, false⟩
      s.finishWrite cfg key result locals

/-- Admit instructions and record their source. -/
def acceptInstructions (s : MemoryService) (address : ℤ) (data : List UInt8)
    (sourceEventId : String) : Except Exn InstructionAcceptance × MemoryService :=
  let (result, core) := (do
    let receipt ← ServiceCore.onMemory fun m =>
      m.acceptInstructions cfg.memory address data sourceEventId
    let s ← Effect.get
    let receipt ← Effect.lift (s.memory.validateInstructionAcceptance receipt)
    ServiceCore.record (.instructionSource address (hexText data) sourceEventId
      s.memory.generation)
    pure receipt : Effect ServiceCore InstructionAcceptance) s.toServiceCore
  (result, ⟨core, s.ledger⟩)

/-- Look up a published store that is not acknowledged. -/
def lookupPendingCommit (s : MemoryService) (commitId : String) : Except Exn (WriteReceipt × CommitEvent) :=
  match s.pendingCommits.get? commitId with
  | none => .error (.valueError "commit was not issued or has been acknowledged")
  | some pending => do
      let completed : Bool := match s.ledger.entries.get? pending.receipt.transactionId with
        | some ⟨_, .complete r⟩ => decide (r.Is pending.receipt)
        | _ => false
      ensure (completed = true ∧ pending.receipt.commitJson = pending.frozen)
        (.runtimeError "issued commit no longer matches the completed callback receipt")
      .ok (pending.receipt, pending.event)

/-- Look up a published store by its receipt. -/
def lookupIssuedWriteCommit (s : MemoryService) (receipt : WriteReceipt) : Except Exn CommitEvent :=
  match s.issuedReceiptIds.get? receipt.ident with
  | none => .error (.valueError "receipt was not issued or has been acknowledged")
  | some commitId => do
      let (actual, event) ← s.lookupPendingCommit commitId
      ensure (actual.ident = receipt.ident)
        (.valueError "receipt is not the actual issued callback object")
      .ok event

/-- The first events of the commit stream; they stay pending. -/
def drainCommitEvents (s : MemoryService) (maxEvents : Option ℤ) : Except Exn (List CommitEvent) := do
  ensure (∀ n ∈ maxEvents, 1 ≤ n) (.valueError "drain limit must be a positive integer")
  let keys := match maxEvents with
    | none => s.pendingCommits.keys
    | some n => s.pendingCommits.keys.take n.toNat
  keys.mapM fun key => (s.lookupPendingCommit key).map Prod.snd

/-- Release one published store. -/
def releaseCommit (key : String) : Effect MemoryService Unit := do
  let s ← Effect.get
  match s.pendingCommits.get? key with
  | none => Effect.lift (.error (.other "KeyError"))
  | some pending => do
      Effect.modify fun s => { s with pendingCommits := s.pendingCommits.erase key }
      Effect.lift (ensure ((s.issuedReceiptIds.get? pending.receipt.ident).isSome) (.other "KeyError"))
      Effect.modify fun s =>
        { s with issuedReceiptIds := s.issuedReceiptIds.erase pending.receipt.ident }

/-- Acknowledge a prefix of the commit stream. -/
def ackCommitEvents (s : MemoryService) (commitIds : List String) : Except Exn Unit × MemoryService :=
  if commitIds = s.pendingCommits.keys.take commitIds.length then
    Effect.each releaseCommit commitIds s
  else (.error (.valueError "ack must name the exact pending commit prefix"), s)

end MemoryService

/-- The calls on a service, and the calls made on its memory beside it. -/
inductive ServiceCall where
  | read (key : TransactionKey) (address widthBytes : ℤ)
  | write (key : TransactionKey) (address value widthBytes byteEnable : ℤ)
  | acceptInstructions (address : ℤ) (data : List UInt8) (sourceEventId : String)
  | memory (call : MemoryCall)
  | lookupPendingCommit (commitId : String)
  | lookupIssuedWriteCommit (receipt : WriteReceipt)
  | drainCommitEvents (maxEvents : Option ℤ)
  | ackCommitEvents (commitIds : List String)
  deriving DecidableEq

/-- What a service call returns. -/
inductive ServiceAnswer where
  | receipt (receipt : ServiceReceipt)
  | acceptance (receipt : InstructionAcceptance)
  | memory (answer : MemoryAnswer)
  | pending (receipt : WriteReceipt) (event : CommitEvent)
  | issued (event : CommitEvent)
  | drained (events : List CommitEvent)
  | acknowledged
  deriving DecidableEq

namespace MemoryService

variable (cfg : ServiceConfig)

/-- One call, with its answer. -/
def call (s : MemoryService) : ServiceCall → Except Exn ServiceAnswer × MemoryService
  | .read key address widthBytes => (s.read cfg key address widthBytes).map (·.map .receipt) id
  | .write key address value widthBytes byteEnable =>
      (s.write cfg key address value widthBytes byteEnable).map (·.map .receipt) id
  | .acceptInstructions address data sourceEventId =>
      (s.acceptInstructions cfg address data sourceEventId).map (·.map .acceptance) id
  | .memory c => ((s.memory.call cfg.memory c).1.map .memory,
      { s with memory := (s.memory.call cfg.memory c).2 })
  | .lookupPendingCommit commitId =>
      ((s.lookupPendingCommit commitId).map fun r => .pending r.1 r.2, s)
  | .lookupIssuedWriteCommit receipt => ((s.lookupIssuedWriteCommit receipt).map .issued, s)
  | .drainCommitEvents maxEvents => ((s.drainCommitEvents maxEvents).map .drained, s)
  | .ackCommitEvents commitIds => (s.ackCommitEvents commitIds).map (·.map fun _ => .acknowledged) id

/-- The service after a call. -/
def step (s : MemoryService) (c : ServiceCall) : MemoryService := (s.call cfg c).2

end MemoryService

end MyFuzz
