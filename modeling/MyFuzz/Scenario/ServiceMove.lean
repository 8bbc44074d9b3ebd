import MyFuzz.Scenario.LedgerInvariant
import MyFuzz.Scenario.ServiceCallback

/-!
# Scenario/ServiceMove — what one service call can do

A call is refused and changes nothing, or it is one of the moves below.  The callback of a request
that starts was admitted before, so a read always completes; a store completes when its version
fits in 64 bits and is uncertain otherwise.

    request ─┬─ refused / replayed      nothing changes
             ├─ fetched                 memory, events, ledger
             ├─ stored                  memory, events, ledger, stream
             └─ uncertain               memory, ledger

`Inv` is what every move keeps, and `move_call` sends every call to a move.
-/

namespace MyFuzz

open Outcome PersistentMemory ServiceCore TransactionLedger Dict

/-! ## The ledger around a callback -/

namespace TransactionLedger

variable {δ ρ : Type}

/-- A key that `execute_once` starts. -/
structure Fresh (L : TransactionLedger δ ρ) (key : TransactionKey) : Prop where
  absent : L.entries.get? key = none
  channel : key.sourceSequence = L.nextChannel key.channel
  target : key.sourceSequence = L.nextTarget key.channel

/-- The ledger after a fresh key's operation returned. -/
def completed (L : TransactionLedger δ ρ) (key : TransactionKey) (d : δ) (r : ρ) : TransactionLedger δ ρ :=
  (L.push key ⟨d, .targetInflight⟩).opReturned ⟨key, L.nextTarget key.channel⟩ r

/-- The ledger after a fresh key's operation raised. -/
def raised (L : TransactionLedger δ ρ) (key : TransactionKey) (d : δ) : TransactionLedger δ ρ :=
  (L.push key ⟨d, .targetInflight⟩).opRaised ⟨key, L.nextTarget key.channel⟩

theorem get?_completed (L : TransactionLedger δ ρ) (key : TransactionKey) (d : δ) (r : ρ)
    (k : TransactionKey) : (L.completed key d r).entries.get? k
      = if k = key then some ⟨d, .complete r⟩ else L.entries.get? k := by
  have hkey : (L.push key ⟨d, .targetInflight⟩).entries.get? key = some ⟨d, .targetInflight⟩ := by
    rw [get?_push, if_pos rfl]
  rw [completed, opReturned, entries_setTarget, get?_setStatus hkey, get?_push]
  split_ifs <;> rfl

theorem get?_raised (L : TransactionLedger δ ρ) (key : TransactionKey) (d : δ) (k : TransactionKey) :
    (L.raised key d).entries.get? k
      = if k = key then some ⟨d, .uncertainEffect⟩ else L.entries.get? k := by
  have hkey : (L.push key ⟨d, .targetInflight⟩).entries.get? key = some ⟨d, .targetInflight⟩ := by
    rw [get?_push, if_pos rfl]
  rw [raised, opRaised, get?_setStatus hkey, get?_push]
  split_ifs <;> rfl

end TransactionLedger

/-- A request: its key and payload. -/
def ServiceCall.request? : ServiceCall → Option (TransactionKey × Payload)
  | .read key address widthBytes => some (key, .read address widthBytes)
  | .write key address value widthBytes byteEnable =>
      some (key, .write address value widthBytes byteEnable)
  | _ => none

namespace MemoryService

variable {cfg : ServiceConfig} {s : MemoryService}

variable {key : TransactionKey} {r : ServiceReceipt} {τ : Type} {receipt : WriteReceipt}
  {d : String} {s' : MemoryService} {c : ServiceCall} {a : Except Exn ServiceAnswer}

theorem executeBegin_of_fresh (h : s.ledger.Fresh key) (payload : Payload) :
    s.ledger.executeBegin (fun p => .ok (cfg.digest p)) key payload
      = .ok (.started (s.ledger.push key ⟨cfg.digest payload, .targetInflight⟩)
        ⟨key, s.ledger.nextTarget key.channel⟩) := by
  simp only [executeBegin, ok_bind, h.absent]
  rw [ensure_of h.channel, ok_bind, ensure_of h.target, ok_bind]

section Execute

variable {τ : Type} {key : TransactionKey} {payload : Payload}
  {operation : Effect (ServiceCore × τ) ServiceReceipt} {locals l : τ} {core : ServiceCore}

/-- The operation of a fresh key returns. -/
theorem executeOnce_of_fresh (hfresh : s.ledger.Fresh key)
    (h : operation (s.toServiceCore, locals) = (.ok r, core, l)) :
    s.executeOnce cfg key payload operation locals
      = (.ok r, ⟨core, s.ledger.completed key (cfg.digest payload) r⟩, l) := by
  rw [executeOnce, executeBegin_of_fresh hfresh]
  simp only [runOperation, h]
  rfl

/-- The operation of a fresh key raises. -/
theorem executeOnce_of_fresh_error (hfresh : s.ledger.Fresh key) {e : Exn}
    (h : operation (s.toServiceCore, locals) = (.error e, core, l)) :
    s.executeOnce cfg key payload operation locals
      = (.error e, ⟨core, s.ledger.raised key (cfg.digest payload)⟩, l) := by
  rw [executeOnce, executeBegin_of_fresh hfresh]
  simp only [runOperation, h]
  rfl

end Execute

/-- **A request is refused, replayed or started.** -/
theorem executeOnce_cases (cfg : ServiceConfig) (s : MemoryService) (key : TransactionKey)
    (payload : Payload) (operation : Effect (ServiceCore × τ) ServiceReceipt) (locals : τ) :
    (∃ e, s.executeOnce cfg key payload operation locals = (.error e, s, locals)) ∨
    (∃ r, s.ledger.entries.get? key = some ⟨cfg.digest payload, .complete r⟩ ∧
      s.executeOnce cfg key payload operation locals = (.ok r, s, locals)) ∨
    s.ledger.Fresh key := by
  cases hb : s.ledger.executeBegin (fun p => .ok (cfg.digest p)) key payload with
  | error e =>
    refine .inl ⟨e, ?_⟩
    rw [executeOnce, hb]
    rfl
  | ok b =>
    obtain ⟨d, hd, h⟩ := executeBegin_cases hb
    cases hd
    rcases h with ⟨⟨d, st⟩, r, hentry, rfl, rfl, rfl⟩ | ⟨habs, hch, htg, -⟩
    · refine .inr (.inl ⟨r, hentry, ?_⟩)
      rw [executeOnce, hb]
      rfl
    · exact .inr (.inr ⟨habs, hch, htg⟩)

/-- **A completed key with the same payload is replayed.** -/
theorem executeOnce_of_complete {payload : Payload}
    (h : s.ledger.entries.get? key = some ⟨cfg.digest payload, .complete r⟩)
    (operation : Effect (ServiceCore × τ) ServiceReceipt) (locals : τ) :
    s.executeOnce cfg key payload operation locals = (.ok r, s, locals) := by
  have hb : s.ledger.executeBegin (fun p => .ok (cfg.digest p)) key payload = .ok (.cached r) := by
    simp only [executeBegin, ok_bind, h, ensure_true]
  rw [executeOnce, hb]
  rfl

/-! ## The invariant -/

/-- A pending commit is what its completed store published. -/
structure Published (s : MemoryService) (commitId : String) (p : PendingCommit) : Prop where
  commitId_eq : p.frozen.commitId = commitId
  frozen_eq : p.receipt.commitJson = p.frozen
  complete : ∃ d, s.ledger.entries.get? p.receipt.transactionId
    = some ⟨d, .complete (.written p.receipt)⟩
  issued : s.issuedReceiptIds.get? p.receipt.ident = some commitId
  allocated : p.receipt.ident < s.allocated
  event : p.event.transaction = p.receipt.transactionId ∧ p.event.commitId = commitId ∧
    p.event.commitDocument = p.frozen

/-- What every call keeps. -/
structure Inv (cfg : ServiceConfig) (s : MemoryService) : Prop where
  memory : s.memory.Inv cfg.memory
  unreserved : s.commitReserved = 0
  within_capacity : ∀ n ∈ cfg.commitStreamCapacity, s.pendingCommits.length ≤ n
  published : ∀ id p, s.pendingCommits.get? id = some p → s.Published id p
  idents : ∀ id id' p p', s.pendingCommits.get? id = some p → s.pendingCommits.get? id' = some p' →
    p.receipt.ident = p'.receipt.ident → id = id'

theorem inv_init (cfg : ServiceConfig) : (init cfg).Inv cfg where
  memory := PersistentMemory.inv_init cfg.memory
  unreserved := rfl
  within_capacity _ _ := Nat.zero_le _
  published id p h := by cases h
  idents id id' p p' h := by cases h

/-! ## The moves -/

/-- The service after a completed store was published. -/
def published (cfg : ServiceConfig) (s : MemoryService) (key : TransactionKey)
    (receipt : WriteReceipt) : MemoryService :=
  if cfg.commitStreamEnabled then
    { s with
      serviceCommitSequence := s.serviceCommitSequence + 1
      pendingCommits := s.pendingCommits.set receipt.commitJson.commitId
        ⟨receipt, receipt.commitJson, {
          serviceCommitSequence := s.serviceCommitSequence + 1
          transaction := key
          commitId := receipt.commitJson.commitId
          commitDocument := receipt.commitJson }⟩
      issuedReceiptIds := s.issuedReceiptIds.set receipt.ident receipt.commitJson.commitId }
  else s

/-- Everything a call can do, with what its checks established. -/
inductive Move (cfg : ServiceConfig) (s : MemoryService) :
    ServiceCall → Except Exn ServiceAnswer → MemoryService → Prop where
  | refused {c : ServiceCall} {e : Exn} : Move cfg s c (.error e) s
  | replayed {c : ServiceCall} {key : TransactionKey} {payload : Payload} {r : ServiceReceipt}
      (hc : c.request? = some (key, payload))
      (hentry : s.ledger.entries.get? key = some ⟨cfg.digest payload, .complete r⟩) :
      Move cfg s c (.ok (.receipt r)) s
  | fetched {key : TransactionKey} {address width : ℤ} {region : MemoryRegion} {offset : ℕ}
      (hfresh : s.ledger.Fresh key)
      (hres : cfg.memory.resolve address width false = .ok (region, offset))
      (hr : Readable cfg.memory s.memory region offset width.toNat) {m' : PersistentMemory}
      (hm' : m' = s.memory.materialize cfg.memory region.memoryId
        (span region.memoryId offset width.toNat)) {snapshot : ReadSnapshot}
      (hs : snapshot = snapshotOf s.memory m' region offset width.toNat (cfg.str key))
      {events : List MemoryEvent}
      (hevents : snapshot.materializedOffsets.mapM (initializationEvent key snapshot) = .ok events) :
      Move cfg s (.read key address width) (.ok (.receipt (.snapshot snapshot)))
        { s with
          memory := m'
          events := s.events ++ events ++ [readEvent cfg key address width snapshot]
          ledger := s.ledger.completed key (cfg.digest (.read address width)) (.snapshot snapshot) }
  | stored {key : TransactionKey} {address value width byteEnable : ℤ} {region : MemoryRegion}
      {offset : ℕ} (hfresh : s.ledger.Fresh key) (hfull : s.streamFull cfg = false)
      (hres : cfg.memory.resolve address width true = .ok (region, offset))
      (hfits : Fits value width byteEnable)
      (hroom : Storable cfg.memory s.memory region offset width.toNat byteEnable.toNat)
      (hcount : Countable s.memory region.memoryId byteEnable) {receipt : WriteReceipt}
      (hreceipt : receipt = storeReceipt cfg s.toServiceCore key region.memoryId offset address value
        width byteEnable) :
      Move cfg s (.write key address value width byteEnable) (.ok (.receipt (.written receipt)))
        (published cfg { s with
          memory := s.memory.storeMemory region.memoryId offset value width byteEnable (cfg.str key)
          events := s.events ++ [storeEvent s.memory key region.memoryId offset address value width
            byteEnable]
          allocated := s.allocated + 1
          ledger := s.ledger.completed key (cfg.digest (.write address value width byteEnable))
            (.written receipt) } key receipt)
  | uncertain {key : TransactionKey} {address value width byteEnable : ℤ} {region : MemoryRegion}
      {offset : ℕ} {e : Exn} (hfresh : s.ledger.Fresh key) (hfull : s.streamFull cfg = false)
      (hres : cfg.memory.resolve address width true = .ok (region, offset))
      (hfits : Fits value width byteEnable)
      (hroom : Storable cfg.memory s.memory region offset width.toNat byteEnable.toNat)
      (hcount : ¬ Countable s.memory region.memoryId byteEnable) (he : e ≠ capacityExceeded) :
      Move cfg s (.write key address value width byteEnable) (.error e)
        { s with
          memory := s.memory.storeMemory region.memoryId offset value width byteEnable (cfg.str key)
          ledger := s.ledger.raised key (cfg.digest (.write address value width byteEnable)) }
  | accepted {address : ℤ} {data : List UInt8} {sourceEventId : String}
      {receipt : InstructionAcceptance} {m' : PersistentMemory}
      (h : s.memory.acceptInstructions cfg.memory address data sourceEventId = (.ok receipt, m')) :
      Move cfg s (.acceptInstructions address data sourceEventId) (.ok (.acceptance receipt))
        { s with
          memory := m'
          events := s.events ++ [.instructionSource address (hexText data) sourceEventId
            m'.generation] }
  | memory {c : MemoryCall} {a : Except Exn ServiceAnswer}
      (ha : a = (s.memory.call cfg.memory c).1.map .memory) :
      Move cfg s (.memory c) a { s with memory := (s.memory.call cfg.memory c).2 }
  | lookedUp {commitId : String} {receipt : WriteReceipt} {event : CommitEvent}
      (h : s.lookupPendingCommit commitId = .ok (receipt, event)) :
      Move cfg s (.lookupPendingCommit commitId) (.ok (.pending receipt event)) s
  | issued {receipt : WriteReceipt} {event : CommitEvent}
      (h : s.lookupIssuedWriteCommit receipt = .ok event) :
      Move cfg s (.lookupIssuedWriteCommit receipt) (.ok (.issued event)) s
  | drained {maxEvents : Option ℤ} {events : List CommitEvent}
      (h : s.drainCommitEvents maxEvents = .ok events) :
      Move cfg s (.drainCommitEvents maxEvents) (.ok (.drained events)) s
  | acknowledged {ids : List String} (hids : ids = s.pendingCommits.keys.take ids.length)
      {pending : Dict String PendingCommit} {issued : Dict ℕ String}
      (hpending : pending.entries = s.pendingCommits.entries.drop ids.length)
      (hissued : ∀ id p, pending.get? id = some p → issued.get? p.receipt.ident = some id) :
      Move cfg s (.ackCommitEvents ids) (.ok .acknowledged)
        { s with pendingCommits := pending, issuedReceiptIds := issued }

theorem move_read (hs : s.Inv cfg) (key : TransactionKey) (address width : ℤ) :
    Move cfg s (.read key address width) ((s.read cfg key address width).1.map .receipt)
      (s.read cfg key address width).2 := by
  rw [read]
  cases hv : s.memory.validateRead cfg.memory address width with
  | error e => exact .refused
  | ok u =>
    obtain ⟨region, offset, hres, hr⟩ := validateRead_eq_ok.1 hv
    obtain ⟨events, hevents, hcommit⟩ :=
      readCommit_of_readable (show s.toServiceCore.memory.Inv cfg.memory from hs.memory) key hres hr
        rfl rfl
    have hop : onCore (readCommit cfg key address width) (s.toServiceCore, ()) = _ :=
      Effect.zoom_of_eq hcommit
    rcases executeOnce_cases cfg s key (.read address width)
      (onCore (readCommit cfg key address width)) () with ⟨e, h⟩ | ⟨r, hentry, h⟩ | hfresh
    · rw [h]
      exact .refused
    · rw [h]
      exact .replayed rfl hentry
    · rw [executeOnce_of_fresh hfresh hop]
      exact .fetched hfresh hres hr rfl rfl hevents

theorem admitWrite_eq_ok {address value width byteEnable : ℤ} {u : Unit} :
    s.admitWrite cfg key address value width byteEnable = .ok u ↔
      (key.sourceEpoch < 2 ^ 64 ∧ key.sourceSequence < 2 ^ 64) ∧
      s.memory.validateWrite cfg.memory address value width byteEnable = .ok () ∧
      ¬ (s.ledger.entries.get? key = none ∧ s.streamFull cfg = true) := by
  rw [admitWrite, ensure_ok, bind_ok]
  constructor
  · rintro ⟨hkey, _, hv, h⟩
    exact ⟨hkey, hv, ensure_eq_ok.1 h⟩
  · rintro ⟨hkey, hv, h⟩
    exact ⟨hkey, (), hv, ensure_eq_ok.2 h⟩

/-- A completed store is published: its ledger entry is the receipt just returned. -/
theorem publish_eq (hen : cfg.commitStreamEnabled = true)
    (h : s.ledger.entries.get? key = some ⟨d, .complete (.written receipt)⟩) :
    s.publish key (.written receipt) receipt receipt.commitJson
      = (.ok (.written receipt), published cfg s key receipt) := by
  rw [publish, published, if_pos hen, h]
  exact if_pos ⟨decide_eq_true rfl, rfl, rfl⟩

/-- The place taken by a callback is given back. -/
theorem release_places (s : MemoryService) (callback : Option (WriteReceipt × CommitRecord)) :
    ({ s with commitReserved := s.commitReserved + places cfg } : MemoryService).release
      ⟨callback, cfg.commitStreamEnabled⟩ = s := by
  unfold release places
  cases cfg.commitStreamEnabled <;> rfl

/-- **The end of a store that completed.** -/
theorem finishWrite_returned (cfg : ServiceConfig)
    (h : s.ledger.entries.get? key = some ⟨d, .complete (.written receipt)⟩) :
    ({ s with commitReserved := s.commitReserved + places cfg } : MemoryService).finishWrite cfg key
      (.ok (.written receipt)) ⟨some (receipt, receipt.commitJson), cfg.commitStreamEnabled⟩
        = (.ok (.written receipt), published cfg s key receipt) := by
  cases hen : cfg.commitStreamEnabled with
  | false =>
    have hplaces : places cfg = 0 := by
      simp [places, hen]
    simp only [finishWrite, hen, hplaces, published]
    rfl
  | true =>
    have hplaces : places cfg = 1 := by
      simp [places, hen]
    simp only [finishWrite, hen]
    rw [publish_eq (s := { s with commitReserved := s.commitReserved + places cfg }) hen h, hplaces]
    simp only [published, hen, if_true, release]
    rfl

theorem finishWrite_raised (cfg : ServiceConfig) (key : TransactionKey) (e : Exn) :
    ({ s with commitReserved := s.commitReserved + places cfg } : MemoryService).finishWrite cfg key
      (.error e) ⟨none, cfg.commitStreamEnabled⟩ = (.error e, s) :=
  congrArg (Prod.mk _) (release_places s none)

/-- A replayed store is not published again. -/
theorem finishWrite_replayed (key : TransactionKey) (r : ServiceReceipt) :
    s.finishWrite cfg key (.ok r) ⟨none, false⟩ = (.ok r, s) := by
  unfold finishWrite
  cases cfg.commitStreamEnabled <;> rfl

section Write

variable {key : TransactionKey} {address value width byteEnable : ℤ} {region : MemoryRegion}
  {offset : ℕ} (hchecks : s.admitWrite cfg key address value width byteEnable = .ok ())
  (hfresh : s.ledger.Fresh key) (hres : cfg.memory.resolve address width true = .ok (region, offset))

include hchecks hfresh hres

/-- What the checks before the ledger established of a fresh store. -/
theorem storable_of_admitWrite : s.streamFull cfg = false ∧ Fits value width byteEnable ∧
    Storable cfg.memory s.memory region offset width.toNat byteEnable.toNat := by
  obtain ⟨-, hv, hcap⟩ := admitWrite_eq_ok.1 hchecks
  obtain ⟨region', offset', hres', hfits, hroom⟩ := validateWrite_eq_ok.1 hv
  obtain ⟨rfl, rfl⟩ := Prod.mk.inj (Except.ok.inj (hres'.symm.trans hres))
  exact ⟨by simpa using fun h => hcap ⟨hfresh.absent, h⟩, hfits, hroom⟩

/-- **A fresh store that is admitted completes**, when its version fits. -/
theorem write_of_countable (hcount : Countable s.memory region.memoryId byteEnable)
    (hreceipt : receipt = storeReceipt cfg s.toServiceCore key
      region.memoryId offset address value width byteEnable) :
    s.write cfg key address value width byteEnable = (.ok (.written receipt), published cfg { s with
        memory := s.memory.storeMemory region.memoryId offset value width byteEnable (cfg.str key)
        events := s.events ++ [storeEvent s.memory key region.memoryId offset address value width
          byteEnable]
        allocated := s.allocated + 1
        ledger := s.ledger.completed key (cfg.digest (.write address value width byteEnable))
          (.written receipt) } key receipt) := by
  obtain ⟨hfull, hfits, hroom⟩ := storable_of_admitWrite hchecks hfresh hres
  have hop := writeCommit_of_countable key hfull hres hfits hroom hcount
  rw [← hreceipt] at hop
  have hentry := s.ledger.get?_completed key (cfg.digest (.write address value width byteEnable))
    (ServiceReceipt.written receipt) key
  rw [if_pos rfl] at hentry
  have hfinish := finishWrite_returned cfg (s := { s with
    memory := s.memory.storeMemory region.memoryId offset value width byteEnable (cfg.str key)
    events := s.events ++ [storeEvent s.memory key region.memoryId offset address value width
      byteEnable]
    allocated := s.allocated + 1
    ledger := s.ledger.completed key (cfg.digest (.write address value width byteEnable))
      (.written receipt) }) hentry
  have hjson : storeRecord cfg s.memory key region.memoryId offset address value width byteEnable
      = receipt.commitJson := by
    rw [hreceipt]
    rfl
  rw [hjson] at hop
  rw [write, hchecks]
  rw [executeOnce_of_fresh hfresh hop]
  exact hfinish

/-- **A fresh store that is admitted is uncertain**, when its version does not fit. -/
theorem write_of_not_countable (hcount : ¬ Countable s.memory region.memoryId byteEnable) :
    ∃ e ≠ capacityExceeded, s.write cfg key address value width byteEnable = (.error e, { s with
      memory := s.memory.storeMemory region.memoryId offset value width byteEnable (cfg.str key)
      ledger := s.ledger.raised key (cfg.digest (.write address value width byteEnable)) }) := by
  obtain ⟨hfull, hfits, hroom⟩ := storable_of_admitWrite hchecks hfresh hres
  obtain ⟨e, he, hop⟩ := writeCommit_of_not_countable key hfull hres hfits hroom hcount
  refine ⟨e, he, ?_⟩
  rw [write, hchecks]
  rw [executeOnce_of_fresh_error hfresh hop]
  exact finishWrite_raised cfg (s := { s with
    memory := s.memory.storeMemory region.memoryId offset value width byteEnable (cfg.str key)
    ledger := s.ledger.raised key (cfg.digest (.write address value width byteEnable)) }) key e

end Write

theorem move_write (key : TransactionKey) (address value width byteEnable : ℤ) :
    Move cfg s (.write key address value width byteEnable)
      ((s.write cfg key address value width byteEnable).1.map .receipt)
      (s.write cfg key address value width byteEnable).2 := by
  cases ha : s.admitWrite cfg key address value width byteEnable with
  | error e =>
    rw [write, ha]
    exact .refused
  | ok u =>
    rcases executeOnce_cases cfg s key (.write address value width byteEnable)
      (writeCommit cfg key address value width byteEnable) ⟨none, false⟩
      with ⟨e, h⟩ | ⟨r, hentry, h⟩ | hfresh
    · rw [write, ha]
      rw [h]
      exact .refused
    · rw [write, ha]
      rw [h]
      dsimp only
      rw [finishWrite_replayed]
      exact .replayed rfl hentry
    · obtain ⟨-, hv, -⟩ := admitWrite_eq_ok.1 ha
      obtain ⟨region, offset, hres, -⟩ := validateWrite_eq_ok.1 hv
      obtain ⟨hfull, hfits, hroom⟩ := storable_of_admitWrite ha hfresh hres
      by_cases hcount : Countable s.memory region.memoryId byteEnable
      · rw [write_of_countable ha hfresh hres hcount rfl]
        exact .stored hfresh hfull hres hfits hroom hcount rfl
      · obtain ⟨e, he, h⟩ := write_of_not_countable ha hfresh hres hcount
        rw [h]
        exact .uncertain hfresh hfull hres hfits hroom hcount he

theorem move_acceptInstructions (address : ℤ) (data : List UInt8) (sourceEventId : String)
    (hs : s.Inv cfg) : Move cfg s (.acceptInstructions address data sourceEventId)
      ((s.acceptInstructions cfg address data sourceEventId).1.map .acceptance)
      (s.acceptInstructions cfg address data sourceEventId).2 := by
  cases h : s.memory.acceptInstructions cfg.memory address data sourceEventId with
  | mk r m' =>
    have hmem : onMemory (fun m => m.acceptInstructions cfg.memory address data sourceEventId)
        s.toServiceCore = (r, { s.toServiceCore with memory := m' }) := Effect.zoom_of_eq h
    cases r with
    | error e =>
      rw [acceptInstructions, Effect.bind_of_error hmem, acceptInstructions_error hs.memory h]
      exact .refused
    | ok receipt =>
      have hissued : receipt ∈ m'.issued ∧ receipt.generation = m'.generation := by
        cases change_acceptInstructions h with
        | accepted _ _ _ _ _ hm' =>
          exact ⟨List.mem_append_right _ (.head _), rfl⟩
      have hvalid : m'.validateInstructionAcceptance receipt = .ok receipt := by
        rw [validateInstructionAcceptance, ensure_of hissued, ok_bind]
      rw [acceptInstructions, Effect.bind_of_ok hmem, Effect.bind_of_ok (Effect.get_apply _),
        Effect.bind_of_ok (by rw [Effect.lift_apply, hvalid])]
      exact .accepted h

/-! ## Acknowledgement -/

/-- **Releasing the first entries** of the stream leaves the others, still indexed by receipt. -/
theorem each_releaseCommit : ∀ (l : List (String × PendingCommit)) {rest : List (String × PendingCommit)}
    {s : MemoryService}, s.pendingCommits.entries = l ++ rest → (∀ id p, s.pendingCommits.get? id = some p →
      s.issuedReceiptIds.get? p.receipt.ident = some id) →
    (∀ id id' p p', s.pendingCommits.get? id = some p → s.pendingCommits.get? id' = some p' →
      p.receipt.ident = p'.receipt.ident → id = id') →
    ∃ pending issued, Effect.each releaseCommit (l.map Prod.fst) s
        = (.ok (), { s with pendingCommits := pending, issuedReceiptIds := issued }) ∧
      pending.entries = rest ∧ ∀ id p, pending.get? id = some p → issued.get? p.receipt.ident = some id
  | [], rest, s, hl, hissued, _ => ⟨_, _, rfl, hl, hissued⟩
  | (id, p) :: l, rest, s, hl, hissued, hidents => by
      have hget : s.pendingCommits.get? id = some p := by
        rw [get?, hl]
        exact if_pos rfl
      have hrelease : releaseCommit id s = (.ok (), { s with
          pendingCommits := s.pendingCommits.erase id
          issuedReceiptIds := s.issuedReceiptIds.erase p.receipt.ident }) := by
        rw [releaseCommit, Effect.bind_of_ok (Effect.get_apply _)]
        simp only [hget]
        rw [Effect.bind_of_ok (Effect.modify_apply _ _), Effect.bind_of_ok (by
          rw [Effect.lift_apply, ensure_of (by rw [hissued id p hget]; rfl)])]
        rfl
      have hafter : ∀ id' p', (s.pendingCommits.erase id).get? id' = some p' →
          id' ≠ id ∧ s.pendingCommits.get? id' = some p' := by
        intro id' p' h
        rw [get?_erase] at h
        split_ifs at h with hid
        exact ⟨hid, h⟩
      obtain ⟨pending, issued, heach, hentries, hrest⟩ := each_releaseCommit l
        (s := { s with
          pendingCommits := s.pendingCommits.erase id
          issuedReceiptIds := s.issuedReceiptIds.erase p.receipt.ident })
        (entries_erase_head hl)
        (fun id' p' h => by
          obtain ⟨hne, h⟩ := hafter id' p' h
          rw [get?_erase, if_neg fun heq => hne (hidents id' id p' p h hget heq)]
          exact hissued id' p' h)
        (fun id₁ id₂ p₁ p₂ h₁ h₂ => hidents id₁ id₂ p₁ p₂ (hafter id₁ p₁ h₁).2 (hafter id₂ p₂ h₂).2)
      refine ⟨pending, issued, ?_, hentries, hrest⟩
      rw [List.map_cons, Effect.each, Effect.bind_of_ok hrelease, heach]

theorem move_ackCommitEvents (hs : s.Inv cfg) (ids : List String) :
    Move cfg s (.ackCommitEvents ids)
      ((s.ackCommitEvents ids).1.map fun _ => .acknowledged) (s.ackCommitEvents ids).2 := by
  unfold ackCommitEvents
  split_ifs with hids
  · obtain ⟨pending, issued, heach, hentries, hissued⟩ := each_releaseCommit
      (s.pendingCommits.entries.take ids.length) (List.take_append_drop ids.length _).symm
      (fun id p h => (hs.published id p h).issued) hs.idents
    have hmap : (s.pendingCommits.entries.take ids.length).map Prod.fst = ids := by
      rw [List.map_take]
      exact hids.symm
    rw [hmap] at heach
    rw [heach]
    exact .acknowledged hids hentries hissued
  · exact .refused

/-- **Every call is one of the moves.** -/
theorem move_call (hs : s.Inv cfg) (c : ServiceCall) : Move cfg s c (s.call cfg c).1 (s.call cfg c).2 := by
  cases c with
  | read key address width => exact move_read hs key address width
  | write key address value width byteEnable => exact move_write key address value width byteEnable
  | acceptInstructions address data sourceEventId =>
    exact move_acceptInstructions address data sourceEventId hs
  | memory c => exact .memory rfl
  | lookupPendingCommit commitId =>
    cases h : s.lookupPendingCommit commitId with
    | error e =>
      simp only [call, h]
      exact .refused
    | ok r =>
      simp only [call, h]
      exact .lookedUp h
  | lookupIssuedWriteCommit receipt =>
    cases h : s.lookupIssuedWriteCommit receipt with
    | error e =>
      simp only [call, h]
      exact .refused
    | ok r =>
      simp only [call, h]
      exact .issued h
  | drainCommitEvents maxEvents =>
    cases h : s.drainCommitEvents maxEvents with
    | error e =>
      simp only [call, h]
      exact .refused
    | ok r =>
      simp only [call, h]
      exact .drained h
  | ackCommitEvents ids => exact move_ackCommitEvents hs ids

/-! ## Every move keeps the invariant -/

section

variable (s : MemoryService) (key : TransactionKey) (receipt : WriteReceipt)

@[simp] theorem ledger_published :
    (published cfg s key receipt).ledger = s.ledger := by
  unfold published
  split_ifs <;> rfl

@[simp] theorem memory_published :
    (published cfg s key receipt).memory = s.memory := by
  unfold published
  split_ifs <;> rfl

@[simp] theorem events_published :
    (published cfg s key receipt).events = s.events := by
  unfold published
  split_ifs <;> rfl

end

/-- **A completed entry is frozen.** -/
theorem Move.entry_complete (h : Move cfg s c a s') {k : TransactionKey}
    (hk : s.ledger.entries.get? k = some ⟨d, .complete r⟩) :
    s'.ledger.entries.get? k = some ⟨d, .complete r⟩ := by
  have hne : ∀ {key : TransactionKey}, s.ledger.Fresh key → k ≠ key := by
    rintro key hfresh rfl
    rw [hfresh.absent] at hk
    cases hk
  cases h with
  | fetched hfresh =>
    rw [get?_completed, if_neg (hne hfresh)]
    exact hk
  | stored hfresh =>
    rw [ledger_published]
    rw [get?_completed, if_neg (hne hfresh)]
    exact hk
  | uncertain hfresh =>
    rw [get?_raised, if_neg (hne hfresh)]
    exact hk
  | _ => exact hk

namespace Inv

/-- A published commit stays published while its entry and its index do. -/
theorem published_of (hs : s.Inv cfg) {id : String} {p : PendingCommit}
    (hp : s.pendingCommits.get? id = some p) (hledger : ∀ d, s.ledger.entries.get? p.receipt.transactionId
        = some ⟨d, .complete (.written p.receipt)⟩ →
      s'.ledger.entries.get? p.receipt.transactionId = some ⟨d, .complete (.written p.receipt)⟩)
    (hissued : s'.issuedReceiptIds.get? p.receipt.ident = some id)
    (halloc : s.allocated ≤ s'.allocated) : s'.Published id p := by
  have hpub := hs.published id p hp
  obtain ⟨d, hd⟩ := hpub.complete
  exact ⟨hpub.commitId_eq, hpub.frozen_eq, ⟨d, hledger d hd⟩, hissued,
    hpub.allocated.trans_le halloc, hpub.event⟩

/-- Moves that leave the stream alone. -/
theorem of_stream_eq (hs : s.Inv cfg) (h : Move cfg s c a s') (hmem : s'.memory.Inv cfg.memory)
    (hpending : s'.pendingCommits = s.pendingCommits)
    (hissued : s'.issuedReceiptIds = s.issuedReceiptIds) (halloc : s.allocated ≤ s'.allocated)
    (hreserved : s'.commitReserved = s.commitReserved) : s'.Inv cfg where
  memory := hmem
  unreserved := hreserved.trans hs.unreserved
  within_capacity n hn := by
    rw [hpending]
    exact hs.within_capacity n hn
  published id p hp := by
    rw [hpending] at hp
    refine hs.published_of hp (fun d hd => h.entry_complete hd) ?_ halloc
    rw [hissued]
    exact (hs.published id p hp).issued
  idents := by
    rw [hpending]
    exact hs.idents

/-- A store that completed enters the stream. -/
theorem published_stored (hs : s.Inv cfg) {s₁ : MemoryService} (hfull : s.streamFull cfg = false)
    (hmem : s₁.memory.Inv cfg.memory) (hpending : s₁.pendingCommits = s.pendingCommits)
    (hissued : s₁.issuedReceiptIds = s.issuedReceiptIds) (halloc : s₁.allocated = s.allocated + 1)
    (hreserved : s₁.commitReserved = s.commitReserved) (hkey : receipt.transactionId = key)
    (hident : receipt.ident = s.allocated)
    (hentry : s₁.ledger.entries.get? key = some ⟨d, .complete (.written receipt)⟩)
    (hledger : ∀ (k : TransactionKey) (d : String) (r : ServiceReceipt),
      s.ledger.entries.get? k = some ⟨d, .complete r⟩ → s₁.ledger.entries.get? k = some ⟨d, .complete r⟩) :
    (MemoryService.published cfg s₁ key receipt).Inv cfg := by
  have hold : ∀ id p, s.pendingCommits.get? id = some p → p.receipt.ident ≠ receipt.ident := by
    intro id p hp
    have := (hs.published id p hp).allocated
    omega
  cases hen : cfg.commitStreamCapacity with
  | none =>
    have hoff : cfg.commitStreamEnabled = false := by
      simp [ServiceConfig.commitStreamEnabled, hen]
    rw [MemoryService.published, if_neg (by simp [hoff])]
    refine ⟨hmem, hreserved.trans hs.unreserved, fun n hn => ?_, fun id p hp => ?_, ?_⟩
    · rw [hen] at hn
      cases hn
    · rw [hpending] at hp
      refine hs.published_of hp (fun d hd => hledger _ d _ hd) ?_ (by omega)
      rw [hissued]
      exact (hs.published id p hp).issued
    · rw [hpending]
      exact hs.idents
  | some capacity =>
    have hon : cfg.commitStreamEnabled = true := by
      simp [ServiceConfig.commitStreamEnabled, hen]
    have hroom : s.pendingCommits.length < capacity := by
      have hfull' := hfull
      simp only [streamFull, hen, hs.unreserved, decide_eq_false_iff_not, not_le] at hfull'
      omega
    rw [MemoryService.published, if_pos hon]
    refine ⟨hmem, hreserved.trans hs.unreserved, fun n hn => ?_, fun id p hp => ?_,
      fun id id' p p' hp hp' hident => ?_⟩
    · rw [hen] at hn
      cases hn
      rw [hpending, length_set]
      split_ifs <;> omega
    · rw [hpending, get?_set] at hp
      split_ifs at hp with hid
      · cases hp
        refine ⟨hid.symm, rfl, ⟨d, by rw [hkey]; exact hentry⟩, ?_, ?_, hkey.symm, hid.symm, rfl⟩
        · rw [get?_set_self, hid]
        · dsimp only
          omega
      · refine hs.published_of hp (fun d hd => hledger _ d _ hd) ?_ (by dsimp only; omega)
        rw [hissued, get?_set_of_ne _ (hold id p hp)]
        exact (hs.published id p hp).issued
    · rw [hpending, get?_set] at hp hp'
      split_ifs at hp with hid <;> split_ifs at hp' with hid'
      · exact hid.trans hid'.symm
      · cases hp
        exact absurd hident.symm (hold id' p' hp')
      · cases hp'
        exact absurd hident (hold id p hp)
      · exact hs.idents id id' p p' hp hp' hident

/-- **Every move keeps the invariant.** -/
theorem move (hs : s.Inv cfg) (h : Move cfg s c a s') : s'.Inv cfg := by
  have hmove := h
  cases h with
  | fetched hfresh hres hr hm' hsn hevents =>
    subst hm'
    exact hs.of_stream_eq hmove (hs.memory.materialize (nodup_span ..)
      (fun k hk => (mem_span.1 hk).1) hr.room) rfl rfl (le_refl _) rfl
  | @stored key address value width byteEnable region offset hfresh hfull hres hfits hroom hcount
      receipt hreceipt =>
    subst hreceipt
    refine hs.published_stored (d := cfg.digest (.write address value width byteEnable)) hfull
      (hs.memory.change (change_storeMemory (cfg.str_ne key) hres hfits hroom)) rfl rfl rfl rfl rfl rfl
      ?_ fun k d r hk => ?_
    · rw [get?_completed, if_pos rfl]
    · have := hmove.entry_complete hk
      rwa [ledger_published] at this
  | @uncertain key address value width byteEnable region offset e hfresh hfull hres hfits hroom =>
    exact hs.of_stream_eq hmove
      (hs.memory.change (change_storeMemory (cfg.str_ne key) hres hfits hroom)) rfl rfl (le_refl _) rfl
  | accepted hacc =>
    exact hs.of_stream_eq hmove (hs.memory.change (change_acceptInstructions hacc)) rfl rfl
      (le_refl _) rfl
  | @memory c a ha => exact hs.of_stream_eq hmove (hs.memory.call c) rfl rfl (le_refl _) rfl
  | @acknowledged ids hids pending issued hpending hissued =>
    have hsub : ∀ id p, pending.get? id = some p → s.pendingCommits.get? id = some p := by
      intro id p hp
      refine mem_entries_iff.1 ?_
      have hmem := mem_entries_iff.2 hp
      rw [hpending] at hmem
      exact List.mem_of_mem_drop hmem
    refine ⟨hs.memory, hs.unreserved, fun n hn => ?_, fun id p hp => ?_,
      fun id id' p p' hp hp' => hs.idents id id' p p' (hsub id p hp) (hsub id' p' hp')⟩
    · have hlen : pending.length ≤ s.pendingCommits.length := by
        rw [length, hpending, List.length_drop]
        exact Nat.sub_le _ _
      exact hlen.trans (hs.within_capacity n hn)
    · exact hs.published_of (hsub id p hp) (fun d hd => hd) (hissued id p hp) (le_refl _)
  | refused | replayed | lookedUp | issued | drained => exact hs

end Inv

theorem inv_run (cfg : ServiceConfig) (cs : List ServiceCall) : (Run.run (step cfg) (init cfg) cs).Inv cfg :=
  Run.run_invariant (fun _ c h => h.move (move_call h c)) cs (inv_init cfg)

end MemoryService

end MyFuzz
