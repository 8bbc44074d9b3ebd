import MyFuzz.Scenario.LedgerInvariant

/-!
# Scenario/Router — MMIO requests queued for independent device targets

A `DataflowRouter` keeps one list of accepted requests for all its devices.  The source side is a
`TransactionLedger` per caller: `enqueue` accepts there and queues here, `drain_one` delivers the
oldest request of a device when the ledger says it is next on its channel, `cancel_for_ledger` drops
what a source never delivered.

    enqueue ──▸ [ … queued … ] ──drain_one──▸ target access ──▸ callback
                     └─────cancel_for_ledger──▸ cancelled in the ledger

A target is real RTL and a callback is the caller's, so what they answer is chosen by the
environment of each step (`TargetAnswer`), and a trace keeps what reached them.  A ledger is an
object that callers share: the system maps ledger identities to ledgers.
-/

namespace MyFuzz

open Outcome

/-- How a device window reaches its target: register access, routed access with a receipt, or
ordinary APB access with an issued receipt. -/
inductive TargetKind where
  | plain
  | routed
  | ordinary
  deriving DecidableEq

/-- An address window of one device. -/
structure DeviceWindow where
  deviceId : String
  base : ℕ
  size : ℕ
  kind : TargetKind
  valid : deviceId ≠ "" ∧ base % 0x1000 = 0 ∧ 4 ≤ size ∧ size % 4 = 0 ∧ base + size ≤ 2 ^ 64
  deriving DecidableEq

/-- The windows of a router: no two overlap. -/
structure WindowMap where
  windows : List DeviceWindow
  disjoint : windows.Pairwise fun w w' => ¬ (w'.base < w.base + w.size ∧ w.base < w'.base + w'.size)

/-- The payload of a request, as it is digested. -/
structure MmioPayload where
  deviceId : String
  address : ℕ
  write : Bool
  wdata : ℤ
  be : ℕ
  beatBytes : ℕ
  deriving DecidableEq

/-- A queued request: the ledger it was accepted in, its key and the prepared access. -/
structure Request where
  ledger : ℕ
  key : TransactionKey
  payload : MmioPayload
  window : DeviceWindow
  laneBe : ℕ
  data32 : ℕ
  offset : ℕ
  write : Bool
  deriving DecidableEq

/-- The row `enqueue` publishes. -/
structure Acceptance where
  sourceTransaction : TransactionKey
  deviceId : String
  sourceSequence : ℕ
  acceptanceOrder : ℕ
  address : ℕ
  offset : ℕ
  beatBytes : ℕ
  write : Bool
  byteEnable : ℕ
  writeValue : Option ℕ
  deriving DecidableEq

/-- The row a delivered request publishes. -/
structure DeliveryRow where
  sourceTransaction : TransactionKey
  deviceId : String
  sourceSequence : ℕ
  deliveryOrder : ℕ
  targetDeliveryOrder : ℕ
  address : ℕ
  beatBytes : ℕ
  offset : ℕ
  write : Bool
  byteEnable : ℕ
  writeValue : Option ℕ
  readValue : Option ℕ
  targetAccessId : Option String
  sourceDeliveryConfirmed : Bool
  deriving DecidableEq

/-- What a target access returns. -/
structure Access where
  rdata : ℕ
  targetAccessId : Option String
  deriving DecidableEq

/-- What the environment answers during one `drain_one`: the target access, the source callback, and
the notification of a target whose callback failed. -/
structure TargetAnswer where
  access : Except Exn Access
  callback : Except Exn Unit
  terminal : Except Exn Unit

/-- The router's own state. -/
structure DataflowRouter where
  windows : WindowMap
  queued : List Request
  acceptances : List Acceptance
  deliveries : List DeliveryRow
  targetDeliveryCounts : Dict String ℕ
  deliverySequence : ℕ
  ordinaryDeliveryConfirmations : Dict TransactionKey DeliveryRow

/-- What left the router, in order. -/
inductive RouterEvent where
  | accepted (request : Request)
  | accessReturned (request : Request) (row : DeliveryRow)
  | accessRaised (request : Request)
  | callbackCalled (request : Request)
  deriving DecidableEq

/-- A router, the ledgers of its callers and what has left the router so far. -/
structure RouterSystem (δ : Type) where
  router : DataflowRouter
  ledgers : ℕ → TransactionLedger δ (ℕ × ℕ)
  trace : List RouterEvent

/-- The router calls, with what the environment answers. -/
inductive RouterAction where
  | enqueue (ledger : ℕ) (key : TransactionKey) (address : ℕ) (write : Bool) (wdata : ℤ) (be : ℕ)
      (beatBytes : ℕ)
  | drainOne (deviceId : String) (answer : TargetAnswer)
  | cancelForLedger (ledger : ℕ)

/-- Bound on the ordinary delivery confirmations kept. -/
def maxOrdinaryDeliveryConfirmations : ℕ := 65536

namespace DataflowRouter

/-- A router that has accepted nothing. -/
def init (windows : WindowMap) : DataflowRouter := ⟨windows, [], [], [], .empty, 0, .empty⟩

/-- The window of an address. -/
def window? (r : DataflowRouter) (address : ℕ) : Option DeviceWindow :=
  r.windows.windows.find? fun w => w.base ≤ address ∧ address < w.base + w.size

/-- The access is on the upper four bytes of an eight-byte beat. -/
def highLane (beatBytes address : ℕ) : Bool := beatBytes = 8 ∧ address &&& 4 ≠ 0

/-- Check the shape of an access and translate it to its window. -/
def prepare (r : DataflowRouter) (ledger : ℕ) (key : TransactionKey) (address : ℕ) (write : Bool)
    (wdata : ℤ) (be beatBytes : ℕ) : Except Exn Request :=
  match r.window? address with
  | none => .error (.valueError "MMIO address has no declared real target")
  | some window => do
      ensure ((beatBytes = 4 ∨ beatBytes = 8) ∧ address % 4 = 0 ∧ address + 4 ≤ window.base + window.size)
        (.valueError "unsupported MMIO access shape")
      ensure (be < 1 <<< beatBytes) (.valueError "byte enables are invalid")
      let high := highLane beatBytes address
      let laneBe := if high then be >>> 4 else be &&& 15
      let otherBe := if high then be &&& 15 else be >>> 4
      ensure (¬ (write ∧ (laneBe = 0 ∨ (beatBytes = 8 ∧ otherBe ≠ 0))))
        (.valueError "MMIO byte lanes do not match address")
      .ok {
        ledger, key, window, laneBe, write
        payload := ⟨window.deviceId, address, write, wdata, be, beatBytes⟩
        data32 := ((if high then wdata >>> (32 : ℕ) else wdata) % 2 ^ 32).toNat
        offset := address - window.base }

/-- Publish an accepted request and queue it. -/
def accept (r : DataflowRouter) (q : Request) : DataflowRouter :=
  { r with
    queued := r.queued ++ [q]
    acceptances := r.acceptances ++ [{
      sourceTransaction := q.key
      deviceId := q.window.deviceId
      sourceSequence := q.key.sourceSequence
      acceptanceOrder := r.acceptances.length + 1
      address := q.payload.address
      offset := q.offset
      beatBytes := q.payload.beatBytes
      write := q.write
      byteEnable := q.laneBe
      writeValue := if q.write then some q.data32 else none }] }

/-- Remove the oldest queued request of a device. -/
def pop (r : DataflowRouter) (deviceId : String) : DataflowRouter :=
  { r with queued := r.queued.eraseP fun q => q.window.deviceId = deviceId }

/-- The response of a delivered request. -/
def response (q : Request) (access : Access) : ℕ × ℕ :=
  if q.write then (0, 0)
  else (access.rdata <<< (if highLane q.payload.beatBytes q.payload.address then 32 else 0), 0)

/-- The row of a delivered request, numbered after everything delivered before. -/
def deliveryRow (r : DataflowRouter) (q : Request) (access : Access) : DeliveryRow where
  sourceTransaction := q.key
  deviceId := q.window.deviceId
  sourceSequence := q.key.sourceSequence
  deliveryOrder := r.deliverySequence + 1
  targetDeliveryOrder := r.targetDeliveryCounts.getD q.window.deviceId 0 + 1
  address := q.payload.address
  beatBytes := q.payload.beatBytes
  offset := q.offset
  write := q.write
  byteEnable := q.laneBe
  writeValue := if q.write then some q.data32 else none
  readValue := if q.write then none else some (response q access).1
  targetAccessId := access.targetAccessId
  sourceDeliveryConfirmed := false

/-- Count a completed target access; a plain target's row is published at once. -/
def delivered (r : DataflowRouter) (q : Request) (access : Access) : DataflowRouter :=
  { r with
    targetDeliveryCounts := r.targetDeliveryCounts.set q.window.deviceId
      (r.targetDeliveryCounts.getD q.window.deviceId 0 + 1)
    deliverySequence := r.deliverySequence + 1
    deliveries := if q.window.kind = .plain then r.deliveries ++ [r.deliveryRow q access] else r.deliveries }

/-- Publish the row of a routed or ordinary target once its callback returned. -/
def confirm (r : DataflowRouter) (q : Request) (row : DeliveryRow) : DataflowRouter :=
  match q.window.kind with
  | .plain => r
  | .routed => { r with deliveries := r.deliveries ++ [row] }
  | .ordinary =>
      { r with
        deliveries := r.deliveries ++ [{ row with sourceDeliveryConfirmed := true }]
        ordinaryDeliveryConfirmations := r.ordinaryDeliveryConfirmations.set q.key
          { row with sourceDeliveryConfirmed := true } }

end DataflowRouter

/-- The state the operation of `drain_one` works on: the router, the trace and the row it leaves to
be published. -/
abbrev DrainState : Type := DataflowRouter × List RouterEvent × Option DeliveryRow

/-- The operation `drain_one` hands to the ledger. -/
def deliver (answer : TargetAnswer) (q : Request) : DrainState → Except Exn (ℕ × ℕ) × DrainState
  | (r, trace, _) =>
      match answer.access with
      | .error e => (.error e, r, trace ++ [.accessRaised q], none)
      | .ok access =>
          (.ok (DataflowRouter.response q access), r.delivered q access,
            trace ++ [.accessReturned q (r.deliveryRow q access)], some (r.deliveryRow q access))

/-- The exception of a failed callback: a routed target's own notification may replace it. -/
def callbackFailure (kind : TargetKind) (terminal : Except Exn Unit) (e : Exn) : Exn :=
  match kind, terminal with
  | .routed, .error e' => e'
  | _, _ => e

namespace RouterSystem

variable {δ : Type}

/-- A new router over ledgers that may have been used before. -/
def init (windows : WindowMap) (ledgers : ℕ → TransactionLedger δ (ℕ × ℕ)) : RouterSystem δ :=
  ⟨.init windows, ledgers, []⟩

/-- Devices whose oldest queued request can execute this step, sorted. -/
def readyTargets (s : RouterSystem δ) : List String :=
  ((s.router.queued.map fun q => q.window.deviceId).dedup.filter fun device =>
    match s.router.queued.find? fun q => q.window.deviceId = device with
    | some q => (s.ledgers q.ledger).targetReady q.key
    | none => false).mergeSort

/-- The callback of a delivered request, and what is published after it. -/
def callBack (s : RouterSystem δ) (answer : TargetAnswer) (q : Request) (row : Option DeliveryRow) :
    RouterSystem δ × Except Exn Bool :=
  let s := { s with trace := s.trace ++ [.callbackCalled q] }
  match answer.callback with
  | .error e => (s, .error (callbackFailure q.window.kind answer.terminal e))
  | .ok () =>
      match row with
      | none => (s, .ok true)
      | some row => ({ s with router := s.router.confirm q row }, .ok true)

section Calls

variable [DecidableEq δ] (digest : MmioPayload → Except Exn δ)

/-- Accept a request; its target executes on a later step. -/
def enqueue (s : RouterSystem δ) (ledger : ℕ) (key : TransactionKey) (address : ℕ) (write : Bool)
    (wdata : ℤ) (be beatBytes : ℕ) : RouterSystem δ × Except Exn Bool :=
  match s.router.prepare ledger key address write wdata be beatBytes with
  | .error e => (s, .error e)
  | .ok q =>
      match (s.ledgers ledger).accept digest key q.payload with
      | .error e => (s, .error e)
      | .ok (false, _) => (s, .ok false)
      | .ok (true, L) =>
          ({ router := s.router.accept q
             ledgers := Function.update s.ledgers ledger L
             trace := s.trace ++ [.accepted q] }, .ok true)

/-- Execute the oldest accepted request of a device at its target. -/
def drainOne (s : RouterSystem δ) (deviceId : String) (answer : TargetAnswer) :
    RouterSystem δ × Except Exn Bool :=
  match s.router.queued.find? fun q => q.window.deviceId = deviceId with
  | none => (s, .ok false)
  | some q =>
      let L := s.ledgers q.ledger
      if ¬ L.targetReady q.key then (s, .ok false)
      else if q.window.kind = .ordinary ∧
          maxOrdinaryDeliveryConfirmations ≤ s.router.ordinaryDeliveryConfirmations.length then
        (s, .error (.valueError "ordinary APB source confirmation capacity exceeded"))
      else
        match L.runOperation (L.completeBegin digest q.key q.payload) (deliver answer q)
            (s.router, s.trace, none) with
        | (.error e, L', r, trace, _) =>
            -- the request leaves the queue only when its effect became uncertain
            ({ router := if q.key ∈ L'.uncertainKeys then r.pop deviceId else r
               ledgers := Function.update s.ledgers q.ledger L'
               trace }, .error e)
        | (.ok _, L', r, trace, row) =>
            callBack ⟨r.pop deviceId, Function.update s.ledgers q.ledger L', trace⟩ answer q row

/-- Cancel the queued requests of a ledger one by one, in queue order: the cancelled keys and the
requests that stay, or the exception that ended the pass, with the ledger as it was left. -/
def cancelPass (ledger : ℕ) : List Request → TransactionLedger δ (ℕ × ℕ) →
    Except Exn (List TransactionKey × List Request) × TransactionLedger δ (ℕ × ℕ)
  | [], L => (.ok ([], []), L)
  | q :: qs, L =>
      if q.ledger = ledger then
        match L.cancelAccepted digest q.key q.payload with
        | .error e => (.error e, L)
        | .ok L' =>
            match cancelPass ledger qs L' with
            | (.error e, L'') => (.error e, L'')
            | (.ok (cancelled, remaining), L'') => (.ok (q.key :: cancelled, remaining), L'')
      else
        match cancelPass ledger qs L with
        | (.error e, L'') => (.error e, L'')
        | (.ok (cancelled, remaining), L'') => (.ok (cancelled, q :: remaining), L'')

/-- Drop requests never sent to a target at a source reset barrier.  The queue is replaced only
after the whole pass. -/
def cancelForLedger (s : RouterSystem δ) (ledger : ℕ) : RouterSystem δ × Except Exn (List TransactionKey) :=
  match cancelPass digest ledger s.router.queued (s.ledgers ledger) with
  | (.error e, L) => ({ s with ledgers := Function.update s.ledgers ledger L }, .error e)
  | (.ok (cancelled, remaining), L) =>
      ({ s with
         router := { s.router with queued := remaining }
         ledgers := Function.update s.ledgers ledger L }, .ok cancelled)

/-- One router call, its result dropped. -/
def step (s : RouterSystem δ) : RouterAction → RouterSystem δ
  | .enqueue ledger key address write wdata be beatBytes =>
      (s.enqueue digest ledger key address write wdata be beatBytes).1
  | .drainOne deviceId answer => (s.drainOne digest deviceId answer).1
  | .cancelForLedger ledger => (s.cancelForLedger digest ledger).1

end Calls

end RouterSystem

end MyFuzz
