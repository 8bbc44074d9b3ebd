import MyFuzz.Foundations.Dict
import MyFuzz.Foundations.Outcome

/-!
# Scenario/Ledger — logical transaction identity and at-most-once delivery

A `TransactionLedger` caches the result of a target operation under the identity of its source
handshake.  Two counters move along each source channel:

    1 ── … ── next_target ── … ── next_channel
    settled │ inflight/pending      │ not accepted yet

`accept` advances the second; `complete_accepted`, `execute_once` and `cancel_accepted` advance the
first.  An operation runs *between* two ledger updates and may call the ledger again, so the two
calls that take one are split where the operation starts: `completeBegin` and `executeBegin` end in
a `Frame`, which `opReturned` or `opRaised` closes.

The digest of a payload is a parameter: SHA-256 of its canonical JSON text in the source, any
function that may raise here.
-/

namespace MyFuzz

/-- Identity of one source handshake.  The constructor refuses an empty identity field. -/
structure TransactionKey where
  executionId : String
  testcaseId : String
  sourceComponent : String
  sourceEpoch : ℕ
  channelId : String
  sourceSequence : ℕ
  identified : executionId ≠ "" ∧ testcaseId ≠ "" ∧ sourceComponent ≠ "" ∧ channelId ≠ ""
  deriving DecidableEq

/-- A source channel: everything of a key but its sequence number. -/
abbrev Channel : Type := String × String × String × ℕ × String

/-- The source channel of a key. -/
def TransactionKey.channel (k : TransactionKey) : Channel :=
  (k.executionId, k.testcaseId, k.sourceComponent, k.sourceEpoch, k.channelId)

/-- **A key is its channel and its sequence number.** -/
theorem TransactionKey.ext_channel {k k' : TransactionKey} (hc : k.channel = k'.channel)
    (hs : k.sourceSequence = k'.sourceSequence) : k = k' := by
  obtain ⟨e, t, c, n, i, s, h⟩ := k
  obtain ⟨e', t', c', n', i', s', h'⟩ := k'
  simp only [TransactionKey.channel, Prod.mk.injEq] at hc
  obtain ⟨rfl, rfl, rfl, rfl, rfl⟩ := hc
  obtain rfl : s = s' := hs
  rfl

/-- Progress of an accepted transaction.  The receipt is `None` until the entry is complete, so it
travels with that status. -/
inductive Status (ρ : Type) where
  | targetPending
  | targetInflight
  | uncertainEffect
  | complete (receipt : ρ)
  | cancelled
  deriving DecidableEq

namespace Status

variable {ρ : Type}

/-- The status as the source spells it. -/
def text : Status ρ → String
  | targetPending => "target_pending"
  | targetInflight => "target_inflight"
  | uncertainEffect => "uncertain_effect"
  | complete _ => "complete"
  | cancelled => "cancelled"

/-- Nothing further can happen: completed or cancelled. -/
def Settled : Status ρ → Prop
  | complete _ | cancelled => True
  | _ => False

/-- The target may have acted without a confirmed receipt. -/
def Uncertain : Status ρ → Prop
  | targetInflight | uncertainEffect => True
  | _ => False

/-- No call changes the status again. -/
def Final : Status ρ → Prop
  | uncertainEffect | complete _ | cancelled => True
  | _ => False

/-- The operation of the entry has been started. -/
def Started : Status ρ → Prop
  | targetPending | cancelled => False
  | _ => True

instance : DecidablePred (Settled (ρ := ρ)) := fun st => by
  cases st <;> unfold Settled <;> infer_instance

instance : DecidablePred (Uncertain (ρ := ρ)) := fun st => by
  cases st <;> unfold Uncertain <;> infer_instance

end Status

/-- What the ledger keeps of an accepted transaction. -/
structure Entry (δ ρ : Type) where
  payloadDigest : δ
  status : Status ρ
  deriving DecidableEq

/-- The ledger: its entries and the next sequence number expected on each side of a channel. -/
structure TransactionLedger (δ ρ : Type) where
  entries : Dict TransactionKey (Entry δ ρ)
  nextChannelSequence : Dict Channel ℕ
  nextTargetSequence : Dict Channel ℕ
  deriving DecidableEq

/-- An operation that has started and not ended: the entry it runs for and the target sequence
number read before it started. -/
structure Frame where
  key : TransactionKey
  expected : ℕ
  deriving DecidableEq

/-- How a call that takes an operation leaves the ledger before the operation. -/
inductive Begun (δ ρ : Type) where
  /-- The receipt of an earlier completion; the operation is not run. -/
  | cached (receipt : ρ)
  /-- The operation starts on this ledger. -/
  | started (ledger : TransactionLedger δ ρ) (frame : Frame)

namespace TransactionLedger

variable {π δ ρ σ : Type}

/-- A ledger that has accepted nothing. -/
def init : TransactionLedger δ ρ := ⟨.empty, .empty, .empty⟩

/-- The next sequence number a channel accepts. -/
def nextChannel (L : TransactionLedger δ ρ) (c : Channel) : ℕ := L.nextChannelSequence.getD c 1

/-- The next sequence number a channel delivers to its target. -/
def nextTarget (L : TransactionLedger δ ρ) (c : Channel) : ℕ := L.nextTargetSequence.getD c 1

/-- Whether an accepted request is next on its source channel. -/
def targetReady (L : TransactionLedger δ ρ) (key : TransactionKey) : Bool :=
  match L.entries.get? key with
  | some ⟨_, .targetPending⟩ => key.sourceSequence = L.nextTarget key.channel
  | _ => false

/-- Requests whose target may have acted without a confirmed receipt. -/
def uncertainKeys (L : TransactionLedger δ ρ) : List TransactionKey :=
  (L.entries.entries.filter fun p => p.2.status.Uncertain).map Prod.fst

/-- Store an entry for a key that has none, and advance its channel. -/
def push (L : TransactionLedger δ ρ) (key : TransactionKey) (entry : Entry δ ρ) : TransactionLedger δ ρ :=
  { L with
    entries := L.entries.set key entry
    nextChannelSequence := L.nextChannelSequence.set key.channel (L.nextChannel key.channel + 1) }

/-- Assign the status of a stored entry. -/
def setStatus (L : TransactionLedger δ ρ) (key : TransactionKey) (status : Status ρ) :
    TransactionLedger δ ρ :=
  match L.entries.get? key with
  | some entry => { L with entries := L.entries.set key { entry with status } }
  | none => L

/-- Assign the next target sequence number of a channel. -/
def setTarget (L : TransactionLedger δ ρ) (c : Channel) (n : ℕ) : TransactionLedger δ ρ :=
  { L with nextTargetSequence := L.nextTargetSequence.set c n }

/-- The same key came with another payload. -/
def identityConflict : Exn := .valueError "identity_conflict: same key, different payload"

/-- The source side skipped a sequence number. -/
def outOfOrderTransaction (sequence expected : ℕ) : Exn :=
  .valueError
    s!"out_of_order_transaction: source channel sequence {sequence} expected {expected}"

/-- The target side skipped a sequence number. -/
def outOfOrderTarget (sequence expected : ℕ) : Exn :=
  .valueError
    s!"out_of_order_target_delivery: source channel sequence {sequence} expected {expected}"

section Calls

variable [DecidableEq δ] (digest : π → Except Exn δ)

/-- Accept a source handshake without executing its target yet. -/
def accept (L : TransactionLedger δ ρ) (key : TransactionKey) (payload : π) :
    Except Exn (Bool × TransactionLedger δ ρ) := do
  let d ← digest payload
  match L.entries.get? key with
  | some previous => do
      ensure (previous.payloadDigest = d) identityConflict
      match previous.status with
      | .targetPending | .complete _ => .ok (false, L)
      | status => .error (.runtimeError (status.text ++ ": target result is not available"))
  | none => do
      ensure (key.sourceSequence = L.nextChannel key.channel)
        (outOfOrderTransaction key.sourceSequence (L.nextChannel key.channel))
      .ok (true, L.push key ⟨d, .targetPending⟩)

/-- Everything `complete_accepted` does before its operation. -/
def completeBegin (L : TransactionLedger δ ρ) (key : TransactionKey) (payload : π) :
    Except Exn (Begun δ ρ) := do
  let d ← digest payload
  match L.entries.get? key with
  | none => .error (.valueError "transaction was not accepted")
  | some entry => do
      ensure (entry.payloadDigest = d) identityConflict
      match entry.status with
      | .complete receipt => .ok (.cached receipt)
      | .targetPending => do
          ensure (key.sourceSequence = L.nextTarget key.channel)
            (outOfOrderTarget key.sourceSequence (L.nextTarget key.channel))
          .ok (.started (L.setStatus key .targetInflight) ⟨key, L.nextTarget key.channel⟩)
      | status => .error (.runtimeError (status.text ++ ": target result is not available"))

/-- Everything `execute_once` does before its operation. -/
def executeBegin (L : TransactionLedger δ ρ) (key : TransactionKey) (payload : π) :
    Except Exn (Begun δ ρ) := do
  let d ← digest payload
  match L.entries.get? key with
  | some previous => do
      ensure (previous.payloadDigest = d) identityConflict
      match previous.status with
      | .complete receipt => .ok (.cached receipt)
      | _ => .error (.runtimeError "uncertain_effect: target result is not known")
  | none => do
      ensure (key.sourceSequence = L.nextChannel key.channel)
        (outOfOrderTransaction key.sourceSequence (L.nextChannel key.channel))
      ensure (key.sourceSequence = L.nextTarget key.channel)
        (outOfOrderTarget key.sourceSequence (L.nextTarget key.channel))
      .ok (.started (L.push key ⟨d, .targetInflight⟩) ⟨key, L.nextTarget key.channel⟩)

/-- Cancel a known-undelivered request at an explicit reset barrier. -/
def cancelAccepted (L : TransactionLedger δ ρ) (key : TransactionKey) (payload : π) :
    Except Exn (TransactionLedger δ ρ) := do
  let d ← digest payload
  match L.entries.get? key with
  | none => .error (.valueError "transaction identity does not match accepted request")
  | some entry => do
      ensure (entry.payloadDigest = d) (.valueError "transaction identity does not match accepted request")
      match entry.status with
      | .targetPending => do
          ensure (key.sourceSequence = L.nextTarget key.channel)
            (.valueError "out_of_order_target_delivery: cancellation order changed")
          .ok ((L.setStatus key .cancelled).setTarget key.channel (L.nextTarget key.channel + 1))
      | _ => .error (.runtimeError "only an undelivered target request can be cancelled")

end Calls

/-- The operation of a frame returned: freeze its receipt and advance the target side. -/
def opReturned (L : TransactionLedger δ ρ) (frame : Frame) (receipt : ρ) : TransactionLedger δ ρ :=
  (L.setStatus frame.key (.complete receipt)).setTarget frame.key.channel (frame.expected + 1)

/-- The operation of a frame raised: its effect stays unknown. -/
def opRaised (L : TransactionLedger δ ρ) (frame : Frame) : TransactionLedger δ ρ :=
  L.setStatus frame.key .uncertainEffect

/-- A call whose operation does not call the ledger again: begin, run the operation on the rest of
the state, end. -/
def runOperation (L : TransactionLedger δ ρ) (begun : Except Exn (Begun δ ρ))
    (operation : σ → Except Exn ρ × σ) (s : σ) : Except Exn ρ × TransactionLedger δ ρ × σ :=
  match begun with
  | .error e => (.error e, L, s)
  | .ok (.cached receipt) => (.ok receipt, L, s)
  | .ok (.started L' frame) =>
      match operation s with
      | (.ok receipt, s') => (.ok receipt, L'.opReturned frame receipt, s')
      | (.error e, s') => (.error e, L'.opRaised frame, s')

end TransactionLedger

end MyFuzz
