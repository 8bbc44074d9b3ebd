import MyFuzz.Foundations.Dict
import MyFuzz.Foundations.Outcome
import MyFuzz.Foundations.Run

/-!
# Scenario/StepCommands — the STEP command ledger of a runner

A host advances a local harness by numbered commands.  The ledger remembers every issued command with
its payload and, once the harness answered, its receipt; a reset starts a new epoch, and acknowledged
receipts are dropped below a floor.

    execute ──known──▸ receipt again              reset ──▸ epoch + 1, next := 1
            ──next───▸ issue, advance, receipt    retire ──▸ drop receipts, raise the floor

The harnesses, their inputs, budgets and clocks are the `Scene`: a parameter whose every call answers
or raises and says whether it failed the run.  `log` is not in the source: it records each command
that advanced a harness, in order.
-/

namespace MyFuzz

open Outcome

/-- Epoch and sequence of a command. -/
abbrev CommandId : Type := ℤ × ℤ

/-- Where a testcase run stands. -/
inductive RunnerStatus where
  | created
  | running
  | quiescing
  | failed
  | finalized
  deriving DecidableEq

section Ledger

variable (World Inputs Observation : Type)

/-- A call into the scene: its answer, the scene after it, and whether it failed the run. -/
structure SceneReply (α : Type) where
  result : Except Exn α
  world : World
  fails : Bool

/-- What surrounds the ledger. -/
structure Scene where
  sessions : List String
  /-- Take over the clocks of the harnesses, when a budget counts them. -/
  syncSessionTicks : World → SceneReply World Unit
  /-- The inputs a harness would be stepped with. -/
  effectiveInputs : World → String → Except Exn Inputs
  /-- The wall clock, event, tick and transaction budgets before a step. -/
  ensureCapacity : World → String → Inputs → SceneReply World Unit
  /-- Advance a harness and check what it did against the declared bounds. -/
  stepOnce : World → String → SceneReply World Observation
  /-- Everything a reset does before its barrier. -/
  resetSessions : World → SceneReply World Unit
  /-- What a reset does behind its barrier. -/
  afterBarrier : World → SceneReply World Unit

/-- The complete observation of one command. -/
structure StepReceipt where
  executionId : String
  commandSequence : ℤ
  epoch : ℤ
  component : String
  inputs : Inputs
  observation : Observation
  deriving DecidableEq

/-- An issued command; without a receipt its effect is uncertain. -/
structure StepCommand where
  component : String
  inputs : Inputs
  receipt : Option (StepReceipt Inputs Observation)
  deriving DecidableEq

/-- The ledger of one runner. -/
structure RunnerState where
  status : RunnerStatus
  executionId : String
  commandEpoch : ℤ
  nextCommandSequence : ℤ
  stepCommands : Dict CommandId (StepCommand Inputs Observation)
  retiredStepFloor : Dict ℤ ℤ
  world : World
  log : List (CommandId × StepCommand Inputs Observation)

/-- One call on a runner. -/
inductive RunnerCall where
  | executeStep (component executionId : String) (sequence epoch : ℤ) (inputs : Inputs)
  | step (component : String)
  | resetAll
  | retire (epoch sequence : ℤ)

end Ledger

section Calls

variable {World Inputs Observation : Type} [DecidableEq Inputs]

namespace RunnerState

/-- The ledger of a testcase that has begun. -/
def start (executionId : String) (world : World) : RunnerState World Inputs Observation :=
  ⟨.running, executionId, 0, 1, .empty, .empty, world, []⟩

/-- Everything up to this sequence of an epoch is retired. -/
def floor (s : RunnerState World Inputs Observation) (epoch : ℤ) : ℤ :=
  s.retiredStepFloor.getD epoch 0

/-- The state after a call into the scene. -/
def after {α : Type} (s : RunnerState World Inputs Observation) (reply : SceneReply World α) :
    RunnerState World Inputs Observation :=
  { s with world := reply.world, status := if reply.fails then .failed else s.status }

end RunnerState

namespace StepLedger

/-- The answer to a command that was issued before. -/
def recallReceipt (previous : StepCommand Inputs Observation) (component : String)
    (inputs : Inputs) : Except Exn (StepReceipt Inputs Observation) := do
  ensure (previous.component = component ∧ previous.inputs = inputs)
    (.valueError "identity_conflict: STEP payload changed")
  match previous.receipt with
  | none => throw (.runtimeError "uncertain_effect: STEP outcome is not known")
  | some receipt => return receipt

variable (scene : Scene World Inputs Observation)

/-- Issue a command: from here on it is known, whatever the harness does. -/
def issueCommand (component : String) (sequence epoch : ℤ) (inputs : Inputs)
    (s : RunnerState World Inputs Observation) :
    Except Exn (StepReceipt Inputs Observation) × RunnerState World Inputs Observation :=
  let reply := scene.stepOnce s.world component
  let issued := { s with
    stepCommands := s.stepCommands.set (epoch, sequence) ⟨component, inputs, none⟩
    nextCommandSequence := s.nextCommandSequence + 1 }
  match reply.result with
  | .error e =>
      (.error e, { issued.after reply with
        status := .failed
        log := s.log ++ [((epoch, sequence), ⟨component, inputs, none⟩)] })
  | .ok observation =>
      let receipt := ⟨s.executionId, sequence, epoch, component, inputs, observation⟩
      (.ok receipt, { issued.after reply with
        stepCommands := issued.stepCommands.set (epoch, sequence) ⟨component, inputs, some receipt⟩
        log := s.log ++ [((epoch, sequence), ⟨component, inputs, some receipt⟩)] })

/-- The budgets in front of a command. -/
def admitCommand (component : String) (sequence epoch : ℤ) (inputs : Inputs)
    (s : RunnerState World Inputs Observation) :
    Except Exn (StepReceipt Inputs Observation) × RunnerState World Inputs Observation :=
  match scene.effectiveInputs s.world component with
  | .error e => (.error e, s)
  | .ok effective =>
      if inputs ≠ effective then
        (.error (.valueError "STEP payload disagrees with scenario input state"), s)
      else
        let reply := scene.ensureCapacity s.world component inputs
        match reply.result with
        | .error e => (.error e, s.after reply)
        | .ok () => issueCommand scene component sequence epoch inputs (s.after reply)

/-- A command that is not known yet. -/
def freshCommand (component : String) (sequence epoch : ℤ) (inputs : Inputs)
    (s : RunnerState World Inputs Observation) :
    Except Exn (StepReceipt Inputs Observation) × RunnerState World Inputs Observation :=
  if s.status ∉ [.running, .quiescing] then (.error (.runtimeError "scenario is not running"), s)
  else if epoch ≠ s.commandEpoch then
    (.error (.valueError "stale_epoch: STEP belongs to an old reset epoch"), s)
  else if sequence ≠ s.nextCommandSequence then
    (.error (.valueError "out_of_order_command: STEP sequence is not next"), s)
  else if component ∉ scene.sessions then (.error (.valueError "unknown local harness"), s)
  else
    let reply := scene.syncSessionTicks s.world
    match reply.result with
    | .error e => (.error e, s.after reply)
    | .ok () => admitCommand scene component sequence epoch inputs (s.after reply)

/-- **Execute one command, or return its receipt again.** -/
def executeStep (component executionId : String) (sequence epoch : ℤ) (inputs : Inputs)
    (s : RunnerState World Inputs Observation) :
    Except Exn (StepReceipt Inputs Observation) × RunnerState World Inputs Observation :=
  if s.executionId = "" ∨ executionId ≠ s.executionId then
    (.error (.valueError "stale_execution: STEP belongs to another testcase run"), s)
  else if sequence < 1 ∨ epoch < 0 then
    (.error (.valueError "invalid STEP command identity or payload"), s)
  else if sequence ≤ s.floor epoch then
    (.error (.valueError "retired_command: STEP receipt was acknowledged and retired"), s)
  else
    match s.stepCommands.get? (epoch, sequence) with
    | some previous => (recallReceipt previous component inputs, s)
    | none => freshCommand scene component sequence epoch inputs s

/-- Advance one harness by the next command. -/
def step (component : String) (s : RunnerState World Inputs Observation) :
    Except Exn (StepReceipt Inputs Observation) × RunnerState World Inputs Observation :=
  if component ∉ scene.sessions then (.error (.valueError "unknown local harness"), s)
  else
    let reply := scene.syncSessionTicks s.world
    match reply.result with
    | .error e => (.error e, s.after reply)
    | .ok () =>
        match scene.effectiveInputs (s.after reply).world component with
        | .error e => (.error e, s.after reply)
        | .ok effective =>
            executeStep scene component s.executionId s.nextCommandSequence s.commandEpoch effective
              (s.after reply)

/-- Reset every harness and start a new epoch. -/
def resetAll (s : RunnerState World Inputs Observation) :
    Except Exn Unit × RunnerState World Inputs Observation :=
  if s.status ≠ .running then (.error (.runtimeError "scenario is not running"), s)
  else
    let reply := scene.resetSessions s.world
    match reply.result with
    | .error e => (.error e, s.after reply)
    | .ok () =>
        let barrier := { s.after reply with
          commandEpoch := s.commandEpoch + 1
          nextCommandSequence := 1 }
        let concluded := scene.afterBarrier barrier.world
        (concluded.result, barrier.after concluded)

/-- Drop the receipts of an epoch above the floor and up to a boundary, one after the other. -/
def dropReceipts (epoch previous boundary : ℤ) :
    List CommandId → Dict CommandId (StepCommand Inputs Observation) →
      Except Exn Unit × Dict CommandId (StepCommand Inputs Observation)
  | [], commands => (.ok (), commands)
  | id :: rest, commands =>
      if id.1 = epoch ∧ previous < id.2 ∧ id.2 ≤ boundary then
        match commands.get? id with
        | none => (.error (.other "KeyError"), commands)
        | some command =>
            if command.receipt = none then
              (.error (.valueError "cannot retire an uncertain STEP command"), commands)
            else dropReceipts epoch previous boundary rest (commands.erase id)
      else dropReceipts epoch previous boundary rest commands

/-- **Release acknowledged receipts.** -/
def retireStepReceiptsThrough (epoch sequence : ℤ) (s : RunnerState World Inputs Observation) :
    Except Exn Unit × RunnerState World Inputs Observation :=
  if epoch < 0 ∨ sequence < 0 ∨ s.commandEpoch < epoch then
    (.error (.valueError "invalid STEP receipt retirement boundary"), s)
  else if epoch = s.commandEpoch ∧ s.nextCommandSequence ≤ sequence then
    (.error (.valueError "cannot retire an unissued STEP command"), s)
  else if sequence < s.floor epoch then
    (.error (.valueError "STEP receipt retirement cannot move backwards"), s)
  else
    let dropped := dropReceipts epoch (s.floor epoch) sequence s.stepCommands.keys s.stepCommands
    match dropped.1 with
    | .error e => (.error e, { s with stepCommands := dropped.2 })
    | .ok () => (.ok (), { s with
        stepCommands := dropped.2
        retiredStepFloor := s.retiredStepFloor.set epoch sequence })

end StepLedger

open StepLedger in
/-- The state a call leads to. -/
def RunnerState.call (scene : Scene World Inputs Observation)
    (s : RunnerState World Inputs Observation) : RunnerCall Inputs → RunnerState World Inputs Observation
  | .executeStep component executionId sequence epoch inputs =>
      (executeStep scene component executionId sequence epoch inputs s).2
  | .step component => (step scene component s).2
  | .resetAll => (resetAll scene s).2
  | .retire epoch sequence => (retireStepReceiptsThrough epoch sequence s).2

end Calls

end MyFuzz
