import MyFuzz.Foundations.Effect
import MyFuzz.Scenario.InputRouting
import MyFuzz.Scenario.Irq
import MyFuzz.Scenario.Memory

/-!
# Scenario/WholeReset — a reset of the whole scenario

A reset delivers what the harnesses logged, stops every harness and then the memories, and only then
forgets what was on its way between them:

    request ──▸ drains ──▸ counts ──▸ harnesses, memories ──▸ inputs, pulses, epoch + 1 ──▸ image
                                      └── fail the run ──┘

What harnesses, budgets, evidence and the event log do is a parameter.  A memory may be shared, so
memories and pulses are objects with a number.  `resets` is not in the source: it records each harness
whose reset was called.
-/

namespace MyFuzz

open Outcome

/-- What a harness answers to a reset. -/
structure ResetOutcome where
  cancelledResponses : ℤ
  cancelledTargetRequests : List String

/-- What a reset of the whole scenario returns. -/
structure ResetResult where
  policy : String
  memoryGenerations : List (String × ℕ)
  cancelledResponses : List (String × ℤ)
  deriving DecidableEq

section Runner

variable (Harness Log τ : Type)

/-- What harnesses exchange with each other and report. -/
@[ext] structure Exchange where
  inputs : Dict String (Dict String ℕ)
  pendingBoundTargets : List String
  irqPulses : ℕ → IrqPulseDelivery τ
  harness : Harness
  log : Log

/-- What surrounds a reset. -/
structure ResetScene where
  sessions : List String
  sessions_ne_nil : sessions ≠ []
  /-- The harness has a local reset. -/
  resettable : String → Bool
  /-- The persistent memory of a harness. -/
  memoryOf : String → Option ℕ
  config : ℕ → MemoryConfig
  pulseBindings : List Binding
  pulseConfig : ℕ → IrqConfig
  eventCount : Log → ℕ
  /-- Guards of evidence and budgets before a reset. -/
  guard : Harness → Log → SceneReply Log Unit
  /-- Deliver what the harnesses logged, and see that the streams have room for a reset. -/
  drain : Exchange Harness Log τ → SceneReply (Exchange Harness Log τ) Unit
  pendingResponses : String → Harness → ℤ
  pendingEvents : String → Harness → ℤ
  resetLocal : String → Harness → Log → Except Exn ResetOutcome × Harness × Log
  /-- Append the events of a pulse that was reset. -/
  appendPulseEvents : Binding → IrqPulseDelivery τ → Log → SceneReply Log Unit
  /-- Append the event of a barrier. -/
  appendBarrier : Log → SceneReply Log Unit
  /-- Evidence, what the harnesses logged, and dependencies behind a barrier. -/
  recordBarrier : Harness → Log → SceneReply Log Unit
  /-- The event and the dependencies of an image that was installed. -/
  recordImage : MemoryImage → Log → SceneReply Log Unit

/-- The part of a runner that a reset changes. -/
structure ResetRunner extends Exchange Harness Log τ where
  status : RunnerStatus
  localTicks : String → ℤ
  commandEpoch : ℤ
  nextCommandSequence : ℤ
  memories : ℕ → PersistentMemory
  resets : List String

end Runner

namespace ResetRunner

variable {Harness Log τ : Type} (scene : ResetScene Harness Log τ)

/-- Call into the scene. -/
def ask (reply : ResetRunner Harness Log τ → SceneReply Log Unit) :
    Effect (ResetRunner Harness Log τ) Unit := fun s =>
  ((reply s).result,
    { s with log := (reply s).world, status := if (reply s).fails then .failed else s.status })

/-- Deliver what the harnesses logged. -/
def drainHarnesses : Effect (ResetRunner Harness Log τ) Unit := fun s =>
  let reply := scene.drain s.toExchange
  (reply.result,
    { s with toExchange := reply.world, status := if reply.fails then .failed else s.status })

/-- Look at the counts that the harnesses report. -/
def checkCounts (noun : String) (count : String → Harness → ℤ) (harness : Harness) : Except Exn Unit :=
  scene.sessions.forM fun component => ensure (0 ≤ count component harness)
    (.valueError ("invalid pending " ++ noun ++ " count for " ++ component))

/-- The persistent memories, each once. -/
def memoryObjects : List ℕ := Sequence.firsts (scene.sessions.filterMap scene.memoryOf)

/-- The memory an image is meant for. -/
def imageTarget (image : Option MemoryImage) : Except Exn (Option (MemoryImage × ℕ)) :=
  match image with
  | none => .ok none
  | some image => do
    ensure (image.component ∈ scene.sessions) (.valueError "reset image references unknown local harness")
    match scene.memoryOf image.component with
    | none => .error (.valueError "reset image destination has no persistent memory")
    | some object => return some (image, object)

/-- **What a request is checked for.** -/
def admitReset (policy : String) (image : Option MemoryImage) :
    Effect (ResetRunner Harness Log τ) (Option (MemoryImage × ℕ)) := do
  let s ← Effect.get
  Effect.lift (ensure (s.status = .running) (.runtimeError "scenario is not running"))
  Effect.lift (ensure (policy = "warm_all" ∨ policy = "cold_all")
    (.valueError "unsupported reset policy; only warm_all/cold_all"))
  let target ← Effect.lift (imageTarget scene image)
  Effect.lift (scene.sessions.forM fun component => ensure (scene.resettable component = true)
    (.valueError ("local harness " ++ component ++ " cannot reset")))
  ask fun s => scene.guard s.harness s.log
  return target

/-- The regions of all memories have names of their own. -/
def Unambiguous : Prop :=
  ((memoryObjects scene).flatMap fun o => (scene.config o).regions.map MemoryRegion.memoryId).Nodup

instance : Decidable (Unambiguous scene) := inferInstanceAs (Decidable (List.Nodup _))

/-- **What was on its way before a reset**, and the checks behind it. -/
def drainReset : Effect (ResetRunner Harness Log τ) Unit := do
  drainHarnesses scene
  let s ← Effect.get
  Effect.lift (checkCounts scene "response" scene.pendingResponses s.harness)
  Effect.lift (checkCounts scene "event" scene.pendingEvents s.harness)
  Effect.lift (ensure (Unambiguous scene) (.valueError "ambiguous memory identity"))

/-- Reset one harness. -/
def resetHarness (component : String) : Effect (ResetRunner Harness Log τ) (String × ℤ) := fun s =>
  let reply := scene.resetLocal component s.harness s.log
  (do
    let outcome ← reply.1
    ensure (0 ≤ outcome.cancelledResponses) (.valueError "invalid reset cancellation receipt")
    ensure (∀ request ∈ outcome.cancelledTargetRequests, request ≠ "")
      (.valueError "invalid target cancellation receipt")
    return (component, outcome.cancelledResponses),
    { s with harness := reply.2.1, log := reply.2.2, resets := s.resets ++ [component] })

def resetHarnesses : List String → Effect (ResetRunner Harness Log τ) (List (String × ℤ))
  | [] => pure []
  | component :: components => do
    let cancelled ← resetHarness scene component
    let rest ← resetHarnesses components
    return cancelled :: rest

/-- One memory under a policy. -/
def resetMemory (policy : String) (object : ℕ) (m : PersistentMemory) : PersistentMemory :=
  if policy = "cold_all" then m.coldReset (scene.config object) else m.warmReset

def resetMemories (policy : String) (memories : ℕ → PersistentMemory) (object : ℕ) : PersistentMemory :=
  if object ∈ memoryObjects scene then resetMemory scene policy object (memories object) else memories object

/-- **Reset every harness, and then every memory.** -/
def resetSessions (policy : String) : Effect (ResetRunner Harness Log τ) ResetResult := do
  let cancelled ← resetHarnesses scene (scene.sessions.insertionSort (· ≤ ·))
  Effect.modify fun s => { s with memories := resetMemories scene policy s.memories }
  let s ← Effect.get
  let generations := (memoryObjects scene).flatMap fun o =>
    (scene.config o).regions.map fun r => (r.memoryId, (s.memories o).generation)
  return ⟨policy, generations, cancelled⟩

/-- Fail the run if something raises. -/
def guarded {α : Type} (x : Effect (ResetRunner Harness Log τ) α) :
    Effect (ResetRunner Harness Log τ) α := fun s =>
  match x s with
  | (.ok a, s') => (.ok a, s')
  | (.error e, s') => (.error e, { s' with status := .failed })

/-- Reset one pulse and append what it reports. -/
def resetPulse (pulse : Binding × ℕ) : Effect (ResetRunner Harness Log τ) Unit := do
  Effect.modify fun s =>
    let stopped := (s.irqPulses pulse.2).reset (scene.pulseConfig pulse.2)
      (s.localTicks pulse.1.targetComponent)
    { s with irqPulses := Function.update s.irqPulses pulse.2 stopped }
  ask fun s => scene.appendPulseEvents pulse.1 (s.irqPulses pulse.2) s.log

/-- **What follows the reset of the harnesses.** -/
def passBarrier : Effect (ResetRunner Harness Log τ) Unit := do
  Effect.modify fun s => { s with
    inputs := Dict.update .empty (scene.sessions.map fun component => (component, .empty))
    pendingBoundTargets := [] }
  Effect.each (resetPulse scene) scene.pulseBindings.zipIdx
  Effect.modify fun s => { s with commandEpoch := s.commandEpoch + 1, nextCommandSequence := 1 }
  let s ← Effect.get
  Effect.lift (checkCounts scene "event" scene.pendingEvents s.harness)
  ask fun s => scene.appendBarrier s.log
  ask fun s => scene.recordBarrier s.harness s.log

/-- Write an image over the initial image of a memory. -/
def writeImage (image : MemoryImage) (object : ℕ) :
    Effect (ResetRunner Harness Log τ) (String × ℕ × Version) := fun s =>
  let written := (s.memories object).reinstallImage (scene.config object) image.address
    (image.data.map UInt8.ofNat) ("reset-image:" ++ toString (scene.eventCount s.log + 1))
  (written.1, { s with memories := Function.update s.memories object written.2 })

/-- Install the image of a reset. -/
def installImage : Option (MemoryImage × ℕ) → Effect (ResetRunner Harness Log τ) Unit
  | none => pure ()
  | some (image, object) => do
    let _ ← writeImage scene image object
    ask fun s => scene.recordImage image s.log

/-- **Reset the whole scenario.** -/
def resetAll (policy : String) (image : Option MemoryImage) :
    Effect (ResetRunner Harness Log τ) ResetResult := do
  let target ← admitReset scene policy image
  drainReset scene
  let result ← guarded (resetSessions scene policy)
  passBarrier scene
  installImage scene target
  return result

end ResetRunner

end MyFuzz
