import MyFuzz.Foundations.BitField
import MyFuzz.Scenario.Ownership
import MyFuzz.Scenario.StepCommands

/-!
# Scenario/InputRouting — the inputs a runner drives

A runner keeps one number for every input port.  A fuzzable source writes its segment of a port, an
observed output writes the segments that are bound to it, and a reset clears everything.

    inject ──▸ source segment ──┐
                                ├──▸ inputs : component ⇀ port ⇀ bits
    route  ──▸ bound segments ──┘

Budgets, admission by the harness and the event log are parameters that may raise; the log is asked
after the input is written.
-/

namespace MyFuzz

open Outcome

/-- A declared route from an output segment to an input segment. -/
structure Binding where
  sourceComponent : String
  sourcePort : String
  targetComponent : String
  targetPort : String
  width : ℕ
  sourceBitOffset : ℕ
  targetBitOffset : ℕ
  endpoints : sourceComponent ≠ "" ∧ sourcePort ≠ "" ∧ targetComponent ≠ "" ∧ targetPort ≠ ""
  width_pos : 1 ≤ width

/-- The producer of a binding as ownership maps name it. -/
def Binding.producer (b : Binding) : String := b.sourceComponent ++ "." ++ b.sourcePort

/-- The bindings of a runner join known harnesses and agree with the ownership of their targets. -/
def checkBindings (sessions : List String) (ownership : OwnershipMap) (bindings : List Binding) :
    Except Exn Unit :=
  bindings.forM fun b => do
    ensure (b.sourceComponent ∈ sessions ∧ b.targetComponent ∈ sessions)
      (.valueError "binding references unknown local harness")
    let actual ← ownership.bindingProducer b.targetComponent b.targetPort b.targetBitOffset b.width
    ensure (actual = b.producer) (.valueError "binding producer does not match input ownership")

/-- What a runner is constructed with, and what surrounds its inputs. -/
structure InputScene (World : Type) where
  sessions : List String
  ownership : OwnershipMap
  bindings : List Binding
  accepted : checkBindings sessions ownership bindings = .ok ()
  /-- The budgets before an injection and its admission by the harness. -/
  admitSource : World → String → String → ℕ → ℕ → ℕ → SceneReply World (Option ℤ)
  /-- Append the event of an injection. -/
  recordInjection : World → String → String → ℕ → ℕ → ℕ → SceneReply World Unit
  /-- Append the events of a delivery. -/
  recordDelivery : World → Binding → ℕ → ℕ → SceneReply World Unit
  /-- Everything a reset does before its barrier. -/
  resetSessions : World → SceneReply World Unit
  /-- What a reset does behind its barrier. -/
  afterBarrier : World → SceneReply World Unit

/-- The inputs of a runner. -/
structure InputState (World : Type) where
  status : RunnerStatus
  inputs : Dict String (Dict String ℕ)
  world : World

/-- A call that reaches the inputs. -/
inductive InputCall where
  | inject (component port : String) (value bitOffset : ℤ) (width : Option ℤ)
  | route (component : String) (outputs : Dict String ℤ)
  | resetAll

section Inputs

variable {World : Type}

namespace InputState

/-- No port is driven. -/
def noInputs (sessions : List String) : Dict String (Dict String ℕ) :=
  Dict.empty.update (sessions.map fun component => (component, Dict.empty))

/-- A runner that has begun. -/
def start (sessions : List String) (world : World) : InputState World :=
  ⟨.running, noInputs sessions, world⟩

/-- The number that drives a port. -/
def port (s : InputState World) (component port : String) : ℕ :=
  (s.inputs.getD component .empty).getD port 0

/-- The state after a call into the scene. -/
def after {α : Type} (s : InputState World) (reply : SceneReply World α) : InputState World :=
  { s with world := reply.world, status := if reply.fails then .failed else s.status }

/-- Write a segment of a port. -/
def write (s : InputState World) (component port : String) (offset width value : ℕ) : InputState World :=
  { s with inputs := s.inputs.set component ((s.inputs.getD component .empty).set port
      (BitField.writeSegment (s.port component port) offset width value)) }

end InputState

variable (scene : InputScene World)

/-- The segment and the value of an injection. -/
structure Segment where
  offset : ℕ
  width : ℕ
  value : ℕ

/-- The checks of an injection. -/
def checkInjection (component port : String) (value bitOffset : ℤ) (width : Option ℤ)
    (s : InputState World) : Except Exn Segment := do
  ensure (s.status = .running) (.runtimeError "scenario is not running")
  ensure (component ∈ scene.sessions) (.valueError "unknown local harness")
  let fieldWidth ← scene.ownership.fieldWidth component port
  let selectedWidth := width.getD fieldWidth
  let _ ← scene.ownership.mutationSource component port bitOffset selectedWidth
  ensure (0 ≤ value ∧ value < 2 ^ selectedWidth.toNat) (.valueError "source value exceeds declared segment")
  return ⟨bitOffset.toNat, selectedWidth.toNat, value.toNat⟩

/-- Write an admitted injection, then record it. -/
def writeInjection (component port : String) (segment : Segment) (tick : Option ℤ)
    (s : InputState World) : Except Exn (Option ℤ) × InputState World :=
  let written := s.write component port segment.offset segment.width segment.value
  let reply := scene.recordInjection s.world component port segment.offset segment.width
    segment.value
  (reply.result.map fun _ => tick, written.after reply)

/-- **Drive a segment of a fuzzable input.** -/
def injectSource (component port : String) (value bitOffset : ℤ) (width : Option ℤ)
    (s : InputState World) : Except Exn (Option ℤ) × InputState World :=
  match checkInjection scene component port value bitOffset width s with
  | .error e => (.error e, s)
  | .ok segment =>
      let reply := scene.admitSource s.world component port segment.offset segment.width
        segment.value
      match reply.result with
      | .error e => (.error e, s.after reply)
      | .ok tick => writeInjection scene component port segment tick (s.after reply)

/-- Deliver an observed value along one binding. -/
def deliverBinding (b : Binding) (value : ℤ) (s : InputState World) : Except Exn Unit × InputState World :=
  if value < 0 then
    (.error (.valueError "observed RTL output must be a nonnegative integer"), s)
  else
    let fragment := BitField.readSegment value.toNat b.sourceBitOffset b.width
    let written := s.write b.targetComponent b.targetPort b.targetBitOffset b.width fragment
    let reply := scene.recordDelivery s.world b fragment
      (written.port b.targetComponent b.targetPort)
    (reply.result, written.after reply)

/-- The value that an observation has for a binding. -/
def Binding.observed (b : Binding) (component : String) (outputs : Dict String ℤ) : Option ℤ :=
  if b.sourceComponent ≠ component then none else outputs.get? b.sourcePort

/-- **Route observed outputs along the bindings.** -/
def routeObservedOutputs (component : String) (outputs : Dict String ℤ) :
    List Binding → InputState World → Except Exn Unit × InputState World
  | [], s => (.ok (), s)
  | b :: rest, s =>
      match b.observed component outputs with
      | none => routeObservedOutputs component outputs rest s
      | some value =>
          match deliverBinding scene b value s with
          | (.error e, s') => (.error e, s')
          | (.ok (), s') => routeObservedOutputs component outputs rest s'

/-- Reset every harness and clear the inputs. -/
def clearInputs (s : InputState World) : Except Exn Unit × InputState World :=
  if s.status ≠ .running then (.error (.runtimeError "scenario is not running"), s)
  else
    let reply := scene.resetSessions s.world
    match reply.result with
    | .error e => (.error e, s.after reply)
    | .ok () =>
        let cleared := { s.after reply with inputs := InputState.noInputs scene.sessions }
        let concluded := scene.afterBarrier reply.world
        (concluded.result, cleared.after concluded)

/-- The state a call leads to. -/
def InputState.call (s : InputState World) : InputCall → InputState World
  | .inject component port value bitOffset width =>
      (injectSource scene component port value bitOffset width s).2
  | .route component outputs => (routeObservedOutputs scene component outputs scene.bindings s).2
  | .resetAll => (clearInputs scene s).2

end Inputs

end MyFuzz
