import MyFuzz.Foundations.Bracket
import MyFuzz.Foundations.Run

/-!
# Scenario/Irq — source edges mapped to pulses of CPU ticks

`IrqPulseDelivery` turns a rising edge of an observed source into a pulse of fixed width on the CPU's
input, and closes the pulse when a CPU tick at or past its end is sampled:

    source  ──┐  ┌──┐
    level     └──┘  └───        edge seen at tick t
    input   ────────┌────┐──    1 on [t + 1, t + 1 + width)

Source and CPU are observed on different clocks: an edge may be seen at a tick that no sample has
reached.  Ticks are integers as in the source; a reset may set the last CPU tick to any of them.
Source triggers are carried along and never inspected, so their type is a parameter.
-/

namespace MyFuzz

open Run Outcome

/-- What a delivery is constructed with. -/
structure IrqConfig where
  widthTicks : ℤ
  requireObservedBaseline : Bool
  width_bounds : 1 ≤ widthTicks ∧ widthTicks ≤ 4096

/-- Whether the one slot was ever asked for twice. -/
inductive IrqStatus where
  | active
  | unsupportedIrqOverrun
  deriving DecidableEq

/-- The events of a delivery. -/
inductive IrqEvent (τ : Type) where
  | sourceEnd (sourceTick cpuTick : ℤ) (sourceEventId : ℕ) (sourceTrigger : Option τ)
  | sourceStart (sourceTick cpuTick : ℤ) (sourceEventId : ℕ) (sourceTrigger : Option τ)
  | irqOverrun (sourceTick cpuTick : ℤ) (sourceEventId : ℕ) (activeSourceEventId : Option ℕ)
  | pulseStart (sourceEventId : ℕ) (startCpuTick endCpuTickExclusive : ℤ)
      (sourceTrigger : Option τ)
  | cpuIrqInput (cpuTick value : ℤ) (sourceEventId : Option ℕ) (cpuStepEventId : ℤ)
      (sourceTrigger : Option τ)
  | cpuIrqTaken (cpuTick : ℤ) (sourceEventId : Option ℕ) (cpuStepEventId : Option ℤ)
      (sourceTrigger : Option τ)
  | expiredMasked (sourceEventId : Option ℕ) (endCpuTickExclusive : ℤ)
  | pulseExpired (sourceEventId : Option ℕ) (endCpuTickExclusive : ℤ)
  | pulseCancelledByReset (sourceEventId : Option ℕ) (cpuTick : ℤ)
  deriving DecidableEq

/-- The state of a delivery. -/
structure IrqPulseDelivery (τ : Type) where
  events : List (IrqEvent τ)
  status : IrqStatus
  sourceLevel : Option ℤ
  sourceCount : ℕ
  sourceEventId : Option ℕ
  activeSourceEventId : Option ℕ
  sourceTrigger : Option τ
  activeSourceTrigger : Option τ
  pulseStart : Option ℤ
  pulseEnd : Option ℤ
  lastCpuTick : ℤ
  allMasked : Bool
  maskedTickCount : ℤ
  deriving DecidableEq

namespace IrqPulseDelivery

variable {τ : Type} (cfg : IrqConfig)

/-- The level assumed before any observation. -/
def baseline : Option ℤ := if cfg.requireObservedBaseline then none else some 0

/-- A new delivery. -/
def init : IrqPulseDelivery τ where
  events := []
  status := .active
  sourceLevel := baseline cfg
  sourceCount := 0
  sourceEventId := none
  activeSourceEventId := none
  sourceTrigger := none
  activeSourceTrigger := none
  pulseStart := none
  pulseEnd := none
  lastCpuTick := 0
  allMasked := true
  maskedTickCount := 0

/-- Append an event. -/
def emit (s : IrqPulseDelivery τ) (e : IrqEvent τ) : IrqPulseDelivery τ :=
  { s with events := s.events ++ [e] }

/-- The source level fell: the event that raised it ends. -/
def fall (s : IrqPulseDelivery τ) (sourceTick cpuTick : ℤ) : IrqPulseDelivery τ :=
  match s.sourceEventId with
  | none => s
  | some id => { s.emit (.sourceEnd sourceTick cpuTick id s.sourceTrigger) with
      sourceEventId := none
      sourceTrigger := none }

/-- The slot is taken at this tick. -/
def occupied (s : IrqPulseDelivery τ) (cpuTick : ℤ) : Prop := ∃ stop ∈ s.pulseEnd, cpuTick < stop

instance (s : IrqPulseDelivery τ) (cpuTick : ℤ) : Decidable (s.occupied cpuTick) :=
  inferInstanceAs (Decidable (∃ stop ∈ s.pulseEnd, cpuTick < stop))

/-- Start a pulse for an edge. -/
def startPulse (s : IrqPulseDelivery τ) (id : ℕ) (cpuTick : ℤ) (trigger : Option τ) : IrqPulseDelivery τ :=
  { s with
    activeSourceEventId := some id
    activeSourceTrigger := trigger
    pulseStart := some (cpuTick + 1)
    pulseEnd := some (cpuTick + 1 + cfg.widthTicks)
    allMasked := true
    maskedTickCount := 0 }.emit
      (.pulseStart id (cpuTick + 1) (cpuTick + 1 + cfg.widthTicks) trigger)

/-- Count an edge. -/
def countEdge (s : IrqPulseDelivery τ) (sourceTick cpuTick : ℤ) (trigger : Option τ) : IrqPulseDelivery τ :=
  { s with
    sourceCount := s.sourceCount + 1
    sourceEventId := some (s.sourceCount + 1)
    sourceTrigger := trigger }.emit
      (.sourceStart sourceTick cpuTick (s.sourceCount + 1) trigger)

/-- The slot is asked for while it is taken. -/
def overrun (s : IrqPulseDelivery τ) (sourceTick cpuTick : ℤ) (id : ℕ) : IrqPulseDelivery τ :=
  { s with status := .unsupportedIrqOverrun }.emit
    (.irqOverrun sourceTick cpuTick id s.activeSourceEventId)

/-- The source level rose: an edge. -/
def rise (s : IrqPulseDelivery τ) (sourceTick cpuTick : ℤ) (trigger : Option τ) : IrqPulseDelivery τ :=
  if (s.countEdge sourceTick cpuTick trigger).occupied cpuTick then
    (s.countEdge sourceTick cpuTick trigger).overrun sourceTick cpuTick (s.sourceCount + 1)
  else if (s.countEdge sourceTick cpuTick trigger).status ≠ .active then
    s.countEdge sourceTick cpuTick trigger
  else startPulse cfg (s.countEdge sourceTick cpuTick trigger) (s.sourceCount + 1) cpuTick trigger

/-- See a level: the first one, the same one, or an edge. -/
def seeLevel (s : IrqPulseDelivery τ) (level sourceTick cpuTick : ℤ) (trigger : Option τ) :
    IrqPulseDelivery τ :=
  match s.sourceLevel with
  | none => { s with sourceLevel := some level }
  | some previous =>
      if level = previous then s
      else if level = 0 then { s with sourceLevel := some level }.fall sourceTick cpuTick
      else { s with sourceLevel := some level }.rise cfg sourceTick cpuTick trigger

/-- Observe the source level. -/
def observeSource (s : IrqPulseDelivery τ) (level sourceTick cpuTick : ℤ) (trigger : Option τ) :
    Except Exn Unit × IrqPulseDelivery τ :=
  if ¬ (level = 0 ∨ level = 1) then (.error (.valueError "IRQ source level must be one bit"), s)
  else if sourceTick < 0 ∨ cpuTick < s.lastCpuTick then
    (.error (.valueError "IRQ local tick moved backwards"), s)
  else (.ok (), s.seeLevel cfg level sourceTick cpuTick trigger)

/-- The value on the CPU's input at a tick. -/
def inputAt (s : IrqPulseDelivery τ) (cpuTick : ℤ) : Except Exn ℤ := do
  ensure (¬ cpuTick < s.lastCpuTick) (.valueError "CPU local tick moved backwards")
  match s.pulseStart, s.pulseEnd with
  | some start, some stop => .ok (if start ≤ cpuTick ∧ cpuTick < stop then 1 else 0)
  | _, _ => .ok 0

/-- Whether a CPU tick is still needed to deliver or expire a pulse. -/
def pending (s : IrqPulseDelivery τ) : Bool := s.pulseEnd.isSome

/-- The input a CPU step saw. -/
def recordStep (s : IrqPulseDelivery τ) (cpuTick value : ℤ) (cpuStepEventId : Option ℤ) :
    IrqPulseDelivery τ :=
  match cpuStepEventId with
  | none => s
  | some step =>
      s.emit (.cpuIrqInput cpuTick value s.activeSourceEventId step s.activeSourceTrigger)

/-- The interrupt a CPU step took. -/
def recordTaken (s : IrqPulseDelivery τ) (cpuTick : ℤ) (accepted : Option Bool)
    (cpuStepEventId : Option ℤ) : IrqPulseDelivery τ :=
  if accepted = some true then
    s.emit (.cpuIrqTaken cpuTick s.activeSourceEventId cpuStepEventId s.activeSourceTrigger)
  else s

/-- The events a CPU tick records while the input is up. -/
def recordInput (s : IrqPulseDelivery τ) (cpuTick value : ℤ) (accepted : Option Bool)
    (cpuStepEventId : Option ℤ) : IrqPulseDelivery τ :=
  if value = 0 then s
  else (s.recordStep cpuTick value cpuStepEventId).recordTaken cpuTick accepted cpuStepEventId

/-- What a CPU tick tells about the mask. -/
def observeMask (s : IrqPulseDelivery τ) (cpuTick value : ℤ) (masked : Option Bool) : IrqPulseDelivery τ :=
  let s := if s.pulseEnd.isSome ∧ cpuTick ≠ s.lastCpuTick + 1 then { s with allMasked := false } else s
  if value = 0 then s
  else if masked = some true then { s with maskedTickCount := s.maskedTickCount + 1 }
  else { s with allMasked := false }

/-- Close a pulse whose end is reached. -/
def expire (s : IrqPulseDelivery τ) (cpuTick : ℤ) : IrqPulseDelivery τ :=
  match s.pulseEnd with
  | none => s
  | some stop =>
      if cpuTick < stop then s
      else
        let event := if s.allMasked = true ∧ s.maskedTickCount = cfg.widthTicks
          then IrqEvent.expiredMasked s.activeSourceEventId stop
          else .pulseExpired s.activeSourceEventId stop
        { s.emit event with
          activeSourceEventId := none
          activeSourceTrigger := none
          pulseStart := none
          pulseEnd := none }

/-- Sample the input at a CPU tick. -/
def sampleCpu (s : IrqPulseDelivery τ) (cpuTick : ℤ) (masked accepted : Option Bool)
    (cpuStepEventId : Option ℤ) : Except Exn ℤ × IrqPulseDelivery τ :=
  if cpuTick ≤ s.lastCpuTick then (.error (.valueError "CPU local tick must advance"), s)
  else match s.inputAt cpuTick with
    | .error e => (.error e, s)
    | .ok value =>
        let s := s.recordInput cpuTick value accepted cpuStepEventId
        let s := s.observeMask cpuTick value masked
        let s := s.expire cfg cpuTick
        (.ok value, { s with lastCpuTick := cpuTick })

/-- Start over, cancelling a pulse that is pending. -/
def reset (s : IrqPulseDelivery τ) (cpuTick : ℤ) : IrqPulseDelivery τ :=
  let s := if s.pulseEnd.isSome then s.emit (.pulseCancelledByReset s.activeSourceEventId cpuTick)
    else s
  { s with
    sourceLevel := baseline cfg
    sourceEventId := none
    activeSourceEventId := none
    sourceTrigger := none
    activeSourceTrigger := none
    pulseStart := none
    pulseEnd := none
    lastCpuTick := cpuTick
    allMasked := true
    maskedTickCount := 0
    status := .active }

end IrqPulseDelivery

/-- The calls on a delivery. -/
inductive IrqCall (τ : Type) where
  | observeSource (level sourceTick cpuTick : ℤ) (trigger : Option τ)
  | sampleCpu (cpuTick : ℤ) (masked accepted : Option Bool) (cpuStepEventId : Option ℤ)
  | reset (cpuTick : ℤ)
  deriving DecidableEq

/-- The delivery after a call; one that raises changes nothing. -/
def IrqPulseDelivery.step {τ : Type} (cfg : IrqConfig) (s : IrqPulseDelivery τ) :
    IrqCall τ → IrqPulseDelivery τ
  | .observeSource level sourceTick cpuTick trigger =>
      (s.observeSource cfg level sourceTick cpuTick trigger).2
  | .sampleCpu cpuTick masked accepted cpuStepEventId =>
      (s.sampleCpu cfg cpuTick masked accepted cpuStepEventId).2
  | .reset cpuTick => s.reset cfg cpuTick

end MyFuzz
