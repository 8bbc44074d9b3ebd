import MyFuzz.Foundations.Effect
import MyFuzz.Scenario.Ownership

/-!
# Scenario/Scheduler — causally triggered actions of one testcase

`DependencyScheduler` steps the components of a runner in turn and watches what they put out.  An
action waits for its trigger, is **selected** when the trigger occurs, and is **released** once its
delay clock has advanced far enough:

    waiting ──occurrence-th match──▸ pending (clock + delay) ──release point──▸ fired

Ordinary actions and whole-scene resets go through the same stages, each with its own tables and its
own default clock.  The runner is a parameter: it steps, injects and resets as it likes, and may
raise.  `log` is not part of the scheduler: it keeps what happened, for the record.
-/

namespace MyFuzz

open Outcome

/-- A value a component puts out. -/
inductive Signal where
  | int (i : ℤ)
  | bool (b : Bool)
  | text (s : String)
  | other
  deriving DecidableEq

/-- What a component puts out, port by port. -/
abbrev Outputs := Dict String Signal

/-- An event of the runner's log, as far as the scheduler reads it. -/
structure RunnerEvent where
  eventId : ℕ
  component : Option String
  kind : Option String
  outputs : Option Outputs

/-- How a bounded drain ended. -/
structure QuiesceResult where
  status : String
  deriving DecidableEq

/-- What the scheduler uses of a runner with state `ρ`. -/
structure ScenarioRunner (ρ : Type) where
  sessions : List String
  ownership : OwnershipMap
  canReset : String → Bool
  localTicks : ρ → String → ℤ
  commandEpoch : ρ → ℕ
  eventCount : ρ → ℕ
  eventsSince : ρ → ℕ → Except Exn (List RunnerEvent)
  failureStatus : ρ → Option String
  preloadImage : MemoryImage → Effect ρ Unit
  beginTest : String → Effect ρ Unit
  resetAll : ResetPolicy → Effect ρ Unit
  injectSource : Action → Effect ρ Unit
  step : String → Effect ρ Outputs
  quiesce : ℤ → Effect ρ QuiesceResult
  finalize : Effect ρ Unit
  intOfHex : String → Except Exn ℤ

/-- The observed source edge that selected an action. -/
structure ConsumptionCursor where
  kind : TriggerKind
  eventId : Option ℕ
  epoch : ℕ
  occurrence : ℤ
  sourceComponent : String
  sourcePort : String
  deriving DecidableEq

/-! ## Timers -/

/-- What the scheduler times: an action or a reset, with the clocks it reads. -/
structure Timer where
  id : String
  trigger : Trigger
  selectClock : String
  releaseClock : String
  delayTicks : ℤ
  deriving DecidableEq

/-- `name or default`. -/
def orElse (name default : String) : String := if name = "" then default else name

/-- The timer of an action: its own clock is the default. -/
def Action.timer (a : Action) : Timer where
  id := a.actionId
  trigger := a.trigger
  selectClock := orElse a.delayComponent a.component
  releaseClock := orElse a.delayComponent a.component
  delayTicks := a.delayTicks

/-- The first component of the schedule. -/
def ScenarioGenome.firstComponent (g : ScenarioGenome) : String := g.scheduleOrder.headD ""

/-- The timer of a reset: the first component's clock is the default, but an output that selects it
is timed by the clock of the component that put it out. -/
def ResetAction.timer (g : ScenarioGenome) (r : ResetAction) : Timer where
  id := r.actionId
  trigger := r.trigger
  selectClock := match r.trigger.kind with
    | .start => orElse r.delayComponent g.firstComponent
    | .afterOutput => orElse r.delayComponent r.trigger.sourceComponent
  releaseClock := orElse r.delayComponent g.firstComponent
  delayTicks := r.delayTicks

/-- An output that is looked at: who put it out, in which event and epoch, and what all the clocks
show then. -/
structure Observation where
  component : String
  eventId : ℕ
  epoch : ℕ
  outputs : Outputs
  ticks : String → ℤ

/-- The observed value matches the trigger. -/
def Trigger.matches (t : Trigger) (outputs : Outputs) : Bool :=
  match outputs.get? t.sourcePort with
  | some (.int observed) => 0 ≤ observed ∧ Int.land observed t.mask = t.value
  | _ => false

/-- The tables of one kind of timer. -/
structure Track where
  pending : Dict String ℤ
  fired : List String
  counts : Dict String ℤ
  previousMatch : Dict String Bool

/-- The tables before anything happened. -/
def Track.init (ids : List String) : Track where
  pending := .empty
  fired := []
  counts := Dict.update .empty (ids.map fun id => (id, 0))
  previousMatch := Dict.update .empty (ids.map fun id => (id, false))

/-- Forget what matched before. -/
def Track.clearMatches (t : Track) : Track :=
  { t with previousMatch := t.previousMatch.mapVal fun _ => false }

/-- What the scheduler did or looked at. -/
inductive Moment where
  | start (ticks : String → ℤ) (epoch : ℕ)
  | observed (o : Observation)
  | release (id : String) (ticks : String → ℤ)
  | inject (id : String)
  | reset (id : String)
  /-- The runner returned from the action or the reset. -/
  | returned (id : String)

/-- The state of a scheduler and of its runner. -/
structure Scheduler (ρ : Type) where
  runner : ρ
  actions : Track
  resets : Track
  selectedCursors : Dict String ConsumptionCursor
  consumedCursors : Dict String ConsumptionCursor
  steps : ℕ
  lastEventCount : ℕ
  log : List Moment

/-! ## Selection -/

/-- The cursor of an action that was selected at the start. -/
def startCursor (epoch : ℕ) : ConsumptionCursor := ⟨.start, none, epoch, 0, "", ""⟩

/-- The cursor of an action that was selected by an output. -/
def observedCursor (o : Observation) (sourcePort : String) (occurrence : ℤ) : ConsumptionCursor :=
  ⟨.afterOutput, some o.eventId, o.epoch, occurrence, o.component, sourcePort⟩

/-- Select a timer that waits for nothing. -/
def Timer.start (ticks : String → ℤ) (epoch : ℕ) (s : Track × Dict String ConsumptionCursor)
    (x : Timer) : Track × Dict String ConsumptionCursor :=
  if x.trigger.kind = .start then
    ({ s.1 with pending := s.1.pending.set x.id (ticks x.selectClock + x.delayTicks) },
      s.2.set x.id (startCursor epoch))
  else s

/-- The timer is over, selected, or not triggered by this component. -/
def Timer.Ignores (t : Track) (o : Observation) (x : Timer) : Prop :=
  x.id ∈ t.fired ∨ (t.pending.get? x.id).isSome = true ∨ x.trigger.kind ≠ .afterOutput ∨
    x.trigger.sourceComponent ≠ o.component

instance (t : Track) (o : Observation) (x : Timer) : Decidable (x.Ignores t o) :=
  inferInstanceAs (Decidable (_ ∨ _ ∨ _ ∨ _))

/-- Count a match that was not there before, and select the timer at its occurrence. -/
def Timer.count (o : Observation) (s : Track × Dict String ConsumptionCursor) (x : Timer) :
    Track × Dict String ConsumptionCursor :=
  let count := s.1.counts.getD x.id 0 + 1
  let t := { s.1 with counts := s.1.counts.set x.id count }
  if count = x.trigger.occurrence then
    ({ t with pending := t.pending.set x.id (o.ticks x.selectClock + x.delayTicks) },
      s.2.set x.id (observedCursor o x.trigger.sourcePort count))
  else (t, s.2)

/-- Look at an output for a timer. -/
def Timer.observe (o : Observation) (s : Track × Dict String ConsumptionCursor) (x : Timer) :
    Track × Dict String ConsumptionCursor :=
  if x.Ignores s.1 o then s
  else
    let matched := x.trigger.matches o.outputs
    let s' := if matched = true ∧ s.1.previousMatch.getD x.id false = false then x.count o s else s
    ({ s'.1 with previousMatch := s'.1.previousMatch.set x.id matched }, s'.2)

section Scheduler

variable {ρ : Type} (r : ScenarioRunner ρ) (g : ScenarioGenome)

namespace Scheduler

/-- A scheduler that has not begun. -/
def init (runner : ρ) : Scheduler ρ where
  runner := runner
  actions := Track.init (g.actions.map Action.actionId)
  resets := Track.init (g.resetActions.map ResetAction.actionId)
  selectedCursors := .empty
  consumedCursors := .empty
  steps := 0
  lastEventCount := 0
  log := []

/-- Let the runner do something. -/
def perform {α : Type} (x : Effect ρ α) : Effect (Scheduler ρ) α :=
  Effect.zoom Scheduler.runner (fun s runner => { s with runner := runner }) x

/-- Write down what happens. -/
def record (moments : List Moment) : Effect (Scheduler ρ) Unit :=
  Effect.modify fun s => { s with log := s.log ++ moments }

/-- Update the tables for every action and then for every reset. -/
def forTimers (f : Track × Dict String ConsumptionCursor → Timer → Track × Dict String ConsumptionCursor)
    (m : Moment) (s : Scheduler ρ) : Scheduler ρ :=
  let a := (g.actions.map Action.timer).foldl f (s.actions, s.selectedCursors)
  let b := (g.resetActions.map (ResetAction.timer g)).foldl f (s.resets, a.2)
  { s with
    actions := a.1
    resets := b.1
    selectedCursors := b.2
    log := s.log ++ [m] }

/-- Select what waits for nothing. -/
def selectStart : Effect (Scheduler ρ) Unit := Effect.modify fun s =>
  let ticks := r.localTicks s.runner
  let epoch := r.commandEpoch s.runner
  s.forTimers g (Timer.start ticks epoch) (.start ticks epoch)

/-- Look at an output for every timer. -/
def observe (o : Observation) : Effect (Scheduler ρ) Unit :=
  Effect.modify (forTimers g (Timer.observe o) (.observed o))

/-! ## Release -/

/-- A timer of these tables is due. -/
def due (t : Track) (ticks : String → ℤ) (x : Timer) : Bool :=
  match t.pending.get? x.id with
  | none => false
  | some target => ¬ ticks x.releaseClock < target

/-- The cursor that selected an action. -/
def selectedCursor (id : String) : Effect (Scheduler ρ) ConsumptionCursor := do
  let s ← Effect.get
  match s.selectedCursors.get? id with
  | some cursor => pure cursor
  | none => Effect.lift (.error (.other "KeyError"))

/-- Reset the scene when a reset is due; matches start anew afterwards. -/
def releaseReset (action : ResetAction) : Effect (Scheduler ρ) Unit := do
  let s ← Effect.get
  let x := action.timer g
  let ticks := r.localTicks s.runner
  if due s.resets ticks x then do
    record [.release x.id ticks, .reset x.id]
    perform (r.resetAll action.policy)
    record [.returned x.id]
    Effect.modify fun s =>
      { s with resets := { s.resets with fired := s.resets.fired ++ [x.id] } }
    let cursor ← selectedCursor x.id
    Effect.modify fun s => { s with
      consumedCursors := s.consumedCursors.set x.id cursor
      resets := { s.resets with pending := s.resets.pending.erase x.id }.clearMatches
      actions := s.actions.clearMatches }
  else record [.release x.id ticks]

/-- Inject the value of an action when it is due. -/
def releaseAction (action : Action) : Effect (Scheduler ρ) Unit := do
  let s ← Effect.get
  let x := action.timer
  let ticks := r.localTicks s.runner
  if due s.actions ticks x then do
    record [.release x.id ticks, .inject x.id]
    perform (r.injectSource action)
    record [.returned x.id]
    Effect.modify fun s =>
      { s with actions := { s.actions with fired := s.actions.fired ++ [x.id] } }
    let cursor ← selectedCursor x.id
    Effect.modify fun s => { s with
      consumedCursors := s.consumedCursors.set x.id cursor
      actions := { s.actions with pending := s.actions.pending.erase x.id } }
  else record [.release x.id ticks]

/-- Release what is due, resets first. -/
def releaseDue : Effect (Scheduler ρ) Unit := do
  Effect.each (releaseReset r g) g.resetActions
  Effect.each (releaseAction r) g.actions

/-! ## Observations -/

/-- The ports of a tick sample, under the names the scheduler uses. -/
def sampledOutputs (outputs : Outputs) : Except Exn Outputs := do
  let outputs := match outputs.get? "interrupt" with
    | some signal => outputs.set "irq" signal
    | none => outputs
  match outputs.get? "gpio_padcfg" with
  | some (.text s) => do
      let value ← r.intOfHex s
      pure (outputs.set "gpio_padcfg" (.int value))
  | _ => pure outputs

/-- Two dictionaries are equal. -/
def sameOutputs (a b : Outputs) : Bool :=
  a.length = b.length ∧ ∀ p ∈ a.entries, b.get? p.1 = some p.2

/-- An event that reports a step of a component. -/
def isSourceEvent (component : String) (e : RunnerEvent) : Bool :=
  e.component = some component ∧ e.kind = none ∧ e.outputs.isSome

/-- An event that reports one local tick. -/
def isSample (e : RunnerEvent) : Bool := e.kind = some "local_tick_sample"

/-- A field an event must have. -/
def required {α : Type} : Option α → Except Exn α
  | some a => .ok a
  | none => .error (.other "KeyError")

/-- The outputs an event of the window reports, if any. -/
def observation (component : String) (sampled : Bool) (runner : ρ) (e : RunnerEvent) :
    Except Exn (List Observation) :=
  if isSample e then do
    let outputs ← required e.outputs
    let outputs ← sampledOutputs r outputs
    let source ← required e.component
    pure [⟨source, e.eventId, r.commandEpoch runner, outputs, r.localTicks runner⟩]
  else if isSourceEvent component e ∧ ¬ sampled then do
    let outputs ← required e.outputs
    pure [⟨component, e.eventId, r.commandEpoch runner, outputs, r.localTicks runner⟩]
  else pure []

/-- What a step let the scheduler see: the samples of the window, or the step itself when its
component has none. -/
def observations (component : String) (outputs : Outputs) (runner : ρ) (window : List RunnerEvent) :
    Except Exn (List Observation) := do
  let sources := window.filter (isSourceEvent component)
  match sources with
  | [source] =>
      ensure (sameOutputs (source.outputs.getD .empty) outputs = true)
        (.runtimeError "observed output has no unique source step event")
      let sampled := window.any fun e => isSample e && e.component = some component
      let lists ← window.mapM (observation r component sampled runner)
      pure lists.flatten
  | _ => .error (.runtimeError "observed output has no unique source step event")

/-- Look at what a step put out, and release what is due. -/
def observeStep (component : String) (outputs : Outputs) : Effect (Scheduler ρ) Unit := do
  let s ← Effect.get
  let window ← Effect.lift (r.eventsSince s.runner s.lastEventCount)
  let observed ← Effect.lift (observations r component outputs s.runner window)
  Effect.modify fun s => { s with steps := s.steps + 1 }
  Effect.each (observe g) observed
  releaseDue r g
  Effect.modify fun s => { s with lastEventCount := r.eventCount s.runner }

/-! ## Runs -/

/-- Step a component and look at what it put out. -/
def stepOnce (component : String) : Effect (Scheduler ρ) Unit := do
  let outputs ← perform (r.step component)
  observeStep r g component outputs

/-- The component whose turn it is. -/
def turn (index : ℕ) : String := g.scheduleOrder.getD (index % g.scheduleOrder.length) ""

/-- The components of a batch. -/
def batch (offset size : ℕ) : List String := (List.range size).map fun i => turn g (offset + i)

/-- Step a batch of components, looking at each step before the next. -/
def stepBatch (schedule : List String) : Effect (Scheduler ρ) Unit := do
  Effect.lift (ensure (schedule ≠ []) (.valueError "step_batch requires a nonempty component tuple"))
  Effect.lift (ensure (∀ component ∈ schedule, component ∈ r.sessions)
    (.valueError "step_batch references unknown local harness"))
  Effect.each (stepOnce r g) schedule

/-- Step in batches of these sizes, over and over, until the budget is used up; every size is
positive, so `fuel` is the budget. -/
def stepBatches (sizes : List ℕ) : ℕ → ℕ → ℕ → Effect (Scheduler ρ) Unit
  | 0, _, _ => pure ()
  | fuel + 1, offset, batchIndex =>
      if (offset : ℤ) < g.maxSteps then do
        let size := min (sizes.getD (batchIndex % sizes.length) 1) (g.maxSteps - offset).toNat
        stepBatch r g (batch g offset size)
        stepBatches sizes fuel (offset + size) (batchIndex + 1)
      else pure ()

/-- Every step of the testcase. -/
def stepAll : Option (List ℕ) → Effect (Scheduler ρ) Unit
  | none => Effect.each (stepOnce r g) (batch g 0 g.maxSteps.toNat)
  | some sizes => stepBatches r g sizes g.maxSteps.toNat 0 0

/-- Run the testcase; it may raise. -/
def body (batchSizes : Option (List ℕ)) : Effect (Scheduler ρ) (Option QuiesceResult) := do
  perform (r.beginTest g.testcaseId)
  releaseDue r g
  Effect.modify fun s => { s with lastEventCount := r.eventCount s.runner }
  stepAll r g batchSizes
  if g.quiesceSteps ≠ 0 then do
    let result ← perform (r.quiesce g.quiesceSteps)
    pure (some result)
  else pure none

/-- The action's direction and the bits it drives. -/
def checkAction (action : Action) : Except Exn Unit := do
  ensure (action.direction = g.direction) (.valueError "action direction disagrees with genome")
  let fieldWidth ← r.ownership.fieldWidth action.component action.port
  let width := action.width.getD fieldWidth
  let _ ← r.ownership.mutationSource action.component action.port action.bitOffset width
  ensure (action.value < 2 ^ width.toNat) (.valueError "action value exceeds selected source width")

/-- What must hold before a run. -/
def precheck (batchSizes : Option (List ℕ)) : Except Exn Unit := do
  ensure (∀ sizes ∈ batchSizes, sizes ≠ [] ∧ ∀ size ∈ sizes, 0 < size)
    (.valueError "batch_sizes must be a nonempty tuple of positive integers")
  ensure ((∀ c ∈ g.scheduleOrder, c ∈ r.sessions) ∧ ∀ c ∈ r.sessions, c ∈ g.scheduleOrder)
    (.valueError "schedule_order must contain every local harness")
  g.actions.forM (checkAction r g)
  if g.resetActions ≠ [] then
    r.sessions.forM fun component => ensure (r.canReset component = true)
      (.valueError ("local harness " ++ component ++ " cannot reset"))

/-- How a run ended. -/
structure Result where
  status : String
  steps : ℕ
  firedActions : List String
  pendingActions : List String
  firedResets : List String
  pendingResets : List String
  quiesce : Option QuiesceResult
  consumptionCursorRecords : List (String × ConsumptionCursor)

/-- The status of a run. -/
def status (s : Scheduler ρ) (quiesce : Option QuiesceResult) (failure : Option String) : String :=
  let complete := s.actions.fired.length = g.actions.length ∧ s.resets.fired.length = g.resetActions.length
  let base := if complete then "complete" else "path_incomplete"
  let drained := match quiesce with
    | some result => if result.status ≠ "drained" then result.status else base
    | none => base
  failure.getD drained

/-- The ids of timers that fired, or did not. -/
def ids (fired : List String) (want : Bool) (all : List String) : List String :=
  all.filter fun id => decide (id ∈ fired) == want

/-- What a run returns. -/
def result (s : Scheduler ρ) (quiesce : Option QuiesceResult) (failure : Option String) : Result where
  status := status g s quiesce failure
  steps := s.steps
  firedActions := ids s.actions.fired true (g.actions.map Action.actionId)
  pendingActions := ids s.actions.fired false (g.actions.map Action.actionId)
  firedResets := ids s.resets.fired true (g.resetActions.map ResetAction.actionId)
  pendingResets := ids s.resets.fired false (g.resetActions.map ResetAction.actionId)
  quiesce := quiesce
  consumptionCursorRecords :=
    (g.actions.map Action.actionId ++ g.resetActions.map ResetAction.actionId).filterMap fun id =>
      (s.consumedCursors.get? id).map fun cursor => (id, cursor)

/-- Run the testcase, close the runner, and report. -/
def finish (batchSizes : Option (List ℕ)) : Effect (Scheduler ρ) Result := fun s =>
  let ended := body r g batchSizes s
  let failure := match ended.1 with
    | .ok _ => none
    | .error _ => some ((r.failureStatus ended.2.runner).getD "environment_error")
  let quiesce := match ended.1 with
    | .ok quiesce => quiesce
    | .error _ => none
  match perform r.finalize ended.2 with
  | (.error e, s) => (.error e, s)
  | (.ok _, s) =>
      (.ok (result g s quiesce ((r.failureStatus s.runner).or failure)), s)

/-- `DependencyScheduler.run`. -/
def run (batchSizes : Option (List ℕ)) : Effect (Scheduler ρ) Result := do
  Effect.lift (precheck r g batchSizes)
  Effect.each (fun image => perform (r.preloadImage image)) g.initialImages
  selectStart r g
  finish r g batchSizes

end Scheduler

end Scheduler

end MyFuzz
