import MyFuzz.Foundations.Effect
import MyFuzz.Foundations.Sequence
import MyFuzz.Scenario.InputRouting
import MyFuzz.Scenario.Router

/-!
# Scenario/Quiesce — draining what was accepted before a run ends

A run that quiesces accepts no new work and steps the harnesses that something is still on its way to, until
nothing is pending or its steps are used up:

    begin ──▸ pending? ──▸ pass over the sessions ──▸ pending? ──▸ … ──▸ result

What the harnesses, the routers and the event log do is a parameter.  The reports on pending work
are five maps:
two have the sessions as their keys, one the targets of pulses, one the devices of queued requests,
and one the
targets of bound inputs.  `stepped` is not in the source: it records each harness whose step was called.
-/

namespace MyFuzz

open Outcome

/-- How a drain ended. -/
inductive QuiesceStatus where
  | drained
  | incomplete
  | uncertainEffect
  deriving DecidableEq

/-- What `quiesce` returns, all of it; the scheduler reads no more than the status. -/
structure QuiesceOutcome where
  status : QuiesceStatus
  steps : ℕ
  pendingResponses : Dict String ℤ
  uncertainTransactions : List String

/-- The pending work, as it is read before and after each pass. -/
structure QuiescePending where
  responses : Dict String ℤ
  irqPulses : Dict String ℕ
  events : Dict String ℤ
  targetRequests : Dict String ℕ
  boundTargets : List String

/-- The event records of a drain.  A map that is empty is left out of its record. -/
inductive QuiesceEvent where
  | start (initial : QuiescePending)
  | finish (initial final : QuiescePending) (result : QuiesceOutcome)
  | failure (error : Exn) (initialResponses : Dict String ℤ)

/-! ## The scene -/

/-- What surrounds a drain. -/
structure QuiesceScene (World Log : Type) where
  sessions : List String
  independentBaseline : Bool
  bindings : List Binding
  /-- The producer of a binding, or of its delivery group, is the one that ownership names. -/
  owned : Binding → Bool
  /-- The bindings that are delivered as interrupt pulses: a pulse selects a declared one-bit binding. -/
  irqPulses : List Binding
  irqPulses_bindings : ∀ b ∈ irqPulses, b ∈ bindings ∧ b.width = 1
  routerOf : String → Option ℕ
  windows : ℕ → List DeviceWindow
  /-- The target of a window is the harness registered under its device id. -/
  registered : DeviceWindow → Bool
  deferMmio : String → Bool
  /-- The harness has a `begin_quiesce`. -/
  canQuiesce : String → Bool
  /-- The drain steps of the resource budget. -/
  maxQuiesceSteps : Option ℤ
  /-- The counts that a harness reports. -/
  responses : World → String → ℤ
  events : World → String → ℤ
  pulsePending : World → Binding → Bool
  /-- The windows of the requests queued in a router: requests are queued for its own windows only. -/
  queued : World → ℕ → List DeviceWindow
  queued_windows : ∀ w r window, window ∈ queued w r → window ∈ windows r
  /-- The harnesses with a bound input that changed: the routing of outputs adds targets of bindings only. -/
  boundTargets : World → List String
  boundTargets_bindings : ∀ w component, component ∈ boundTargets w →
    ∃ b ∈ bindings, b.targetComponent = component
  /-- The uncertain keys in the ledgers of a harness. -/
  uncertainKeys : World → String → List String
  /-- The wall clock and the budgets. -/
  ensureCapacity : World → Log → SceneReply Log Unit
  append : World → Log → QuiesceEvent → SceneReply Log Unit
  budgetExhausted : World → Log → Bool
  beginQuiesce : World → Log → String → SceneReply (World × Log) Unit
  step : World → Log → String → SceneReply (World × Log) Unit

/-- The part of a runner that a drain changes. -/
structure QuiesceRunner (World Log : Type) where
  status : RunnerStatus
  world : World
  log : Log
  stepped : List String

namespace QuiesceScene

variable {World Log : Type} (scene : QuiesceScene World Log)

/-! ## What the constructor of the runner checks -/

/-- A comparison-only response comes from a local shadow, not from a registered harness. -/
def ExemptWindow (component : String) (window : DeviceWindow) : Prop :=
  scene.independentBaseline = true ∧ "_local".toList <:+ window.deviceId.toList ∧
    window.deviceId ∉ scene.sessions ∧ scene.deferMmio component = false

instance (component : String) (window : DeviceWindow) : Decidable (scene.ExemptWindow component window) :=
  inferInstanceAs (Decidable (_ ∧ _ ∧ _ ∧ _))

/-- A window of the router of a session. -/
def checkWindow (component : String) (router : ℕ) (targetRouters : Dict String ℕ) (window : DeviceWindow) :
    Except Exn (Dict String ℕ) :=
  if scene.ExemptWindow component window then .ok targetRouters
  else do
    ensure (window.deviceId ∈ scene.sessions ∧ scene.registered window = true)
      (.valueError "MMIO target must be a registered local harness")
    let previous := targetRouters.getD window.deviceId router
    ensure (previous = router) (.valueError "all sources for one MMIO target need a shared target router")
    return targetRouters.set window.deviceId previous

/-- The windows of the router of a session. -/
def checkRouter (targetRouters : Dict String ℕ) (component : String) : Except Exn (Dict String ℕ) :=
  match scene.routerOf component with
  | none => .ok targetRouters
  | some router => (scene.windows router).foldlM (scene.checkWindow component router) targetRouters

/-- **The checks of bindings and router windows.** -/
def construct : Except Exn Unit := do
  scene.bindings.forM fun b => do
    ensure (b.sourceComponent ∈ scene.sessions ∧ b.targetComponent ∈ scene.sessions)
      (.valueError "binding references unknown local harness")
    ensure (scene.owned b = true) (.valueError "binding producer does not match input ownership")
  let _ ← scene.sessions.foldlM scene.checkRouter .empty
  return ()

/-! ## Reports on pending work -/

/-- The counts of the harnesses, less those that are not kept. -/
def pendingCounts (noun : String) (count : String → ℤ) (keep : ℤ → Bool) : Except Exn (Dict String ℤ) :=
  scene.sessions.foldlM (fun counts component => do
    ensure (0 ≤ count component) (.valueError s!"invalid pending {noun} count for {component}")
    return if keep (count component) = true then counts.set component (count component) else counts) .empty

def pendingResponses (w : World) : Except Exn (Dict String ℤ) :=
  scene.pendingCounts "response" (scene.responses w) fun _ => true

def pendingEvents (w : World) : Except Exn (Dict String ℤ) :=
  scene.pendingCounts "event" (scene.events w) fun count => count ≠ 0

/-- Add counts, key by key. -/
def addCounts (counts : Dict String ℕ) (more : List (String × ℕ)) : Dict String ℕ :=
  more.foldl (fun counts e => counts.set e.1 (counts.getD e.1 0 + e.2)) counts

def pendingIrqPulses (w : World) : Dict String ℕ :=
  addCounts .empty ((scene.irqPulses.filter (scene.pulsePending w)).map fun b => (b.targetComponent, 1))

/-- The routers of the sessions, each once. -/
def uniqueRouters : List ℕ :=
  Sequence.firsts ((scene.sessions.insertionSort (· ≤ ·)).filterMap scene.routerOf)

/-- The queued requests of a router, by device. -/
def pendingTargetCounts (w : World) (router : ℕ) : Dict String ℕ :=
  addCounts .empty ((scene.queued w router).map fun window => (window.deviceId, 1))

def pendingTargetRequests (w : World) : Dict String ℕ :=
  scene.uniqueRouters.foldl (fun counts router =>
    addCounts counts (scene.pendingTargetCounts w router).entries)
    .empty

/-- The uncertain keys of all ledgers. -/
def uncertainTransactions (w : World) : List String :=
  (Sequence.firsts (scene.sessions.flatMap (scene.uncertainKeys w))).insertionSort (· ≤ ·)

/-- All pending work. -/
def readPending (w : World) : Except Exn QuiescePending := do
  let responses ← scene.pendingResponses w
  let events ← scene.pendingEvents w
  return { responses, irqPulses := scene.pendingIrqPulses w, events,
           targetRequests := scene.pendingTargetRequests w,
           boundTargets := (scene.boundTargets w).insertionSort (· ≤ ·) }

end QuiesceScene

namespace QuiescePending

/-- Something is pending. -/
def Busy (p : QuiescePending) : Prop :=
  (∃ e ∈ p.responses.entries, e.2 ≠ 0) ∨ p.irqPulses.entries ≠ [] ∨ p.events.entries ≠ [] ∨
    p.targetRequests.entries ≠ [] ∨ p.boundTargets ≠ []

instance (p : QuiescePending) : Decidable p.Busy := inferInstanceAs (Decidable (_ ∨ _ ∨ _ ∨ _ ∨ _))

/-- Something is pending at a component.  The bound targets are read as they are now. -/
def Waiting (p : QuiescePending) (boundTargets : List String) (component : String) : Prop :=
  p.responses.getD component 0 ≠ 0 ∨ p.irqPulses.getD component 0 ≠ 0 ∨ p.events.getD component 0 ≠ 0 ∨
    p.targetRequests.getD component 0 ≠ 0 ∨ component ∈ boundTargets

instance (p : QuiescePending) (boundTargets : List String) (component : String) :
    Decidable (p.Waiting boundTargets component) := inferInstanceAs (Decidable (_ ∨ _ ∨ _ ∨ _ ∨ _))

end QuiescePending

/-! ## The drain -/

namespace QuiesceRunner

variable {World Log : Type} (scene : QuiesceScene World Log)

/-- Call into what surrounds the harnesses. -/
def ask (reply : World → Log → SceneReply Log Unit) : Effect (QuiesceRunner World Log) Unit := fun s =>
  let reply := reply s.world s.log
  (reply.result, { s with log := reply.world, status := if reply.fails then .failed else s.status })

/-- Call into a harness. -/
def call (reply : World → Log → SceneReply (World × Log) Unit) :
    Effect (QuiesceRunner World Log) Unit := fun s =>
  let reply := reply s.world s.log
  (reply.result, { s with
    world := reply.world.1, log := reply.world.2, status := if reply.fails then .failed else s.status })

def append (event : QuiesceEvent) : Effect (QuiesceRunner World Log) Unit :=
  ask fun w log => scene.append w log event

def stepSession (component : String) : Effect (QuiesceRunner World Log) Unit := do
  Effect.modify fun s => { s with stepped := s.stepped ++ [component] }
  call fun w log => scene.step w log component

/-- One pass over the sessions, in their order. -/
def pass (pending : QuiescePending) (limit : ℤ) : List String → ℕ → Effect (QuiesceRunner World Log) ℕ
  | [], steps => pure steps
  | component :: components, steps => do
    let s ← Effect.get
    if pending.Waiting (scene.boundTargets s.world) component ∧ steps < limit then do
      stepSession scene component
      pass pending limit components (steps + 1)
    else pass pending limit components steps

/-- **Passes until nothing is pending or the steps are used up.**  `fuel` bounds the number of passes. -/
def drainLoop (limit : ℤ) : ℕ → ℕ → QuiescePending →
    Effect (QuiesceRunner World Log) (Option (ℕ × QuiescePending))
  | fuel, steps, pending =>
    if pending.Busy ∧ steps < limit then
      match fuel with
      | 0 => pure none
      | fuel + 1 => do
        let steps ← pass scene pending limit (scene.sessions.insertionSort (· ≤ ·)) steps
        let s ← Effect.get
        let pending ← Effect.lift (scene.readPending s.world)
        drainLoop limit fuel steps pending
    else pure (some (steps, pending))

/-- Tell the harnesses to accept no new work. -/
def beginSessions : Effect (QuiesceRunner World Log) Unit :=
  Effect.each (fun component =>
    if scene.canQuiesce component = true then call fun w log =>
      scene.beginQuiesce w log component else pure ())
    (scene.sessions.insertionSort (· ≤ ·))

/-- The result of a drain that stopped here. -/
def conclude (initial : QuiescePending) (steps : ℕ) (pending : QuiescePending) :
    Effect (QuiesceRunner World Log) QuiesceOutcome := do
  let s ← Effect.get
  let uncertain := scene.uncertainTransactions s.world
  let status : QuiesceStatus :=
    if uncertain ≠ [] then .uncertainEffect else if pending.Busy then .incomplete else .drained
  let result : QuiesceOutcome := ⟨status, steps, pending.responses, uncertain⟩
  append scene (.finish initial pending result)
  return result

/-- The part of a drain whose exceptions fail the run. -/
def drain (fuel : ℕ) (limit : ℤ) (initial : QuiescePending) :
    Effect (QuiesceRunner World Log) (Option QuiesceOutcome) := do
  beginSessions scene
  let s ← Effect.get
  let pending ← Effect.lift (scene.readPending s.world)
  match ← drainLoop scene limit fuel 0 pending with
  | none => return none
  | some (steps, pending) => do
    let result ← conclude scene initial steps pending
    return some result

/-- What raises fails the run, and leaves a record unless a budget was exhausted. -/
def guarded {α : Type} (initial : QuiescePending) (x : Effect (QuiesceRunner World Log) α) :
    Effect (QuiesceRunner World Log) α := fun s =>
  match x s with
  | (.ok a, s') => (.ok a, s')
  | (.error e, s') =>
    let failed : QuiesceRunner World Log := { s' with status := .failed }
    if scene.budgetExhausted failed.world failed.log = true then (.error e, failed)
    else (do append scene (.failure e initial.responses); Effect.lift (.error e)) failed

/-- **Stop accepting roots and drain already accepted local responses.** -/
def quiesce (fuel : ℕ) (limit : ℤ) : Effect (QuiesceRunner World Log) (Option QuiesceOutcome) := do
  let s ← Effect.get
  Effect.lift (ensure (s.status = .running) (.runtimeError "scenario is not running"))
  Effect.lift (ensure (0 ≤ limit ∧ limit ≤ 4096)
    (.valueError "max_scheduler_steps exceeds first-stage budget"))
  Effect.lift (ensure (∀ most ∈ scene.maxQuiesceSteps, limit ≤ most)
    (.valueError "max_quiesce_steps budget exceeded"))
  let initial ← Effect.lift (scene.readPending s.world)
  Effect.lift (scene.sessions.forM fun component =>
    ensure (initial.Waiting (scene.boundTargets s.world) component → scene.canQuiesce component = true)
      (.valueError s!"local harness {component} cannot quiesce pending work"))
  ask scene.ensureCapacity
  Effect.modify fun s => { s with status := .quiescing }
  append scene (.start initial)
  guarded scene initial (drain scene fuel limit initial)

end QuiesceRunner

end MyFuzz
