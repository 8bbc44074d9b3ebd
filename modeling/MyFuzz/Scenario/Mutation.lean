import MyFuzz.Scenario.Dependency
import MyFuzz.Scenario.Ownership

/-!
# Scenario/Mutation — flip one bit of a declared source

A plan names a path and one of its sources; `mutateGenome` flips a bit of that source in the genome:
in the value of an action that drives the source's port, or in a memory image.  A plan is checked
against the graph and the ownership of the inputs for every bit, or once beforehand, when it is
compiled:

    plan ──compileAuthorization──▸ authorization ──▸ mutateGenome   (checks of the genome only)
    plan ───────────────────────────────────────────▸ mutateGenome   (all checks)
-/

namespace MyFuzz

open Outcome

/-- What to mutate: a path and one of its sources. -/
structure MutationPlan where
  direction : Direction
  target : String
  path : DependencyPath
  focusSource : String
  deriving DecidableEq

/-- What a mutation may name as its target; only the first two are ever written. -/
inductive MutationTargetKind where
  | genomeAction
  | initialImage
  | committedRam
  | readSnapshot
  | realResponse
  | ipOutput
  deriving DecidableEq

/-- A target that exists at run time only. -/
def MutationTargetKind.IsRuntime (k : MutationTargetKind) : Prop := k ≠ .genomeAction ∧ k ≠ .initialImage

instance (k : MutationTargetKind) : Decidable k.IsRuntime := inferInstanceAs (Decidable (_ ∧ _))

/-- The target of a mutation. -/
structure MutationTarget where
  kind : MutationTargetKind
  identifier : String
  deriving DecidableEq

/-- A plan that was checked against a graph and the ownership of its inputs. -/
structure MutationAuthorization where
  plan : MutationPlan
  deriving DecidableEq

section Mutation

variable (graph : DependencyGraph) (ownership : OwnershipMap)

/-! ## Compiled plans -/

/-- Two sources of one kind and port. -/
def FuzzableSource.SamePort (a b : FuzzableSource) : Prop :=
  a.kind = b.kind ∧ a.component = b.component ∧ a.port = b.port

/-- Two sources of one kind and port that share a bit. -/
def FuzzableSource.Overlaps (a b : FuzzableSource) : Prop :=
  a.SamePort b ∧ a.bitOffset < b.bitOffset + b.width ∧ b.bitOffset < a.bitOffset + a.width

instance (a b : FuzzableSource) : Decidable (a.Overlaps b) :=
  inferInstanceAs (Decidable ((_ ∧ _ ∧ _) ∧ _ ∧ _))

/-- The values of the source table. -/
def DependencyGraph.sourceList : List FuzzableSource := graph.sources.entries.map Prod.snd

/-- Check a plan for one of the paths that were proved, once for all mutations. -/
def compileMutationAuthorization (proofs : List (Direction × DependencyPath)) (plan : MutationPlan) :
    Except Exn MutationAuthorization := do
  ensure ((plan.direction, plan.path) ∈ proofs)
    (.valueError "compiled mutation requires immutable verified decoder paths")
  match graph.sources.get? plan.focusSource with
  | none => .error (.valueError "invalid compiled mutation source")
  | some source => do
      ensure (plan.focusSource ∈ plan.path.sourceIds ∧ plan.target = plan.path.target)
        (.valueError "invalid compiled mutation source")
      if source.kind = .source then do
        let _ ← ownership.mutationSource source.component source.port source.bitOffset source.width
      ensure (∀ candidate ∈ graph.sourceList,
          ¬ (candidate.sourceId ≠ source.sourceId ∧ candidate.Overlaps source))
        (.valueError "graph source ownership overlap")
      pure ⟨plan⟩

/-! ## Bits -/

/-- Flip a bit of a number. -/
def flipBit (value : ℤ) (bit : ℕ) : ℤ := Int.xor value ((2 ^ bit : ℕ) : ℤ)

/-- Flip a bit of some bytes. -/
def flipByte (data : List ℕ) (bit : ℕ) : List ℕ := data.modify (bit / 8) fun byte => byte ^^^ 2 ^ (bit % 8)

/-- Flip a bit of an image; the source must lie within it. -/
def mutateImage (source : FuzzableSource) (bit : ℕ) (image : MemoryImage) : Except Exn MemoryImage := do
  ensure (source.bitOffset + source.width ≤ image.data.length * 8)
    (.valueError "mutation bit is outside memory image")
  let image := { image with dataHex := String.ofList (toHex (flipByte image.data bit)) }
  image.validate
  pure image

/-- Flip a bit of the first image a source names. -/
def mutateImages (source : FuzzableSource) (bit : ℕ) : List MemoryImage → Except Exn (List MemoryImage)
  | [] => .error (.valueError "genome has no image for selected upstream source")
  | image :: images =>
      if image.imageId ≠ source.port ∨ image.component ≠ source.component then do
        let images ← mutateImages source bit images
        pure (image :: images)
      else do
        let image ← mutateImage source bit image
        pure (image :: images)

/-- The width of an action: its own, or that of its port. -/
def actionWidth (action : Action) : Except Exn ℤ :=
  match action.width with
  | some width => .ok width
  | none => ownership.fieldWidth action.component action.port

/-- An action drives a bit of the source's port in a direction. -/
def Action.Drives (action : Action) (source : FuzzableSource) (direction : Direction) (bit : ℤ)
    (width : ℤ) : Prop :=
  action.component = source.component ∧ action.port = source.port ∧ action.direction = direction ∧
    action.bitOffset ≤ bit ∧ bit < action.bitOffset + width

instance (action : Action) (source : FuzzableSource) (direction : Direction) (bit width : ℤ) :
    Decidable (action.Drives source direction bit width) := inferInstanceAs (Decidable (_ ∧ _ ∧ _ ∧ _ ∧ _))

/-- Flip a bit of the first action that drives it, or of the one that is named. -/
def mutateActions (source : FuzzableSource) (direction : Direction) (bit : ℤ)
    (actionId : Option String) : List Action → Except Exn (List Action)
  | [] => .error (.valueError "genome has no matching action for selected upstream source")
  | action :: actions =>
      if ∃ id ∈ actionId, action.actionId ≠ id then do
        let actions ← mutateActions source direction bit actionId actions
        pure (action :: actions)
      else do
        let width ← actionWidth ownership action
        if action.Drives source direction bit width then do
          let action := { action with value := flipBit action.value (bit - action.bitOffset).toNat }
          action.validate
          pure (action :: actions)
        else do
          let actions ← mutateActions source direction bit actionId actions
          pure (action :: actions)

/-! ## Mutations -/

/-- The plan is one for the genome and, unless it was compiled, for a path of the graph. -/
def checkPlan (genome : ScenarioGenome) (plan : MutationPlan) (compiled : Bool) : Except Exn Unit := do
  if compiled = false ∧ plan.path.edges ≠ [] then do
    let _ ← graph.authenticate plan.path plan.direction
  ensure (genome.direction = plan.direction ∧ plan.target = plan.path.target)
    (.valueError "mutation plan disagrees with genome path")
  if compiled = false ∧ plan.path.edges = [] then do
    let paths ← graph.pathsTo plan.target plan.direction 16 64
    ensure (plan.path ∈ paths) (.valueError "mutation plan disagrees with genome path")
  ensure (plan.focusSource ∈ plan.path.sourceIds) (.valueError "mutation plan disagrees with genome path")

/-- The target that is meant when none is given. -/
def defaultTarget (source : FuzzableSource) (actionId : Option String) : MutationTarget :=
  match source.kind with
  | .memoryImage => ⟨.initialImage, source.port⟩
  | .source => ⟨.genomeAction, actionId.getD ""⟩

/-- The target is the one the source writes to. -/
def checkTarget (source : FuzzableSource) (actionId : Option String) (target : MutationTarget) :
    Except Exn Unit :=
  match source.kind with
  | .memoryImage =>
      ensure (target.kind = .initialImage ∧ target.identifier = source.port)
        (.valueError "mutation target does not match upstream source")
  | .source =>
      ensure (target.kind = .genomeAction ∧ ∀ id ∈ actionId, target.identifier = "" ∨ target.identifier = id)
        (.valueError "mutation target does not match upstream source")

/-- How many sources of the graph share a bit with this source. -/
def bitOwners (source : FuzzableSource) (bit : ℤ) : ℕ :=
  graph.sourceList.countP fun candidate => decide (candidate.kind = source.kind ∧
    candidate.component = source.component ∧ candidate.port = source.port ∧
    candidate.bitOffset ≤ bit ∧ bit < candidate.bitOffset + candidate.width)

/-- Write a bit of a source. -/
def writeBit (genome : ScenarioGenome) (plan : MutationPlan) (source : FuzzableSource) (bit : ℤ)
    (actionId : Option String) (compiled : Bool) : Except Exn ScenarioGenome := do
  match source.kind with
  | .memoryImage => do
      let images ← mutateImages source bit.toNat genome.initialImages
      let genome := { genome with initialImages := images }
      genome.validate
      pure genome
  | .source => do
      if compiled = false then do
        let _ ← ownership.mutationSource source.component source.port source.bitOffset source.width
      let actions ← mutateActions ownership source plan.direction bit actionId genome.actions
      let genome := { genome with actions := actions }
      genome.validate
      pure genome

/-- Flip one bit of the source a plan focuses on. -/
def mutateGenome (genome : ScenarioGenome) (plan : MutationPlan) (bitIndex : ℤ)
    (actionId : Option String) (target : Option MutationTarget)
    (authorization : Option MutationAuthorization) : Except Exn ScenarioGenome := do
  ensure (∀ t ∈ target, ¬ t.kind.IsRuntime) (.valueError "runtime mutation target is immutable")
  let compiled := authorization.isSome
  ensure (∀ a ∈ authorization, a.plan = plan) (.valueError "compiled mutation authorization differs")
  checkPlan graph genome plan compiled
  match graph.sources.get? plan.focusSource with
  | none => .error (.valueError "mutation focus is not a declared source")
  | some source => do
      let target := target.getD (defaultTarget source actionId)
      checkTarget source actionId target
      let actionId := if target.kind = .genomeAction ∧ target.identifier ≠ "" then
        some target.identifier else actionId
      ensure (0 ≤ bitIndex ∧ bitIndex < source.width) (.valueError "mutation bit is outside source width")
      let bit := source.bitOffset + bitIndex
      ensure (compiled = true ∨ bitOwners graph source bit = 1) (.valueError "graph source ownership overlap")
      writeBit ownership genome plan source bit actionId compiled

end Mutation

end MyFuzz
