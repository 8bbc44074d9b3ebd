import MyFuzz.Foundations.JsonLines
import MyFuzz.Scenario.Mutation
import MyFuzz.Scenario.RuntimeContract

/-!
# Scenario/RecordDecoder — RFuzz records as mutations of a template

A testcase is a tuple of eight-byte records.  The first record selects a template and one of the
paths of its target; every record then selects a source of that path, a bit of it and an operation:

    record ──▸ source of the path ──choices──▸ (bit, action) ──▸ flip the bit  |  add to the delay

A decoder with a runtime contract lists its paths once and compiles a mutation authorization for each
of their sources; one without lists them again for every testcase.
-/

namespace MyFuzz

open Outcome

/-- The length of a record. -/
def recordBytes : ℕ := 8

/-! ## Source bindings -/

/-- The trusted identity of a source. -/
structure SourceBinding where
  sourceId : String
  kind : SourceKind
  component : String
  port : String
  bitOffset : ℤ
  width : ℤ
  ownerRef : String
  imageAddress : Option ℤ
  deriving DecidableEq

/-- The checks of a binding. -/
def SourceBinding.validate (b : SourceBinding) : Except Exn Unit := do
  ensure (b.sourceId ≠ "" ∧ b.component ≠ "" ∧ b.port ≠ "" ∧ b.ownerRef ≠ "")
    (.valueError "source binding identity is required")
  ensure (0 ≤ b.bitOffset ∧ 1 ≤ b.width) (.valueError "source binding range is invalid")
  match b.kind with
  | .memoryImage =>
      ensure ((b.imageAddress.any fun address => 0 ≤ address) = true)
        (.valueError "memory image binding address is required")
  | .source =>
      ensure (b.imageAddress = none) (.valueError "input source binding cannot name image address")

/-- The binding is accepted by its constructor. -/
def SourceBinding.Valid (b : SourceBinding) : Prop := b.validate = .ok ()

instance (b : SourceBinding) : Decidable b.Valid := inferInstanceAs (Decidable (_ = _))

/-- Bindings of distinct sources. -/
structure SourceBindings where
  entries : List SourceBinding
  valid : ∀ b ∈ entries, b.Valid
  nodup : (entries.map SourceBinding.sourceId).Nodup

/-- `SourceBindings(entries)`. -/
def SourceBindings.new (entries : List SourceBinding) : Except Exn SourceBindings :=
  if hvalid : ∀ b ∈ entries, b.Valid then
    if hnodup : (entries.map SourceBinding.sourceId).Nodup then .ok ⟨entries, hvalid, hnodup⟩
    else .error (.valueError "duplicate source binding")
  else .error (.valueError "source bindings must be a tuple")

/-- A target and the genome that its mutations begin with. -/
structure DecoderTemplate where
  targetId : String
  genome : ScenarioGenome
  target_ne : targetId ≠ ""
  valid : genome.Valid

/-- The images of a genome that a source names. -/
def sourceImages (source : FuzzableSource) (genome : ScenarioGenome) : List MemoryImage :=
  genome.initialImages.filter fun image => image.component = source.component ∧ image.imageId = source.port

namespace SourceBindings

/-- The one image a source names lies at the address of its binding, and the source within it. -/
def checkImage (entry : SourceBinding) (source : FuzzableSource) (genome : ScenarioGenome) :
    Except Exn Unit :=
  match sourceImages source genome with
  | [image] => do
      ensure (some image.address = entry.imageAddress)
        (.valueError "memory image binding address differs")
      ensure (source.bitOffset + source.width ≤ image.data.length * 8)
        (.valueError "memory image binding exceeds initial image")
  | _ => .error (.valueError "memory image binding requires unique initial image")

/-- What owns the bits of a source. -/
def checkOwner (ownership : OwnershipMap) (entry : SourceBinding) (source : FuzzableSource)
    (genomes : List ScenarioGenome) : Except Exn Unit :=
  match source.kind with
  | .source => do
      let actual ← ownership.mutationSource source.component source.port source.bitOffset source.width
      ensure (actual = entry.ownerRef)
        (.valueError "source binding owner does not match input owner")
  | .memoryImage => do
      ensure (entry.ownerRef = "initial_image:" ++ source.component ++ ":" ++ source.port)
        (.valueError "memory image binding owner is invalid")
      ensure (genomes ≠ []) (.valueError "memory image binding has no initial image")
      genomes.forM (checkImage entry source)

/-- The entry of a source. -/
def entry? (b : SourceBindings) (sourceId : String) : Option SourceBinding :=
  b.entries.find? fun entry => entry.sourceId = sourceId

/-- The binding says what the source says. -/
def Agrees (entry : SourceBinding) (source : FuzzableSource) : Prop :=
  (entry.kind = source.kind ∧ entry.component = source.component ∧ entry.port = source.port ∧
    entry.bitOffset = source.bitOffset ∧ entry.width = source.width) ∧
    (source.imageAddress = none ∨ entry.imageAddress = source.imageAddress)

instance (entry : SourceBinding) (source : FuzzableSource) : Decidable (Agrees entry source) :=
  inferInstanceAs (Decidable ((_ ∧ _ ∧ _ ∧ _ ∧ _) ∧ (_ ∨ _)))

/-- Check a source against its binding and against the sources before it. -/
def checkSource (b : SourceBindings) (ownership : OwnershipMap)
    (imageGenomes : String → List ScenarioGenome) (earlier : List FuzzableSource)
    (source : FuzzableSource) : Except Exn (List FuzzableSource) :=
  match b.entry? source.sourceId with
  | none => .error (.other "KeyError")
  | some entry => do
      ensure (Agrees entry source) (.valueError "graph source disagrees with trusted binding")
      ensure (source.width ≤ 8192) (.valueError "source binding width exceeds decoder bound")
      checkOwner ownership entry source (imageGenomes source.sourceId)
      ensure (∀ other ∈ earlier, ¬ other.Overlaps source)
        (.valueError "multiple graph source bindings own one bit")
      pure (earlier ++ [source])

/-- Check every source of a graph. -/
def validate (b : SourceBindings) (graph : DependencyGraph) (ownership : OwnershipMap)
    (imageGenomes : String → List ScenarioGenome) : Except Exn Unit := do
  ensure ((∀ entry ∈ b.entries, graph.IsSource entry.sourceId) ∧
      ∀ id ∈ graph.sources.keys, ∃ entry ∈ b.entries, entry.sourceId = id)
    (.valueError "graph source lacks trusted binding")
  let _ ← graph.sourceList.foldlM (checkSource b ownership imageGenomes) []

end SourceBindings

/-! ## Paths -/

/-- What is listed once for a runtime contract. -/
structure RuntimePaths where
  contract : RuntimePathContract
  pathsByKey : Dict (Direction × String) (List DependencyPath)
  pathLookup : Dict String (Direction × DependencyPath)
  pathIds : Dict (Direction × DependencyPath) String

/-- A path under its name. -/
structure NamedPath where
  direction : Direction
  path : DependencyPath
  identifier : String

section Paths

variable (codec : JsonLines JsonScalar) (sha : Sha256) (graph : DependencyGraph)

/-- The named paths of a target, of which there must be one. -/
def namedPaths (key : Direction × String) : Except Exn (List DependencyPath × List NamedPath) := do
  let selected ← graph.edgePathsTo key.2 key.1 16 64
  ensure (selected ≠ []) (.valueError "template target lacks a reachable upstream path")
  let named ← selected.mapM fun path => do
    let identifier ← graph.pathIdentity codec.toJsonCodec sha path key.1
    pure (NamedPath.mk key.1 path identifier)
  pure (selected, named)

/-- List the paths of every target. -/
def initializeRuntimePaths (contract : RuntimePathContract) (targets : List (Direction × String)) :
    Except Exn RuntimePaths := do
  let document ← graph.edgeDocument
  ensure (contract.graphSha256 = sha.hexdigest (codec.dumps document))
    (.valueError "runtime contract graph digest differs")
  let keys := Sequence.firsts targets
  let lists ← keys.mapM (namedPaths codec sha graph)
  let named := lists.flatMap Prod.snd
  pure {
    contract := contract
    pathsByKey := Dict.update .empty (keys.zip (lists.map Prod.fst))
    pathLookup := Dict.update .empty (named.map fun n => (n.identifier, (n.direction, n.path)))
    pathIds := Dict.update .empty (named.map fun n => ((n.direction, n.path), n.identifier)) }

/-- The paths of a target. -/
def pathsFor (runtime : Option RuntimePaths) (target : String) (direction : Direction) :
    Except Exn (List DependencyPath) :=
  match runtime with
  | none => graph.pathsTo target direction 16 64
  | some paths => .ok (paths.pathsByKey.getD (direction, target) [])

/-- The paths that were listed. -/
def runtimePaths (runtime : Option RuntimePaths) : List (Direction × DependencyPath) :=
  (runtime.map fun paths => paths.pathLookup.entries.map Prod.snd).getD []

/-- The sources a template can reach. -/
def reachedSources (runtime : Option RuntimePaths) (template : DecoderTemplate) :
    Except Exn (ScenarioGenome × List String) := do
  let paths ← pathsFor graph runtime template.targetId template.genome.direction
  pure (template.genome, paths.flatMap DependencyPath.sourceIds)

/-- The genomes of the templates that can reach each source. -/
def imageSourceGenomes (runtime : Option RuntimePaths) (templates : List DecoderTemplate) :
    Except Exn (String → List ScenarioGenome) := do
  let reached ← templates.mapM (reachedSources graph runtime)
  pure fun sourceId => (reached.filter fun p => sourceId ∈ p.2).map Prod.fst

end Paths

/-! ## Decoders -/

/-- A decoder of records. -/
structure GenomeRecordDecoder where
  graph : DependencyGraph
  ownership : OwnershipMap
  templates : List DecoderTemplate
  maxRecords : ℤ
  maxDelayTicks : ℤ
  sourceBindings : Option SourceBindings
  runtime : Option RuntimePaths
  mutationAuthorizations : Dict (Direction × DependencyPath × String) MutationAuthorization

section Decoder

variable (codec : JsonLines JsonScalar) (sha : Sha256)

/-- Compile the mutations of every source of a path. -/
def authorizePath (graph : DependencyGraph) (ownership : OwnershipMap)
    (proofs : List (Direction × DependencyPath)) (p : Direction × DependencyPath) :
    Except Exn (List ((Direction × DependencyPath × String) × MutationAuthorization)) :=
  p.2.sourceIds.mapM fun sourceId => do
    let authorization ← compileMutationAuthorization graph ownership proofs
      ⟨p.1, p.2.target, p.2, sourceId⟩
    pure ((p.1, p.2, sourceId), authorization)

/-- Compile the mutations of every listed path. -/
def authorizations (graph : DependencyGraph) (ownership : OwnershipMap) (runtime : Option RuntimePaths) :
    Except Exn (Dict (Direction × DependencyPath × String) MutationAuthorization) := do
  let proofs := (runtime.map fun paths => paths.pathIds.keys).getD []
  let lists ← (runtimePaths runtime).mapM (authorizePath graph ownership proofs)
  pure (Dict.update .empty lists.flatten)

namespace GenomeRecordDecoder

/-- Check the bindings of a decoder, if it has any. -/
def checkBindings (graph : DependencyGraph) (ownership : OwnershipMap)
    (templates : List DecoderTemplate) (bindings : Option SourceBindings)
    (runtime : Option RuntimePaths) : Except Exn Unit :=
  match bindings with
  | none => .ok ()
  | some bindings => do
      let imageGenomes ← imageSourceGenomes graph runtime templates
      bindings.validate graph ownership imageGenomes

/-- A template's target can be reached. -/
def checkTemplate (graph : DependencyGraph) (runtime : Option RuntimePaths)
    (template : DecoderTemplate) : Except Exn Unit := do
  let paths ← pathsFor graph runtime template.targetId template.genome.direction
  ensure (paths ≠ []) (.valueError "template target lacks a reachable upstream path")

/-- `GenomeRecordDecoder(…)`. -/
def new (graph : DependencyGraph) (ownership : OwnershipMap) (templates : List DecoderTemplate)
    (maxRecords maxDelayTicks : ℤ) (sourceBindings : Option SourceBindings)
    (runtimeContract : Option RuntimePathContract) : Except Exn GenomeRecordDecoder := do
  ensure (1 ≤ templates.length ∧ templates.length ≤ 256) (.valueError "decoder requires 1..256 templates")
  ensure (1 ≤ maxRecords ∧ maxRecords ≤ 200 ∧ 0 ≤ maxDelayTicks) (.valueError "decoder limits are invalid")
  let runtime ← match runtimeContract with
    | none => pure none
    | some contract => do
        let paths ← initializeRuntimePaths codec sha graph contract
          (templates.map fun item => (item.genome.direction, item.targetId))
        pure (some paths)
  checkBindings graph ownership templates sourceBindings runtime
  templates.forM (checkTemplate graph runtime)
  let mutationAuthorizations ← authorizations graph ownership runtime
  pure ⟨graph, ownership, templates, maxRecords, maxDelayTicks, sourceBindings, runtime,
    mutationAuthorizations⟩

variable (d : GenomeRecordDecoder)

/-! ## Choices -/

/-- `action.width or field_width(…)`. -/
def choiceWidth (action : Action) : Except Exn ℤ :=
  match action.width with
  | none => d.ownership.fieldWidth action.component action.port
  | some width => if width = 0 then d.ownership.fieldWidth action.component action.port else .ok width

/-- An action drives a bit of a source. -/
def overlaps (genome : ScenarioGenome) (source : FuzzableSource) (bit : ℤ) (action : Action) :
    Except Exn Bool :=
  if action.component = source.component ∧ action.port = source.port ∧
      action.direction = genome.direction ∧ action.bitOffset ≤ bit then do
    let width ← d.choiceWidth action
    pure (decide (bit < action.bitOffset + width))
  else .ok false

/-- The actions that drive a bit of a source. -/
def actionIds (genome : ScenarioGenome) (source : FuzzableSource) (bit : ℤ) : Except Exn (List String) := do
  let ids ← genome.actions.mapM fun action => do
    let overlap ← d.overlaps genome source bit action
    pure (if overlap then [action.actionId] else [])
  pure ids.flatten

/-- A bit of a source that actions drive, which must be a source's. -/
def choice (genome : ScenarioGenome) (source : FuzzableSource) (index : ℕ) :
    Except Exn (List (ℕ × List String)) := do
  let bit := source.bitOffset + index
  let ids ← d.actionIds genome source bit
  if ids = [] then pure []
  else do
    let _ ← d.ownership.mutationSource source.component source.port bit 1
    pure [(index, ids)]

/-- The bits of a source that can be mutated, each with the actions that drive it. -/
def choices (genome : ScenarioGenome) (source : FuzzableSource) : Except Exn (List (ℕ × List String)) := do
  ensure (source.width ≤ 8192) (.valueError "source width exceeds decoder bound")
  match source.kind with
  | .memoryImage =>
      match genome.initialImages.find? fun item =>
          item.imageId = source.port ∧ item.component = source.component with
      | none => pure []
      | some image => pure (((List.range source.width.toNat).filter fun (index : ℕ) =>
          source.bitOffset + index < image.data.length * 8).map fun index => (index, []))
  | .source => do
      let lists ← (List.range source.width.toNat).mapM (d.choice genome source)
      pure lists.flatten

/-! ## Records -/

/-- A member of a list, counted from the start again when the list is over. -/
def pick {α : Type} (l : List α) (n : ℕ) : Except Exn α :=
  match l[n % l.length]? with
  | some a => .ok a
  | none => .error (.other "ZeroDivisionError")

/-- A byte of a record. -/
def byte (record : List UInt8) (i : ℕ) : ℕ := (record.getD i 0).toNat

/-- The sources of a path. -/
def pathSources (path : DependencyPath) : Except Exn (List FuzzableSource) :=
  path.sourceIds.mapM fun sourceId =>
    match d.graph.sources.get? sourceId with
    | some source => .ok source
    | none => .error (.other "KeyError")

/-- Flip the bit that was chosen. -/
def flip (path : DependencyPath) (genome : ScenarioGenome) (source : FuzzableSource) (bitIndex : ℕ)
    (actionId : Option String) : Except Exn ScenarioGenome :=
  let target := match source.kind with
    | .memoryImage => MutationTarget.mk .initialImage source.port
    | .source => MutationTarget.mk .genomeAction (actionId.getD "")
  mutateGenome d.graph d.ownership genome ⟨genome.direction, path.target, path, source.sourceId⟩ bitIndex
    actionId (some target)
    (d.mutationAuthorizations.get? (genome.direction, path, source.sourceId))

/-- Add to the delay of an action. -/
def delayAction (id : String) (delay : ℕ) (action : Action) : Except Exn Action :=
  if action.actionId = id then do
    let action := { action with delayTicks := min d.maxDelayTicks (action.delayTicks + delay) }
    action.validate
    pure action
  else .ok action

/-- Add to the delay of the action that was chosen, if the source has any. -/
def delay (genome : ScenarioGenome) (source : FuzzableSource) (actionId : Option String)
    (ticks : ℕ) : Except Exn ScenarioGenome :=
  match source.kind, actionId with
  | .source, some id => do
      let actions ← genome.actions.mapM (d.delayAction id ticks)
      let genome := { genome with actions := actions }
      genome.validate
      pure genome
  | _, _ => .ok genome

/-- What a record does. -/
def operation (record : List UInt8) : ℕ := byte record 5 % 3

/-- The source a record selects. -/
def selectSource (path : DependencyPath) (record : List UInt8) : Except Exn FuzzableSource := do
  let sources ← d.pathSources path
  pick sources (byte record 2)

/-- The action a record selects among some, if there are any. -/
def selectAction (ids : List String) (record : List UInt8) : Except Exn (Option String) :=
  if ids = [] then .ok none
  else do
    let id ← pick ids (byte record 4)
    pure (some id)

/-- Apply a record. -/
def apply (path : DependencyPath) (genome : ScenarioGenome) (record : List UInt8) :
    Except Exn ScenarioGenome :=
  if operation record = 0 then .ok genome
  else do
    let source ← d.selectSource path record
    let choices ← d.choices genome source
    ensure (choices ≠ []) (.valueError "selected upstream source has no mutable genome field")
    let (bitIndex, ids) ← pick choices (byte record 3 + byte record 7 * 256)
    let actionId ← selectAction ids record
    if operation record = 1 then d.flip path genome source bitIndex actionId
    else d.delay genome source actionId (byte record 6)

/-- The name of a path. -/
def pathName (template : DecoderTemplate) (path : DependencyPath) (direction : Direction) :
    Except Exn String :=
  match d.runtime with
  | none => .ok (template.targetId ++ ":" ++ String.intercalate "," path.sourceIds)
  | some paths =>
      match paths.pathIds.get? (direction, path) with
      | some identifier => .ok identifier
      | none => .error (.valueError "unknown runtime path")

/-- The records are as many and as long as they may be. -/
def checkRecords (records : List (List UInt8)) : Except Exn Unit :=
  ensure (1 ≤ records.length ∧ records.length ≤ d.maxRecords ∧
      ∀ record ∈ records, record.length = recordBytes)
    (.valueError "RFuzz testcase needs 1..max_records eight bytes records")

/-- The template and the path that the first record selects. -/
def select (records : List (List UInt8)) : Except Exn (DecoderTemplate × DependencyPath) := do
  let first := records.headD []
  let template ← pick d.templates (byte first 0)
  let paths ← pathsFor d.graph d.runtime template.targetId template.genome.direction
  let path ← pick paths (byte first 1)
  pure (template, path)

/-- Decode the records of a testcase. -/
def decode (records : List (List UInt8)) : Except Exn ScenarioGenome := do
  if d.runtime.isNone then
    checkBindings d.graph d.ownership d.templates d.sourceBindings d.runtime
  d.checkRecords records
  let (template, path) ← d.select records
  let genome ← records.foldlM (d.apply path) template.genome
  let digest := (sha.hexdigest records.flatten).toList.take 24
  let pathId ← d.pathName template path genome.direction
  let genome := { genome with testcaseId := "rfuzz-" ++ String.ofList digest, pathId := pathId }
  genome.validate
  pure genome

end GenomeRecordDecoder

end Decoder

end MyFuzz
