import MyFuzz.Foundations.Dict
import MyFuzz.Foundations.Sequence
import Mathlib.Data.List.Lex
import Mathlib.Data.List.MinMax
import Mathlib.Data.List.Sort
import Mathlib.Data.Prod.Lex
import Mathlib.Data.String.Basic

/-!
# Composition/EndpointGraph — protocol endpoints, the edges between them and their conflicts

Every pair of endpoints is an edge unless something forbids it:

    endpoints ──pairs──▸ pairConstraints ──reasons──▸ forbidden edges
                                         ──none────▸ candidate edges
    candidate edges ──matching──▸ covered endpoints ──▸ hard conflicts of the required ones

An optional endpoint without any edge becomes an external one.
-/

namespace MyFuzz

namespace Composition

/-! ## Facts and protocols -/

/-- A value of a structural fact. -/
inductive FactValue where
  | none
  | bool (b : Bool)
  | int (n : ℤ)
  | text (s : String)
  | tuple (items : List FactValue)

inductive EvidenceKind where
  | dataflowEdges
  | controlEdges
  deriving DecidableEq

/-- A structural fact, numbered within its section. -/
structure Evidence where
  kind : EvidenceKind
  ordinal : ℕ
  record : FactValue

structure AdapterRule where
  kind : String
  sourceProtocolId : String
  targetProtocolId : String
  allowsWidthMismatch : Bool
  deriving DecidableEq

/-- A protocol and the adapters it declares legal. -/
structure ProtocolDefinition where
  protocolId : String
  legalAdapters : List AdapterRule
  version : String

/-- The directions a protocol field may declare. -/
inductive ProtocolDirection where
  | initiatorToTarget
  | hostToDevice
  | targetToInitiator
  | deviceToHost
  deriving DecidableEq

def ProtocolDirection.towardsTarget : ProtocolDirection → Bool
  | .initiatorToTarget | .hostToDevice => true
  | .targetToInitiator | .deviceToHost => false

inductive Side where
  | initiator
  | target
  deriving DecidableEq

inductive PortDirection where
  | input
  | output
  deriving DecidableEq

/-! ## Endpoints and edges -/

structure EndpointField where
  role : String
  portId : ℕ
  protocolDirection : ProtocolDirection
  width : ℕ

/-- One side of a protocol that a component binds to its ports. -/
structure EndpointNode where
  id : ℕ
  componentId : ℕ
  protocolId : String
  side : Side
  fields : List EndpointField
  required : Bool
  clockDomainIds : List ℕ
  resetDomainIds : List ℕ
  version : String

/-- The protocol an endpoint speaks. -/
def EndpointNode.protocolKey (endpoint : EndpointNode) : String × String :=
  (endpoint.protocolId, endpoint.version)

/-- The fields of an endpoint by their roles. -/
def EndpointNode.fieldsByRole (endpoint : EndpointNode) : Dict String EndpointField :=
  Dict.empty.update (endpoint.fields.map fun field => (field.role, field))

structure Conflict where
  kind : String
  endpointIds : List ℕ
  portIds : List ℕ
  detail : String
  provenance : List Evidence

structure ForbiddenEdge where
  sourceEndpointId : ℕ
  targetEndpointId : ℕ
  reasons : List String

/-- Two ports to be wired, named from the producer to the consumer. -/
structure FieldConnection where
  role : String
  sourcePortId : ℕ
  targetPortId : ℕ
  sourceWidth : ℕ
  targetWidth : ℕ
  deriving DecidableEq

inductive EdgeKind where
  | connection
  | external
  deriving DecidableEq

def EdgeKind.text : EdgeKind → String
  | .connection => "connection"
  | .external => "external"

/-- An edge of the graph, or an endpoint that stays outside of it. -/
structure EdgeCandidate where
  id : ℕ
  kind : EdgeKind
  sourceEndpointId : ℕ
  targetEndpointId : Option ℕ
  fields : List FieldConnection
  adapter : Option String
  evidence : List Evidence

/-- **The endpoints, with the protocols they speak.** -/
structure ConstraintGraph where
  endpoints : List EndpointNode
  protocols : List ProtocolDefinition
  evidence : List Evidence
  inputConflicts : List Conflict
  known : ∀ endpoint ∈ endpoints, ∃ protocol ∈ protocols,
    (protocol.protocolId, protocol.version) = endpoint.protocolKey

namespace ConstraintGraph

variable (graph : ConstraintGraph)

def protocolByKey : Dict (String × String) ProtocolDefinition :=
  Dict.empty.update (graph.protocols.map fun protocol => ((protocol.protocolId, protocol.version), protocol))

def endpointById : Dict ℕ EndpointNode :=
  Dict.empty.update (graph.endpoints.map fun endpoint => (endpoint.id, endpoint))

/-- The endpoints that begin a connection. -/
def initiators : List EndpointNode := graph.endpoints.filter fun endpoint => endpoint.side = .initiator

def targets : List EndpointNode := graph.endpoints.filter fun endpoint => endpoint.side = .target

end ConstraintGraph

/-! ## Pair constraints -/

/-- The direction a port has on one side of a protocol. -/
def expectedDirection (direction : ProtocolDirection) (side : Side) : PortDirection :=
  if direction.towardsTarget then if side = .initiator then .output else .input
  else if side = .initiator then .input else .output

/-- The adapters a protocol declares. -/
def legalAdapters (protocols : Dict (String × String) ProtocolDefinition) (key : String × String) :
    List AdapterRule :=
  ((protocols.get? key).map ProtocolDefinition.legalAdapters).getD []

def crossAdapter (protocols : Dict (String × String) ProtocolDefinition) (source target : EndpointNode) :
    Option AdapterRule :=
  ((legalAdapters protocols source.protocolKey ++ legalAdapters protocols target.protocolKey).filter
    fun rule => rule.sourceProtocolId = source.protocolId ∧ rule.targetProtocolId = target.protocolId).argmin
      AdapterRule.kind

def sameProtocolWidthAdapter (protocols : Dict (String × String) ProtocolDefinition)
    (endpoint : EndpointNode) : Option AdapterRule :=
  ((legalAdapters protocols endpoint.protocolKey).filter fun rule =>
    rule.sourceProtocolId = endpoint.protocolId ∧ rule.targetProtocolId = endpoint.protocolId ∧
      rule.allowsWidthMismatch).argmin AdapterRule.kind

/-- Clock or reset domains that may not be joined. -/
def domainsDiffer (source target : List ℕ) : Bool :=
  source.isEmpty != target.isEmpty || (!source.isEmpty && !target.isEmpty && source != target)

/-- What the two fields of one role add to the reasons, and the adapter they may need. -/
def fieldConstraints (protocols : Dict (String × String) ProtocolDefinition) (source target : EndpointNode)
    (left right : EndpointField) (found : List String × Option AdapterRule) :
    List String × Option AdapterRule :=
  let reasons := found.1 ++ if expectedDirection left.protocolDirection source.side
      = expectedDirection right.protocolDirection target.side then ["direction"] else []
  if left.width = right.width then (reasons, found.2)
  else
    let widthAdapter :=
      match found.2.filter AdapterRule.allowsWidthMismatch with
      | some rule => some rule
      | none => if source.protocolKey = target.protocolKey then sameProtocolWidthAdapter protocols source
        else none
    match widthAdapter, found.2 with
    | none, adapter => (reasons ++ ["width"], adapter)
    | some rule, none => (reasons, some rule)
    | some _, some adapter => (reasons, some adapter)

/-- **Why two endpoints may not be connected, and the adapter of their connection.** -/
def pairConstraints (source target : EndpointNode)
    (protocols : Dict (String × String) ProtocolDefinition) : List String × Option String :=
  let ownComponent := if source.componentId = target.componentId then ["self_connection"] else []
  let sides := if source.side ≠ .initiator ∨ target.side ≠ .target then ["side"] else []
  let adapter := if source.protocolId ≠ target.protocolId then crossAdapter protocols source target else none
  let protocol := if source.protocolKey ≠ target.protocolKey ∧ adapter = none then ["protocol"] else []
  let clocks := if domainsDiffer source.clockDomainIds target.clockDomainIds then ["domain"] else []
  let resets := if domainsDiffer source.resetDomainIds target.resetDomainIds then ["domain"] else []
  let sourceFields := source.fieldsByRole
  let targetFields := target.fieldsByRole
  let roles := sourceFields.keys.filter fun role => role ∈ targetFields.keys
  let missing := if roles.length ≠ sourceFields.length ∨ roles.length ≠ targetFields.length
    then ["protocol_field"] else []
  let found := (roles.insertionSort (· ≤ ·)).foldl (fun found role =>
    match sourceFields.get? role, targetFields.get? role with
    | some left, some right => fieldConstraints protocols source target left right found
    | _, _ => found) (ownComponent ++ sides ++ protocol ++ clocks ++ resets ++ missing, adapter)
  (Sequence.firsts found.1, found.2.map AdapterRule.kind)

/-- Every item with every later one. -/
def pairs {α : Type} : List α → List (α × α)
  | [] => []
  | first :: rest => rest.map (fun second => (first, second)) ++ pairs rest

/-- A pair, from its initiator to its target. -/
def oriented (pair : EndpointNode × EndpointNode) : EndpointNode × EndpointNode :=
  if pair.2.side = .initiator ∧ pair.1.side = .target then pair.swap else pair

def ForbiddenEdge.key (edge : ForbiddenEdge) : ℕ ×ₗ ℕ := toLex (edge.sourceEndpointId, edge.targetEndpointId)

/-- The pairs that may not be connected. -/
def ConstraintGraph.forbiddenEdges (graph : ConstraintGraph) : List ForbiddenEdge :=
  ((pairs graph.endpoints).filterMap fun pair =>
    let (source, target) := oriented pair
    match (pairConstraints source target graph.protocolByKey).1 with
    | [] => none
    | reasons => some ⟨source.id, target.id, reasons⟩).insertionSort fun a b => a.key ≤ b.key

/-- The forbidden edge between two endpoints, searched in the sorted edges. -/
def forbidden (graph : ConstraintGraph) (source target : ℕ) : Option ForbiddenEdge :=
  ((graph.forbiddenEdges.dropWhile fun edge => edge.key < toLex (source, target)).head?).filter
    fun edge => edge.key = toLex (source, target)

/-! ## Candidate edges -/

mutual

/-- One of the ports stands in a record. -/
def FactValue.mentions (ports : List ℕ) : FactValue → Bool
  | .int n => ports.any fun port => (port : ℤ) = n
  | .tuple items => FactValue.mentionsAny ports items
  | .none | .bool _ | .text _ => false

def FactValue.mentionsAny (ports : List ℕ) : List FactValue → Bool
  | [] => false
  | item :: items => FactValue.mentions ports item || FactValue.mentionsAny ports items

end

def relevantEvidence (evidence : List Evidence) (ports : List ℕ) : List Evidence :=
  evidence.filter fun item => item.record.mentions ports

/-- An edge is numbered by the first eight bytes of the digest of its ends. -/
def edgeId (digest : String → ℕ) (kind : EdgeKind) (source : ℕ) (target : Option ℕ) : ℕ :=
  digest (kind.text ++ ":" ++ toString source ++ ":" ++ toString (target.getD 0))

def connectionKey (field : FieldConnection) : String ×ₗ ℕ ×ₗ ℕ :=
  toLex (field.role, toLex (field.sourcePortId, field.targetPortId))

/-- The ports of one role, from the producer to the consumer. -/
def connectFields (left right : EndpointField) : FieldConnection :=
  let (producer, consumer) := if left.protocolDirection.towardsTarget then (left, right) else (right, left)
  ⟨left.role, producer.portId, consumer.portId, producer.width, consumer.width⟩

/-- The edge between two endpoints.  Both have the same roles, so no field is left out. -/
def candidate (digest : String → ℕ) (source target : EndpointNode) (graph : ConstraintGraph) :
    EdgeCandidate :=
  let joined := source.fields.filterMap fun left =>
    (target.fieldsByRole.get? left.role).map fun right => (left, right)
  ⟨edgeId digest .connection source.id (some target.id), .connection, source.id, some target.id,
    (joined.map fun pair => connectFields pair.1 pair.2).insertionSort
      fun a b => connectionKey a ≤ connectionKey b,
    (pairConstraints source target graph.protocolByKey).2,
    relevantEvidence graph.evidence (joined.flatMap fun pair => [pair.1.portId, pair.2.portId])⟩

def endpointHasInputConflict (graph : ConstraintGraph) (id : ℕ) : Bool :=
  graph.inputConflicts.any fun conflict => id ∈ conflict.endpointIds

/-- **The internal connections, and the optional endpoints that have none.** -/
def candidateEdges (digest : String → ℕ) (graph : ConstraintGraph) : List EdgeCandidate :=
  let connections := (pairs graph.endpoints).filterMap fun pair =>
    let (source, target) := oriented pair
    if endpointHasInputConflict graph source.id || endpointHasInputConflict graph target.id then none
    else
      match forbidden graph source.id target.id with
      | some _ => none
      | none => some (candidate digest source target graph)
  let connected := connections.flatMap fun edge => edge.sourceEndpointId :: edge.targetEndpointId.toList
  connections ++ (graph.endpoints.filter fun endpoint => !endpoint.required && endpoint.id ∉ connected).map
    fun endpoint => ⟨edgeId digest .external endpoint.id none, .external, endpoint.id, none, [], none, []⟩

/-! ## Matching -/

section Matching

variable {L R : Type} [DecidableEq R]

/-- A matching, and the nodes that the current search has visited. -/
structure Matching (L R : Type) [DecidableEq R] where
  matched : Dict R L
  visited : List R

/-- Give `left` the first of these nodes that is free or can be freed. -/
def tryNodes (augment : L → Matching L R → Bool × Matching L R) (left : L) :
    List R → Matching L R → Bool × Matching L R
  | [], m => (false, m)
  | right :: rest, m =>
    if right ∈ m.visited then tryNodes augment left rest m
    else
      let m := { m with visited := right :: m.visited }
      let freed := match m.matched.get? right with
        | none => (true, m)
        | some previous => augment previous m
      if freed.1 then (true, { freed.2 with matched := freed.2.matched.set right left })
      else tryNodes augment left rest freed.2

/-- An augmenting path from `left`.  Every step visits a new node, so `fuel` bounds the path. -/
def augment (adjacency : L → List R) : ℕ → L → Matching L R → Bool × Matching L R
  | 0, _, m => (false, m)
  | fuel + 1, left, m => tryNodes (augment adjacency fuel) left (adjacency left) m

/-- Match the nodes in turn, each with a search of its own; `false` when one stays unmatched. -/
def augmentAll (adjacency : L → List R) (fuel : ℕ) (lefts : List L) : Bool × Dict R L :=
  lefts.foldl (fun found left =>
    let (matched, m) := augment adjacency fuel left ⟨found.2, []⟩
    (found.1 && matched, m.matched)) (true, Dict.empty)

end Matching

/-- The sources, and a stand-in for every target. -/
inductive LeftNode where
  | source (id : ℕ)
  | dummySource (id : ℕ)
  deriving DecidableEq

/-- The targets, and a stand-in for every source. -/
inductive RightNode where
  | target (id : ℕ)
  | dummyTarget (id : ℕ)
  deriving DecidableEq

/-- The endpoints that a maximum matching covers: all required ones if that can be done. -/
def matchedEndpointIds (graph : ConstraintGraph) (edges : List EdgeCandidate) : List ℕ :=
  let required := fun id => ((graph.endpointById.get? id).map EndpointNode.required).getD false
  let adjacency := fun source => (edges.filterMap fun edge =>
    if edge.kind = .connection ∧ edge.sourceEndpointId = source then edge.targetEndpointId
    else none).insertionSort (· ≤ ·)
  let sourceIds := graph.initiators.map EndpointNode.id
  let targetIds := graph.targets.map EndpointNode.id
  let dummyTargets := sourceIds.map RightNode.dummyTarget
  let augmented : LeftNode → List RightNode
    | .source id => (adjacency id).map RightNode.target ++ if required id then [] else dummyTargets
    | .dummySource _ => (targetIds.filter fun id => !required id).map RightNode.target ++ dummyTargets
  let lefts := sourceIds.map LeftNode.source ++ targetIds.map LeftNode.dummySource
  if (augmentAll augmented (targetIds.length + sourceIds.length + 1) lefts).1 then
    (graph.endpoints.filter EndpointNode.required).map EndpointNode.id
  else
    let preference := fun id => toLex (!required id, id)
    let preferred := fun source => (adjacency source).insertionSort fun a b => preference a ≤ preference b
    let sources := graph.initiators.insertionSort fun a b =>
      toLex (!a.required, a.id) ≤ toLex (!b.required, b.id)
    let matched := (augmentAll preferred (targetIds.length + 1) (sources.map EndpointNode.id)).2
    matched.entries.map Prod.snd ++ matched.keys

/-! ## Hard conflicts -/

def Conflict.key (conflict : Conflict) : String × List ℕ × List ℕ :=
  (conflict.kind, conflict.endpointIds, conflict.portIds)

def Conflict.order (conflict : Conflict) : String ×ₗ List ℕ ×ₗ List ℕ ×ₗ String :=
  toLex (conflict.kind, toLex (conflict.endpointIds, toLex (conflict.portIds, conflict.detail)))

/-- Report a conflict once. -/
def addConflict (conflicts : List Conflict) (conflict : Conflict) : List Conflict :=
  if conflicts.any fun known => known.key = conflict.key then conflicts else conflicts ++ [conflict]

/-- The conflicts of a required endpoint that is not covered. -/
def uncoveredConflicts (graph : ConstraintGraph) (endpoint : EndpointNode) : List Conflict :=
  let portsOf := fun id => ((graph.endpointById.get? id).map EndpointNode.fields).getD [] |>.map
    EndpointField.portId
  let related := graph.forbiddenEdges.filter fun edge =>
    endpoint.id = edge.sourceEndpointId ∨ endpoint.id = edge.targetEndpointId
  (related.flatMap fun edge =>
    let ports := (portsOf edge.sourceEndpointId ++ portsOf edge.targetEndpointId).insertionSort (· ≤ ·)
    edge.reasons.map fun reason => ⟨reason, [edge.sourceEndpointId, edge.targetEndpointId], ports,
      "candidate edge is forbidden", relevantEvidence graph.evidence ports⟩) ++
  [⟨"required_cardinality", [endpoint.id], endpoint.fields.map EndpointField.portId,
    "required endpoint has no legal connection", []⟩]

/-- **The conflicts that keep a required endpoint from being covered.** -/
def rejectHardConflicts (digest : String → ℕ) (graph : ConstraintGraph) : List Conflict :=
  let connected := matchedEndpointIds graph (candidateEdges digest graph)
  let uncovered := graph.endpoints.filter fun endpoint => endpoint.required && endpoint.id ∉ connected
  ((uncovered.flatMap (uncoveredConflicts graph)).foldl addConflict graph.inputConflicts).insertionSort
    fun a b => a.order ≤ b.order

end Composition

end MyFuzz
