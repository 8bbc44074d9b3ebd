import MyFuzz.Composition.Address
import MyFuzz.Composition.EndpointGraph
import MyFuzz.Foundations.BestKept

/-!
# Composition/TopkSearch — the search for the best compositions

Every initiator is tried with each of its edges in turn and, when it is optional, with none.  What has been
chosen is taken back on the way out, and every complete choice is offered to a bounded heap:

    initiators ──visit──▸ chosen, used targets ──leaf──▸ candidate ──retain──▸ heap ──sort──▸ yielded

The heap is ordered by the score vector with every part negated, and then by the graph hash.
-/

namespace MyFuzz

namespace Composition

/-! ## Edges of the search -/

/-- The order of the fields of an edge. -/
def FieldConnection.order (field : FieldConnection) : String ×ₗ ℕ ×ₗ ℕ ×ₗ ℕ ×ₗ ℕ :=
  toLex (field.role, toLex (field.sourcePortId, toLex (field.targetPortId,
    toLex (field.sourceWidth, field.targetWidth))))

/-- What makes two edges the same. -/
abbrev Signature : Type := String ×ₗ ℕ ×ₗ ℕ ×ₗ String ×ₗ List (String ×ₗ ℕ ×ₗ ℕ ×ₗ ℕ ×ₗ ℕ)

def edgeSignature (edge : EdgeCandidate) : Signature :=
  toLex (edge.kind.text, toLex (edge.sourceEndpointId, toLex (edge.targetEndpointId.getD 0,
    toLex (edge.adapter.getD "", (edge.fields.map FieldConnection.order).insertionSort (· ≤ ·)))))

/-- Store an edge unless one of its signature has a number that is no greater. -/
def keepEdge (normalized : Dict Signature EdgeCandidate) (edge : EdgeCandidate) :
    Dict Signature EdgeCandidate :=
  match normalized.get? (edgeSignature edge) with
  | none => normalized.set (edgeSignature edge) edge
  | some previous =>
    if edge.id < previous.id then normalized.set (edgeSignature edge) edge else normalized

/-- One edge for each signature, the one with the least number. -/
def normalizedEdges (edges : List EdgeCandidate) : Dict Signature EdgeCandidate :=
  edges.foldl keepEdge Dict.empty

def edgeOrder (edge : EdgeCandidate) : ℕ ×ₗ ℕ ×ₗ ℕ :=
  toLex (edge.sourceEndpointId, toLex (edge.targetEndpointId.getD 0, edge.id))

/-- The edges of a graph, each once. -/
def allEdges (digest : String → ℕ) (graph : ConstraintGraph) : List EdgeCandidate :=
  ((normalizedEdges (candidateEdges digest graph)).entries.map Prod.snd).insertionSort
    fun a b => edgeOrder a ≤ edgeOrder b

def connectionEdges (digest : String → ℕ) (graph : ConstraintGraph) : List EdgeCandidate :=
  (allEdges digest graph).filter fun edge => edge.kind = .connection

/-- The edges that leave an initiator. -/
def edgesFrom (digest : String → ℕ) (graph : ConstraintGraph) (source : EndpointNode) : List EdgeCandidate :=
  (connectionEdges digest graph).filter fun edge => edge.sourceEndpointId = source.id

def requiredTargets (graph : ConstraintGraph) : List ℕ :=
  (graph.targets.filter EndpointNode.required).map EndpointNode.id

/-! ## Graph documents -/

structure ConnectionDocument where
  sourceEndpointId : ℕ
  targetEndpointId : Option ℕ
  adapter : Option String
  fields : List FieldConnection
  deriving DecidableEq

/-- What the hash of a composition is taken of. -/
structure GraphDocument where
  connections : List ConnectionDocument
  addressRegions : List AddressRegion
  externalEndpointIds : List ℕ
  deriving DecidableEq

def regionOrder (region : AddressRegion) : ℕ ×ₗ ℕ ×ₗ ℕ ×ₗ ℕ ×ₗ ℕ :=
  toLex (region.componentId, toLex (region.portId, toLex (region.base,
    toLex (region.localOffset, region.size))))

def connectionDocument (edge : EdgeCandidate) : ConnectionDocument :=
  ⟨edge.sourceEndpointId, edge.targetEndpointId, edge.adapter,
    edge.fields.insertionSort fun a b => a.order ≤ b.order⟩

/-- The edges of a selection in the order of their signatures. -/
def sortedSelection (edges : List EdgeCandidate) : List EdgeCandidate :=
  edges.insertionSort fun a b => edgeSignature a ≤ edgeSignature b

def graphDocument (edges : List EdgeCandidate) (regions : List AddressRegion) (unresolved : List ℕ) :
    GraphDocument :=
  ⟨((sortedSelection edges).filter fun edge => edge.kind = .connection).map connectionDocument,
    regions.insertionSort fun a b => regionOrder a ≤ regionOrder b, unresolved.insertionSort (· ≤ ·)⟩

/-! ## Scores -/

inductive DomainKind where
  | clock
  | reset
  deriving DecidableEq

/-- A port of a component in a clock or reset domain. -/
structure Association where
  componentId : ℕ
  portId : ℕ
  kind : DomainKind
  domainId : ℕ
  deriving DecidableEq

/-- A record of the section of clock and reset checks. -/
structure ClockResetCheck where
  structurallyValidated : Bool
  association : Association

def unvalidatedClockResetAssociations (declared : List Association) (checks : List ClockResetCheck) : ℕ :=
  ((Sequence.firsts declared).filter fun association =>
    !checks.any fun check => check.structurallyValidated && check.association = association).length

/-- The addresses between the first and the last region that belong to none. -/
def addressWaste (regions : List AddressRegion) : ℤ :=
  match (regions.map AddressRegion.base).min?, (regions.map fun region => region.base + region.size).max? with
  | some lowest, some highest => highest - lowest - (regions.map AddressRegion.size).sum
  | _, _ => 0

def fieldCount (edges : List EdgeCandidate) : ℕ := (edges.map fun edge => edge.fields.length).sum

def evidenceCount (edges : List EdgeCandidate) : ℕ := (edges.map fun edge => edge.evidence.length).sum

/-- The numbers of the edges, in order. -/
def sortedIds (edges : List EdgeCandidate) : List ℕ :=
  (edges.insertionSort fun a b => a.id ≤ b.id).map EdgeCandidate.id

/-- **The score vector of a selection.** -/
def score (unvalidated : ℕ) (edges : List EdgeCandidate) (regions : List AddressRegion) : List ℤ :=
  [0, 0, 0, (unvalidated : ℤ), addressWaste regions, -(fieldCount edges : ℤ), -(evidenceCount edges : ℤ)] ++
    (sortedIds edges).map (Nat.cast : ℕ → ℤ)

/-! ## Candidates -/

structure CompositionCandidate where
  candidateId : String
  graphHash : String
  scoreVector : List ℤ
  edges : List EdgeCandidate
  addressRegions : List AddressRegion
  unresolvedOptionalEndpointIds : List ℕ

/-- The optional endpoints that a selection leaves out. -/
def unresolved (graph : ConstraintGraph) (selected : List EdgeCandidate) : List ℕ :=
  let connected := selected.flatMap fun edge => edge.sourceEndpointId :: edge.targetEndpointId.toList
  (graph.endpoints.filter fun endpoint => !endpoint.required && endpoint.id ∉ connected).map EndpointNode.id

/-- What all the candidates of one search share. -/
structure TopkInputs where
  digest : String → ℕ
  graphHash : GraphDocument → String
  graph : ConstraintGraph
  unvalidated : ℕ
  regions : List AddressRegion

namespace TopkInputs

variable (inputs : TopkInputs)

/-- The document of a selection. -/
def document (selected : List EdgeCandidate) : GraphDocument :=
  graphDocument selected inputs.regions (unresolved inputs.graph selected)

/-- The candidate of a selection. -/
def makeCandidate (selected : List EdgeCandidate) : CompositionCandidate :=
  let graphHash := inputs.graphHash (inputs.document selected)
  ⟨"candidate-" ++ String.ofList ((graphHash.toList.drop 7).take 16), graphHash,
    score inputs.unvalidated selected inputs.regions, selected, inputs.regions,
    unresolved inputs.graph selected⟩

end TopkInputs

/-! ## The heap -/

/-- The order of the heap: the score vector with every part negated, and then the hash. -/
def reverseScore (candidate : CompositionCandidate) : List ℤ ×ₗ String :=
  toLex (candidate.scoreVector.map Neg.neg, candidate.graphHash)

/-- Offer a candidate that is not excluded to the heap. -/
def retain (limit : ℕ) (excluded : List String) (heap : List CompositionCandidate)
    (candidate : CompositionCandidate) : List CompositionCandidate :=
  if candidate.graphHash ∈ excluded then heap
  else BestKept.offer CompositionCandidate.graphHash reverseScore CompositionCandidate.scoreVector limit
    heap candidate

/-! ## The search -/

/-- The state that a visit changes and puts back. -/
structure TopkState where
  heap : List CompositionCandidate
  chosen : List EdgeCandidate
  usedTargets : List ℕ

/-- Go on with an edge whose target is free, and take it back. -/
def tryEdge (next : TopkState → TopkState) (s : TopkState) (edge : EdgeCandidate) : TopkState :=
  match edge.targetEndpointId with
  | none => s
  | some target =>
    if target ∈ s.usedTargets then s
    else
      let s := next { s with
        chosen := s.chosen ++ [edge]
        usedTargets := target :: s.usedTargets }
      { s with usedTargets := s.usedTargets.erase target, chosen := s.chosen.dropLast }

namespace TopkInputs

variable (inputs : TopkInputs) (limit : ℕ) (excluded : List String)

/-- **Try every edge of the initiators that are left.** -/
def visit : List EndpointNode → TopkState → TopkState
  | [], s =>
    if ∀ target ∈ requiredTargets inputs.graph, target ∈ s.usedTargets then
      { s with heap := retain limit excluded s.heap (inputs.makeCandidate (sortedSelection s.chosen)) }
    else s
  | source :: rest, s =>
    let s := (edgesFrom inputs.digest inputs.graph source).foldl (tryEdge (visit rest)) s
    if source.required then s else visit rest s

/-- The candidates in the order they are yielded. -/
def search : List CompositionCandidate :=
  (inputs.visit limit excluded inputs.graph.initiators ⟨[], [], []⟩).heap.insertionSort
    fun a b => a.scoreVector ≤ b.scoreVector

end TopkInputs

/-- The parts of a local region. -/
def LocalRegion.content (region : LocalRegion) : (ℕ × ℕ × ℕ × ℕ × ℕ) × Option ℕ × Option ℕ :=
  ((region.componentId, region.portId, region.offset, region.size, region.alignment), region.fixedBase,
    region.regionId)

theorem LocalRegion.content_injective : Function.Injective LocalRegion.content := by
  intro a b h
  cases a
  cases b
  simp only [LocalRegion.content, Prod.mk.injEq] at h
  obtain ⟨⟨rfl, rfl, rfl, rfl, rfl⟩, rfl, rfl⟩ := h
  rfl

instance : DecidableEq LocalRegion := fun a b =>
  decidable_of_iff (a.content = b.content) LocalRegion.content_injective.eq_iff

/-- The inputs of a search over these allocated regions. -/
def topkInputs (digest : String → ℕ) (graphHash : GraphDocument → String) (graph : ConstraintGraph)
    (declared : List Association) (checks : List ClockResetCheck) (allocated : List AddressRegion) :
    TopkInputs :=
  ⟨digest, graphHash, graph, unvalidatedClockResetAssociations declared checks,
    allocated.map fun region => { region with provenance := .inferred }⟩

/-- **Yield at most `limit` legal candidates.** -/
def composeTopk (digest : String → ℕ) (graphHash : GraphDocument → String) (graph : ConstraintGraph)
    (declared : List Association) (checks : List ClockResetCheck) (localRegions : List LocalRegion)
    (limit : ℤ) (excluded : List String) : Except Exn (List CompositionCandidate) := do
  ensure (0 < limit) (.valueError "limit:positive-integer-required")
  if (rejectHardConflicts digest graph).isEmpty then
    match allocateRegions (Sequence.firsts localRegions) {} with
    | .error (.allocation _) => return []
    | .error (.malformed detail) => throw (.valueError detail)
    | .ok allocated =>
      return (topkInputs digest graphHash graph declared checks allocated).search limit.toNat excluded
  else return []

end Composition

end MyFuzz
