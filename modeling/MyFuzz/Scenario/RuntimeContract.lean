import MyFuzz.Scenario.Dependency

/-!
# Scenario/RuntimeContract — declared routes of a graph

A contract names the nodes and the edges of a graph that exist at run time, and the DMA master
routes.
-/

namespace MyFuzz

open Outcome GenomeCodec

/-! ## Names -/

/-- White space that `str.strip` removes. -/
def isStripped (c : Char) : Bool :=
  let n := c.toNat
  (9 ≤ n && n ≤ 13) || (28 ≤ n && n ≤ 32) || n = 0x85 || n = 0xa0 || n = 0x1680 ||
    (0x2000 ≤ n && n ≤ 0x200a) || n = 0x2028 || n = 0x2029 || n = 0x202f || n = 0x205f || n = 0x3000

/-- A name: not empty, and without white space at its ends. -/
def IsName (s : String) : Prop :=
  s ≠ "" ∧ (∀ c ∈ s.toList.head?, isStripped c = false) ∧ ∀ c ∈ s.toList.getLast?, isStripped c = false

instance (s : String) : Decidable (IsName s) :=
  decidable_of_iff (s ≠ "" ∧ s.toList.head?.all (fun c => !isStripped c) = true ∧
    s.toList.getLast?.all (fun c => !isStripped c) = true) (by
      unfold IsName
      simp [Option.all_eq_true])

/-! ## Nodes -/

/-- The kinds of nodes. -/
inductive RuntimeNodeKind where
  | physical
  | logical
  | state
  deriving DecidableEq

/-- A node that exists at run time. -/
structure RuntimeNode where
  nodeId : String
  component : String
  kind : RuntimeNodeKind
  port : Option String
  bitOffset : ℤ
  width : Option ℤ
  deriving DecidableEq

/-! ## Edges -/

/-- What an edge stands for at run time. -/
inductive RuntimeRelation where
  | directBinding
  | mmioRoute
  | causalOrder
  | persistentState
  | dmaMasterRoute
  | irqDeliveryGroup
  deriving DecidableEq

/-- What an edge of the graph is at run time. -/
structure RuntimeEdgeContract where
  ruleIndex : ℤ
  prerequisiteIndex : ℤ
  relation : RuntimeRelation
  initiatorComponent : Option String
  deviceId : Option String
  base : Option ℤ
  size : Option ℤ
  resourceComponent : Option String
  resourceId : Option String
  irqGroupId : Option String
  irqGroupSha256 : Option String
  deriving DecidableEq

/-! ## DMA routes -/

/-- The values a device accepts: a list of them, or a range. -/
inductive AcceptedValues where
  | tuple (values : List ℤ)
  | range (start stop step : ℤ) (h : step ≠ 0)
  deriving DecidableEq

/-- What a DMA master reaches. -/
inductive DmaTargetKind where
  | peripheral
  | persistentMemory
  deriving DecidableEq

/-- What a DMA master does. -/
inductive DmaOperation where
  | read
  | write
  deriving DecidableEq

/-- An edge of the graph that a DMA master takes. -/
structure DmaMasterRouteContract where
  ruleIndex : ℤ
  prerequisiteIndex : ℤ
  sourceNodeId : String
  targetNodeId : String
  initiatorComponent : String
  endpointId : String
  endpointIdentitySha256 : String
  targetKind : DmaTargetKind
  targetComponent : String
  targetId : String
  base : ℤ
  size : ℤ
  operation : DmaOperation
  permissions : List DmaOperation
  byteEnable : ℤ
  readableOffsets : List ℤ
  writableOffsets : List ℤ
  acceptedWriteValues : AcceptedValues
  targetIdentitySha256 : String
  deriving DecidableEq

/-! ## Contracts -/

/-- The declared routes of the graph with a digest. -/
structure RuntimePathContract where
  graphSha256 : String
  nodes : List RuntimeNode
  edges : List RuntimeEdgeContract
  dmaMasterRoutes : List DmaMasterRouteContract
  deriving DecidableEq

end MyFuzz
