import Mathlib.Data.String.Basic
import MyFuzz.Foundations.Sequence
import MyFuzz.Scenario.GenomeCodec

/-!
# Scenario/Dependency — from a target back to fuzzable sources

A rule asks for all of its prerequisites; the rules of one target are alternatives.  A path selects
one rule for each node it visits and ends in fuzzable sources:

    target ◂──rule── { p₁, p₂ }     p₁ ◂──rule── { source }     p₂ a source

`pathsTo` lists the sets of sources that reach a target, `edgePathsTo` the proofs with their edges,
and `pathIdentity` checks one given proof and names it.
-/

namespace MyFuzz

open Outcome GenomeCodec

/-! ## Sources and rules -/

/-- The kinds of mutable sources. -/
inductive SourceKind where
  | source
  | memoryImage
  deriving DecidableEq

/-- A kind as the source spells it. -/
def SourceKind.text : SourceKind → String
  | source => "source"
  | memoryImage => "memory_image"

/-- The kind a text spells. -/
def SourceKind.ofText? (s : String) : Option SourceKind :=
  [source, memoryImage].find? fun k => k.text = s

/-- A node whose bits may be mutated. -/
structure FuzzableSource where
  sourceId : String
  component : String
  port : String
  bitOffset : ℤ
  width : ℤ
  directions : List Direction
  kind : SourceKind
  imageAddress : Option ℤ
  deriving DecidableEq

/-- The checks of a source. -/
def FuzzableSource.validate (s : FuzzableSource) : Except Exn Unit := do
  match s.kind with
  | .memoryImage =>
      ensure (∀ address ∈ s.imageAddress, 0 ≤ address) (.valueError "memory image source address is invalid")
  | .source =>
      ensure (s.imageAddress = none) (.valueError "physical input source cannot name an image address")
  ensure (s.sourceId ≠ "" ∧ s.component ≠ "" ∧ s.port ≠ "") (.valueError "source identity is required")
  ensure (0 ≤ s.bitOffset ∧ 1 ≤ s.width) (.valueError "source bit range is invalid")
  ensure (s.directions ≠ []) (.valueError "source direction is invalid")

/-- The source is accepted by its constructor. -/
def FuzzableSource.Valid (s : FuzzableSource) : Prop := s.validate = .ok ()

instance (s : FuzzableSource) : Decidable s.Valid := inferInstanceAs (Decidable (_ = _))

/-- What a rule stands for. -/
inductive RuleKind where
  | dataBinding
  | eventOrder
  | envPrecondition
  | persistentStateRule
  | baselineGrouping
  | dmaMasterTransfer
  deriving DecidableEq

namespace RuleKind

/-- Every rule kind. -/
def all : List RuleKind :=
  [dataBinding, eventOrder, envPrecondition, persistentStateRule, baselineGrouping, dmaMasterTransfer]

/-- A rule kind as the source spells it. -/
def text : RuleKind → String
  | dataBinding => "DATA_BINDING"
  | eventOrder => "EVENT_ORDER"
  | envPrecondition => "ENV_PRECONDITION"
  | persistentStateRule => "PERSISTENT_STATE_RULE"
  | baselineGrouping => "BASELINE_GROUPING"
  | dmaMasterTransfer => "DMA_MASTER_TRANSFER"

/-- The rule kind a text spells. -/
def ofText? (s : String) : Option RuleKind := all.find? fun k => k.text = s

end RuleKind

/-- A target and what it takes, all of it. -/
structure DependencyRule where
  target : String
  prerequisites : List String
  kind : RuleKind
  deriving DecidableEq

/-- The checks of a rule. -/
def DependencyRule.validate (r : DependencyRule) : Except Exn Unit :=
  ensure (r.target ≠ "" ∧ r.prerequisites ≠ [] ∧ ∀ item ∈ r.prerequisites, item ≠ "")
    (.valueError "dependency rule needs a target and prerequisites")

/-- The rule is accepted by its constructor. -/
def DependencyRule.Valid (r : DependencyRule) : Prop := r.validate = .ok ()

instance (r : DependencyRule) : Decidable r.Valid := inferInstanceAs (Decidable (_ = _))

/-- One prerequisite of a rule of a graph. -/
structure DependencyEdge where
  ruleIndex : ℕ
  prerequisiteIndex : ℕ
  prerequisite : String
  target : String
  kind : RuleKind
  deriving DecidableEq

/-- The edge of a prerequisite of the rule at an index. -/
def DependencyRule.edge (r : DependencyRule) (index : ℕ) (child : String × ℕ) : DependencyEdge :=
  ⟨index, child.2, child.1, r.target, r.kind⟩

/-- The edges of the rule at an index. -/
def DependencyRule.edges (r : DependencyRule) (index : ℕ) : List DependencyEdge :=
  r.prerequisites.zipIdx.map (r.edge index)

/-- A target, the sources that reach it, and the edges of the proof when they are kept. -/
structure DependencyPath where
  target : String
  sourceIds : List String
  edges : List DependencyEdge
  deriving DecidableEq

/-- A set of names as a sorted tuple. -/
def sortedNames (names : List String) : List String := names.dedup.insertionSort (· ≤ ·)

/-- The order of edges. -/
def DependencyEdge.le (a b : DependencyEdge) : Prop :=
  a.ruleIndex < b.ruleIndex ∨ (a.ruleIndex = b.ruleIndex ∧ a.prerequisiteIndex ≤ b.prerequisiteIndex)

instance (a b : DependencyEdge) : Decidable (a.le b) := inferInstanceAs (Decidable (_ ∨ _))

/-- A set of edges as a tuple sorted by their indices. -/
def sortedEdges (edges : List DependencyEdge) : List DependencyEdge :=
  edges.dedup.insertionSort DependencyEdge.le

/-! ## Graphs -/

/-- Rules in order, and sources under their ids. -/
structure DependencyGraph where
  sources : Dict String FuzzableSource
  orderedRules : List DependencyRule
  sourceId_eq : ∀ id s, sources.get? id = some s → s.sourceId = id
  sources_valid : ∀ id s, sources.get? id = some s → s.Valid
  rules_valid : ∀ r ∈ orderedRules, r.Valid

/-- The source ids are distinct, and every record passed its constructor. -/
def DependencyGraph.Inputs (sources : List FuzzableSource) (rules : List DependencyRule) : Prop :=
  (sources.map FuzzableSource.sourceId).Nodup ∧ (∀ s ∈ sources, s.Valid) ∧ ∀ r ∈ rules, r.Valid

instance (sources : List FuzzableSource) (rules : List DependencyRule) :
    Decidable (DependencyGraph.Inputs sources rules) := inferInstanceAs (Decidable (_ ∧ _ ∧ _))

/-- The sources under their ids. -/
def sourceEntries (sources : List FuzzableSource) : List (String × FuzzableSource) :=
  sources.map fun s => (s.sourceId, s)

namespace DependencyGraph

/-- A graph of records that passed their constructors. -/
def ofInputs (sources : List FuzzableSource) (rules : List DependencyRule) (h : Inputs sources rules) :
    DependencyGraph where
  sources := ⟨sourceEntries sources, by
    rw [sourceEntries, List.map_map]
    exact h.1⟩
  orderedRules := rules
  sourceId_eq id s hs := by
    obtain ⟨s', -, heq⟩ := List.mem_map.mp (Dict.mem_of_lookup_eq_some hs)
    cases heq
    rfl
  sources_valid id s hs := by
    obtain ⟨s', hs', heq⟩ := List.mem_map.mp (Dict.mem_of_lookup_eq_some hs)
    obtain ⟨rfl, rfl⟩ := Prod.mk.inj heq
    exact h.2.1 s' hs'
  rules_valid := h.2.2

/-- `DependencyGraph(sources=…, rules=…)`. -/
def new (sources : List FuzzableSource) (rules : List DependencyRule) : Except Exn DependencyGraph :=
  if h : Inputs sources rules then .ok (ofInputs sources rules h)
  else if (sources.map FuzzableSource.sourceId).Nodup then
    .error (.valueError "invalid source or dependency rule")
  else .error (.valueError "duplicate source id")

variable (g : DependencyGraph)

/-- The rules of a target, in order. -/
def rules (node : String) : List DependencyRule := g.orderedRules.filter fun r => r.target = node

/-- The rules of a target with their indices. -/
def indexedRules (node : String) : List (DependencyRule × ℕ) :=
  g.orderedRules.zipIdx.filter fun p => p.1.target = node

/-- Whether a node is a source. -/
def IsSource (node : String) : Prop := (g.sources.get? node).isSome = true

instance (node : String) : Decidable (g.IsSource node) := inferInstanceAs (Decidable (_ = _))

/-! ## The document of a graph -/

/-- The address of an image source, if the graph names addresses. -/
def addressTree : Option ℤ → Tree
  | none => .scalar .null
  | some address => int address

/-- The document of a source. -/
def sourceEntriesTree (bound : Bool) (s : FuzzableSource) : List (String × Tree) :=
  [("source_id", .str s.sourceId), ("component", .str s.component), ("port", .str s.port),
   ("bit_offset", int s.bitOffset), ("width", int s.width),
   ("directions", .list (s.directions.map fun d => .str d.text)), ("kind", .str s.kind.text)] ++
  if bound then [("image_address", addressTree s.imageAddress)] else []

/-- The document of a rule. -/
def ruleEntries (r : DependencyRule × ℕ) : List (String × Tree) :=
  [("rule_index", int r.2), ("target", .str r.1.target),
   ("prerequisites", .list (r.1.prerequisites.map .str)), ("kind", .str r.1.kind.text)]

/-- The document of an edge. -/
def edgeEntries (e : DependencyEdge) : List (String × Tree) :=
  [("rule_index", int e.ruleIndex), ("prerequisite_index", int e.prerequisiteIndex),
   ("prerequisite", .str e.prerequisite), ("target", .str e.target), ("kind", .str e.kind.text)]

/-- Whether some source names an address. -/
def addressBound : Bool := g.sources.entries.any fun p => p.2.imageAddress.isSome

/-- Every edge of the graph. -/
def allEdges : List DependencyEdge := g.orderedRules.zipIdx.flatMap fun r => r.1.edges r.2

/-- The entries of the document. -/
def documentEntries : List (String × Tree) :=
  [("schema_version", .str (if g.addressBound then "dependency_edge_graph.v2"
      else "dependency_edge_graph.v1")),
   ("sources", .list (g.sources.entries.map fun p => .dict (sourceEntriesTree g.addressBound p.2))),
   ("rules", .list (g.orderedRules.zipIdx.map fun r => .dict (ruleEntries r))),
   ("edges", .list (g.allEdges.map fun e => .dict (edgeEntries e)))]

/-- The construction identity of the graph; the directions of a source must not repeat. -/
def edgeDocument : Except Exn Tree := do
  ensure (∀ p ∈ g.sources.entries, p.2.directions.Nodup) (.valueError "invalid edge graph source identity")
  pure (.dict g.documentEntries)

/-! ## Sets of sources -/

/-- One member of each list, the last list varying fastest. -/
def product {α : Type} : List (List α) → List (List α)
  | [] => [[]]
  | choices :: rest => choices.flatMap fun a => (product rest).map (a :: ·)

/-- Add the combinations of a rule until there are enough; a rule that has any adds one. -/
def addRule (limit : ℕ) (alternatives : List (List String)) (choices : List (List (List String))) :
    List (List String) :=
  if [] ∈ choices then alternatives
  else alternatives ++
    ((product choices).take (max 1 (limit - alternatives.length))).map fun c => sortedNames c.flatten

/-- The sets of sources that reach a node, through at most `left` rules. -/
def expand (direction : Direction) (limit : ℕ) : ℕ → String → List String → List (List String)
  | left, node, seen =>
      match g.sources.get? node with
      | some source => if direction ∈ source.directions then [[node]] else []
      | none =>
          if node ∈ seen then []
          else
            match left with
            | 0 => []
            | left + 1 => (g.rules node).foldl (fun alternatives rule => addRule limit alternatives
                (rule.prerequisites.map fun child => expand direction limit left child (node :: seen))) []

/-- Shorter sets first. -/
def setLe (a b : List String) : Prop := a.length < b.length ∨ (a.length = b.length ∧ a ≤ b)

instance (a b : List String) : Decidable (setLe a b) := inferInstanceAs (Decidable (_ ∨ _))

/-- The sets of sources that reach a target. -/
def pathsTo (target : String) (direction : Direction) (maxDepth maxPaths : ℤ) :
    Except Exn (List DependencyPath) := do
  ensure (target ≠ "" ∧ 1 ≤ maxDepth ∧ 1 ≤ maxPaths) (.valueError "invalid dependency path request")
  let sets := (expand g direction (maxPaths.toNat * 4) maxDepth.toNat target []).dedup.insertionSort
    setLe
  pure ((sets.take maxPaths.toNat).map fun set => ⟨target, set, []⟩)

/-! ## Proofs with their edges -/

/-- What an enumeration may spend. -/
def edgeWorkLimit : ℤ := 1000000

/-- Spend, as long as something remains. -/
def spend (remaining : ℤ) (amount : ℕ) : Except Exn ℤ :=
  if remaining - amount < 0 then .error (.valueError "dependency edge path work limit exceeded")
  else .ok (remaining - amount)

/-- The rules that lead to a node that is no source. -/
def expandable : List (DependencyRule × ℕ) :=
  g.orderedRules.zipIdx.filter fun p => ¬ g.IsSource p.1.target

/-- The rules that ask for a node, once for each time they do. -/
def reverse (node : String) : List (DependencyRule × ℕ) :=
  g.expandable.flatMap fun p => (p.1.prerequisites.filter (· = node)).map fun _ => p

/-- Nodes that can be reached in a direction: those found, those still to look at, and how many
prerequisites each rule waits for. -/
structure Viability where
  viable : List String
  queue : List String
  pending : ℕ → ℤ
  cost : ℕ

/-- A prerequisite of a rule is reached. -/
def satisfy (v : Viability) (p : DependencyRule × ℕ) : Viability :=
  let pending := Function.update v.pending p.2 (v.pending p.2 - 1)
  let v := { v with pending := pending, cost := v.cost + 1 }
  if pending p.2 = 0 ∧ p.1.target ∉ v.viable then
    { v with viable := v.viable ++ [p.1.target], queue := v.queue ++ [p.1.target] }
  else v

/-- Look at the nodes that are reached; at most as many as there are sources and rules. -/
def propagate : ℕ → Viability → Viability
  | 0, v => v
  | fuel + 1, v =>
      match v.queue with
      | [] => v
      | node :: queue => propagate fuel
          ((g.reverse node).foldl satisfy { v with queue := queue, cost := v.cost + 1 })

/-- The sources of a direction. -/
def directed (direction : Direction) : List String :=
  (g.sources.entries.filter fun p => direction ∈ p.2.directions).map Prod.fst

/-- Nothing is reached but the sources of a direction. -/
def seeds (direction : Direction) : Viability where
  viable := g.directed direction
  queue := g.directed direction
  pending index := ((g.orderedRules[index]?).map fun r => r.prerequisites.length).getD 0
  cost := 0

/-- The nodes that can be reached in a direction. -/
def viability (direction : Direction) : Viability :=
  propagate g (g.sources.length + g.orderedRules.length) (seeds g direction)

/-- A proof that was found: its sources, its edges and the rules it selects. -/
structure Found where
  sources : List String
  edges : List DependencyEdge
  choices : Dict String ℕ

/-- What the lazy enumeration does next: spend one unit, or hand over a proof. -/
inductive Step where
  | spend
  | found (p : Found)

/-- Prove the remaining prerequisites of a rule, one after the other. -/
def walkRest (walk : String → Dict String ℕ → List Step) (rule : DependencyRule) (index : ℕ) :
    List (String × ℕ) → List String → List DependencyEdge → Dict String ℕ → List Step
  | [], sources, edges, choices => [.found ⟨sources, edges, choices⟩]
  | child :: rest, sources, edges, choices =>
      .spend :: (walk child.1 choices).flatMap fun step =>
        match step with
        | .spend => [.spend]
        | .found p => walkRest walk rule index rest (sources ∪ p.sources)
            (edges ∪ p.edges ∪ [rule.edge index child]) p.choices ++ [.spend]

/-- The rule is not the one selected for the node before. -/
def Excluded (choices : Dict String ℕ) (node : String) (index : ℕ) : Prop :=
  ∃ chosen ∈ choices.get? node, chosen ≠ index

instance (choices : Dict String ℕ) (node : String) (index : ℕ) : Decidable (Excluded choices node index) := by
  unfold Excluded
  cases choices.get? node <;> simp only [Option.mem_def, reduceCtorEq, false_and, exists_false,
    Option.some.injEq, exists_eq_left'] <;> infer_instance

/-- Every proof of a node, through at most `left` rules. -/
def walk (viable : List String) : ℕ → String → List String → Dict String ℕ → List Step
  | left, node, seen, choices =>
      .spend :: if node ∉ viable then []
        else if g.IsSource node then [.found ⟨[node], [], choices⟩]
        else if node ∈ seen then []
        else
          match left with
          | 0 => []
          | left + 1 => (g.indexedRules node).flatMap fun p =>
              .spend :: if Excluded choices node p.2 ∨ ∃ child ∈ p.1.prerequisites, child ∉ viable then []
                else walkRest (fun child choices => walk viable left child (node :: seen) choices) p.1
                  p.2 p.1.prerequisites.zipIdx [] [] (choices.set node p.2)

/-- The path of a proof. -/
def foundPath (target : String) (p : Found) : DependencyPath :=
  ⟨target, sortedNames p.sources, sortedEdges p.edges⟩

/-- Follow the enumeration until there are enough paths or nothing remains to spend. -/
def collect (target : String) (maxPaths : ℕ) :
    List Step → ℤ → List DependencyPath → Except Exn (List DependencyPath)
  | [], _, paths => .ok paths
  | .spend :: steps, remaining, paths => do
      let remaining ← spend remaining 1
      collect target maxPaths steps remaining paths
  | .found p :: steps, remaining, paths =>
      let path := foundPath target p
      if path ∈ paths then collect target maxPaths steps remaining paths
      else if (paths ++ [path]).length = maxPaths then .ok (paths ++ [path])
      else collect target maxPaths steps remaining (paths ++ [path])

/-- The bounded proofs of a target, each with one rule for every node. -/
def edgePathsTo (target : String) (direction : Direction) (maxDepth maxPaths : ℤ) :
    Except Exn (List DependencyPath) := do
  ensure (target ≠ "" ∧ 1 ≤ maxDepth ∧ maxDepth ≤ 128 ∧ 1 ≤ maxPaths ∧ maxPaths ≤ 4096)
    (.valueError "invalid dependency edge path request")
  let remaining := min edgeWorkLimit (max 4096 (maxPaths * maxDepth * 128))
  let remaining ← spend remaining
    (g.sources.length + (g.orderedRules.map fun r => 1 + r.prerequisites.length).sum)
  let _ ← g.edgeDocument
  let remaining ← spend remaining
    (g.orderedRules.length + (g.expandable.map fun p => p.1.prerequisites.length).sum)
  let v := g.viability direction
  let remaining ← spend remaining v.cost
  collect target maxPaths.toNat (g.walk v.viable maxDepth.toNat target [] .empty) remaining []

/-! ## Checking one proof -/

/-- The rules a path selects, and its edges under their indices. -/
structure Selected where
  rules : Dict String ℕ
  edges : Dict (ℕ × ℕ) DependencyEdge

/-- Take over an edge that is one of the graph and agrees with the selection. -/
def selectEdge (s : Selected) (e : DependencyEdge) : Except Exn Selected := do
  match g.orderedRules[e.ruleIndex]? with
  | none => .error (.valueError "dependency edge rule not in graph")
  | some rule => do
      ensure (e ∈ rule.edges e.ruleIndex) (.valueError "dependency edge differs from graph")
      let previous := s.rules.getD e.target e.ruleIndex
      ensure (previous = e.ruleIndex) (.valueError "dependency path has inconsistent OR selections")
      pure ⟨s.rules.set e.target previous, s.edges.set (e.ruleIndex, e.prerequisiteIndex) e⟩

/-- A depth-first search from the target. -/
structure Search where
  stack : List (String × Bool)
  visited : List String
  active : List String
  used : List DependencyEdge
  leaves : List String

/-- The edge of a prerequisite that the path must have. -/
def requiredEdge (s : Selected) (index : ℕ) (child : String × ℕ) : Except Exn DependencyEdge :=
  match s.edges.get? (index, child.2) with
  | none => .error (.valueError "dependency path omits AND prerequisite edge")
  | some e => .ok e

/-- Enter a node that was not seen before. -/
def enter (direction : Direction) (s : Selected) (t : Search) (node : String) : Except Exn Search :=
  match g.sources.get? node with
  | some source => do
      ensure (direction ∈ source.directions) (.valueError "dependency source direction differs")
      pure { t with leaves := t.leaves ++ [node], visited := t.visited ++ [node] }
  | none =>
      match s.rules.get? node with
      | none => .error (.valueError "dependency path has unresolved prerequisite")
      | some index => do
          let children := ((g.orderedRules[index]?).map DependencyRule.prerequisites).getD []
          let edges ← children.zipIdx.mapM (requiredEdge s index)
          pure { t with
            active := node :: t.active
            stack := children.map (fun child => (child, false)) ++ (node, true) :: t.stack
            used := t.used ++ edges }

/-- Look at the top of the stack, which is taken off. -/
def visit (direction : Direction) (s : Selected) (t : Search) : String × Bool → Except Exn Search
  | (node, true) => .ok { t with active := t.active.erase node, visited := t.visited ++ [node] }
  | (node, false) =>
      if node ∈ t.active then .error (.valueError "dependency selected path contains cycle")
      else if node ∈ t.visited then .ok t
      else enter g direction s t node

/-- Search until the stack is empty; the work of a search is bounded by the selection. -/
def search (direction : Direction) (s : Selected) : ℕ → Search → Except Exn Search
  | fuel, t =>
      match t.stack with
      | [] => .ok t
      | top :: stack =>
          match fuel with
          | 0 => .error (.other "search bound")
          | fuel + 1 => do
              let t ← visit g direction s { t with stack := stack } top
              search direction s fuel t

/-- How often a search looks at the stack at most. -/
def searchBound : ℕ := 1 + (g.orderedRules.map fun r => 1 + r.prerequisites.length).sum

/-- The checks of a proof. -/
def checkPath (path : DependencyPath) (direction : Direction) : Except Exn Unit := do
  ensure (path.target ≠ "" ∧ path.sourceIds ≠ [] ∧ (∀ source ∈ path.sourceIds, source ≠ "") ∧
      path.sourceIds = sortedNames path.sourceIds) (.valueError "invalid dependency edge path identity")
  ensure (path.edges = sortedEdges path.edges) (.valueError "dependency edge path is not canonical")
  let s ← path.edges.foldlM (selectEdge g) ⟨.empty, .empty⟩
  let t ← search g direction s g.searchBound ⟨[(path.target, false)], [], [], [], []⟩
  ensure (((∀ e ∈ t.used, e ∈ path.edges) ∧ ∀ e ∈ path.edges, e ∈ t.used) ∧
      sortedNames t.leaves = path.sourceIds)
    (.valueError "dependency path has disconnected edge or incorrect sources")

end DependencyGraph

/-- SHA-256, as text. -/
structure Sha256 where
  hexdigest : List UInt8 → String
  length_hexdigest : ∀ bytes, (hexdigest bytes).length = 64

/-- What the identity of a path is the digest of. -/
def identityEntries (graphDocument : Tree) (path : DependencyPath) (direction : Direction) :
    List (String × Tree) :=
  [("schema_version", .str "dependency_edge_path_identity.v1"), ("graph", graphDocument),
   ("target", .str path.target), ("direction", .str direction.text),
   ("source_ids", .list (path.sourceIds.map .str)),
   ("edges", .list (path.edges.map fun e => .dict (DependencyGraph.edgeEntries e)))]

/-- Check a proof, for the document that names it. -/
def DependencyGraph.authenticate (g : DependencyGraph) (path : DependencyPath)
    (direction : Direction) : Except Exn Tree := do
  let graphDocument ← g.edgeDocument
  g.checkPath path direction
  pure (.dict (identityEntries graphDocument path direction))

/-- Check a proof and name it. -/
def DependencyGraph.pathIdentity (codec : JsonCodec JsonScalar) (sha : Sha256) (g : DependencyGraph)
    (path : DependencyPath) (direction : Direction) : Except Exn String := do
  let document ← g.authenticate path direction
  pure (sha.hexdigest (codec.dumps document))

end MyFuzz
