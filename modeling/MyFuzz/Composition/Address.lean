import MyFuzz.Foundations.Dict
import MyFuzz.Foundations.FirstFit
import MyFuzz.Foundations.Outcome

/-!
# Composition/Address — allocating the regions of an address map

Regions with a fixed base are placed first.  The others are placed one after another, each at a candidate
next to what is already placed, and a dead end is taken back:

    regions ──alignment, fixed base──▸ effective ──order──▸ fixed ++ mutable ──search──▸ bases

Both the number of visited positions and the number of candidates of a region are limited.
-/

namespace MyFuzz

namespace Composition

open FirstFit

/-! ## Regions and constraints -/

/-- A local window that asks for a place. -/
structure LocalRegion where
  componentId : ℕ
  portId : ℕ
  offset : ℕ
  size : ℕ
  alignment : ℕ
  fixedBase : Option ℕ
  regionId : Option ℕ
  componentId_pos : 0 < componentId
  portId_pos : 0 < portId
  size_pos : 0 < size
  alignment_pos : 0 < alignment

/-- Where an address came from. -/
inductive Provenance where
  | fixed
  | inferred
  deriving DecidableEq

/-- A placed region. -/
structure AddressRegion where
  componentId : ℕ
  portId : ℕ
  base : ℕ
  size : ℕ
  localOffset : ℕ
  provenance : Provenance
  deriving DecidableEq

/-- A key that a fixed base is declared under. -/
inductive FixedKey where
  | id (n : ℤ)
  | text (s : String)
  deriving DecidableEq

/-- What a caller asks of the address map. -/
structure AddressConstraints where
  addressWidth : ℤ := 64
  alignment : ℤ := 1
  declaredAlignments : List ℤ := []
  backtrackLimit : ℤ := 4096
  candidateLimit : ℤ := 128
  fixedBases : Dict FixedKey ℤ := Dict.empty

inductive ConflictKind where
  | alignment
  | addressWidth
  | overlap
  | unsatisfiable
  deriving DecidableEq

structure AddressConflict where
  kind : ConflictKind
  componentIds : List ℕ
  detail : String
  deriving DecidableEq

/-- A malformed request, or one that cannot be met. -/
inductive AddressError where
  | malformed (detail : String)
  | allocation (conflicts : List AddressConflict)
  deriving DecidableEq

/-- An identifier, width or limit has to be positive. -/
def positiveId (value : ℤ) (path : String) : Except AddressError ℕ :=
  if 0 < value then .ok value.toNat else .error (.malformed (path ++ ":invalid-id"))

def nonnegative (value : ℤ) (path : String) : Except AddressError ℕ :=
  if 0 ≤ value then .ok value.toNat else .error (.malformed (path ++ ":invalid"))

/-- A power of two, or an alignment that was declared. -/
def alignmentAllowed (alignment : ℕ) (declared : List ℕ) : Prop :=
  alignment &&& (alignment - 1) = 0 ∨ alignment ∈ declared

instance (alignment : ℕ) (declared : List ℕ) : Decidable (alignmentAllowed alignment declared) :=
  inferInstanceAs (Decidable (_ ∨ _))

/-! ## Effective regions -/

/-- The keys a region's base may be declared under. -/
def LocalRegion.fixedKeys (region : LocalRegion) : List FixedKey :=
  (match region.regionId with
    | some n => [.id n, .text (toString n)]
    | none => []) ++
  [.id region.componentId, .text (toString region.componentId), .id region.portId,
    .text (toString region.portId)]

/-- The base a region must have: its own, or the first that is declared under one of its keys. -/
def explicitBase (fixedBases : Dict FixedKey ℤ) (region : LocalRegion) : Except AddressError (Option ℕ) :=
  match region.fixedBase with
  | some base => .ok (some base)
  | none =>
    match region.fixedKeys.findSome? fixedBases.get? with
    | some base => (nonnegative base "fixed_bases.base").map some
    | none => .ok none

/-- The region with the stronger alignment and the base it must have. -/
def LocalRegion.effective (region : LocalRegion) (alignment : ℕ) (base : Option ℕ) : LocalRegion :=
  { region with
    alignment := max region.alignment alignment
    fixedBase := base
    alignment_pos := lt_max_of_lt_left region.alignment_pos }

/-- The conflict of a region whose alignment is neither a power of two nor declared. -/
def alignmentConflict (declared : List ℕ) (region : LocalRegion) : Option AddressConflict :=
  if alignmentAllowed region.alignment declared then none
  else some ⟨.alignment, [region.componentId],
    "alignment " ++ toString region.alignment ++ " is not power-of-two or declared"⟩

/-- The order of placement: fixed regions first, then by component, port, offset and index. -/
def placementKey (item : ℕ × LocalRegion) : ℕ ×ₗ ℕ ×ₗ ℕ ×ₗ ℕ ×ₗ ℕ :=
  toLex (if item.2.fixedBase = none then 1 else 0, toLex (item.2.componentId,
    toLex (item.2.portId, toLex (item.2.offset, item.1))))

def ordered (effective : List LocalRegion) : List (ℕ × LocalRegion) :=
  (effective.zipIdx.map Prod.swap).insertionSort fun a b => placementKey a ≤ placementKey b

/-! ## Fixed regions -/

/-- What is taken and which bases are assigned. -/
structure Placing where
  taken : List (Extent ℕ)
  assigned : Dict ℕ ℕ
  conflicts : List AddressConflict

/-- The conflicts of a region at its fixed base. -/
def fixedConflicts (effective : List LocalRegion) (addressLimit : ℕ) (taken : List (Extent ℕ))
    (region : LocalRegion) (base : ℕ) : List AddressConflict :=
  (if base % region.alignment ≠ 0 then
    [⟨.alignment, [region.componentId], "fixed base " ++ toString base ++ " is not aligned"⟩]
  else []) ++ (if addressLimit < base + region.size then
    [⟨.addressWidth, [region.componentId], "fixed region ends at " ++ toString (base + region.size) ++
      ", limit is " ++ toString addressLimit⟩]
  else []) ++ match overlap taken base region.size with
  | some o => [⟨.overlap, region.componentId :: (effective[o.owner]?.map (·.componentId)).toList,
      "fixed region overlaps region index " ++ toString o.owner⟩]
  | none => []

/-- Place one region if its base is fixed. -/
def placeFixed (effective : List LocalRegion) (addressLimit : ℕ) (p : Placing)
    (item : ℕ × LocalRegion) : Placing :=
  match item.2.fixedBase with
  | none => p
  | some base =>
    { taken := p.taken ++ [⟨base, base + item.2.size, item.1⟩]
      assigned := p.assigned.set item.1 base
      conflicts := p.conflicts ++ fixedConflicts effective addressLimit p.taken item.2 base }

/-! ## The search -/

/-- The places a candidate is looked for from. -/
def candidateStarts (region : LocalRegion) (taken : List (Extent ℕ)) (addressLimit : ℕ) : List ℕ :=
  let starts := 0 :: taken.flatMap fun o => [o.base, o.stop]
  ((starts.filter (· ≤ addressLimit)).map (alignUp · region.alignment)).eraseDups.insertionSort (· ≤ ·)

/-- Add the first clear place from a start on, while there are fewer candidates than the limit. -/
def addCandidate (region : LocalRegion) (taken : List (Extent ℕ)) (limit addressLimit : ℕ)
    (candidates : List ℕ) (start : ℕ) : List ℕ :=
  if candidates.length < limit then
    candidates ++ (firstFit taken region.size region.alignment addressLimit (taken.length + 1) start).toList
  else candidates

/-- The bases that are tried for a region. -/
def candidateBases (region : LocalRegion) (taken : List (Extent ℕ)) (limit addressLimit : ℕ) : List ℕ :=
  ((candidateStarts region taken addressLimit).foldl
    (addCandidate region taken limit addressLimit) []).eraseDups

/-- The limits of a search. -/
structure SearchLimits where
  maxNodes : ℕ
  candidates : ℕ
  address : ℕ

/-- The state of a search.  `cut` is no part of the code's: it records that a limit stopped it. -/
structure SearchState where
  nodes : ℕ
  assigned : Dict ℕ ℕ
  cut : Bool

/-- Try bases until one leads to the end. -/
def tryBases (next : ℕ → SearchState → Bool × SearchState) : List ℕ → SearchState → Bool × SearchState
  | [], s => (false, s)
  | base :: bases, s =>
    match next base s with
    | (true, s') => (true, s')
    | (false, s') => tryBases next bases s'

/-- Take a base back when nothing was found behind it. -/
def takeBack (index : ℕ) : Bool × SearchState → Bool × SearchState
  | (true, s) => (true, s)
  | (false, s) => (false, { s with assigned := s.assigned.erase index })

/-- A limit keeps candidates from being tried. -/
def truncated (limits : SearchLimits) (region : LocalRegion) (taken : List (Extent ℕ)) : Bool :=
  candidateBases region taken limits.candidates limits.address ≠
    candidateBases region taken (candidateStarts region taken limits.address).length limits.address

/-- **Place the remaining regions in order**, taking a base back when nothing fits behind it. -/
def search (limits : SearchLimits) :
    List (ℕ × LocalRegion) → List (Extent ℕ) → SearchState → Bool × SearchState
  | [], _, s =>
    if limits.maxNodes < s.nodes + 1 then (false, ⟨s.nodes + 1, s.assigned, true⟩)
    else (true, { s with nodes := s.nodes + 1 })
  | (index, region) :: rest, taken, s =>
    if limits.maxNodes < s.nodes + 1 then (false, ⟨s.nodes + 1, s.assigned, true⟩)
    else
      tryBases
        (fun base s => takeBack index (search limits rest
          (taken ++ [⟨base, base + region.size, index⟩]) { s with assigned := s.assigned.set index base }))
        (candidateBases region taken limits.candidates limits.address)
        ⟨s.nodes + 1, s.assigned, s.cut || truncated limits region taken⟩

/-! ## Allocation -/

/-- The checked constraints. -/
structure CheckedConstraints where
  width : ℕ
  alignment : ℕ
  declared : List ℕ
  maxNodes : ℕ
  candidateLimit : ℕ

def checkConstraints (c : AddressConstraints) : Except AddressError CheckedConstraints := do
  let width ← positiveId c.addressWidth "address_width"
  if 64 < width then throw (.malformed "address_width:unsupported")
  let alignment ← positiveId c.alignment "alignment"
  let declared ← c.declaredAlignments.mapM (positiveId · "declared_alignments")
  let maxNodes ← positiveId c.backtrackLimit "backtrack_limit"
  let candidateLimit ← positiveId c.candidateLimit "candidate_limit"
  return ⟨width, alignment, declared, maxNodes, candidateLimit⟩

/-- The region as it is reported. -/
def LocalRegion.placed (region : LocalRegion) (base : ℕ) : AddressRegion :=
  ⟨region.componentId, region.portId, base, region.size, region.offset,
    if region.fixedBase = none then .inferred else .fixed⟩

/-- The order of the result: component, port, base and local offset. -/
def resultKey (region : AddressRegion) : ℕ ×ₗ ℕ ×ₗ ℕ ×ₗ ℕ :=
  toLex (region.componentId, toLex (region.portId, toLex (region.base, region.localOffset)))

/-- The regions with their assigned bases. -/
def report (effective : List LocalRegion) (assigned : Dict ℕ ℕ) :
    Except AddressError (List AddressRegion) := do
  let result ← effective.zipIdx.mapM fun (region, index) =>
    match assigned.get? index with
    | some base => .ok (region.placed base)
    | none => .error (.malformed "KeyError")
  return result.insertionSort fun a b => resultKey a ≤ resultKey b

/-- The search behind the fixed regions. -/
def runSearch (checked : CheckedConstraints) (effective : List LocalRegion) (p : Placing) :
    Bool × SearchState :=
  search ⟨checked.maxNodes, checked.candidateLimit, 2 ^ checked.width⟩
    ((ordered effective).filter fun item => item.2.fixedBase = none) p.taken ⟨0, p.assigned, false⟩

/-- The fixed regions, placed. -/
def placeAllFixed (checked : CheckedConstraints) (effective : List LocalRegion) : Placing :=
  (ordered effective).foldl (placeFixed effective (2 ^ checked.width)) ⟨[], Dict.empty, []⟩

/-- The effective regions of a request. -/
def effectiveRegions (c : AddressConstraints) (checked : CheckedConstraints)
    (regions : List LocalRegion) : Except AddressError (List LocalRegion) := do
  let effective ← regions.mapM fun region => do
    let base ← explicitBase c.fixedBases region
    return region.effective checked.alignment base
  match effective.filterMap (alignmentConflict checked.declared) with
  | [] => return effective
  | conflicts => throw (.allocation conflicts)

/-- The conflict of a search that found nothing. -/
def unsatisfiable (effective : List LocalRegion) : AddressConflict :=
  ⟨.unsatisfiable, (((ordered effective).filter fun item => item.2.fixedBase = none).map
    fun item => item.2.componentId), "bounded search found no non-overlapping assignment"⟩

/-- **Allocate fixed and inferred regions.** -/
def allocateRegions (regions : List LocalRegion) (c : AddressConstraints) :
    Except AddressError (List AddressRegion) := do
  let checked ← checkConstraints c
  let effective ← effectiveRegions c checked regions
  let placing := placeAllFixed checked effective
  if placing.conflicts ≠ [] then throw (.allocation placing.conflicts)
  match runSearch checked effective placing with
  | (false, _) => throw (.allocation [unsatisfiable effective])
  | (true, s) => report effective s.assigned

end Composition

end MyFuzz
