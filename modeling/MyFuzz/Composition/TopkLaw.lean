import MyFuzz.Composition.TopkSelections

/-!
# Composition/TopkLaw — when the search yields the best compositions

The heap throws its first candidate out, so that one has to have the worst score.  It does not when the score
of one selection begins the score of another: negating the parts of both leaves their order as it was.

    score p = [0, 0, 0, …, 3]   score x = [0, 0, 0, …, 3, 7]        p better, and still before x

The search is exact if and only if no such pair is visited before a selection that is better than `x`.
-/

namespace MyFuzz

namespace Composition

open BestKept Outcome CompositionCandidate List

/-! ## Scores that begin other scores -/

/-- **A selection whose score begins the score of another.**  The edges that the other one has beyond it have
greater numbers, and add neither fields nor evidence. -/
def Shadows (p x : List EdgeCandidate) : Prop :=
  fieldCount p = fieldCount x ∧ evidenceCount p = evidenceCount x ∧ sortedIds p <+: sortedIds x ∧
    sortedIds p ≠ sortedIds x

variable {p x : List EdgeCandidate}

theorem shadows_iff {unvalidated : ℕ} {regions : List AddressRegion} :
    Shadows p x ↔ score unvalidated p regions <+: score unvalidated x regions ∧
      score unvalidated p regions ≠ score unvalidated x regions := by
  have hcast : Function.Injective (List.map (Nat.cast : ℕ → ℤ)) :=
    map_injective_iff.2 Nat.cast_injective
  have hinit : (sortedIds p).map (Nat.cast : ℕ → ℤ) <+: (sortedIds x).map (Nat.cast : ℕ → ℤ) ↔
      sortedIds p <+: sortedIds x := prefix_map_iff_of_injective Nat.cast_injective
  simp only [Shadows, score, cons_append, nil_append, cons_prefix_cons, true_and, hinit,
    ne_eq, List.cons.injEq, neg_inj, Nat.cast_inj, hcast.eq_iff]
  tauto

namespace TopkInputs

variable (inputs : TopkInputs)

/-- The legal selections of the inputs in the order they are visited. -/
def visited : List (List EdgeCandidate) := selections inputs.digest inputs.graph

/-- **No selection is better than one that was visited with a selection that shadows it.** -/
def Unshadowed : Prop :=
  ∀ x p c, (List.Sublist [x, p, c] inputs.visited ∨ List.Sublist [p, x, c] inputs.visited) → Shadows p x →
    score inputs.unvalidated x inputs.regions ≤ score inputs.unvalidated c inputs.regions

/-- The candidate of a legal selection that is not excluded. -/
def Eligible (excluded : List String) (candidate : CompositionCandidate) : Prop :=
  candidate.graphHash ∉ excluded ∧
    ∃ selected, Legal inputs.digest inputs.graph selected ∧ candidate = inputs.makeCandidate selected

/-- The hash tells the documents of legal selections apart. -/
def HashInjective : Prop :=
  ∀ a b, Legal inputs.digest inputs.graph a → Legal inputs.digest inputs.graph b →
    inputs.graphHash (inputs.document a) = inputs.graphHash (inputs.document b) →
    inputs.document a = inputs.document b

/-- The candidates that are offered to the heap. -/
def offered (excluded : List String) : List CompositionCandidate :=
  (inputs.visited.map inputs.makeCandidate).filter fun candidate => candidate.graphHash ∉ excluded

variable {inputs} {limit : ℕ} {excluded : List String}

/-- **The search keeps the best of what it offers.** -/
theorem search_eq : inputs.search limit excluded =
    best CompositionCandidate.graphHash reverseScore CompositionCandidate.scoreVector limit
      (inputs.offered excluded) := by
  have hretain : retain limit excluded = fun heap candidate =>
      if (decide (candidate.graphHash ∉ excluded)) = true then
        offer CompositionCandidate.graphHash reverseScore CompositionCandidate.scoreVector limit heap
          candidate
      else heap := by
    funext heap candidate
    unfold retain
    by_cases h : candidate.graphHash ∈ excluded
    · rw [if_pos h, if_neg (by simpa using h)]
    · rw [if_neg h, if_pos (by simpa using h)]
  unfold search best offerAll offered visited selections
  rw [visit_eq, foldl_filter, ← hretain, foldl_map, foldl_map]
  rfl

theorem mem_offered {candidate : CompositionCandidate} :
    candidate ∈ inputs.offered excluded ↔ inputs.Eligible excluded candidate := by
  rw [offered, mem_filter, decide_eq_true_eq, and_comm]
  refine and_congr_right fun _ => ?_
  rw [mem_map]
  constructor
  · rintro ⟨selected, hin, rfl⟩
    exact ⟨selected, mem_selections.1 hin, rfl⟩
  · rintro ⟨selected, hlegal, rfl⟩
    exact ⟨selected, mem_selections.2 hlegal, rfl⟩

/-- A candidate is known by its hash. -/
theorem HashInjective.eq (hinj : inputs.HashInjective) {a b : List EdgeCandidate}
    (ha : a ∈ inputs.visited) (hb : b ∈ inputs.visited)
    (h : (inputs.makeCandidate a).graphHash = (inputs.makeCandidate b).graphHash) : a = b := by
  have ha := mem_selections.1 ha
  have hb := mem_selections.1 hb
  exact ha.eq_of_document hb (hinj a b ha hb h)

theorem hashInjective_of_nodup
    (h : (inputs.visited.map fun selected => (inputs.makeCandidate selected).graphHash).Nodup) :
    inputs.HashInjective := by
  intro a b ha hb heq
  rw [inj_on_of_nodup_map h (mem_selections.2 ha) (mem_selections.2 hb) heq]

/-- One candidate hides another exactly when its selection shadows the other. -/
theorem hides_makeCandidate :
    Hides reverseScore scoreVector (inputs.makeCandidate p) (inputs.makeCandidate x) ↔
      Shadows p x :=
  (hides_iff (f := Neg.neg) fun _ _ h => neg_lt_neg h).trans shadows_iff.symm

/-- A search without shadows is not misled. -/
theorem Unshadowed.not_misleads (h : inputs.Unshadowed) :
    ¬ Misleads reverseScore scoreVector (inputs.offered excluded) := by
  rintro ⟨x, p, c, hsublist, hhides, hbetter⟩
  have htriple : ∀ {u v w : CompositionCandidate}, List.Sublist [u, v, w] (inputs.offered excluded) →
      ∃ a b d, List.Sublist [a, b, d] inputs.visited ∧ u = inputs.makeCandidate a ∧
        v = inputs.makeCandidate b ∧ w = inputs.makeCandidate d := by
    intro u v w hsub
    obtain ⟨l, hl, heq⟩ := sublist_map_iff.1 (hsub.trans filter_sublist)
    have hlength := congrArg List.length heq
    rw [length_map] at hlength
    obtain ⟨a, b, d, rfl⟩ := length_eq_three.1 hlength.symm
    simp only [map_cons, map_nil, List.cons.injEq, and_true] at heq
    exact ⟨a, b, d, hl, heq⟩
  rcases hsublist with hsub | hsub
  · obtain ⟨x, p, c, hl, rfl, rfl, rfl⟩ := htriple hsub
    exact absurd hbetter (not_lt.2 (h x p c (.inl hl) (hides_makeCandidate.1 hhides)))
  · obtain ⟨p, x, c, hl, rfl, rfl, rfl⟩ := htriple hsub
    exact absurd hbetter (not_lt.2 (h x p c (.inr hl) (hides_makeCandidate.1 hhides)))

/-- **Without shadows the search yields the best candidates.** -/
theorem search_isBest (hinj : inputs.HashInjective) (h : inputs.Unshadowed) (hlimit : 0 < limit) :
    IsBest CompositionCandidate.scoreVector (inputs.Eligible excluded) limit
      (inputs.search limit excluded) := by
  rw [search_eq]
  refine (kept_offerAll hlimit (fun b c heq => ?_) (fun a ha b hb heq => ?_)
    h.not_misleads).isBest.congr fun _ => mem_offered
  · have hparts := congrArg Prod.fst (congrArg ofLex heq)
    exact (map_injective_iff.2 neg_injective) hparts
  · obtain ⟨selected, hin, rfl⟩ := mem_map.1 (mem_filter.1 ha).1
    obtain ⟨other, hother, rfl⟩ := mem_map.1 (mem_filter.1 hb).1
    rw [hinj.eq hin hother heq]

/-- **A shadow and a better selection after it break the search for two candidates.** -/
theorem not_isBest_of_shadows (hinj : inputs.HashInjective)
    (hids : (inputs.graph.initiators.map EndpointNode.id).Nodup) (h : ¬ inputs.Unshadowed) :
    ∃ excluded, ¬ IsBest CompositionCandidate.scoreVector (inputs.Eligible excluded) 2
      (inputs.search 2 excluded) := by
  simp only [Unshadowed, not_forall, not_le] at h
  obtain ⟨x, p, c, hsublist, hshadows, hbetter⟩ := h
  obtain ⟨triple, hsub, htriple⟩ : ∃ triple, List.Sublist triple inputs.visited ∧
      (triple = [x, p, c] ∨ triple = [p, x, c]) := by
    rcases hsublist with hsub | hsub
    · exact ⟨_, hsub, .inl rfl⟩
    · exact ⟨_, hsub, .inr rfl⟩
  have hnodup : inputs.visited.Nodup := nodup_selections hids
  -- everything else is excluded
  let hashes := inputs.visited.map fun selected => (inputs.makeCandidate selected).graphHash
  let named := triple.map fun selected => (inputs.makeCandidate selected).graphHash
  refine ⟨hashes.filter (· ∉ named), ?_⟩
  have hoffered : inputs.offered (hashes.filter (· ∉ named)) = triple.map inputs.makeCandidate := by
    rw [offered, filter_map]
    congr 1
    refine Sequence.filter_eq_of_sublist hnodup hsub fun selected hin => ?_
    have hhash : (inputs.makeCandidate selected).graphHash ∈ hashes :=
      mem_map_of_mem (f := fun selected => (inputs.makeCandidate selected).graphHash) hin
    simp only [Function.comp_apply, decide_eq_true_eq, mem_filter, not_and, not_not, hhash, forall_const]
    constructor
    · intro hnamed
      obtain ⟨other, hother, heq⟩ := mem_map.1 hnamed
      exact hinj.eq (hsub.subset hother) hin heq ▸ hother
    · exact fun h => mem_map_of_mem (f := fun selected => (inputs.makeCandidate selected).graphHash) h
  rw [search_eq]
  intro hbest
  have hbest := hbest.congr fun _ => mem_offered.symm
  rw [hoffered] at hbest
  refine not_best_of_hides (x := inputs.makeCandidate x) (p := inputs.makeCandidate p)
    (c := inputs.makeCandidate c) ?_ ?_ (hides_makeCandidate.2 hshadows) hbetter hbest
  · rcases htriple with rfl | rfl
    · exact .inl rfl
    · exact .inr rfl
  · rw [map_map]
    refine List.Nodup.map_on (fun a ha b hb heq => ?_) (hnodup.sublist hsub)
    exact hinj.eq (hsub.subset ha) (hsub.subset hb) heq

end TopkInputs

/-! ## The search of a graph -/

section Compose

variable (digest : String → ℕ) (graphHash : GraphDocument → String) (graph : ConstraintGraph)
  (declared : List Association) (checks : List ClockResetCheck) (localRegions : List LocalRegion)

/-- **Every limit and every excluded set yields the first legal candidates in the order of their scores.** -/
def YieldsBest (allocated : List AddressRegion) : Prop :=
  ∀ (limit : ℤ) (excluded : List String), 0 < limit →
    ∃ yielded, composeTopk digest graphHash graph declared checks localRegions limit excluded = .ok yielded ∧
      IsBest CompositionCandidate.scoreVector
        ((topkInputs digest graphHash graph declared checks allocated).Eligible excluded) limit.toNat yielded

variable {digest graphHash graph declared checks localRegions} {allocated : List AddressRegion}

theorem composeTopk_eq (hconflicts : rejectHardConflicts digest graph = [])
    (hregions : allocateRegions (Sequence.firsts localRegions) {} = .ok allocated) {limit : ℤ}
    (hlimit : 0 < limit) (excluded : List String) :
    composeTopk digest graphHash graph declared checks localRegions limit excluded =
      .ok ((topkInputs digest graphHash graph declared checks allocated).search limit.toNat excluded) := by
  unfold composeTopk
  rw [ensure_of hlimit, hconflicts, hregions]
  rfl

/-- **The search is exact for the graphs without shadows, and for no others whose endpoints have different
numbers.** -/
theorem composeTopk_yieldsBest (hconflicts : rejectHardConflicts digest graph = [])
    (hregions : allocateRegions (Sequence.firsts localRegions) {} = .ok allocated)
    (hinj : (topkInputs digest graphHash graph declared checks allocated).HashInjective) :
    ((topkInputs digest graphHash graph declared checks allocated).Unshadowed →
      YieldsBest digest graphHash graph declared checks localRegions allocated) ∧
    ((graph.initiators.map EndpointNode.id).Nodup →
      YieldsBest digest graphHash graph declared checks localRegions allocated →
      (topkInputs digest graphHash graph declared checks allocated).Unshadowed) := by
  constructor
  · intro h limit excluded hlimit
    exact ⟨_, composeTopk_eq hconflicts hregions hlimit excluded, TopkInputs.search_isBest hinj h (by omega)⟩
  · intro hids hbest
    by_contra hshadowed
    obtain ⟨excluded, hnot⟩ := TopkInputs.not_isBest_of_shadows hinj hids hshadowed
    obtain ⟨yielded, heq, hyielded⟩ := hbest 2 excluded two_pos
    rw [composeTopk_eq hconflicts hregions two_pos excluded] at heq
    cases heq
    exact hnot hyielded

end Compose

/-! ## Optional connections -/

/-- An optional endpoint of a component of its own, without fields. -/
def bareEndpoint (id : ℕ) (side : Side) (protocolId : String) : EndpointNode :=
  ⟨id, id, protocolId, side, [], false, [], [], "1"⟩

/-- The first eight bytes of the digests of two connections. -/
def connectionDigest (payload : String) : ℕ :=
  if payload = "connection:1:3" then 1448609975577788623
  else if payload = "connection:2:4" then 11383122963312703784
  else 0

def connectionOneThree : EdgeCandidate := ⟨1448609975577788623, .connection, 1, some 3, [], none, []⟩

def connectionTwoFour : EdgeCandidate := ⟨11383122963312703784, .connection, 2, some 4, [], none, []⟩

theorem oneConnection_known : ∀ endpoint ∈ [bareEndpoint 1 .initiator "a", bareEndpoint 3 .target "a"],
    ∃ protocol ∈ [ProtocolDefinition.mk "a" [] "1"],
      (protocol.protocolId, protocol.version) = endpoint.protocolKey := by
  simp [bareEndpoint, EndpointNode.protocolKey]

/-- An initiator and a target that may be connected. -/
def oneConnection : ConstraintGraph where
  endpoints := [bareEndpoint 1 .initiator "a", bareEndpoint 3 .target "a"]
  protocols := [⟨"a", [], "1"⟩]
  evidence := []
  inputConflicts := []
  known := oneConnection_known

/-- The hashes of the two documents of `oneConnection`. -/
def oneConnectionHash (document : GraphDocument) : String :=
  if document.externalEndpointIds = [] then
    "sha256:20166a1dcefc32e1dbf5202533ef2a2082f22f1121723c6370da8c7d0ed46959"
  else "sha256:f1577059c42b55da7ccaf8c1bdc33e790465a65f79395408ce7911383f307205"

theorem oneConnection_hashInjective :
    (topkInputs connectionDigest oneConnectionHash oneConnection [] [] []).HashInjective :=
  TopkInputs.hashInjective_of_nodup (by decide)

theorem oneConnection_yieldsBest :
    YieldsBest connectionDigest oneConnectionHash oneConnection [] [] [] [] := by
  refine (composeTopk_yieldsBest rfl rfl oneConnection_hashInjective).1 ?_
  -- two selections leave no room for a shadow and a better one after it
  intro x p c hsublist
  have hlength : (selections connectionDigest oneConnection).length = 2 := rfl
  rcases hsublist with hsub | hsub <;>
    exact absurd hsub.length_le (by rw [TopkInputs.visited, topkInputs, hlength]; simp)

theorem twoConnections_known : ∀ endpoint ∈ [bareEndpoint 1 .initiator "a", bareEndpoint 2 .initiator "b",
    bareEndpoint 3 .target "a", bareEndpoint 4 .target "b"],
    ∃ protocol ∈ [ProtocolDefinition.mk "a" [] "1", ⟨"b", [], "1"⟩],
      (protocol.protocolId, protocol.version) = endpoint.protocolKey := by
  simp [bareEndpoint, EndpointNode.protocolKey]

/-- Two initiators, each with one target that speaks its protocol. -/
def twoConnections : ConstraintGraph where
  endpoints := [bareEndpoint 1 .initiator "a", bareEndpoint 2 .initiator "b", bareEndpoint 3 .target "a",
    bareEndpoint 4 .target "b"]
  protocols := [⟨"a", [], "1"⟩, ⟨"b", [], "1"⟩]
  evidence := []
  inputConflicts := []
  known := twoConnections_known

/-- The hashes of the four documents of `twoConnections`. -/
def twoConnectionsHash (document : GraphDocument) : String :=
  if document.externalEndpointIds = [] then
    "sha256:2c3174cde210cd3ddf03c216bd82a6c02e874d1f4aaeaaecacb0dd31b3c9ba8f"
  else if document.externalEndpointIds = [2, 4] then
    "sha256:fae26469f84d5a3610ce5d2b12c8ceb96293a3fbe2c16ee6e838bcc8591db54e"
  else if document.externalEndpointIds = [1, 3] then
    "sha256:32491ce40e1e6ef36f9e2058152c81e92174edbbbd933a2968ae5d85abad7157"
  else "sha256:b6796a8b3387b844ff44e910906b49e601db033dcc4e4014a57441f5c8d915ec"

/-- The inputs of the search of `twoConnections`. -/
def twoConnectionsInputs : TopkInputs :=
  topkInputs connectionDigest twoConnectionsHash twoConnections [] [] []

theorem twoConnections_hashInjective : twoConnectionsInputs.HashInjective :=
  TopkInputs.hashInjective_of_nodup (by decide)

/-- **Of the four selections the last and the worst are yielded as the best two.** -/
theorem worst_selection_yielded :
    rejectHardConflicts connectionDigest twoConnections = [] ∧
    allocateRegions (Sequence.firsts []) {} = .ok [] ∧ twoConnectionsInputs.HashInjective ∧
    composeTopk connectionDigest twoConnectionsHash twoConnections [] [] [] 2 [] =
      .ok [twoConnectionsInputs.makeCandidate [],
        twoConnectionsInputs.makeCandidate [connectionOneThree, connectionTwoFour]] ∧
    ¬ YieldsBest connectionDigest twoConnectionsHash twoConnections [] [] [] [] := by
  have hyielded : composeTopk connectionDigest twoConnectionsHash twoConnections [] [] [] 2 [] =
      .ok [twoConnectionsInputs.makeCandidate [],
        twoConnectionsInputs.makeCandidate [connectionOneThree, connectionTwoFour]] := rfl
  refine ⟨rfl, rfl, twoConnections_hashInjective, hyielded, fun hbest => ?_⟩
  obtain ⟨yielded, heq, hbest⟩ := hbest 2 [] two_pos
  rw [hyielded] at heq
  cases heq
  -- the selection that was lost is better than the second that is yielded
  have hlegal : [connectionOneThree] ∈ selections connectionDigest twoConnections :=
    .tail _ (.head _)
  have hle := hbest.le (b := twoConnectionsInputs.makeCandidate [connectionOneThree])
    (.tail _ (.head _))
    ⟨List.not_mem_nil, [connectionOneThree], mem_selections.mp hlegal, rfl⟩ (by
      intro hin
      rcases List.mem_pair.mp hin with heq | heq
      · cases congrArg CompositionCandidate.edges heq
      · cases congrArg CompositionCandidate.edges heq)
  exact absurd hle (by decide)

end Composition

end MyFuzz
