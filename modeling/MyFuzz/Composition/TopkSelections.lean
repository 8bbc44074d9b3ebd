import MyFuzz.Composition.TopkSearch
import Mathlib.Data.List.ReduceOption

/-!
# Composition/TopkSelections — the search visits exactly the legal selections

A legal selection connects every initiator by at most one of its edges, by exactly one if it is required, uses
no target twice and every required target.  `completions` lists the choices that a visit makes, without its
state:

    visit sources s  =  s with every completion of `s.chosen` offered to the heap
    completions      ──▸ each legal selection, once when the endpoints have different numbers

A selection is compared through its document: different selections have different documents.
-/

namespace MyFuzz

namespace Composition

open Outcome EdgeCandidate FieldConnection List

variable (digest : String → ℕ) (graph : ConstraintGraph)

/-! ## Legal selections -/

/-- What an initiator may be connected by. -/
def Choice (source : EndpointNode) : Option EdgeCandidate → Prop
  | some edge => edge ∈ edgesFrom digest graph source
  | none => source.required = false

/-- **A legal selection**, in the order of the signatures of its edges. -/
structure Legal (selected : List EdgeCandidate) : Prop where
  ordered : selected.Pairwise fun a b => edgeSignature a ≤ edgeSignature b
  /-- Every initiator has at most one of its edges, and a required one has one. -/
  choices : ∃ choices, List.Forall₂ (Choice digest graph) graph.initiators choices ∧
    selected.Perm choices.reduceOption
  distinct : (selected.map EdgeCandidate.targetEndpointId).Nodup
  covered : ∀ target ∈ requiredTargets graph, some target ∈ selected.map EdgeCandidate.targetEndpointId

/-! ## The edges of a graph -/

variable {digest graph}

variable {edge : EdgeCandidate} {source : EndpointNode} {used : List ℕ}
  {selected a b : List EdgeCandidate} {sources : List EndpointNode}

/-- A candidate edge between two endpoints has a target. -/
theorem target_of_candidateEdges (h : edge ∈ candidateEdges digest graph)
    (hkind : edge.kind = .connection) : ∃ target, edge.targetEndpointId = some target := by
  rcases mem_append.1 h with h | h
  · obtain ⟨pair, -, hpair⟩ := mem_filterMap.1 h
    dsimp only at hpair
    split_ifs at hpair with hconflict
    cases hforbidden : forbidden graph (oriented pair).1.id (oriented pair).2.id with
    | some _ => rw [hforbidden] at hpair; cases hpair
    | none =>
      rw [hforbidden] at hpair
      exact ⟨(oriented pair).2.id, by rw [← Option.some.inj hpair]; rfl⟩
  · obtain ⟨endpoint, -, rfl⟩ := mem_map.1 h
    cases hkind

/-- Every edge that is kept is stored under its signature and was a candidate. -/
theorem mem_normalizedEdges {edges : List EdgeCandidate} {key : Signature}
    (h : (normalizedEdges edges).get? key = some edge) :
    edge ∈ edges ∧ edgeSignature edge = key := by
  induction edges using List.reverseRecOn with
  | nil => cases h
  | append_singleton edges last ih =>
    have hstored : ((normalizedEdges edges).set (edgeSignature last) last).get? key = some edge →
        edge ∈ edges ++ [last] ∧ edgeSignature edge = key := by
      intro hget
      rw [Dict.get?_set] at hget
      split_ifs at hget with hkey
      · cases hget
        exact ⟨mem_append_right _ (.head _), hkey.symm⟩
      · exact (ih hget).imp_left (mem_append_left _)
    rw [normalizedEdges, foldl_concat, ← normalizedEdges, keepEdge] at h
    cases hlast : (normalizedEdges edges).get? (edgeSignature last) with
    | none =>
      rw [hlast] at h
      exact hstored h
    | some previous =>
      rw [hlast] at h
      simp only at h
      split_ifs at h with hlt
      · exact hstored h
      · exact (ih h).imp_left (mem_append_left _)

/-- The edges of a graph have different signatures. -/
theorem nodup_signature_allEdges : ((allEdges digest graph).map edgeSignature).Nodup := by
  have hkeys : (normalizedEdges (candidateEdges digest graph)).entries.map
      (fun entry => edgeSignature entry.2) = (normalizedEdges (candidateEdges digest graph)).keys := by
    refine map_congr_left fun entry hentry => ?_
    exact (mem_normalizedEdges (Dict.mem_entries_iff.1 hentry)).2
  have hperm := (perm_insertionSort (fun a b => edgeOrder a ≤ edgeOrder b)
    ((normalizedEdges (candidateEdges digest graph)).entries.map Prod.snd)).map edgeSignature
  refine hperm.nodup_iff.2 ?_
  rw [map_map]
  exact hkeys ▸ (normalizedEdges (candidateEdges digest graph)).nodup

theorem nodup_signature_connectionEdges : ((connectionEdges digest graph).map edgeSignature).Nodup :=
  nodup_signature_allEdges.sublist (filter_sublist.map _)

/-- An edge is known by its signature. -/
theorem eq_of_signature {a b : EdgeCandidate} (ha : a ∈ connectionEdges digest graph)
    (hb : b ∈ connectionEdges digest graph) (h : edgeSignature a = edgeSignature b) : a = b :=
  inj_on_of_nodup_map nodup_signature_connectionEdges ha hb h

theorem mem_connectionEdges (h : edge ∈ connectionEdges digest graph) :
    edge.kind = .connection ∧ ∃ target, edge.targetEndpointId = some target := by
  obtain ⟨hall, hkind⟩ := mem_filter.1 h
  have hkind := of_decide_eq_true hkind
  rw [allEdges, mem_insertionSort] at hall
  obtain ⟨entry, hentry, rfl⟩ := mem_map.1 hall
  exact ⟨hkind, target_of_candidateEdges (mem_normalizedEdges (Dict.mem_entries_iff.1 hentry)).1 hkind⟩

theorem mem_edgesFrom :
    edge ∈ edgesFrom digest graph source ↔
      edge ∈ connectionEdges digest graph ∧ edge.sourceEndpointId = source.id := by
  rw [edgesFrom, mem_filter, decide_eq_true_eq]

/-! ## Completions -/

variable (digest graph)

/-- Put an edge before what follows it, if its target is free. -/
def extend (used : List ℕ) (tails : ℕ → List (List EdgeCandidate)) (edge : EdgeCandidate) :
    List (List EdgeCandidate) :=
  match edge.targetEndpointId with
  | none => []
  | some target => if target ∈ used then [] else (tails target).map (edge :: ·)

/-- **The ways to go on with these initiators when some targets are used.** -/
def completions : List EndpointNode → List ℕ → List (List EdgeCandidate)
  | [], used => if ∀ target ∈ requiredTargets graph, target ∈ used then [[]] else []
  | source :: rest, used =>
    (edgesFrom digest graph source).flatMap
      (extend used fun target => completions rest (target :: used)) ++
    if source.required then [] else completions rest used

variable {digest graph}

theorem mem_extend {tails : ℕ → List (List EdgeCandidate)} :
    selected ∈ extend used tails edge ↔ ∃ target, edge.targetEndpointId = some target ∧ target ∉ used ∧
      ∃ tail ∈ tails target, selected = edge :: tail := by
  unfold extend
  cases htarget : edge.targetEndpointId with
  | none =>
    refine iff_of_false not_mem_nil ?_
    rintro ⟨target, h, -⟩
    cases h
  | some target =>
    constructor
    · intro h
      simp only at h
      split_ifs at h with hused
      · cases h
      · obtain ⟨tail, htail, rfl⟩ := mem_map.1 h
        exact ⟨target, rfl, hused, tail, htail, rfl⟩
    · rintro ⟨other, heq, hused, tail, htail, rfl⟩
      cases heq
      simp only [if_neg hused]
      exact mem_map_of_mem htail

/-- The completions that leave an optional initiator out. -/
theorem mem_skipped {tails : List (List EdgeCandidate)} :
    selected ∈ (if source.required then [] else tails) ↔ source.required = false ∧ selected ∈ tails := by
  cases source.required with
  | true => exact iff_of_false not_mem_nil fun h => Bool.noConfusion h.1
  | false => exact ⟨fun h => ⟨rfl, h⟩, And.right⟩

/-- **What the completions are.** -/
theorem mem_completions :
    selected ∈ completions digest graph sources used ↔
      (∃ choices, List.Forall₂ (Choice digest graph) sources choices ∧ selected = choices.reduceOption) ∧
      (selected.map targetEndpointId).Nodup ∧
      (∀ target ∈ used, some target ∉ selected.map targetEndpointId) ∧
      ∀ target ∈ requiredTargets graph,
        target ∈ used ∨ some target ∈ selected.map targetEndpointId := by
  induction sources generalizing used selected with
  | nil =>
    rw [completions]
    constructor
    · intro h
      split_ifs at h with hall
      · obtain rfl := mem_singleton.1 h
        exact ⟨⟨[], List.Forall₂.nil, rfl⟩, nodup_nil, fun _ _ => not_mem_nil,
          fun target ht => .inl (hall target ht)⟩
      · cases h
    · rintro ⟨⟨choices, hchoices, rfl⟩, -, -, hcovered⟩
      obtain rfl := forall₂_nil_left_iff.1 hchoices
      rw [if_pos fun target ht => (hcovered target ht).resolve_right not_mem_nil]
      exact .head _
  | cons source rest ih =>
    rw [completions, mem_append, mem_flatMap, mem_skipped]
    constructor
    · rintro (⟨edge, hedge, h⟩ | ⟨hoptional, h⟩)
      · obtain ⟨target, htarget, hused, tail, htail, rfl⟩ := mem_extend.1 h
        obtain ⟨⟨choices, hchoices, rfl⟩, hnodup, hapart, hcovered⟩ := ih.1 htail
        refine ⟨⟨some edge :: choices, List.Forall₂.cons hedge hchoices, rfl⟩, ?_, fun t ht hin => ?_,
          fun t ht => ?_⟩
        · rw [map_cons, htarget]
          exact nodup_cons.2 ⟨hapart target (.head _), hnodup⟩
        · rw [map_cons, htarget] at hin
          rcases mem_cons.1 hin with heq | hin
          · exact hused (Option.some.inj heq ▸ ht)
          · exact hapart t (.tail _ ht) hin
        · rw [map_cons, htarget]
          rcases hcovered t ht with hin | hin
          · rcases mem_cons.1 hin with rfl | hin
            · exact .inr (.head _)
            · exact .inl hin
          · exact .inr (.tail _ hin)
      · obtain ⟨⟨choices, hchoices, rfl⟩, hrest⟩ := ih.1 h
        exact ⟨⟨none :: choices, List.Forall₂.cons hoptional hchoices, rfl⟩, hrest⟩
    · rintro ⟨⟨all, hall, rfl⟩, hnodup, hapart, hcovered⟩
      obtain ⟨choice, choices, hchoice, hchoices, rfl⟩ := forall₂_cons_left_iff.1 hall
      cases choice with
      | none => exact .inr ⟨hchoice, ih.2 ⟨⟨choices, hchoices, rfl⟩, hnodup, hapart, hcovered⟩⟩
      | some edge =>
        obtain ⟨target, htarget⟩ := (mem_connectionEdges (mem_edgesFrom.1 hchoice).1).2
        rw [reduceOption_cons_of_some, map_cons, htarget] at hnodup hapart hcovered
        rw [nodup_cons] at hnodup
        refine .inl ⟨edge, hchoice, mem_extend.2 ⟨target, htarget,
          fun hin => hapart target hin (.head _), choices.reduceOption,
          ih.2 ⟨⟨choices, hchoices, rfl⟩, hnodup.2, fun t ht hin => ?_, fun t ht => ?_⟩, rfl⟩⟩
        · rcases mem_cons.1 ht with rfl | ht
          · exact hnodup.1 hin
          · exact hapart t ht (.tail _ hin)
        · rcases hcovered t ht with hin | hin
          · exact .inl (.tail _ hin)
          · rcases mem_cons.1 hin with heq | hin
            · exact .inl (Option.some.inj heq ▸ (.head _))
            · exact .inr hin

/-- A choice was made for one of the initiators. -/
theorem source_of_choice {choices : List (Option EdgeCandidate)}
    (h : List.Forall₂ (Choice digest graph) sources choices) (hedge : some edge ∈ choices) :
    ∃ source ∈ sources, edge ∈ edgesFrom digest graph source := by
  induction h with
  | nil => cases hedge
  | cons hchoice _ ih =>
    rcases mem_cons.1 hedge with heq | hedge
    · subst heq
      exact ⟨_, .head _, hchoice⟩
    · obtain ⟨source, hsource, hin⟩ := ih hedge
      exact ⟨source, .tail _ hsource, hin⟩

/-- The edges of a completion leave the initiators it completes. -/
theorem of_mem_completions (h : selected ∈ completions digest graph sources used) (hedge : edge ∈ selected) :
    edge ∈ connectionEdges digest graph ∧ edge.sourceEndpointId ∈ sources.map EndpointNode.id := by
  obtain ⟨⟨choices, hchoices, rfl⟩, -⟩ := mem_completions.1 h
  obtain ⟨source, hsource, hin⟩ := source_of_choice hchoices (reduceOption_mem_iff.1 hedge)
  obtain ⟨hin, hid⟩ := mem_edgesFrom.1 hin
  exact ⟨hin, hid ▸ mem_map_of_mem hsource⟩

/-- **No selection is listed twice when the initiators have different numbers.** -/
theorem pairwise_completions (hids : (sources.map EndpointNode.id).Nodup) :
    (completions digest graph sources used).Pairwise fun a b => ¬ a.Perm b := by
  induction sources generalizing used with
  | nil =>
    rw [completions]
    split_ifs
    · exact pairwise_singleton _ _
    · exact List.Pairwise.nil
  | cons source rest ih =>
    rw [map_cons, nodup_cons] at hids
    -- an edge of this initiator is in none of the completions of the others
    have hfresh : ∀ edge ∈ edgesFrom digest graph source, ∀ used' tail,
        tail ∈ completions digest graph rest used' → edge ∉ tail := by
      intro edge hedge used' tail htail hin
      have hid := (of_mem_completions htail hin).2
      rw [(mem_edgesFrom.1 hedge).2] at hid
      exact hids.1 hid
    rw [completions]
    refine pairwise_append.2 ⟨pairwise_flatMap.2 ⟨fun edge _ => ?_, ?_⟩, ?_, ?_⟩
    · unfold extend
      cases edge.targetEndpointId with
      | none => exact List.Pairwise.nil
      | some target =>
        simp only
        split_ifs
        · exact List.Pairwise.nil
        · exact pairwise_map.2 ((ih hids.2).imp fun h hperm => h hperm.cons_inv)
    · have hdistinct : (edgesFrom digest graph source).Nodup :=
        (List.Nodup.of_map _ nodup_signature_connectionEdges).filter _
      refine hdistinct.imp_of_mem fun {a b} ha _ hne selected hselected other hother hperm => ?_
      obtain ⟨_, -, -, tail, -, rfl⟩ := mem_extend.1 hselected
      obtain ⟨_, -, -, tail', htail', rfl⟩ := mem_extend.1 hother
      rcases mem_cons.1 (hperm.mem_iff.1 (.head _)) with heq | hin
      · exact hne heq
      · exact hfresh a ha _ tail' htail' hin
    · split_ifs
      · exact List.Pairwise.nil
      · exact ih hids.2
    · intro selected hselected other hother hperm
      obtain ⟨edge, hedge, hin⟩ := mem_flatMap.1 hselected
      obtain ⟨_, -, -, tail, -, rfl⟩ := mem_extend.1 hin
      exact hfresh edge hedge used other (mem_skipped.1 hother).2 (hperm.mem_iff.1 (.head _))

/-! ## A visit lists the completions -/

namespace TopkInputs

variable (inputs : TopkInputs) (limit : ℕ) (excluded : List String)

/-- What the heap holds after the selections that complete what was chosen. -/
def offerSelections (chosen : List EdgeCandidate) (heap : List CompositionCandidate)
    (tails : List (List EdgeCandidate)) : List CompositionCandidate :=
  tails.foldl (fun heap tail =>
    retain limit excluded heap (inputs.makeCandidate (sortedSelection (chosen ++ tail)))) heap

variable {inputs limit excluded}

theorem offerSelections_append (chosen : List EdgeCandidate) (heap : List CompositionCandidate)
    (tails tails' : List (List EdgeCandidate)) :
    inputs.offerSelections limit excluded chosen heap (tails ++ tails') =
      inputs.offerSelections limit excluded chosen
        (inputs.offerSelections limit excluded chosen heap tails) tails' :=
  foldl_append

/-- Selections that all begin with one more edge. -/
theorem offerSelections_map_cons (chosen : List EdgeCandidate) (edge : EdgeCandidate)
    (heap : List CompositionCandidate) (tails : List (List EdgeCandidate)) :
    inputs.offerSelections limit excluded chosen heap (tails.map (edge :: ·)) =
      inputs.offerSelections limit excluded (chosen ++ [edge]) heap tails := by
  unfold offerSelections
  rw [foldl_map]
  simp only [append_assoc, singleton_append]

/-- The edges are tried one after the other from a state that each of them puts back. -/
theorem foldl_tryEdge {next : TopkState → TopkState} {tails : List ℕ → List (List EdgeCandidate)}
    (hnext : ∀ s, next s = { s with
      heap := inputs.offerSelections limit excluded s.chosen s.heap (tails s.usedTargets) })
    (edges : List EdgeCandidate) (s : TopkState) :
    edges.foldl (tryEdge next) s = { s with
      heap := inputs.offerSelections limit excluded s.chosen s.heap
        (edges.flatMap (extend s.usedTargets fun target => tails (target :: s.usedTargets))) } := by
  induction edges generalizing s with
  | nil => rfl
  | cons edge edges ih =>
    rw [foldl_cons, flatMap_cons, offerSelections_append, ih, tryEdge, extend]
    cases edge.targetEndpointId with
    | none => rfl
    | some target =>
      simp only
      split_ifs with hused
      · rfl
      · rw [offerSelections_map_cons, hnext]
        simp only [erase_cons_head, dropLast_concat]

/-- **A visit offers every completion and puts the rest of its state back.** -/
theorem visit_eq (sources : List EndpointNode) (s : TopkState) :
    inputs.visit limit excluded sources s = { s with
      heap := inputs.offerSelections limit excluded s.chosen s.heap
        (completions inputs.digest inputs.graph sources s.usedTargets) } := by
  induction sources generalizing s with
  | nil =>
    rw [visit, completions]
    split_ifs
    · rw [offerSelections, foldl_cons, foldl_nil, append_nil]
    · rfl
  | cons source rest ih =>
    rw [visit, completions, offerSelections_append, foldl_tryEdge ih]
    split_ifs
    · rfl
    · rw [ih]

end TopkInputs

/-! ## Documents -/

theorem pairwise_sortedSelection (edges : List EdgeCandidate) :
    (sortedSelection edges).Pairwise fun a b => edgeSignature a ≤ edgeSignature b :=
  BestKept.pairwise_insertionSort_score edges

theorem perm_sortedSelection (edges : List EdgeCandidate) : (sortedSelection edges).Perm edges :=
  perm_insertionSort _ edges

/-- A set of edges has one order of signatures. -/
theorem eq_of_ordered (hin : ∀ edge ∈ a, edge ∈ connectionEdges digest graph)
    (ha : a.Pairwise fun c d => edgeSignature c ≤ edgeSignature d)
    (hb : b.Pairwise fun c d => edgeSignature c ≤ edgeSignature d) (hperm : a.Perm b) : a = b :=
  hperm.eq_of_pairwise (fun c d hc hd hcd hdc =>
    eq_of_signature (hin c hc) (hin d (hperm.mem_iff.2 hd)) (le_antisymm hcd hdc)) ha hb

variable (digest graph) in
/-- **The legal selections in the order they are visited.** -/
def selections : List (List EdgeCandidate) :=
  (completions digest graph graph.initiators []).map sortedSelection

theorem Legal.mem_connectionEdges (h : Legal digest graph selected) (hedge : edge ∈ selected) :
    edge ∈ connectionEdges digest graph := by
  obtain ⟨choices, hchoices, hperm⟩ := h.choices
  obtain ⟨source, -, hin⟩ := source_of_choice hchoices (reduceOption_mem_iff.1 (hperm.mem_iff.1 hedge))
  exact (mem_edgesFrom.1 hin).1

/-- **The visited selections are the legal ones.** -/
theorem mem_selections : selected ∈ selections digest graph ↔ Legal digest graph selected := by
  rw [selections, mem_map]
  constructor
  · rintro ⟨tail, htail, rfl⟩
    obtain ⟨⟨choices, hchoices, rfl⟩, hnodup, -, hcovered⟩ := mem_completions.1 htail
    have hperm := perm_sortedSelection choices.reduceOption
    have htargets := hperm.map targetEndpointId
    refine ⟨pairwise_sortedSelection _, ⟨choices, hchoices, hperm⟩, htargets.nodup_iff.2 hnodup,
      fun target ht => ?_⟩
    rw [htargets.mem_iff]
    exact (hcovered target ht).resolve_left not_mem_nil
  · intro h
    obtain ⟨choices, hchoices, hperm⟩ := h.choices
    have htargets := hperm.map targetEndpointId
    refine ⟨choices.reduceOption, mem_completions.2 ⟨⟨choices, hchoices, rfl⟩,
      htargets.nodup_iff.1 h.distinct, nofun,
      fun target ht => .inr (htargets.mem_iff.1 (h.covered target ht))⟩, ?_⟩
    exact (eq_of_ordered (fun _ => h.mem_connectionEdges) h.ordered (pairwise_sortedSelection _)
      (hperm.trans (perm_sortedSelection _).symm)).symm

/-- **Every legal selection is visited once when the initiators have different numbers.** -/
theorem nodup_selections (hids : (graph.initiators.map EndpointNode.id).Nodup) :
    (selections digest graph).Nodup := by
  refine pairwise_map.2 ((pairwise_completions hids).imp fun {a b} h heq => h ?_)
  exact (perm_sortedSelection a).symm.trans (heq ▸ perm_sortedSelection b)

/-- An edge is known by what the document says of it. -/
theorem signature_of_connectionDocument {a b : EdgeCandidate} (ha : a.kind = .connection)
    (hb : b.kind = .connection) (h : connectionDocument a = connectionDocument b) :
    edgeSignature a = edgeSignature b := by
  simp only [connectionDocument, ConnectionDocument.mk.injEq] at h
  obtain ⟨hsource, htarget, hadapter, hfields⟩ := h
  have hmap : ∀ fields : List FieldConnection, (fields.map order).insertionSort (· ≤ ·)
      = (fields.insertionSort fun c d => c.order ≤ d.order).map order :=
    fun fields => (map_insertionSort _ _ order fields fun _ _ _ _ => Iff.rfl).symm
  rw [edgeSignature, edgeSignature, ha, hb, hsource, htarget, hadapter, hmap, hmap, hfields]

/-- **Different legal selections have different documents.** -/
theorem Legal.eq_of_document {regions : List AddressRegion} (ha : Legal digest graph a)
    (hb : Legal digest graph b)
    (h : graphDocument a regions (unresolved graph a) = graphDocument b regions (unresolved graph b)) :
    a = b := by
  have hconnections : ∀ {selected : List EdgeCandidate}, Legal digest graph selected →
      (graphDocument selected regions (unresolved graph selected)).connections =
        selected.map connectionDocument := by
    intro selected hlegal
    rw [graphDocument, sortedSelection, hlegal.ordered.insertionSort_eq, filter_eq_self.2]
    intro edge hedge
    exact decide_eq_true (Composition.mem_connectionEdges (hlegal.mem_connectionEdges hedge)).1
  have hmap := congrArg GraphDocument.connections h
  rw [hconnections ha, hconnections hb] at hmap
  refine Sequence.eq_of_map_eq (fun c hc d hd heq => ?_) hmap
  have hc := ha.mem_connectionEdges hc
  have hd := hb.mem_connectionEdges hd
  exact eq_of_signature hc hd (signature_of_connectionDocument (Composition.mem_connectionEdges hc).1
    (Composition.mem_connectionEdges hd).1 heq)

end Composition

end MyFuzz
