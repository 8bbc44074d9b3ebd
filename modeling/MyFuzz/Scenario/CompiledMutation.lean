import MyFuzz.Scenario.BitMutation
import MyFuzz.Scenario.RecordDecoder
import MyFuzz.Scenario.SourceSets

/-!
# Scenario/CompiledMutation — a compiled plan mutates as an uncompiled one

Compiling a plan checks once what an uncompiled call checks every time:

    the path is one the decoder has proved    ──▸  the path is authentic, or one of `paths_to`
    no other source shares a bit              ──▸  one source owns the bit
    the ownership map gives the range away    ──▸  the ownership map gives the range away

so the two calls return the same genomes.
-/

namespace MyFuzz

open Outcome DependencyGraph Dict List

/-! ## Proved paths -/

theorem mem_keys_update {κ ν : Type} [DecidableEq κ] {l : List (κ × ν)} {d : Dict κ ν} {k : κ}
    (h : k ∈ (d.update l).keys) : k ∈ d.keys ∨ k ∈ l.map Prod.fst := by
  induction l generalizing d with
  | nil => exact .inl h
  | cons p l ih =>
    rw [update_cons] at h
    rcases ih h with hset | hl
    · rw [mem_keys_iff, get?_set] at hset
      split_ifs at hset with hk
      · exact .inr (mem_cons.2 (.inl hk))
      · exact .inl (mem_keys_iff.2 hset)
    · exact .inr (.tail _ hl)

section Proved

variable {codec : JsonLines JsonScalar} {sha : Sha256} {graph : DependencyGraph}

/-- **Every path the decoder lists is authentic.** -/
theorem authentic_of_initialize {contract : RuntimePathContract} {targets : List (Direction × String)}
    {runtime : RuntimePaths} (h : initializeRuntimePaths codec sha graph contract targets = .ok runtime)
    {p : Direction × DependencyPath} (hp : p ∈ runtime.pathIds.keys) :
    ∃ document, graph.authenticate p.2 p.1 = .ok document := by
  obtain ⟨_, -, h⟩ := bind_ok.1 h
  obtain ⟨-, h⟩ := ensure_ok.1 h
  obtain ⟨lists, hlists, h⟩ := bind_ok.1 h
  rw [← Except.ok.inj h] at hp
  rcases mem_keys_update hp with hnil | hnamed
  · cases hnil
  · rw [map_map] at hnamed
    obtain ⟨named, hmem, rfl⟩ := mem_map.1 hnamed
    obtain ⟨list, hlist, hin⟩ := mem_flatMap.1 hmem
    obtain ⟨key, -, hkey⟩ := mem_of_mapM_eq_ok hlists hlist
    obtain ⟨selected, -, hkey⟩ := bind_ok.1 hkey
    obtain ⟨-, hkey⟩ := ensure_ok.1 hkey
    obtain ⟨names, hnames, hkey⟩ := bind_ok.1 hkey
    rw [← Except.ok.inj hkey] at hin
    obtain ⟨path, -, hpath⟩ := mem_of_mapM_eq_ok hnames hin
    obtain ⟨identifier, hidentity, hpath⟩ := bind_ok.1 hpath
    rw [← Except.ok.inj hpath]
    obtain ⟨document, hdocument, -⟩ := bind_ok.1 hidentity
    exact ⟨document, hdocument⟩

variable {direction : Direction}

/-- A search without edges succeeds at a source only. -/
theorem search_without_edges {target : String} {t : DependencyGraph.Search}
    (h : graph.search direction ⟨.empty, .empty⟩ graph.searchBound ⟨[(target, false)], [], [], [], []⟩
      = .ok t) :
    ∃ source, graph.sources.get? target = some source ∧ direction ∈ source.directions ∧
      t.leaves = [target] := by
  rw [searchBound, Nat.add_comm] at h
  obtain ⟨entered, hvisit, h⟩ := bind_ok.1 h
  unfold visit enter at hvisit
  dsimp only at hvisit
  rw [if_neg not_mem_nil, if_neg not_mem_nil] at hvisit
  cases hsource : graph.sources.get? target with
  | none =>
    rw [hsource] at hvisit
    cases hvisit
  | some source =>
    rw [hsource] at hvisit
    obtain ⟨hdirection, hvisit⟩ := ensure_ok.1 hvisit
    rw [← Except.ok.inj hvisit] at h
    unfold search at h
    rw [← Except.ok.inj h]
    exact ⟨source, rfl, hdirection, rfl⟩

/-- **An authentic path without edges** is that of a source, and the one path to it. -/
theorem pathsTo_of_authentic {path : DependencyPath} {document : GenomeCodec.Tree}
    (h : graph.authenticate path direction = .ok document) (hedges : path.edges = []) :
    graph.pathsTo path.target direction 16 64 = .ok [path] := by
  obtain ⟨target, sourceIds, edges⟩ := path
  obtain rfl : edges = [] := hedges
  obtain ⟨_, -, _, hcheck, -⟩ := bind_ok₂ h
  obtain ⟨⟨htarget, -⟩, -, hcheck⟩ := ensure_ok₂ hcheck
  obtain ⟨s, hs, hcheck⟩ := bind_ok.1 hcheck
  rw [← Except.ok.inj hs] at hcheck
  obtain ⟨t, hsearch, hcheck⟩ := bind_ok.1 hcheck
  obtain ⟨-, hleaves⟩ := ensure_eq_ok.1 hcheck
  obtain ⟨source, hsource, hdirection, hfound⟩ := search_without_edges hsearch
  rw [hfound] at hleaves
  have hexpand : graph.expand direction 256 16 target [] = [[target]] := by
    rw [expand_source hsource, if_pos hdirection]
  unfold pathsTo
  rw [ensure_of ⟨htarget, by decide, by decide⟩, ok_bind]
  change Except.ok ((((graph.expand direction 256 16 target []).dedup.insertionSort
    setLe).take 64).map fun set => (⟨target, set, []⟩ : DependencyPath)) = _
  rw [hexpand, ← show sortedNames [target] = sourceIds from hleaves]
  rfl

end Proved

/-! ## Compiled plans -/

section Compiled

variable {graph : DependencyGraph} {ownership : OwnershipMap}
  {proofs : List (Direction × DependencyPath)} {plan : MutationPlan} {a : MutationAuthorization}

/-- What compiling a plan has checked. -/
structure Compiled (graph : DependencyGraph) (ownership : OwnershipMap)
    (proofs : List (Direction × DependencyPath)) (plan : MutationPlan) (source : FuzzableSource) :
    Prop where
  proved : (plan.direction, plan.path) ∈ proofs
  source_eq : graph.sources.get? plan.focusSource = some source
  owner : source.kind = .source → ∃ owner, ownership.mutationSource source.component source.port
    source.bitOffset source.width = .ok owner
  alone : ∀ candidate ∈ graph.sourceList, ¬ (candidate.sourceId ≠ source.sourceId ∧ candidate.Overlaps source)

theorem compiled_of_ok (h : compileMutationAuthorization graph ownership proofs plan = .ok a) :
    a.plan = plan ∧ ∃ source, Compiled graph ownership proofs plan source := by
  obtain ⟨hproved, h⟩ := ensure_ok.1 h
  cases hsource : graph.sources.get? plan.focusSource with
  | none => rw [hsource] at h; cases h
  | some source =>
    rw [hsource] at h
    obtain ⟨-, h⟩ := ensure_ok.1 h
    split_ifs at h with hkind
    · obtain ⟨owner, howner, h⟩ := bind_ok.1 h
      obtain ⟨halone, h⟩ := ensure_ok.1 h
      rw [← Except.ok.inj h]
      exact ⟨rfl, source, hproved, hsource, fun _ => ⟨owner, howner⟩, halone⟩
    · obtain ⟨halone, h⟩ := ensure_ok.1 h
      rw [← Except.ok.inj h]
      exact ⟨rfl, source, hproved, hsource, fun h => absurd h hkind, halone⟩

/-- The sources of a graph are listed once each. -/
theorem nodup_sourceList (graph : DependencyGraph) : graph.sourceList.Nodup := by
  have hkeys : graph.sourceList.map FuzzableSource.sourceId = graph.sources.keys := by
    unfold sourceList Dict.keys
    rw [map_map]
    refine map_congr_left fun p hp => ?_
    exact graph.sourceId_eq p.1 p.2 (mem_entries_iff.1 hp)
  refine List.Nodup.of_map FuzzableSource.sourceId ?_
  rw [hkeys]
  exact graph.sources.nodup

variable {source : FuzzableSource}

/-- **A source that shares no bit owns each of its bits alone.** -/
theorem bitOwners_eq_one (h : Compiled graph ownership proofs plan source) {bitIndex : ℤ}
    (hbit : 0 ≤ bitIndex ∧ bitIndex < source.width) :
    bitOwners graph source (source.bitOffset + bitIndex) = 1 := by
  have hmem : source ∈ graph.sourceList :=
    mem_map.2 ⟨(plan.focusSource, source), mem_entries_iff.2 h.source_eq, rfl⟩
  rw [← count_eq_one_of_mem (nodup_sourceList graph) hmem, List.count]
  refine countP_congr fun candidate hcandidate => ?_
  rw [decide_eq_true_eq, beq_iff_eq]
  constructor
  · rintro ⟨hkind, hcomponent, hport, hle, hlt⟩
    by_contra hne
    refine h.alone candidate hcandidate ⟨fun hid => hne ?_, ⟨hkind, hcomponent, hport⟩, by omega, by omega⟩
    -- two sources of one id are the same source
    obtain ⟨p, hp, rfl⟩ := mem_map.1 hcandidate
    have hget := mem_entries_iff.1 hp
    rw [← graph.sourceId_eq _ _ hget, hid, graph.sourceId_eq _ _ h.source_eq, h.source_eq] at hget
    exact (Option.some.inj hget).symm
  · rintro rfl
    exact ⟨rfl, rfl, rfl, by omega, by omega⟩

/-- **A compiled plan is an authentic one**: it meets what an uncompiled call asks of a path. -/
theorem checkPlan_of_compiled {genome : ScenarioGenome}
    (hproofs : ∀ p ∈ proofs, ∃ document, graph.authenticate p.2 p.1 = .ok document)
    (hcompiled : Compiled graph ownership proofs plan source) :
    checkPlan graph genome plan true = .ok () ↔ checkPlan graph genome plan false = .ok () := by
  obtain ⟨document, hdocument⟩ := hproofs _ hcompiled.proved
  rw [checkPlan_eq_ok, checkPlan_eq_ok]
  constructor
  · rintro ⟨-, ⟨hdirection, htarget⟩, -, hfocus⟩
    refine ⟨fun _ _ => ⟨document, hdocument⟩, ⟨hdirection, htarget⟩, fun _ hedges => ?_, hfocus⟩
    rw [htarget]
    exact ⟨[plan.path], pathsTo_of_authentic hdocument hedges, .head _⟩
  · rintro ⟨-, hgenome, -, hfocus⟩
    exact ⟨fun h => absurd h.symm Bool.false_ne_true, hgenome,
      fun h => absurd h.symm Bool.false_ne_true, hfocus⟩

/-- **Compiled or not, a plan returns the same genomes.** -/
theorem mutateGenome_compiled_iff {genome result : ScenarioGenome} {bitIndex : ℤ}
    {actionId : Option String} {target : Option MutationTarget}
    (hproofs : ∀ p ∈ proofs, ∃ document, graph.authenticate p.2 p.1 = .ok document)
    (h : compileMutationAuthorization graph ownership proofs plan = .ok a) :
    mutateGenome graph ownership genome plan bitIndex actionId target none = .ok result ↔
      mutateGenome graph ownership genome plan bitIndex actionId target (some a) = .ok result := by
  obtain ⟨hplan, source, hcompiled⟩ := compiled_of_ok h
  rw [mutateGenome_eq_ok, mutateGenome_eq_ok]
  refine and_congr (checkPlan_of_compiled hproofs hcompiled).symm (exists_congr fun source' => ?_)
  constructor
  · rintro ⟨hfocus, hwrite⟩
    refine ⟨⟨hfocus.target_genome, ?_, hfocus.source_eq, hfocus.target_source, hfocus.bit, .inl rfl⟩, ?_⟩
    · rintro _ ⟨rfl⟩
      exact hplan
    · cases hkind : source'.kind with
      | memoryImage =>
        rw [writeBit_image_eq_ok hkind] at hwrite ⊢
        exact hwrite
      | source =>
        rw [writeBit_source_eq_ok hkind] at hwrite ⊢
        exact ⟨fun h => absurd h.symm Bool.false_ne_true, hwrite.2⟩
  · rintro ⟨hfocus, hwrite⟩
    obtain rfl : source = source' := Option.some.inj (hcompiled.source_eq.symm.trans hfocus.source_eq)
    refine ⟨⟨hfocus.target_genome, fun _ h => absurd h (Option.not_mem_none _), hfocus.source_eq,
      hfocus.target_source, hfocus.bit, .inr (bitOwners_eq_one hcompiled hfocus.bit)⟩, ?_⟩
    cases hkind : source.kind with
    | memoryImage =>
      rw [writeBit_image_eq_ok hkind] at hwrite ⊢
      exact hwrite
    | source =>
      rw [writeBit_source_eq_ok hkind] at hwrite ⊢
      exact ⟨fun _ => hcompiled.owner hkind, hwrite.2⟩

/-- **A mutation flips exactly one bit, and the same call flips it back**; a compiled authorization for
the plan returns what the uncompiled call returns and raises when it raises. -/
theorem mutateGenome_one_bit (codec : JsonLines JsonScalar) (sha : Sha256) (graph : DependencyGraph)
    (ownership : OwnershipMap) (genome : Genome) (plan : MutationPlan) (bitIndex : ℤ)
    (actionId : Option String) (target : Option MutationTarget) :
    (∀ authorization result,
      mutateGenome graph ownership genome.val plan bitIndex actionId target authorization = .ok result →
        (∃ source, graph.sources.get? plan.focusSource = some source ∧
          OneBitApart source plan.direction (source.bitOffset + bitIndex) genome.val result) ∧
        mutateGenome graph ownership result plan bitIndex actionId target authorization
          = .ok genome.val) ∧
    (∀ contract targets runtime a, initializeRuntimePaths codec sha graph contract targets = .ok runtime →
      compileMutationAuthorization graph ownership runtime.pathIds.keys plan = .ok a →
        (∀ result, mutateGenome graph ownership genome.val plan bitIndex actionId target none = .ok result →
          mutateGenome graph ownership genome.val plan bitIndex actionId target (some a) = .ok result) ∧
        (∀ e, mutateGenome graph ownership genome.val plan bitIndex actionId target none = .error e →
          ∃ e', mutateGenome graph ownership genome.val plan bitIndex actionId target (some a)
            = .error e')) := by
  refine ⟨fun authorization result h => ⟨oneBitApart_of_mutateGenome genome.property h,
    mutateGenome_back genome.property h⟩, fun contract targets runtime a hruntime hcompile => ?_⟩
  have hiff := fun result => @mutateGenome_compiled_iff graph ownership runtime.pathIds.keys plan a
    genome.val result bitIndex actionId target (fun p hp => authentic_of_initialize hruntime hp) hcompile
  refine ⟨fun result => (hiff result).mp, fun e he => ?_⟩
  cases hcall : mutateGenome graph ownership genome.val plan bitIndex actionId target (some a) with
  | error e' => exact ⟨e', rfl⟩
  | ok result =>
    rw [(hiff result).mpr hcall] at he
    cases he

end Compiled

/-! ## A pin that is flipped and flipped back -/

namespace MutationPlan

/-- Four bits of a port that one source drives. -/
def portSource : FuzzableSource := ⟨"pin", "gpio", "in", 0, 4, [.ipToCpu], .source, none⟩

/-- The target depends on the source. -/
def portGraph : DependencyGraph := .ofInputs [portSource] [⟨"irq", ["pin"], .dataBinding⟩] (by decide +kernel)

/-- The source owns the four bits. -/
def portOwnership : OwnershipMap :=
  ⟨Dict.empty.set ("gpio", "in") (List.replicate 4 ⟨"gpio", "in", 0, 4, .source, "pin"⟩)⟩

/-- A genome that drives the port once. -/
def portGenome (value : ℤ) : ScenarioGenome where
  testcaseId := "template"
  direction := .ipToCpu
  pathId := "irq"
  scheduleOrder := ["gpio"]
  maxSteps := 200
  actions := [⟨"drive", "gpio", "in", value, .ipToCpu, .atStart, "gpio", 0, 0, some 4⟩]
  initialImages := []
  encodingVersion := 2
  resetActions := []
  quiesceSteps := 0

/-- The plan that focuses on the source. -/
def portPlan : MutationPlan := ⟨.ipToCpu, "irq", ⟨"irq", ["pin"], []⟩, "pin"⟩

/-- Some digest. -/
def anySha : Sha256 := ⟨fun _ => String.ofList (List.replicate 64 'a'), fun _ =>
    by rw [String.length_ofList, List.length_replicate]⟩

theorem port_flipped_back :
    mutateGenome portGraph portOwnership (portGenome 5) portPlan 1 none none none
      = .ok (portGenome 7) ∧
    mutateGenome portGraph portOwnership (portGenome 7) portPlan 1 none none none
      = .ok (portGenome 5) := by
  have hvalid : (portGenome 5).Valid := by decide +kernel
  have hflipped : mutateGenome portGraph portOwnership (portGenome 5) portPlan 1 none none none
      = .ok (portGenome 7) := by decide +kernel
  exact ⟨hflipped, ((mutateGenome_one_bit Json.lines anySha portGraph portOwnership ⟨portGenome 5, hvalid⟩
    portPlan 1 none none).1 none _ hflipped).2⟩

end MutationPlan

end MyFuzz
