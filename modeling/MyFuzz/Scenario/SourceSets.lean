import MyFuzz.Scenario.Dependency
import Mathlib.Data.List.Sort

/-!
# Scenario/SourceSets — which source sets a bounded enumeration lists

A node is reached by a set of sources when one of its rules is chosen and every prerequisite of the rule
is reached by a set of its own (`Reaches`).  `expand` lists such sets, but at every node it stops once
there are `4 · max_paths` of them, and only then are they sorted:

    target ◂── rule ── { p, q }     p ↤ A₁ A₂ …     q ↤ B₁ B₂ …
    A₁ ∪ B₁, A₁ ∪ B₂, … ┊ cut here ┊ … , A₂ ∪ B₂

So every listed set is one that reaches the target, and there is one whenever there is any; the list is
that of the smallest sets as long as the choices below the target are few enough to be listed (`ways`).
-/

namespace MyFuzz

open Outcome

namespace DependencyGraph

open List hiding set

variable {g : DependencyGraph} {direction : Direction}

/-! ## The sets that reach a node -/

/-- A set of sources reaches a node, through at most `left` rules: the node is a source, or one of its
rules is chosen and the set unites one that reaches each prerequisite. -/
def Reaches (g : DependencyGraph) (direction : Direction) : ℕ → String → List String → Finset String → Prop
  | left, node, seen, set =>
      match g.sources.get? node with
      | some source => direction ∈ source.directions ∧ set = {node}
      | none => node ∉ seen ∧ match left with
          | 0 => False
          | left + 1 => ∃ rule ∈ g.rules node, ∃ sets : List (Finset String),
              List.Forall₂ (fun child set => Reaches g direction left child (node :: seen) set)
                rule.prerequisites sets ∧ set = sets.foldr (· ∪ ·) ∅

/-- How many ways there are to choose a rule at a node and at every node below it. -/
def ways (g : DependencyGraph) (direction : Direction) : ℕ → String → List String → ℕ
  | left, node, seen =>
      match g.sources.get? node with
      | some source => if direction ∈ source.directions then 1 else 0
      | none =>
          if node ∈ seen then 0
          else
            match left with
            | 0 => 0
            | left + 1 => ((g.rules node).map fun rule =>
                (rule.prerequisites.map fun child => ways g direction left child (node :: seen)).prod).sum

/-- The order of source sets, as sorted lists: shorter first, then by the ids. -/
def SetLt (a b : List String) : Prop := a.length < b.length ∨ (a.length = b.length ∧ a < b)

/-! ## Choosing one member of each list -/

section Product

variable {α : Type} {lists : List (List α)}

theorem mem_product {c : List α} : c ∈ product lists ↔ List.Forall₂ (· ∈ ·) c lists := by
  induction lists generalizing c with
  | nil => simp [product]
  | cons choices rest ih =>
    rw [product, mem_flatMap]
    constructor
    · rintro ⟨a, ha, hc⟩
      obtain ⟨c', hc', rfl⟩ := mem_map.1 hc
      exact List.Forall₂.cons ha (ih.1 hc')
    · intro h
      cases h with
      | @cons a _ c' _ ha hc' => exact ⟨a, ha, mem_map.2 ⟨c', ih.2 hc', rfl⟩⟩

theorem length_product : (product lists).length = (lists.map List.length).prod := by
  induction lists with
  | nil => rfl
  | cons choices rest ih =>
    rw [product, length_flatMap]
    simp only [length_map, map_const', sum_replicate, smul_eq_mul, map_cons,
      prod_cons, ih]

theorem product_eq_nil : product lists = [] ↔ [] ∈ lists := by
  rw [← length_eq_zero_iff, length_product, prod_eq_zero_iff, mem_map]
  constructor
  · rintro ⟨choices, hmem, hzero⟩
    rwa [← length_eq_zero_iff.1 hzero]
  · exact fun hmem => ⟨[], hmem, rfl⟩

end Product

/-- The union of the sets that were chosen. -/
theorem toFinset_sortedNames_flatten (c : List (List String)) :
    (sortedNames c.flatten).toFinset = (c.map List.toFinset).foldr (· ∪ ·) ∅ := by
  have hsame : (sortedNames c.flatten).toFinset = c.flatten.toFinset := by
    ext id
    rw [mem_toFinset, mem_toFinset, sortedNames, mem_insertionSort, mem_dedup]
  rw [hsame]
  induction c with
  | nil => rfl
  | cons ids rest ih =>
    rw [flatten_cons, toFinset_append, map_cons, foldr_cons, ih]
    ext id
    rw [mem_toFinset, sortedNames, mem_insertionSort, mem_dedup, mem_toFinset]

theorem sortedNames_pairwise (names : List String) : (sortedNames names).Pairwise (· < ·) := by
  have hle : (sortedNames names).Pairwise (· ≤ ·) := pairwise_insertionSort _ _
  have hnodup : (sortedNames names).Nodup :=
    (perm_insertionSort _ _).nodup_iff.2 (nodup_dedup names)
  exact hle.imp₂ (fun _ _ hle hne => lt_of_le_of_ne hle hne) hnodup

variable {ids a b : List String}

/-! ## Adding the combinations of the rules -/

section Rules

variable {limit : ℕ} {choices : DependencyRule → List (List (List String))}

variable {alternatives : List (List String)} {lists : List (List (List String))} {rules : List DependencyRule}

theorem addRule_eq_nil : addRule limit alternatives lists = [] ↔ alternatives = [] ∧ [] ∈ lists := by
  unfold addRule
  by_cases hempty : [] ∈ lists
  · rw [if_pos hempty, and_iff_left hempty]
  · rw [if_neg hempty, append_eq_nil_iff, map_eq_nil_iff, take_eq_nil_iff, product_eq_nil]
    refine and_congr_right fun _ => or_iff_right ?_
    omega

theorem foldl_addRule_eq_nil :
    rules.foldl (fun alternatives rule => addRule limit alternatives (choices rule)) alternatives = []
      ↔ alternatives = [] ∧ ∀ rule ∈ rules, [] ∈ choices rule := by
  induction rules generalizing alternatives with
  | nil => simp
  | cons rule rules ih =>
    rw [foldl_cons, ih, addRule_eq_nil, forall_mem_cons, and_assoc]

theorem mem_addRule (h : ids ∈ addRule limit alternatives lists) :
    ids ∈ alternatives ∨ ∃ c ∈ product lists, ids = sortedNames c.flatten := by
  unfold addRule at h
  by_cases hempty : [] ∈ lists
  · rw [if_pos hempty] at h
    exact .inl h
  · rw [if_neg hempty, mem_append] at h
    rcases h with hold | hnew
    · exact .inl hold
    · obtain ⟨c, hc, hids⟩ := mem_map.1 hnew
      exact .inr ⟨c, mem_of_mem_take hc, hids.symm⟩

/-- **Every listed set is a combination of some rule.** -/
theorem mem_foldl_addRule 

    (h : ids ∈ rules.foldl (fun alternatives rule => addRule limit alternatives (choices rule))
      alternatives) :
    ids ∈ alternatives ∨ ∃ rule ∈ rules, ∃ c ∈ product (choices rule), ids = sortedNames c.flatten := by
  induction rules generalizing alternatives with
  | nil => exact .inl h
  | cons rule rules ih =>
    rcases ih h with hadded | ⟨rule', hmem, hrest⟩
    · rcases mem_addRule hadded with hold | hnew
      · exact .inl hold
      · exact .inr ⟨rule, .head _, hnew⟩
    · exact .inr ⟨rule', .tail _ hmem, hrest⟩

/-- **Few combinations are all added.** -/
theorem foldl_addRule_of_le
    (h : alternatives.length + (rules.map fun rule => (product (choices rule)).length).sum ≤ limit) :
    rules.foldl (fun alternatives rule => addRule limit alternatives (choices rule)) alternatives
      = alternatives ++ rules.flatMap fun rule =>
          (product (choices rule)).map fun c => sortedNames c.flatten := by
  induction rules generalizing alternatives with
  | nil => simp
  | cons rule rules ih =>
    rw [map_cons, sum_cons] at h
    have hadd : addRule limit alternatives (choices rule)
        = alternatives ++ (product (choices rule)).map fun c => sortedNames c.flatten := by
      unfold addRule
      by_cases hempty : [] ∈ choices rule
      · rw [if_pos hempty, product_eq_nil.2 hempty, map_nil, append_nil]
      · rw [if_neg hempty, take_of_length_le (by omega)]
    rw [foldl_cons, hadd, ih (by rw [length_append, length_map]; omega),
      flatMap_cons, append_assoc]

end Rules

/-! ## The sets a node lists -/

section Expand

variable {limit left : ℕ} {node : String} {seen : List String}

variable {α β : Type} {P : α → β → Prop} {l : List α} {source : FuzzableSource} {set : Finset String}

/-- Members that were chosen one by one, each with a property. -/
theorem forall₂_map_of_mem {lists : α → List β} {c : List β}
    (h : List.Forall₂ (· ∈ ·) c (l.map lists)) (hP : ∀ a ∈ l, ∀ b ∈ lists a, P a b) :
    List.Forall₂ P l c := by
  induction l generalizing c with
  | nil =>
    cases h
    exact List.Forall₂.nil
  | cons a l ih =>
    cases h with
    | cons hb hc =>
      exact List.Forall₂.cons (hP a mem_cons_self _ hb)
        (ih hc fun a' ha' => hP a' (mem_cons_of_mem a ha'))

/-- Something for each member of a list. -/
theorem exists_forall₂_iff : (∃ bs, List.Forall₂ P l bs) ↔ ∀ a ∈ l, ∃ b, P a b := by
  induction l with
  | nil => exact ⟨nofun, fun _ => ⟨[], List.Forall₂.nil⟩⟩
  | cons a l ih =>
    rw [forall_mem_cons, ← ih]
    constructor
    · rintro ⟨bs, h⟩
      cases h with
      | @cons _ b _ rest hb hrest => exact ⟨⟨b, hb⟩, rest, hrest⟩
    · rintro ⟨⟨b, hb⟩, rest, hrest⟩
      exact ⟨b :: rest, List.Forall₂.cons hb hrest⟩

/-- Sets that are listed one by one are the sets of one choice. -/
theorem exists_choice {Q : α → Finset β → Prop} [DecidableEq β] {lists : α → List (List β)}
    {sets : List (Finset β)} (h : List.Forall₂ Q l sets)
    (hQ : ∀ a ∈ l, ∀ b, Q a b → ∃ ids ∈ lists a, ids.toFinset = b) :
    ∃ c, List.Forall₂ (· ∈ ·) c (l.map lists) ∧ c.map List.toFinset = sets := by
  induction h with
  | nil => exact ⟨[], List.Forall₂.nil, rfl⟩
  | @cons a b l sets ha _ ih =>
    obtain ⟨ids, hids, rfl⟩ := hQ a mem_cons_self b ha
    obtain ⟨c, hc, rfl⟩ := ih fun a' ha' => hQ a' (mem_cons_of_mem a ha')
    exact ⟨ids :: c, List.Forall₂.cons hids hc, rfl⟩

theorem expand_source (hsource : g.sources.get? node = some source) :
    expand g direction limit left node seen
      = if direction ∈ source.directions then [[node]] else [] := by
  unfold expand
  rw [hsource]

theorem expand_rules (hsource : g.sources.get? node = none) (hseen : node ∉ seen) :
    expand g direction limit (left + 1) node seen = (g.rules node).foldl (fun alternatives rule =>
      addRule limit alternatives (rule.prerequisites.map fun child =>
        expand g direction limit left child (node :: seen))) [] := by
  conv_lhs => unfold expand
  rw [hsource]
  exact if_neg hseen

/-- A node that is no source, and is seen before or out of reach, has no sets. -/
theorem expand_stuck (hsource : g.sources.get? node = none) (hstuck : node ∈ seen ∨ left = 0) :
    expand g direction limit left node seen = [] := by
  unfold expand
  rw [hsource]
  split_ifs with hseen
  · rfl
  · obtain rfl := hstuck.resolve_left hseen
    rfl

theorem reaches_source (hsource : g.sources.get? node = some source) :
    Reaches g direction left node seen set ↔ direction ∈ source.directions ∧ set = {node} := by
  unfold Reaches
  rw [hsource]

theorem reaches_rules (hsource : g.sources.get? node = none) (hseen : node ∉ seen) :
    Reaches g direction (left + 1) node seen set ↔ ∃ rule ∈ g.rules node,
      ∃ sets : List (Finset String), List.Forall₂ (fun child set =>
        Reaches g direction left child (node :: seen) set) rule.prerequisites sets ∧
      set = sets.foldr (· ∪ ·) ∅ := by
  conv_lhs => unfold Reaches
  rw [hsource]
  exact and_iff_right hseen

theorem not_reaches_stuck (hsource : g.sources.get? node = none) (hstuck : node ∈ seen ∨ left = 0) :
    ¬ Reaches g direction left node seen set := by
  unfold Reaches
  rw [hsource]
  rintro ⟨hseen, hrest⟩
  obtain rfl := hstuck.resolve_left hseen
  exact hrest

/-- A node is a source, is stuck, or has rules to choose from: the cases of an enumeration. -/
theorem expand_induction {P : ℕ → String → List String → Prop}
    (source : ∀ left node seen s, g.sources.get? node = some s → P left node seen)
    (stuck : ∀ left node seen, g.sources.get? node = none → node ∈ seen ∨ left = 0 → P left node seen)
    (rules : ∀ left node seen, g.sources.get? node = none → node ∉ seen →
      (∀ child, P left child (node :: seen)) → P (left + 1) node seen)
    (left : ℕ) (node : String) (seen : List String) : P left node seen := by
  induction left generalizing node seen with
  | zero =>
    cases hsource : g.sources.get? node with
    | some s => exact source 0 node seen s hsource
    | none => exact stuck 0 node seen hsource (.inr rfl)
  | succ left ih =>
    cases hsource : g.sources.get? node with
    | some s => exact source (left + 1) node seen s hsource
    | none =>
      by_cases hseen : node ∈ seen
      · exact stuck (left + 1) node seen hsource (.inl hseen)
      · exact rules left node seen hsource hseen fun child => ih child (node :: seen)

/-- **Every listed set reaches the node.** -/
theorem reaches_of_mem_expand (h : ids ∈ expand g direction limit left node seen) :
    ids.Pairwise (· < ·) ∧ Reaches g direction left node seen ids.toFinset := by
  induction left, node, seen using @expand_induction g generalizing ids with
  | source left node seen s hsource =>
    rw [expand_source hsource] at h
    rw [reaches_source hsource]
    split_ifs at h with hdir
    · rw [mem_singleton] at h
      subst h
      exact ⟨pairwise_singleton _ _, hdir, rfl⟩
    · cases h
  | stuck left node seen hsource hstuck =>
    rw [expand_stuck hsource hstuck] at h
    cases h
  | rules left node seen hsource hseen ih =>
    rw [expand_rules hsource hseen] at h
    rw [reaches_rules hsource hseen]
    rcases mem_foldl_addRule h with hnil | ⟨rule, hrule, c, hc, rfl⟩
    · cases hnil
    · refine ⟨sortedNames_pairwise _, rule, hrule, c.map List.toFinset, ?_, toFinset_sortedNames_flatten c⟩
      rw [forall₂_map_right_iff]
      exact forall₂_map_of_mem (mem_product.1 hc) fun child _ ids hids => (ih child hids).2

/-- **A node lists a set whenever one reaches it.** -/
theorem expand_eq_nil_iff : expand g direction limit left node seen = [] ↔
    ¬ ∃ set, Reaches g direction left node seen set := by
  induction left, node, seen using @expand_induction g with
  | source left node seen s hsource =>
    rw [expand_source hsource]
    simp only [reaches_source hsource]
    split_ifs with hdir
    · exact ⟨False.elim, fun h => h ⟨{node}, hdir, rfl⟩⟩
    · refine ⟨fun _ => ?_, fun _ => rfl⟩
      rintro ⟨set, hset⟩
      exact hdir hset.1
  | stuck left node seen hsource hstuck =>
    refine ⟨fun _ => ?_, fun _ => expand_stuck hsource hstuck⟩
    rintro ⟨set, hset⟩
    exact not_reaches_stuck hsource hstuck hset
  | rules left node seen hsource hseen ih =>
    rw [expand_rules hsource hseen, foldl_addRule_eq_nil]
    simp only [reaches_rules hsource hseen, mem_map, true_and, ih]
    constructor
    · rintro hall ⟨set, rule, hrule, sets, hsets, -⟩
      obtain ⟨child, hchild, hnone⟩ := hall rule hrule
      exact hnone (exists_forall₂_iff.1 ⟨sets, hsets⟩ child hchild)
    · intro hnone rule hrule
      by_contra hall
      have hsome : ∀ child ∈ rule.prerequisites,
          ∃ set, Reaches g direction left child (node :: seen) set := by
        intro child hchild
        by_contra hchildnone
        exact hall ⟨child, hchild, hchildnone⟩
      obtain ⟨sets, hsets⟩ := exists_forall₂_iff.2 hsome
      exact hnone ⟨_, rule, hrule, sets, hsets, rfl⟩

/-! ## Few choices -/

theorem ways_source (hsource : g.sources.get? node = some source) :
    ways g direction left node seen = if direction ∈ source.directions then 1 else 0 := by
  unfold ways
  rw [hsource]

theorem ways_rules (hsource : g.sources.get? node = none) (hseen : node ∉ seen) :
    ways g direction (left + 1) node seen = ((g.rules node).map fun rule =>
      (rule.prerequisites.map fun child => ways g direction left child (node :: seen)).prod).sum := by
  conv_lhs => unfold ways
  rw [hsource]
  exact if_neg hseen

theorem ways_stuck (hsource : g.sources.get? node = none) (hstuck : node ∈ seen ∨ left = 0) :
    ways g direction left node seen = 0 := by
  unfold ways
  rw [hsource]
  split_ifs with hseen
  · rfl
  · obtain rfl := hstuck.resolve_left hseen
    rfl

theorem le_prod_of_mem {l : List ℕ} {n : ℕ} (hn : n ∈ l) (hpos : 0 ∉ l) : n ≤ l.prod :=
  Nat.le_of_dvd (Nat.pos_of_ne_zero fun h => hpos (prod_eq_zero_iff.1 h)) (dvd_prod hn)

/-- **While there are few ways to choose, all sets that reach the node are listed.** -/
theorem expand_complete (h : ways g direction left node seen ≤ limit) :
    (expand g direction limit left node seen).length = ways g direction left node seen ∧
    ∀ set, Reaches g direction left node seen set →
      ∃ ids ∈ expand g direction limit left node seen, ids.toFinset = set := by
  induction left, node, seen using @expand_induction g with
  | source left node seen s hsource =>
    rw [expand_source hsource, ways_source hsource]
    simp only [reaches_source hsource]
    split_ifs with hdir
    · refine ⟨rfl, ?_⟩
      rintro set ⟨-, rfl⟩
      exact ⟨[node], .head _, rfl⟩
    · exact ⟨rfl, fun set hset => absurd hset.1 hdir⟩
  | stuck left node seen hsource hstuck =>
    rw [expand_stuck hsource hstuck, ways_stuck hsource hstuck]
    exact ⟨rfl, fun set hset => absurd hset (not_reaches_stuck hsource hstuck)⟩
  | rules left node seen hsource hseen ih =>
    rw [ways_rules hsource hseen] at h ⊢
    rw [expand_rules hsource hseen]
    simp only [reaches_rules hsource hseen]
    -- the ways of one rule are at most those of the node
    have hrule : ∀ rule ∈ g.rules node,
        (rule.prerequisites.map fun child => ways g direction left child (node :: seen)).prod ≤ limit :=
      fun rule hrule => (le_sum_of_mem (mem_map_of_mem hrule)).trans h
    -- and so are those of a prerequisite, unless the rule has none
    have hchild : ∀ rule ∈ g.rules node, (∀ child ∈ rule.prerequisites,
          ways g direction left child (node :: seen) ≠ 0) → ∀ child ∈ rule.prerequisites,
        ways g direction left child (node :: seen) ≤ limit := by
      intro rule hmem hpos child hc
      refine le_trans (le_prod_of_mem (mem_map.2 ⟨child, hc, rfl⟩) fun hzero => ?_)
        (hrule rule hmem)
      obtain ⟨child', hc', hzero⟩ := mem_map.1 hzero
      exact hpos child' hc' hzero
    have hlength : ∀ rule ∈ g.rules node, (product (rule.prerequisites.map fun child =>
        expand g direction limit left child (node :: seen))).length =
        (rule.prerequisites.map fun child => ways g direction left child (node :: seen)).prod := by
      intro rule hmem
      rw [length_product, map_map]
      by_cases hpos : ∀ child ∈ rule.prerequisites, ways g direction left child (node :: seen) ≠ 0
      · refine congrArg List.prod (map_congr_left fun child hc => ?_)
        exact (ih child (hchild rule hmem hpos child hc)).1
      · simp only [not_forall, not_not] at hpos
        obtain ⟨child, hc, hzero⟩ := hpos
        have hlist := (ih child (by omega)).1
        rw [hzero] at hlist
        rw [prod_eq_zero (mem_map.2 ⟨child, hc, hlist⟩),
          prod_eq_zero (mem_map.2 ⟨child, hc, hzero⟩)]
    have hsum : ((g.rules node).map fun rule => (product (rule.prerequisites.map fun child =>
        expand g direction limit left child (node :: seen))).length) = (g.rules node).map fun rule =>
          (rule.prerequisites.map fun child => ways g direction left child (node :: seen)).prod :=
      map_congr_left hlength
    rw [foldl_addRule_of_le (by rw [hsum, length_nil, Nat.zero_add]; exact h), nil_append]
    constructor
    · rw [length_flatMap]
      simp only [length_map, hsum]
    · rintro set ⟨rule, hmem, sets, hsets, rfl⟩
      have hpos : ∀ child ∈ rule.prerequisites, ways g direction left child (node :: seen) ≠ 0 := by
        intro child hc hzero
        have hlist := (ih child (by omega)).1
        rw [hzero] at hlist
        exact expand_eq_nil_iff.1 (length_eq_zero_iff.1 hlist)
          (exists_forall₂_iff.1 ⟨sets, hsets⟩ child hc)
      obtain ⟨c, hc, hcsets⟩ := exists_choice hsets fun child hc set hset =>
        (ih child (hchild rule hmem hpos child hc)).2 set hset
      refine ⟨sortedNames c.flatten, mem_flatMap.2 ⟨rule, hmem,
        mem_map.2 ⟨c, mem_product.2 hc, rfl⟩⟩, ?_⟩
      rw [toFinset_sortedNames_flatten, hcsets]

end Expand

/-! ## The paths that are reported -/

theorem setLe_trans {c : List String} (hab : setLe a b) (hbc : setLe b c) : setLe a c := by
  rcases hab with hab | ⟨hab, hle⟩
  · rcases hbc with hbc | ⟨hbc, -⟩
    · exact .inl (hab.trans hbc)
    · exact .inl (hbc ▸ hab)
  · rcases hbc with hbc | ⟨hbc, hle'⟩
    · exact .inl (hab ▸ hbc)
    · exact .inr ⟨hab.trans hbc, le_trans hle hle'⟩

theorem setLe_total (a b : List String) : setLe a b ∨ setLe b a := by
  rcases lt_trichotomy a.length b.length with hlt | heq | hgt
  · exact .inl (.inl hlt)
  · rcases le_total a b with hle | hle
    · exact .inl (.inr ⟨heq, hle⟩)
    · exact .inr (.inr ⟨heq.symm, hle⟩)
  · exact .inr (.inl hgt)

theorem setLt_of_setLe_of_ne (h : setLe a b) (hne : a ≠ b) : SetLt a b := by
  rcases h with hlt | ⟨heq, hle⟩
  · exact .inl hlt
  · exact .inr ⟨heq, lt_of_le_of_ne hle hne⟩

/-- Sorting a list of sets, each once. -/
theorem pairwise_setLt (sets : List (List String)) : (sets.dedup.insertionSort setLe).Pairwise SetLt := by
  have htrans : IsTrans (List String) setLe := ⟨fun _ _ _ => setLe_trans⟩
  have htotal : Std.Total setLe := ⟨setLe_total⟩
  have hle : (sets.dedup.insertionSort setLe).Pairwise setLe := pairwise_insertionSort setLe _
  have hnodup : (sets.dedup.insertionSort setLe).Nodup :=
    (perm_insertionSort setLe _).nodup_iff.2 (nodup_dedup sets)
  exact hle.imp₂ (fun _ _ hle hne => setLt_of_setLe_of_ne hle hne) hnodup

/-- **What `paths_to` reports**: at most `max_paths` sets that reach the target, in order and each once, and
one whenever there is one. While there are at most `4 · max_paths` ways to choose rules they are the first
of all such sets. -/
theorem pathsTo_smallest {target : String} {maxDepth maxPaths : ℤ} {paths : List DependencyPath}
    (h : g.pathsTo target direction maxDepth maxPaths = .ok paths) :
    paths.length ≤ maxPaths ∧ (paths.map DependencyPath.sourceIds).Pairwise SetLt ∧
    (∀ path ∈ paths, path = ⟨target, path.sourceIds, []⟩ ∧ path.sourceIds.Pairwise (· < ·) ∧
      Reaches g direction maxDepth.toNat target [] path.sourceIds.toFinset) ∧
    (paths = [] ↔ ¬ ∃ set, Reaches g direction maxDepth.toNat target [] set) ∧
    (ways g direction maxDepth.toNat target [] ≤ 4 * maxPaths.toNat →
      ∃ all : List (List String), all.Pairwise SetLt ∧ (∀ ids, ids ∈ all ↔ ids.Pairwise (· < ·) ∧
          Reaches g direction maxDepth.toNat target [] ids.toFinset) ∧
        paths.map DependencyPath.sourceIds = all.take maxPaths.toNat) := by
  obtain ⟨⟨-, -, hpaths⟩, h⟩ := ensure_ok.mp h
  have hresult := Except.ok.inj h
  have hids : paths.map DependencyPath.sourceIds = ((expand g direction (maxPaths.toNat * 4)
      maxDepth.toNat target []).dedup.insertionSort setLe).take maxPaths.toNat := by
    rw [← hresult, List.map_map]
    exact List.map_id _
  have hsorted := pairwise_setLt (expand g direction (maxPaths.toNat * 4) maxDepth.toNat target [])
  have hmem : ∀ ids, ids ∈ (expand g direction (maxPaths.toNat * 4) maxDepth.toNat target
      []).dedup.insertionSort setLe ↔
        ids ∈ expand g direction (maxPaths.toNat * 4) maxDepth.toNat target [] := by
    intro ids
    rw [List.mem_insertionSort, List.mem_dedup]
  refine ⟨?_, ?_, fun path hpath => ?_, ?_, fun hways => ?_⟩
  · have hlength := congrArg List.length hids
    rw [List.length_map, List.length_take] at hlength
    omega
  · rw [hids]
    exact hsorted.sublist (List.take_sublist _ _)
  · rw [← hresult] at hpath
    obtain ⟨ids, hin, rfl⟩ := List.mem_map.mp hpath
    obtain ⟨hpairwise, hreaches⟩ := reaches_of_mem_expand ((hmem ids).mp (List.mem_of_mem_take hin))
    exact ⟨rfl, hpairwise, hreaches⟩
  · have hempty := @expand_eq_nil_iff g direction (maxPaths.toNat * 4) maxDepth.toNat target []
    rw [← hempty, ← hresult, List.map_eq_nil_iff, List.take_eq_nil_iff, or_iff_right (by omega),
      ← List.length_eq_zero_iff, List.length_insertionSort, List.length_eq_zero_iff, List.dedup_eq_nil]
  · refine ⟨_, hsorted, fun ids => ?_, hids⟩
    rw [hmem]
    constructor
    · exact reaches_of_mem_expand
    · rintro ⟨hpairwise, hreaches⟩
      obtain ⟨ids', hids', hsame⟩ := (expand_complete (hways.trans_eq (Nat.mul_comm 4 _))).2 _ hreaches
      -- a set has one sorted list
      have hpairwise' := (reaches_of_mem_expand hids').1
      have hperm : ids'.Perm ids := List.perm_of_nodup_nodup_toFinset_eq
        (hpairwise'.imp fun h => ne_of_lt h) (hpairwise.imp fun h => ne_of_lt h) hsame
      have heq : ids' = ids := hperm.eq_of_pairwise
        (fun a b _ _ hab hba => absurd hab (lt_asymm hba)) hpairwise' hpairwise
      rw [← heq]
      exact hids'

/-! ## A small set that is cut off -/

/-- One bit of a pin that the peripheral reads. -/
def pin (id : String) : FuzzableSource := ⟨id, "gpio", "in", 0, 1, [.ipToCpu], .source, none⟩

/-- The target asks for `x` and `y`, which have two and three rules and the source `b` in common. -/
def crossGraph : DependencyGraph :=
  .ofInputs [pin "a", pin "b", pin "c", pin "d"]
    [⟨"t", ["x", "y"], .dataBinding⟩, ⟨"x", ["a"], .dataBinding⟩, ⟨"x", ["b"], .dataBinding⟩,
      ⟨"y", ["c"], .dataBinding⟩, ⟨"y", ["d"], .dataBinding⟩, ⟨"y", ["b"], .dataBinding⟩]
    (by decide +kernel)

/-- With room for eight sets all six are listed, and the smallest come first. -/
theorem crossGraph_all : ∃ paths, crossGraph.pathsTo "t" .ipToCpu 16 2 = .ok paths ∧
    ∃ all : List (List String), all.Pairwise SetLt ∧ (∀ ids, ids ∈ all ↔ ids.Pairwise (· < ·) ∧
        Reaches crossGraph .ipToCpu 16 "t" [] ids.toFinset) ∧
      paths.map DependencyPath.sourceIds = all.take 2 := by
  have hpaths : crossGraph.pathsTo "t" .ipToCpu 16 2
      = .ok [⟨"t", ["b"], []⟩, ⟨"t", ["a", "b"], []⟩] := by decide +kernel
  exact ⟨_, hpaths, (pathsTo_smallest hpaths).2.2.2.2 (by decide +kernel)⟩

/-- **With room for four the only set of one source is not among them**, so it is not reported. -/
theorem smallest_set_cut_off : ∃ paths, crossGraph.pathsTo "t" .ipToCpu 16 1 = .ok paths ∧
    Reaches crossGraph .ipToCpu 16 "t" [] {"b"} ∧ ∀ path ∈ paths, SetLt ["b"] path.sourceIds := by
  refine ⟨[⟨"t", ["a", "b"], []⟩], by decide +kernel, ?_, fun path hpath => ?_⟩
  · have hmem : ["b"] ∈ expand crossGraph .ipToCpu 8 16 "t" [] := by decide +kernel
    exact (reaches_of_mem_expand hmem).2
  · rw [List.mem_singleton.mp hpath]
    exact .inl (by decide)

end DependencyGraph

end MyFuzz
