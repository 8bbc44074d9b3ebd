import MyFuzz.Composition.RuleClosure
import MyFuzz.Foundations.PathSearch

/-!
# Composition/ClosureLaw — the closure is the dependency relation

The walk from a rule is a depth-first search that carries its path (`PathSearch`): it sees exactly
the other rules that
the rule reaches, and it records a cycle wherever a writer is on the path.  A cycle is recorded with
the whole path:

    A ──▸ B ⇄ C        the walk from A records A B C, the walk from B records B C

So the recorded rules can all reach one another exactly when no walk is led into a loop it cannot
come back from (`closure_exact_iff`).
-/

namespace MyFuzz

open Outcome Sequence PathSearch Dict

namespace RuleClosure

variable {rules : List ConstraintRule}

/-! ## Dependencies -/

/-- A rule reads a field that another writes. -/
def Depends (rules : List ConstraintRule) (a b : String) : Prop :=
  ∃ rule ∈ rules, rule.ruleId = a ∧ ∃ other ∈ rules, other.ruleId = b ∧ ∃ field ∈ rule.readSet,
    field ∈ other.writeSet

/-- **Following reads to the rules that write them.** -/
abbrev DependsOn (rules : List ConstraintRule) : String → String → Prop := Relation.TransGen (Depends rules)

/-- The rules that write a field, as the walk looks them up. -/
def writersOf (rules : List ConstraintRule) (field : String) : List String := (writesOf rules).getD field []

theorem getD_foldl_append (ruleId field : String) :
    ∀ (fields : List String) (writes : Dict String (List String)) {p : String},
    p ∈ (fields.foldl (fun writes name => writes.set name (writes.getD name [] ++ [ruleId]))
      writes).getD field [] ↔
      p ∈ writes.getD field [] ∨ p = ruleId ∧ field ∈ fields
  | [], writes, p => by simp
  | name :: fields, writes, p => by
      rw [List.foldl_cons, getD_foldl_append, List.mem_cons]
      by_cases hname : field = name
      · subst hname
        rw [getD_set_self, List.mem_append, List.mem_singleton]
        tauto
      · rw [getD_set_of_ne _ hname]
        tauto

variable {field p a b ruleId : String} {path : List String} {k : ℕ} {item : ConstraintRule}

theorem mem_writersOf :
    p ∈ writersOf rules field ↔ ∃ rule ∈ rules, rule.ruleId = p ∧ field ∈ rule.writeSet := by
  have hfold : ∀ (rules : List ConstraintRule) (writes : Dict String (List String)),
      p ∈ (rules.foldl (fun writes item =>
        item.writeSet.foldl (fun writes name =>
          writes.set name (writes.getD name [] ++ [item.ruleId])) writes)
          writes).getD field [] ↔ p ∈ writes.getD field [] ∨ ∃ rule ∈ rules, rule.ruleId = p ∧
            field ∈ rule.writeSet := by
    intro rules
    induction rules with
    | nil => simp
    | cons rule rules ih =>
      intro writes
      rw [List.foldl_cons, ih, getD_foldl_append, List.exists_mem_cons_iff, or_assoc, eq_comm (a := p)]
  rw [writersOf, writesOf, hfold]
  simp [getD]

/-- No two rules have one name. -/
def Distinct (rules : List ConstraintRule) : Prop := (rules.map ConstraintRule.ruleId).Nodup

theorem readsOf_of_mem (h : Distinct rules) {rule : ConstraintRule} (hrule : rule ∈ rules) :
    readsOf rules rule.ruleId = rule.readSet := by
  unfold readsOf
  cases hfind : rules.find? fun later => later.ruleId = rule.ruleId with
  | none => exact absurd (decide_eq_true rfl) (List.find?_eq_none.1 hfind rule hrule)
  | some later =>
    have hname : later.ruleId = rule.ruleId := by simpa using List.find?_some hfind
    rw [List.inj_on_of_nodup_map h (List.mem_of_find?_eq_some hfind) hrule hname]

theorem exists_of_mem_readsOf (h : field ∈ readsOf rules a) :
    ∃ rule ∈ rules, rule.ruleId = a ∧ field ∈ rule.readSet := by
  unfold readsOf at h
  cases hfind : rules.find? fun later => later.ruleId = a with
  | none =>
    rw [hfind] at h
    cases h
  | some later =>
    rw [hfind] at h
    exact ⟨later, List.mem_of_find?_eq_some hfind, by simpa using List.find?_some hfind, h⟩

/-- The walk leads from a rule to the rules it depends on. -/
theorem leads_iff (h : Distinct rules) : Leads (writersOf rules) (readsOf rules) a b ↔ Depends rules a b := by
  constructor
  · rintro ⟨field, hreads, hwrites⟩
    obtain ⟨rule, hrule, rfl, hfield⟩ := exists_of_mem_readsOf hreads
    obtain ⟨other, hother, rfl, hwritten⟩ := mem_writersOf.1 hwrites
    exact ⟨rule, hrule, rfl, other, hother, rfl, field, hfield, hwritten⟩
  · rintro ⟨rule, hrule, rfl, other, hother, rfl, field, hfield, hwrites⟩
    exact ⟨field, (readsOf_of_mem h hrule).symm ▸ hfield, mem_writersOf.2 ⟨other, hother, rfl, hwrites⟩⟩

theorem reaches_iff (h : Distinct rules) :
    Reaches (writersOf rules) (readsOf rules) a b ↔ DependsOn rules a b := by
  have heq : Leads (writersOf rules) (readsOf rules) = Depends rules := funext₂ fun a b =>
    propext (leads_iff h)
  rw [Reaches, heq]

theorem mem_cycleOf {q : String} (hp : p ∈ path) : q ∈ cycleOf path p ↔ q ∈ path := by
  rw [cycleOf, List.mem_insertionSort, mem_firsts, List.mem_append, List.mem_singleton]
  exact ⟨fun h => h.elim id fun h => h ▸ hp, .inl⟩

/-! ## The walk is a search -/

/-- What a walk has seen and has still to follow. -/
def Walk.search (walk : Walk) : Search String String := ⟨walk.seen, walk.pending⟩

theorem visit_eq_ok {producer : String} {walk walk' : Walk}
    (h : visit rules ruleId path walk producer = .ok walk') :
    walk'.search = discover (readsOf rules) path walk.search producer ∧
      ∀ c, c ∈ walk'.cycles ↔ c ∈ walk.cycles ∨ producer ∈ path ∧ c = cycleOf path producer := by
  obtain ⟨-, h⟩ := ensure_ok.1 h
  unfold discover
  by_cases hpath : producer ∈ path
  · rw [if_pos hpath] at h
    cases h
    rw [if_pos (.inl hpath)]
    exact ⟨rfl, fun c => by rw [mem_addNew]; simp only [hpath, true_and]⟩
  · rw [if_neg hpath] at h
    split_ifs at h with hseen
    · cases h
      rw [if_pos (.inr hseen)]
      exact ⟨rfl, fun c => by simp only [hpath, false_and, or_false]⟩
    · cases h
      rw [if_neg (not_or.2 ⟨hpath, show producer ∉ walk.search.seen from hseen⟩)]
      exact ⟨rfl, fun c => by simp only [hpath, false_and, or_false]⟩

theorem foldlM_visit : ∀ {producers : List String} {walk walk' : Walk},
    producers.foldlM (visit rules ruleId path) walk = .ok walk' →
      walk'.search = producers.foldl (discover (readsOf rules) path) walk.search ∧
        ∀ c, c ∈ walk'.cycles ↔ c ∈ walk.cycles ∨ ∃ p ∈ producers, p ∈ path ∧ c = cycleOf path p
  | [], walk, walk', h => by
      cases h
      exact ⟨rfl, fun c => by simp⟩
  | producer :: producers, walk, walk', h => by
      rw [List.foldlM_cons] at h
      obtain ⟨middle, hmiddle, h⟩ := bind_ok.1 h
      obtain ⟨hsearch, hcycles⟩ := visit_eq_ok hmiddle
      obtain ⟨hsearch', hcycles'⟩ := foldlM_visit h
      refine ⟨by rw [hsearch', hsearch, List.foldl_cons], fun c => ?_⟩
      rw [hcycles', hcycles, List.exists_mem_cons_iff, or_assoc]

/-- The cycle that the search of a rule closes at a step. -/
def ClosesAt (rules : List ConstraintRule) (ruleId : String) (k : ℕ) (c : List String) : Prop :=
  ∃ field path, Follows (writersOf rules) (readsOf rules) ruleId k field path ∧
    ∃ p ∈ writersOf rules field, p ∈ path ∧ c = cycleOf path p

/-- **A walk is the search of its rule until that stops**, with the cycles it closes on the way. -/
theorem walkFrom_eq_ok : ∀ {fuel k : ℕ} {walk walk' : Walk},
    walk.search = state (writersOf rules) (readsOf rules) ruleId k →
      walkFrom rules (writesOf rules) ruleId fuel walk = .ok walk' →
        ∃ m, k ≤ m ∧ walk'.search = state (writersOf rules) (readsOf rules) ruleId m ∧ walk'.pending = [] ∧
          ∀ c, c ∈ walk'.cycles ↔ c ∈ walk.cycles ∨ ∃ i, k ≤ i ∧ i < m ∧ ClosesAt rules ruleId i c := by
  intro fuel
  induction fuel with
  | zero =>
    intro k walk walk' hsearch h
    unfold walkFrom at h
    cases hpending : walk.pending with
    | nil =>
      rw [hpending] at h
      cases h
      exact ⟨k, le_rfl, hsearch, hpending, fun c => ⟨.inl, fun h => h.elim id fun ⟨i, h1, h2, _⟩ => by omega⟩⟩
    | cons entry rest =>
      rw [hpending] at h
      cases h
  | succ fuel ih =>
    intro k walk walk' hsearch h
    unfold walkFrom at h
    cases hpending : walk.pending with
    | nil =>
      rw [hpending] at h
      cases h
      exact ⟨k, le_rfl, hsearch, hpending, fun c => ⟨.inl, fun h => h.elim id fun ⟨i, h1, h2, _⟩ => by omega⟩⟩
    | cons entry rest =>
      obtain ⟨name, path⟩ := entry
      rw [hpending] at h
      obtain ⟨middle, hmiddle, h⟩ := bind_ok.1 h
      obtain ⟨hvisited, hcycles⟩ := foldlM_visit hmiddle
      have hk : (state (writersOf rules) (readsOf rules) ruleId k).pending = (name, path) :: rest := by
        rw [← hsearch]
        exact hpending
      have hnext : middle.search = state (writersOf rules) (readsOf rules) ruleId (k + 1) := by
        rw [state_succ, ← hsearch, hvisited]
        unfold next
        rw [show walk.search.pending = (name, path) :: rest from hpending]
        rfl
      obtain ⟨m, hm, hend, hstop, hcycles'⟩ := ih hnext h
      refine ⟨m, by omega, hend, hstop, fun c => ?_⟩
      rw [hcycles', hcycles]
      constructor
      · rintro ((hold | ⟨p, hp, hpath, rfl⟩) | ⟨i, hi, hlt, hcloses⟩)
        · exact .inl hold
        · exact .inr ⟨k, le_rfl, by omega, name, path, ⟨rest, hk⟩, p, hp, hpath, rfl⟩
        · exact .inr ⟨i, by omega, hlt, hcloses⟩
      · rintro (hold | ⟨i, hi, hlt, hcloses⟩)
        · exact .inl (.inl hold)
        · rcases eq_or_lt_of_le hi with rfl | hi
          · obtain ⟨field, path', ⟨rest', hfollows⟩, p, hp, hpath, rfl⟩ := hcloses
            rw [hk] at hfollows
            obtain ⟨heq, -⟩ := List.cons.inj hfollows
            cases heq
            exact .inl (.inr ⟨p, hp, hpath, rfl⟩)
          · exact .inr ⟨i, hi, hlt, hcloses⟩

/-! ## The closure -/

/-- The search of a rule that has stopped. -/
def Stopped (rules : List ConstraintRule) (ruleId : String) (k : ℕ) : Prop :=
  (state (writersOf rules) (readsOf rules) ruleId k).pending = []

theorem not_follows_of_stopped {i : ℕ} (h : Stopped rules ruleId k) (hi : k ≤ i) :
    ¬ Follows (writersOf rules) (readsOf rules) ruleId i field path := by
  have hstill : Stopped rules ruleId i := by
    induction i, hi using Nat.le_induction with
    | base => exact h
    | succ i _ ih =>
      rw [Stopped, state_succ, next_of_nil ih]
      exact ih
  rintro ⟨rest, hpending⟩
  rw [Stopped, hpending] at hstill
  cases hstill

/-- The walk of a rule starts as its search does. -/
theorem search_start (hids : Distinct rules) (hitem : item ∈ rules) (cycles : List (List String))
    (steps : ℕ) :
    Walk.search ⟨[], pushed item.readSet [item.ruleId], cycles, steps⟩ =
      start (readsOf rules) item.ruleId := by
  rw [← readsOf_of_mem hids hitem]
  rfl

/-- The walk from one rule notes what the rule depends on, and adds the cycles that its search closes. -/
theorem closeRule_eq_ok (hids : Distinct rules) (hitem : item ∈ rules) {closing closing' : Closing}
    (h : closeRule rules (writesOf rules) closing item = .ok closing') :
    ∃ seen : List String, closing'.1 = closing.1.set item.ruleId seen ∧
      (∀ j, j ∈ seen ↔ j ≠ item.ruleId ∧ DependsOn rules item.ruleId j) ∧
      ∀ c, c ∈ closing'.2.1 ↔ c ∈ closing.2.1 ∨ ∃ k, ClosesAt rules item.ruleId k c := by
  obtain ⟨walk, hwalk, h⟩ := bind_ok.1 h
  cases h
  obtain ⟨m, -, hend, hpending, hcycles⟩ := walkFrom_eq_ok (k := 0) (search_start hids hitem _ _) hwalk
  have hstop : Stopped rules item.ruleId m := by
    rw [Stopped, ← hend]
    exact hpending
  refine ⟨walk.seen, rfl, fun j => ?_, fun c => (hcycles c).trans (or_congr_right ?_)⟩
  · rw [← reaches_iff hids, ← mem_seen_of_stopped hstop, ← hend]
    rfl
  · refine ⟨fun ⟨k, _, _, hcloses⟩ => ⟨k, hcloses⟩, fun ⟨k, hcloses⟩ => ⟨k, Nat.zero_le k, ?_, hcloses⟩⟩
    obtain ⟨field, path, hfollows, -⟩ := hcloses
    exact not_le.1 fun hle => not_follows_of_stopped hstop hle hfollows

/-- **All walks**: each rule is given what it depends on, and the cycles are the ones that the
searches close. -/
theorem foldlM_closeRule (hids : Distinct rules) :
    ∀ {items : List ConstraintRule} {closing closing' : Closing},
    (∀ item ∈ items, item ∈ rules) → items.foldlM (closeRule rules (writesOf rules)) closing = .ok closing' →
      (∀ id, id ∈ closing'.1.keys ↔ id ∈ closing.1.keys ∨ id ∈ items.map ConstraintRule.ruleId) ∧
      (∀ id seen, (closing'.1.get? id = some seen → closing.1.get? id = some seen ∨
        ∀ j, j ∈ seen ↔ j ≠ id ∧ DependsOn rules id j)) ∧
      ∀ c, c ∈ closing'.2.1 ↔ c ∈ closing.2.1 ∨ ∃ item ∈ items, ∃ k, ClosesAt rules item.ruleId k c
  | [], closing, closing', _, h => by
      cases h
      exact ⟨fun id => by simp, fun id seen h => .inl h, fun c => by simp⟩
  | item :: items, closing, closing', hitems, h => by
      rw [List.foldlM_cons] at h
      obtain ⟨middle, hmiddle, h⟩ := bind_ok.1 h
      obtain ⟨hitem, hitems⟩ := List.forall_mem_cons.1 hitems
      obtain ⟨seen, hset, hseen, hcycles⟩ := closeRule_eq_ok hids hitem hmiddle
      obtain ⟨hkeys', hget', hcycles'⟩ := foldlM_closeRule hids hitems h
      refine ⟨fun id => ?_, fun id deps hdeps => ?_, fun c => ?_⟩
      · rw [hkeys', hset, mem_keys_iff, mem_keys_iff, get?_set, List.map_cons, List.mem_cons]
        by_cases hid : id = item.ruleId
        · simp [hid]
        · simp [hid]
      · rcases hget' id deps hdeps with hold | hnew
        · rw [hset, get?_set] at hold
          split_ifs at hold with hid
          · cases hold
            exact .inr (hid ▸ hseen)
          · exact .inl hold
        · exact .inr hnew
      · rw [hcycles', hcycles, List.exists_mem_cons_iff, or_assoc]

/-- **The result of the closure**: the names of the rules, in order; for each the other rules it depends on;
and the cycles that the searches close. -/
theorem closure_eq_ok (hids : Distinct rules) {deps : List (String × List String)}
    {cycles : List (List String)}
    (h : closure rules = .ok (deps, cycles)) :
    (∀ id, id ∈ deps.map Prod.fst ↔ id ∈ rules.map ConstraintRule.ruleId) ∧ (deps.map Prod.fst).Nodup ∧
    (∀ entry ∈ deps, ∀ j, j ∈ entry.2 ↔ j ≠ entry.1 ∧ DependsOn rules entry.1 j) ∧
    ∀ c, c ∈ cycles ↔ ∃ item ∈ rules, ∃ k, ClosesAt rules item.ruleId k c := by
  obtain ⟨⟨closing, found, steps⟩, hfold, h⟩ := bind_ok.1 h
  cases Except.ok.inj h
  obtain ⟨hkeys, hget, hcycles⟩ := foldlM_closeRule hids (fun item h => h) hfold
  have hnames : (((closing.entries.insertionSort fun a b => a.1 ≤ b.1).map fun e =>
      (e.1, e.2.insertionSort (· ≤ ·))).map Prod.fst).Perm closing.keys := by
    rw [List.map_map]
    exact (List.perm_insertionSort _ _).map _
  refine ⟨fun id => ?_, hnames.nodup_iff.2 closing.nodup, fun entry hentry j => ?_, fun c => ?_⟩
  · rw [hnames.mem_iff, hkeys]
    exact ⟨fun h => h.resolve_left List.not_mem_nil, .inr⟩
  · obtain ⟨e, he, rfl⟩ := List.mem_map.1 hentry
    rw [List.mem_insertionSort] at he
    rw [List.mem_insertionSort]
    exact (hget e.1 e.2 (mem_entries_iff.1 he)).resolve_left (fun h => by cases h) j
  · rw [List.mem_insertionSort, hcycles]
    exact ⟨fun h => h.resolve_left List.not_mem_nil, .inr⟩

/-! ## The walk ends -/

theorem onlyValueError_visit (ruleId producer : String) (path : List String) (walk : Walk) :
    OnlyValueError (visit rules ruleId path walk producer) := by
  refine onlyValueError_ensure_bind.2 fun _ => ?_
  split_ifs <;> exact onlyValueError_ok _

theorem onlyValueError_foldlM_visit (ruleId : String) (path : List String) :
    ∀ (producers : List String) (walk : Walk),
    OnlyValueError (producers.foldlM (visit rules ruleId path) walk)
  | [], _ => onlyValueError_ok _
  | producer :: producers, walk => by
      rw [List.foldlM_cons]
      exact onlyValueError_bind.2 ⟨onlyValueError_visit _ _ _ _,
        fun walk' _ => onlyValueError_foldlM_visit ruleId path producers walk'⟩

theorem writersOf_subset (rules : List ConstraintRule) :
    ∀ field, ∀ p ∈ writersOf rules field, p ∈ rules.map ConstraintRule.ruleId := by
  intro field p h
  obtain ⟨rule, hrule, rfl, -⟩ := mem_writersOf.1 h
  exact List.mem_map_of_mem hrule

/-- **A walk with enough fuel ends**: it stops, or the visits are too many. -/
theorem onlyValueError_walkFrom (ruleId : String) : ∀ (fuel : ℕ) (walk : Walk),
    PathSearch.measure (readsOf rules) (rules.map ConstraintRule.ruleId) walk.search ≤ fuel →
      OnlyValueError (walkFrom rules (writesOf rules) ruleId fuel walk) := by
  intro fuel
  induction fuel with
  | zero =>
    intro walk hfuel
    unfold walkFrom
    have hpending : walk.pending = [] := by
      refine List.length_eq_zero_iff.1 (Nat.eq_zero_of_le_zero (le_trans ?_ hfuel))
      exact Nat.le_add_right _ _
    rw [hpending]
    exact onlyValueError_ok _
  | succ fuel ih =>
    intro walk hfuel
    unfold walkFrom
    cases hpending : walk.pending with
    | nil => exact onlyValueError_ok _
    | cons entry rest =>
      obtain ⟨name, path⟩ := entry
      refine onlyValueError_bind.2 ⟨onlyValueError_foldlM_visit _ _ _ _, fun middle hmiddle => ih middle ?_⟩
      have hless := measure_next (s := walk.search) (readsOf rules) (writersOf_subset rules)
        (by rw [show walk.search.pending = _ from hpending]; exact List.cons_ne_nil _ _)
      have hnext : middle.search = next (writersOf rules) (readsOf rules) walk.search := by
        rw [(foldlM_visit hmiddle).1]
        unfold next
        rw [show walk.search.pending = (name, path) :: rest from hpending]
        rfl
      rw [hnext]
      omega

theorem measure_start_le (hids : Distinct rules) (hitem : item ∈ rules) :
    PathSearch.measure (readsOf rules) (rules.map ConstraintRule.ruleId) (start (readsOf rules) item.ruleId) ≤
      fuelOf rules item := by
  have hall : (rules.map ConstraintRule.ruleId).filter
    (fun n => n ∉ (start (readsOf rules) item.ruleId : Search String
      String).seen) = rules.map ConstraintRule.ruleId :=
    List.filter_eq_self.2 fun n _ => decide_eq_true List.not_mem_nil
  rw [PathSearch.measure, hall, start, length_entries, readsOf_of_mem hids hitem, fuelOf, List.map_map]
  refine Nat.add_le_add_left (le_of_eq (congrArg List.sum (List.map_congr_left fun rule hrule => ?_))) _
  exact congrArg List.length (readsOf_of_mem hids hrule)

/-- **The closure is computed, or the visits are too many.** -/
theorem onlyValueError_closure (hids : Distinct rules) : OnlyValueError (closure rules) := by
  have hfold : ∀ (items : List ConstraintRule) (closing : Closing), (∀ item ∈ items, item ∈ rules) →
      OnlyValueError (items.foldlM (closeRule rules (writesOf rules)) closing) := by
    intro items
    induction items with
    | nil => exact fun _ _ => onlyValueError_ok _
    | cons item items ih =>
      intro closing hitems
      obtain ⟨hitem, hitems⟩ := List.forall_mem_cons.1 hitems
      rw [List.foldlM_cons]
      refine onlyValueError_bind.2 ⟨onlyValueError_bind.2 ⟨onlyValueError_walkFrom _ _ _ ?_,
        fun _ _ => onlyValueError_ok _⟩, fun closing' _ => ih closing' hitems⟩
      rw [search_start hids hitem]
      exact measure_start_le hids hitem
  exact onlyValueError_bind.2 ⟨hfold rules _ fun _ h => h, fun _ _ => onlyValueError_ok _⟩

/-! ## Exactness -/

/-- **The exact dependency relation**: closures are the other rules depended on, a rule is on a cycle
exactly when it depends on itself, and the rules of a cycle depend on one another. -/
structure Exact (rules : List ConstraintRule) (deps : List (String × List String))
    (cycles : List (List String)) :
    Prop where
  names : ∀ id, id ∈ deps.map Prod.fst ↔ id ∈ rules.map ConstraintRule.ruleId
  distinct : (deps.map Prod.fst).Nodup
  closure : ∀ entry ∈ deps, ∀ j, j ∈ entry.2 ↔ j ≠ entry.1 ∧ DependsOn rules entry.1 j
  cyclic : ∀ rule ∈ rules, (∃ c ∈ cycles, rule.ruleId ∈ c) ↔ DependsOn rules rule.ruleId rule.ruleId
  together : ∀ c ∈ cycles, ∀ a ∈ c, ∀ b ∈ c, DependsOn rules a b

/-- **No search is led into a loop it cannot leave**: whenever the search of a rule takes a field, a
writer of the field that is on the path depends on the rule. -/
def LoopsReturn (rules : List ConstraintRule) : Prop :=
  ∀ rule ∈ rules, ∀ k field path, Follows (writersOf rules) (readsOf rules) rule.ruleId k field path →
    ∀ p ∈ writersOf rules field, p ∈ path → DependsOn rules p rule.ruleId

/-- The rules of a cycle depend on one another exactly when the writer depends on the rule of the search. -/
theorem mutual_cycleOf (hids : Distinct rules)
    (hfollows : Follows (writersOf rules) (readsOf rules) ruleId k field path)
    (hp : p ∈ writersOf rules field) (hpath : p ∈ path) :
    (∀ a ∈ cycleOf path p, ∀ b ∈ cycleOf path p, DependsOn rules a b) ↔ DependsOn rules p ruleId := by
  obtain ⟨rest, hpending⟩ := hfollows
  obtain ⟨n, htrail, hreads⟩ := (sound_state ruleId k).trail field path (hpending ▸ List.mem_cons_self)
  rw [← reaches_iff hids, ← htrail.mutual_iff hpath ⟨field, hreads, hp⟩]
  refine forall_congr' fun a =>
    imp_congr (mem_cycleOf hpath) (forall_congr' fun b => imp_congr (mem_cycleOf hpath) ?_)
  exact (reaches_iff hids).symm

theorem exists_stopped (rules : List ConstraintRule) (ruleId : String) : ∃ m, Stopped rules ruleId m :=
  ⟨_, stopped _ (writersOf_subset rules) ruleId le_rfl⟩

/-- A rule that depends on itself is on a cycle that its own search closes. -/
theorem exists_cycle (hids : Distinct rules) (h : DependsOn rules ruleId ruleId) :
    ∃ k c, ClosesAt rules ruleId k c ∧ ruleId ∈ c := by
  obtain ⟨m, hstop⟩ := exists_stopped rules ruleId
  obtain ⟨n, hn, field, hreads, hwrites⟩ : ∃ n,
    (n = ruleId ∨ n ∈ (state (writersOf rules) (readsOf rules) ruleId
      m).seen) ∧ Leads (writersOf rules) (readsOf rules) n ruleId := by
    obtain ⟨n, hto, hlead⟩ := Relation.TransGen.tail'_iff.1 ((reaches_iff hids).2 h)
    refine ⟨n, ?_, hlead⟩
    by_cases hn : n = ruleId
    · exact .inl hn
    · exact .inr ((mem_seen_of_stopped hstop).2
        ⟨hn, (Relation.reflTransGen_iff_eq_or_transGen.1 hto).resolve_left hn⟩)
  obtain ⟨k, -, path, hfollows, htrail⟩ := follows_of_stopped hstop hn hreads
  exact ⟨k, cycleOf path ruleId, ⟨field, path, hfollows, ruleId, hwrites, htrail.mem_start, rfl⟩,
    (mem_cycleOf htrail.mem_start).2 htrail.mem_start⟩

/-- No field is written by two rules. -/
def OneWriter (rules : List ConstraintRule) : Prop :=
  ∀ rule ∈ rules, ∀ other ∈ rules, ∀ field ∈ rule.writeSet, field ∈ other.writeSet →
    rule.ruleId = other.ruleId

/-- Every rule that leads into a loop is on it. -/
def NoLeadIn (rules : List ConstraintRule) : Prop :=
  ∀ rule ∈ rules, ∀ j, DependsOn rules rule.ruleId j → DependsOn rules j j → DependsOn rules j rule.ruleId

theorem loopsReturn_of_noLeadIn (hids : Distinct rules) (h : NoLeadIn rules) : LoopsReturn rules := by
  rintro rule hrule k field path ⟨rest, hpending⟩ p hp hpath
  obtain ⟨n, htrail, hreads⟩ := (sound_state rule.ruleId k).trail field path (hpending ▸ List.mem_cons_self)
  have hlead : Leads (writersOf rules) (readsOf rules) n p := ⟨field, hreads, hp⟩
  exact h rule hrule p ((reaches_iff hids).1 (htrail.reaches_of_leads htrail.mem_start hlead))
    ((reaches_iff hids).1 (htrail.reaches_of_leads hpath hlead))

theorem noLeadIn_of_loopsReturn (hids : Distinct rules) (hone : OneWriter rules) (h : LoopsReturn rules) :
    NoLeadIn rules := by
  intro rule hrule j hto hloop
  by_contra hback
  have hsingle : ∀ f, ∀ p ∈ writersOf rules f, ∀ q ∈ writersOf rules f, p = q := by
    intro f p hp q hq
    obtain ⟨a, ha, rfl, hfa⟩ := mem_writersOf.1 hp
    obtain ⟨b, hb, rfl, hfb⟩ := mem_writersOf.1 hq
    exact hone a ha b hb f hfa hfb
  obtain ⟨k, field, path, hfollows, p, hp, hpath, hno⟩ :=
    exists_loop_of_single (writersOf_subset rules) hsingle
    ((reaches_iff hids).2 hto) ((reaches_iff hids).2 hloop) (fun hj => hback ((reaches_iff hids).1 hj))
  exact hno ((reaches_iff hids).2 (h rule hrule k field path hfollows p hp hpath))

/-- **The closure is exact exactly when no search is led into a loop it cannot leave.** The closures, and a
cycle of every rule that depends on itself, are always there; where no field has two writers, the condition
is that every rule that leads into a loop is on it. -/
theorem closure_exact_iff (rules : List ConstraintRule) (hids : Distinct rules) :
    OnlyValueError (closure rules) ∧ (∀ deps cycles, closure rules = .ok (deps, cycles) →
        (Exact rules deps cycles ↔ LoopsReturn rules) ∧
        (∀ entry ∈ deps, ∀ j, j ∈ entry.2 ↔ j ≠ entry.1 ∧ DependsOn rules entry.1 j) ∧
        ∀ rule ∈ rules, DependsOn rules rule.ruleId rule.ruleId → ∃ c ∈ cycles, rule.ruleId ∈ c) ∧
      (NoLeadIn rules → LoopsReturn rules) ∧ (OneWriter rules → LoopsReturn rules → NoLeadIn rules) := by
  refine ⟨onlyValueError_closure hids, fun deps cycles h => ?_, loopsReturn_of_noLeadIn hids,
    noLeadIn_of_loopsReturn hids⟩
  obtain ⟨hnames, hnodup, hclosure, hcycles⟩ := closure_eq_ok hids h
  have hcyclic : ∀ rule ∈ rules, DependsOn rules rule.ruleId rule.ruleId → ∃ c ∈ cycles, rule.ruleId ∈ c := by
    intro rule hrule hself
    obtain ⟨k, c, hcloses, hmem⟩ := exists_cycle hids hself
    exact ⟨c, (hcycles c).mpr ⟨rule, hrule, k, hcloses⟩, hmem⟩
  refine ⟨⟨fun hexact => ?_, fun hreturn => ?_⟩, hclosure, hcyclic⟩
  · intro rule hrule k field path hfollows p hp hpath
    have hfound := (hcycles (cycleOf path p)).mpr ⟨rule, hrule, k, field, path, hfollows, p, hp, hpath, rfl⟩
    exact (mutual_cycleOf hids hfollows hp hpath).mp (hexact.together _ hfound)
  · have htogether : ∀ c ∈ cycles, ∀ a ∈ c, ∀ b ∈ c, DependsOn rules a b := by
      intro c hc
      obtain ⟨rule, hrule, k, field, path, hfollows, p, hp, hpath, rfl⟩ := (hcycles c).mp hc
      exact (mutual_cycleOf hids hfollows hp hpath).mpr (hreturn rule hrule k field path hfollows p hp hpath)
    exact ⟨hnames, hnodup, hclosure,
      fun rule hrule => ⟨fun ⟨c, hc, hmem⟩ => htogether c hc _ hmem _ hmem, hcyclic rule hrule⟩, htogether⟩

/-- A rule that reads and writes some fields. -/
def ruleOf (ruleId : String) (readSet writeSet : List String) : ConstraintRule :=
  ⟨ruleId, "environment_hard", "environment", "value_range", "sample", [], readSet, writeSet, [], [], 0, []⟩

/-- Two rules that read what the other writes: their loop is recorded, and nothing else. -/
theorem closure_exact_of_pair : Exact [ruleOf "B" ["y"] ["z"], ruleOf "C" ["z"] ["y"]]
    [("B", ["C"]), ("C", ["B"])]
    [["B", "C"]] := by
  have hloop : ∀ a b, a ∈ ["B", "C"] → b ∈ ["B", "C"] →
      DependsOn [ruleOf "B" ["y"] ["z"], ruleOf "C" ["z"] ["y"]] a b := by
    have hBC : Depends [ruleOf "B" ["y"] ["z"], ruleOf "C" ["z"] ["y"]] "B" "C" := by
      unfold Depends
      decide
    have hCB : Depends [ruleOf "B" ["y"] ["z"], ruleOf "C" ["z"] ["y"]] "C" "B" := by
      unfold Depends
      decide
    intro a b ha hb
    simp only [List.mem_cons, List.not_mem_nil, or_false] at ha hb
    rcases ha with rfl | rfl <;> rcases hb with rfl | rfl
    · exact .tail (.single hBC) hCB
    · exact .single hBC
    · exact .single hCB
    · exact .tail (.single hCB) hBC
  have hlead : NoLeadIn [ruleOf "B" ["y"] ["z"], ruleOf "C" ["z"] ["y"]] := by
    intro rule hrule j _ hj
    obtain ⟨k, -, other, -, rfl, hname⟩ := Relation.TransGen.tail'_iff.mp hj
    obtain ⟨target, htarget, rfl, -⟩ := hname
    refine hloop _ _ ?_ ?_
    · rcases List.mem_pair.mp htarget with rfl | rfl <;> decide
    · rcases List.mem_pair.mp hrule with rfl | rfl <;> decide
  obtain ⟨-, hexact, hreturn, -⟩ := closure_exact_iff [ruleOf "B" ["y"] ["z"], ruleOf "C" ["z"] ["y"]]
    (by unfold Distinct; decide)
  exact (hexact [("B", ["C"]), ("C", ["B"])] [["B", "C"]] (by decide)).1.mpr (hreturn hlead)

/-- **A path into a loop is recorded as part of it**: `A` reads what `B` writes, `B` and `C` read
what the other writes, and nothing reads what `A` writes, but `A` is in a recorded cycle. -/
theorem closure_not_exact : closure
    [ruleOf "A" ["x"] ["w"], ruleOf "B" ["y"] ["x", "z"], ruleOf "C" ["z"] ["y"]] =
      .ok ([("A", ["B", "C"]), ("B", ["C"]), ("C", ["B"])], [["A", "B", "C"], ["B", "C"]]) ∧
    ¬ DependsOn [ruleOf "A" ["x"] ["w"], ruleOf "B" ["y"] ["x", "z"], ruleOf "C" ["z"] ["y"]] "A" "A" ∧
    ¬ Exact [ruleOf "A" ["x"] ["w"], ruleOf "B" ["y"] ["x", "z"], ruleOf "C" ["z"] ["y"]]
      [("A", ["B", "C"]), ("B", ["C"]), ("C", ["B"])] [["A", "B", "C"], ["B", "C"]] := by
  have hself : ¬ DependsOn [ruleOf "A" ["x"] ["w"], ruleOf "B" ["y"] ["x", "z"],
    ruleOf "C" ["z"] ["y"]] "A" "A" := by
    intro h
    obtain ⟨b, -, hlead⟩ := Relation.TransGen.tail'_iff.mp h
    obtain ⟨rule, hrule, -, other, hother, hname, field, hreads, hwrites⟩ := hlead
    revert rule other field
    decide
  exact ⟨by decide, hself, fun hexact => hself ((hexact.cyclic _ (.head _)).mp ⟨["A", "B", "C"],
    by decide, by decide⟩)⟩

end RuleClosure

end MyFuzz
