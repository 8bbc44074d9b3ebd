import MyFuzz.Scenario.ReplayNormalize

/-!
# Scenario/ReplayWalk — two trees that correspond leaf by leaf

`Corr E R` walks two trees side by side: the same containers, scalars related by `E`, and strings
related by `R` at their place.  Rewriting each side and comparing the results is the same thing as
the trees corresponding (`equal_visit_iff`), which turns every question about two normalised
documents into one about pairs of strings:

    visit f l  =  visit g r    ⟺    Corr (fun p s t => f p s = g p t) l r

The state-edge rule looks at a record's own `kind`; no rule rewrites that entry, so corresponding
records fall under the rule together.
-/

namespace MyFuzz

open Dict Value

namespace Replay

open List hiding lookup

variable {σ : Type} {E : σ → σ → Prop} {R : Place → String → String → Prop} {f g : Place → String → String}

/-! ## The walk, entry by entry -/

theorem visitItems_eq_map (p : Place) : ∀ items : List (Value σ),
    visitItems f p items = items.map (visit f p) := by
  intro items
  induction items with
  | nil => rfl
  | cons v items ih => rw [visitItems, ih, map_cons]

theorem visitEntries_eq_map (edge : Bool) : ∀ entries : List (String × Value σ),
    visitEntries f edge entries = entries.map fun e => (e.1, visit f (Place.entry edge e.1) e.2) := by
  intro entries
  induction entries with
  | nil => rfl
  | cons e entries ih => rw [visitEntries, ih, map_cons]

theorem keys_visitEntries (edge : Bool) (entries : List (String × Value σ)) :
    (visitEntries f edge entries).map Prod.fst = entries.map Prod.fst := by
  rw [visitEntries_eq_map, map_map]
  rfl

theorem lookup_visitEntries (edge : Bool) (k : String) (entries : List (String × Value σ)) :
    lookup k (visitEntries f edge entries)
      = (lookup k entries).map (visit f (Place.entry edge k)) := by
  rw [visitEntries_eq_map]
  exact lookup_map (fun k v => visit f (Place.entry edge k) v) k entries

/-! ## Correspondence -/

mutual

/-- Two trees correspond at a place. -/
def Corr (E : σ → σ → Prop) (R : Place → String → String → Prop) : Place → Value σ → Value σ → Prop
  | _, .scalar x, .scalar y => E x y
  | p, .str s, .str t => R p s t
  | p, .list ls, .list rs => CorrItems E R p.item ls rs
  | p, .list ls, .tuple rs => CorrItems E R p.item ls rs
  | p, .tuple ls, .list rs => CorrItems E R p.item ls rs
  | p, .tuple ls, .tuple rs => CorrItems E R p.item ls rs
  | p, .dict ls, .dict rs => (∀ k, k ∈ ls.map Prod.fst ↔ k ∈ rs.map Prod.fst) ∧
      CorrEntries E R (stateEdge p ls) ls rs
  | _, _, _ => False

/-- `Corr` item by item. -/
def CorrItems (E : σ → σ → Prop) (R : Place → String → String → Prop) :
    Place → List (Value σ) → List (Value σ) → Prop
  | _, [], [] => True
  | p, v :: ls, w :: rs => Corr E R p v w ∧ CorrItems E R p ls rs
  | _, _, _ => False

/-- `Corr` for every entry on the left and the entry of its key on the right. -/
def CorrEntries (E : σ → σ → Prop) (R : Place → String → String → Prop) :
    Bool → List (String × Value σ) → List (String × Value σ) → Prop
  | _, [], _ => True
  | edge, (k, v) :: ls, rs =>
      (∃ w, Dict.lookup k rs = some w ∧ Corr E R (Place.entry edge k) v w) ∧ CorrEntries E R edge ls rs

end

theorem corrItems_iff {p : Place} : ∀ {ls rs : List (Value σ)},
    CorrItems E R p ls rs ↔ List.Forall₂ (Corr E R p) ls rs
  | [], [] => by simp [CorrItems]
  | [], w :: rs => by simp [CorrItems]
  | v :: ls, [] => by simp [CorrItems]
  | v :: ls, w :: rs => by simp [CorrItems, @corrItems_iff p ls rs]

variable {edge : Bool} {rs : List (String × Value σ)} {p p' : Place} {v w l r : Value σ}
  {α β : Type} {S T : α → β → Prop} {ls items : List (Value σ)} {x : Place × String} {as : List α}
  {bs : List β}

theorem corrEntries_iff :
    ∀ {ls : List (String × Value σ)}, CorrEntries E R edge ls rs ↔
      ∀ e ∈ ls, ∃ w, lookup e.1 rs = some w ∧ Corr E R (Place.entry edge e.1) e.2 w := by
  intro ls
  induction ls with
  | nil => simp [CorrEntries]
  | cons e ls ih => simp [CorrEntries, ih]

/-- The members of a list or a tuple. -/
def items? : Value σ → Option (List (Value σ))
  | .list items => some items
  | .tuple items => some items
  | _ => none

/-- Two documents correspond: the members of a root list are events. -/
def CorrRoot (E : σ → σ → Prop) (R : Place → String → String → Prop) (l r : Value σ) : Prop :=
  match items? l, items? r with
  | some ls, some rs => CorrItems E R Place.event ls rs
  | _, _ => Corr E R Place.root l r

/-! ## Rewriting and comparing -/

/-- The rewrite leaves the kind of a record alone. -/
def KeepsKind (f : Place → String → String) : Prop :=
  ∀ edge s, f (Place.entry edge "kind") s = s

theorem isStateDependency_visit (hf : KeepsKind f) (edge : Bool) (v : Option (Value σ)) :
    isStateDependency (v.map (visit f (Place.entry edge "kind"))) = isStateDependency v := by
  rcases v with _ | v
  · rfl
  · cases v with
    | str s => simp only [Option.map_some, visit, hf edge s]
    | scalar x | list items | tuple items | dict entries => rfl

/-- A state-dependency record is told by its keys and its kind. -/
theorem stateEdge_congr {ls : List (String × Value σ)}
    (hkeys : ∀ k, k ∈ ls.map Prod.fst ↔ k ∈ rs.map Prod.fst)
    (hkind : isStateDependency (lookup "kind" ls) = isStateDependency (lookup "kind" rs)) :
    stateEdge p ls = stateEdge p rs := by
  unfold stateEdge
  have hcontains : ∀ k, (ls.map Prod.fst).contains k = (rs.map Prod.fst).contains k := by
    intro k
    rw [Bool.eq_iff_iff, contains_iff_mem, contains_iff_mem]
    exact hkeys k
  simp only [hkind, hcontains]

/-- What relates every entry of the left to one of the right relates the two kinds. -/
theorem isStateDependency_congr {Q : Value σ → Value σ → Prop} {ls : List (String × Value σ)}
    (hkeys : ∀ k, k ∈ ls.map Prod.fst ↔ k ∈ rs.map Prod.fst)
    (hQ : ∀ {v w}, Q v w → isStateDependency (some v) = isStateDependency (some w))
    (h : ∀ v, ("kind", v) ∈ ls → ∃ w, lookup "kind" rs = some w ∧ Q v w) :
    isStateDependency (lookup "kind" ls) = isStateDependency (lookup "kind" rs) := by
  cases hl : lookup "kind" ls with
  | none =>
    have hnot : "kind" ∉ rs.map Prod.fst := fun hmem =>
      lookup_eq_none_iff.1 hl ((hkeys "kind").2 hmem)
    rw [lookup_eq_none_iff.2 hnot]
  | some v =>
    obtain ⟨w, hw, hvw⟩ := h v (mem_of_lookup_eq_some hl)
    rw [hw, hQ hvw]

theorem isStateDependency_of_equal (h : Value.Equal E v w) :
    isStateDependency (some v) = isStateDependency (some w) := by
  cases v <;> cases w <;> first | rfl | exact h.elim | skip
  case str.str s t =>
    obtain rfl : s = t := h
    rfl

theorem isStateDependency_of_corr (hR : ∀ s t, R (Place.entry edge "kind") s t → s = t)
    (h : Corr E R (Place.entry edge "kind") v w) :
    isStateDependency (some v) = isStateDependency (some w) := by
  cases v <;> cases w <;> first | rfl | exact h.elim | skip
  case str.str s t =>
    obtain rfl : s = t := hR s t h
    rfl

theorem forall₂_congr_of_mem : ∀ {as : List α} {bs : List β},
    (∀ a ∈ as, ∀ b, S a b ↔ T a b) → (List.Forall₂ S as bs ↔ List.Forall₂ T as bs)
  | [], bs, _ => by simp
  | a :: as, [], _ => by simp
  | a :: as, b :: bs, h => by
      rw [forall₂_cons, forall₂_cons, h a mem_cons_self b,
        forall₂_congr_of_mem fun a' ha' => h a' (mem_cons_of_mem a ha')]

/-- The entries of two rewritten dictionaries are equal when the entries correspond. -/
theorem equalEntries_visit_iff {ls : List (String × Value σ)} (ih : ∀ e ∈ ls, ∀ p w,
      Value.Equal E (visit f p e.2) (visit g p w) ↔ Corr E (fun p s t => f p s = g p t) p e.2 w) :
    Value.EqualEntries E (visitEntries f edge ls) (visitEntries g edge rs)
      ↔ CorrEntries E (fun p s t => f p s = g p t) edge ls rs := by
  rw [equalEntries_iff, corrEntries_iff, visitEntries_eq_map, forall_mem_map]
  refine forall₂_congr fun e he => ?_
  rw [lookup_visitEntries]
  constructor
  · rintro ⟨w', hw', heq⟩
    obtain ⟨w, hw, rfl⟩ := Option.map_eq_some_iff.1 hw'
    exact ⟨w, hw, (ih e he _ w).1 heq⟩
  · rintro ⟨w, hw, hcorr⟩
    exact ⟨_, by rw [hw]; rfl, (ih e he _ w).2 hcorr⟩

/-- The members of two rewritten lists are equal when the members correspond. -/
theorem equalItems_visit_iff {rs : List (Value σ)} (ih : ∀ v ∈ ls, ∀ w,
      Value.Equal E (visit f p v) (visit g p w) ↔ Corr E (fun p s t => f p s = g p t) p v w) :
    Value.EqualItems E (visitItems f p ls) (visitItems g p rs)
      ↔ CorrItems E (fun p s t => f p s = g p t) p ls rs := by
  rw [equalItems_iff, corrItems_iff, visitItems_eq_map, visitItems_eq_map,
    forall₂_map_left_iff, forall₂_map_right_iff]
  exact forall₂_congr_of_mem ih

/-- **Rewritten trees are equal exactly when the trees correspond.** -/
theorem equal_visit_iff (hf : KeepsKind f) (hg : KeepsKind g) : ∀ (l : Value σ) (p : Place)
    (r : Value σ), Value.Equal E (visit f p l) (visit g p r)
      ↔ Corr E (fun p s t => f p s = g p t) p l r := by
  intro l
  induction l using induct with
  | scalar x | str s => intro p r; cases r <;> rfl
  | list ls ih | tuple ls ih =>
    intro p r
    cases r with
    | list rs => exact equalItems_visit_iff fun v hv => ih v hv _
    | tuple rs => exact equalItems_visit_iff fun v hv => ih v hv _
    | scalar x => rfl
    | str s => rfl
    | dict rs => rfl
  | dict ls ih =>
    intro p r
    cases r with
    | dict rs =>
      simp only [visit, Value.Equal, Corr, keys_visitEntries]
      refine and_congr_right fun hkeys => ?_
      -- both directions need that the two records fall under the state-edge rule together
      constructor
      · intro h
        have hkeys' : ∀ k, k ∈ (visitEntries f (stateEdge p ls) ls).map Prod.fst
            ↔ k ∈ (visitEntries g (stateEdge p rs) rs).map Prod.fst := by
          simpa only [keys_visitEntries] using hkeys
        have hkind := isStateDependency_congr hkeys' isStateDependency_of_equal
          fun v hv => equalEntries_iff.1 h ("kind", v) hv
        rw [lookup_visitEntries, lookup_visitEntries, isStateDependency_visit hf,
          isStateDependency_visit hg] at hkind
        rw [← stateEdge_congr hkeys hkind] at h
        exact (equalEntries_visit_iff ih).1 h
      · intro h
        have hR : ∀ s t, f (Place.entry (stateEdge p ls) "kind") s
            = g (Place.entry (stateEdge p ls) "kind") t → s = t := by
          intro s t hst
          rwa [hf, hg] at hst
        have hkind := isStateDependency_congr hkeys (isStateDependency_of_corr hR)
          fun v hv => corrEntries_iff.1 h ("kind", v) hv
        rw [← stateEdge_congr hkeys hkind]
        exact (equalEntries_visit_iff ih).2 h
    | scalar x | str s | list rs | tuple rs => rfl

theorem visitRoot_eq (f : Place → String → String) (v : Value σ) :
    visitRoot f v = match items? v with
      | some items => .list (visitItems f Place.event items)
      | none => visit f Place.root v := by
  cases v <;> rfl

/-- **Rewritten documents are equal exactly when the documents correspond.** -/
theorem equal_visitRoot_iff (hf : KeepsKind f) (hg : KeepsKind g) (l r : Value σ) :
    Value.Equal E (visitRoot f l) (visitRoot g r)
      ↔ CorrRoot E (fun p s t => f p s = g p t) l r := by
  rw [visitRoot_eq, visitRoot_eq, CorrRoot]
  cases hl : items? l with
  | some ls =>
    cases hr : items? r with
    | some rs => exact equalItems_visit_iff fun v _ w => equal_visit_iff hf hg v _ w
    | none =>
      rw [← equal_visit_iff hf hg]
      cases l <;> cases r <;> first | rfl | simp [items?] at hl hr
  | none =>
    rw [← equal_visit_iff hf hg]
    cases hr : items? r with
    | some rs => cases l <;> cases r <;> first | rfl | simp [items?] at hl hr
    | none => rfl

/-! ## Leaves -/

mutual

/-- The strings of a tree with their places, in the order of the walk. -/
def leaves (p : Place) : Value σ → List (Place × String)
  | .scalar _ => []
  | .str s => [(p, s)]
  | .list items => leavesItems p.item items
  | .tuple items => leavesItems p.item items
  | .dict entries => leavesEntries (stateEdge p entries) entries

/-- `leaves` for every item. -/
def leavesItems (p : Place) : List (Value σ) → List (Place × String)
  | [] => []
  | v :: items => leaves p v ++ leavesItems p items

/-- `leaves` for every entry. -/
def leavesEntries (edge : Bool) : List (String × Value σ) → List (Place × String)
  | [] => []
  | (k, v) :: entries => leaves (Place.entry edge k) v ++ leavesEntries edge entries

end

/-- The strings of a document with their places. -/
def leavesRoot (v : Value σ) : List (Place × String) :=
  match items? v with
  | some items => leavesItems Place.event items
  | none => leaves Place.root v

theorem mem_leavesItems : ∀ {items : List (Value σ)},
    x ∈ leavesItems p items ↔ ∃ v ∈ items, x ∈ leaves p v := by
  intro items
  induction items with
  | nil => simp [leavesItems]
  | cons v items ih => simp [leavesItems, ih]

theorem mem_leavesEntries : ∀ {entries : List (String × Value σ)},
    x ∈ leavesEntries edge entries ↔ ∃ e ∈ entries, x ∈ leaves (Place.entry edge e.1) e.2 := by
  intro entries
  induction entries with
  | nil => simp [leavesEntries]
  | cons e entries ih => simp [leavesEntries, ih]

theorem Corr.of_items? {rs : List (Value σ)} (hl : items? l = some ls) (hr : items? r = some rs) :
    Corr E R p l r ↔ CorrItems E R p.item ls rs := by
  cases l <;> cases r <;> first
    | (cases hl; done)
    | (cases hr; done)
    | (cases hl; cases hr; exact Iff.rfl)

theorem leaves_of_items? (h : items? v = some items) : leaves p v = leavesItems p.item items := by
  cases v <;> first | (cases h; done) | (cases h; rfl)

theorem wellFormed_of_items? (h : items? v = some items) (hwf : v.WellFormed) :
    ∀ w ∈ items, w.WellFormed := by
  cases v <;> first | (cases h; done) | (cases h; exact wellFormedItems_iff.1 hwf)

/-- What corresponds to a list is a list or a tuple. -/
theorem Corr.exists_items (hl : items? l = some ls) (h : Corr E R p l r) : ∃ rs, items? r = some rs := by
  cases l <;> cases r <;> first | exact ⟨_, rfl⟩ | exact h.elim | cases hl

section Imp

variable {E' : σ → σ → Prop} {R' : Place → String → String → Prop}

theorem forall₂_imp_of_mem (h : List.Forall₂ S as bs) (hi : ∀ a ∈ as, ∀ b ∈ bs, S a b → T a b) :
    List.Forall₂ T as bs := by
  induction h with
  | nil => exact .nil
  | cons hab _ ih =>
    refine .cons (hi _ mem_cons_self _ mem_cons_self hab) (ih fun a ha b hb => ?_)
    exact hi a (.tail _ ha) b (.tail _ hb)

theorem CorrItems.imp {rs : List (Value σ)} (h : CorrItems E R p ls rs)
    (ih : ∀ v ∈ ls, ∀ w, Corr E R p v w → (∀ q s q' t, (q, s) ∈ leaves p v → (q', t) ∈ leaves p' w →
      q'.field = q.field → R q s t → R' q s t) → Corr E' R' p v w)
    (hi : ∀ q s q' t, (q, s) ∈ leavesItems p ls → (q', t) ∈ leavesItems p' rs →
      q'.field = q.field → R q s t → R' q s t) : CorrItems E' R' p ls rs := by
  rw [corrItems_iff] at h ⊢
  refine forall₂_imp_of_mem h fun v hv w hw hvw => ih v hv w hvw fun q s q' t hs ht => ?_
  exact hi q s q' t (mem_leavesItems.2 ⟨v, hv, hs⟩) (mem_leavesItems.2 ⟨w, hw, ht⟩)

/-- **Weaker relations between the scalars and between the strings that meet are enough.** -/
theorem Corr.imp (hE : ∀ x y, E x y → E' x y) (l : Value σ) :
    ∀ {p p' : Place} {r : Value σ}, p'.field = p.field →
    Corr E R p l r → (∀ q s q' t, (q, s) ∈ leaves p l → (q', t) ∈ leaves p' r →
      q'.field = q.field → R q s t → R' q s t) → Corr E' R' p l r := by
  induction l using Value.induct with
  | scalar x =>
    intro p p' r _ h _
    cases r with
    | scalar y => exact hE x y h
    | str t | list rs | tuple rs | dict rs => exact h
  | str s =>
    intro p p' r hp h hi
    cases r with
    | str t => exact hi p s p' t mem_cons_self mem_cons_self hp h
    | scalar x | list rs | tuple rs | dict rs => exact h
  | list ls ih | tuple ls ih =>
    intro p p' r hp h hi
    obtain ⟨rs, hr⟩ := h.exists_items rfl
    rw [Corr.of_items? rfl hr] at h ⊢
    rw [leaves_of_items? hr] at hi
    exact h.imp (fun v hv w hvw => ih v hv (by exact hp) hvw) hi
  | dict ls ih =>
    intro p p' r hp h hi
    cases r with
    | dict rs =>
      refine ⟨h.1, corrEntries_iff.2 fun e he => ?_⟩
      obtain ⟨w, hw, hew⟩ := corrEntries_iff.1 h.2 e he
      refine ⟨w, hw, @ih e he _ (Place.entry (stateEdge p' rs) e.1) w rfl hew ?_⟩
      intro q s q' t hs ht
      exact hi q s q' t (mem_leavesEntries.2 ⟨e, he, hs⟩)
        (mem_leavesEntries.2 ⟨(e.1, w), mem_of_lookup_eq_some hw, ht⟩)
    | scalar x | str s | list rs | tuple rs => exact h

theorem CorrRoot.imp (hE : ∀ x y, E x y → E' x y) (h : CorrRoot E R l r)
    (hi : ∀ q s q' t, (q, s) ∈ leavesRoot l → (q', t) ∈ leavesRoot r → q'.field = q.field →
      R q s t → R' q s t) : CorrRoot E' R' l r := by
  unfold CorrRoot at h ⊢
  unfold leavesRoot at hi
  cases hl : items? l with
  | some ls =>
    cases hr : items? r with
    | some rs =>
      rw [hl, hr] at h hi
      exact CorrItems.imp h (fun v _ w hvw => Corr.imp hE v rfl hvw) hi
    | none =>
      rw [hl, hr] at h
      obtain ⟨rs, hrs⟩ := Corr.exists_items hl h
      exact absurd (hr.symm.trans hrs) (by simp)
  | none =>
    cases hr : items? r with
    | some rs => rw [hl] at h; cases l <;> cases r <;> simp_all [items?, Corr]
    | none =>
      rw [hl, hr] at h hi
      exact Corr.imp hE l rfl h hi

end Imp

/-! ## Every leaf meets one -/

/-- Every member of either list is related to one of the other. -/
def Meet {α β : Type} (P : α → β → Prop) (as : List α) (bs : List β) : Prop :=
  (∀ a ∈ as, ∃ b ∈ bs, P a b) ∧ ∀ b ∈ bs, ∃ a ∈ as, P a b

theorem Meet.append {P : α → β → Prop} {as' : List α} {bs' : List β} (h : Meet P as bs)
    (h' : Meet P as' bs') : Meet P (as ++ as') (bs ++ bs') := by
  constructor
  · intro a ha
    rcases mem_append.1 ha with ha | ha
    · obtain ⟨b, hb, hab⟩ := h.1 a ha
      exact ⟨b, mem_append_left _ hb, hab⟩
    · obtain ⟨b, hb, hab⟩ := h'.1 a ha
      exact ⟨b, mem_append_right _ hb, hab⟩
  · intro b hb
    rcases mem_append.1 hb with hb | hb
    · obtain ⟨a, ha, hab⟩ := h.2 b hb
      exact ⟨a, mem_append_left _ ha, hab⟩
    · obtain ⟨a, ha, hab⟩ := h'.2 b hb
      exact ⟨a, mem_append_right _ ha, hab⟩

/-- The leaves meet under the same field, related as the trees are. -/
def Meeting (R : Place → String → String → Prop) (x y : Place × String) : Prop :=
  y.1.field = x.1.field ∧ R x.1 x.2 y.2

theorem CorrItems.meet {rs : List (Value σ)} (h : CorrItems E R p ls rs)
    (ih : ∀ v ∈ ls, ∀ w ∈ rs, Corr E R p v w → Meet (Meeting R) (leaves p v) (leaves p' w)) :
    Meet (Meeting R) (leavesItems p ls) (leavesItems p' rs) := by
  have hmeet := forall₂_imp_of_mem (corrItems_iff.1 h) ih
  clear h ih
  induction hmeet with
  | nil => exact ⟨nofun, nofun⟩
  | cons hvw _ ih => exact hvw.append ih

/-- **Every leaf of either tree meets one of the other.** -/
theorem Corr.meet (l : Value σ) : ∀ {p p' : Place} {r : Value σ}, p'.field = p.field →
    r.WellFormed → Corr E R p l r → Meet (Meeting R) (leaves p l) (leaves p' r) := by
  induction l using Value.induct with
  | scalar x =>
    intro p p' r _ _ h
    cases r with
    | scalar y => exact ⟨nofun, nofun⟩
    | str t | list rs | tuple rs | dict rs => exact h.elim
  | str s =>
    intro p p' r hp _ h
    cases r with
    | str t =>
      constructor
      · intro x hx
        obtain rfl := mem_singleton.1 hx
        exact ⟨(p', t), .head _, hp, h⟩
      · intro y hy
        obtain rfl := mem_singleton.1 hy
        exact ⟨(p, s), .head _, hp, h⟩
    | scalar x | list rs | tuple rs | dict rs => exact h.elim
  | list ls ih | tuple ls ih =>
    intro p p' r hp hwf h
    obtain ⟨rs, hr⟩ := h.exists_items rfl
    rw [leaves_of_items? hr]
    refine ((Corr.of_items? rfl hr).1 h).meet fun v hv w hw => ?_
    exact ih v hv (by exact hp) (wellFormed_of_items? hr hwf w hw)
  | dict ls ih =>
    intro p p' r hp hwf h
    cases r with
    | dict rs =>
      have hmeet : ∀ e ∈ ls, ∀ w, lookup e.1 rs = some w →
          Corr E R (Place.entry (stateEdge p ls) e.1) e.2 w → Meet (Meeting R)
            (leaves (Place.entry (stateEdge p ls) e.1) e.2)
            (leaves (Place.entry (stateEdge p' rs) e.1) w) := fun e he w hw hew =>
        @ih e he _ _ w rfl (Value.wellFormedEntries_iff.1 hwf.2 (e.1, w)
          (mem_of_lookup_eq_some hw)) hew
      constructor
      · intro x hx
        obtain ⟨e, he, hx⟩ := mem_leavesEntries.1 hx
        obtain ⟨w, hw, hew⟩ := corrEntries_iff.1 h.2 e he
        obtain ⟨y, hy, hxy⟩ := (hmeet e he w hw hew).1 x hx
        exact ⟨y, mem_leavesEntries.2 ⟨(e.1, w), mem_of_lookup_eq_some hw, hy⟩, hxy⟩
      · intro y hy
        obtain ⟨⟨k, w⟩, hkw, hy⟩ := mem_leavesEntries.1 hy
        obtain ⟨e, he, rfl⟩ := mem_map.1 ((h.1 k).2 (mem_map.2 ⟨(k, w), hkw, rfl⟩))
        obtain ⟨w', hw', hew⟩ := corrEntries_iff.1 h.2 e he
        -- the keys on the right are distinct, so the entry looked up is this one
        obtain rfl : w' = w := Option.some.inj (hw'.symm.trans (lookup_eq_some_of_mem hwf.1 hkw))
        obtain ⟨x, hx, hxy⟩ := (hmeet e he w' hw' hew).2 y hy
        exact ⟨x, mem_leavesEntries.2 ⟨e, he, hx⟩, hxy⟩
    | scalar x | str s | list rs | tuple rs => exact h.elim

theorem CorrRoot.meet (hwf : r.WellFormed) (h : CorrRoot E R l r) :
    Meet (Meeting R) (leavesRoot l) (leavesRoot r) := by
  unfold CorrRoot at h
  unfold leavesRoot
  cases hl : items? l with
  | some ls =>
    cases hr : items? r with
    | some rs =>
      rw [hl, hr] at h
      exact CorrItems.meet h fun v _ w hw => Corr.meet v rfl (wellFormed_of_items? hr hwf w hw)
    | none =>
      rw [hl, hr] at h
      obtain ⟨rs, hrs⟩ := Corr.exists_items hl h
      exact absurd (hr.symm.trans hrs) (by simp)
  | none =>
    cases hr : items? r with
    | some rs => rw [hl] at h; cases l <;> cases r <;> simp_all [items?, Corr]
    | none =>
      rw [hl, hr] at h
      exact Corr.meet l rfl hwf h

end Replay

end MyFuzz
