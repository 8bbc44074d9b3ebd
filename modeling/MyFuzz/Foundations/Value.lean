import MyFuzz.Foundations.Dict

/-!
# Foundations/Value — document trees

A document is a tree of lists, tuples and dictionaries over strings and scalars.  The scalars are a
parameter: what is said of trees here holds whatever they are and however they compare.  The keys of
a dictionary are distinct in a `Document`, which is what makes `lookup` see every entry.
-/

/-- A tree over the scalars `σ`; the entries of a dictionary are in insertion order. -/
inductive Value (σ : Type) where
  | scalar (x : σ)
  | str (s : String)
  | list (items : List (Value σ))
  | tuple (items : List (Value σ))
  | dict (entries : List (String × Value σ))

namespace Value

open Dict

variable {σ : Type}

/-- Induction over a tree, the hypothesis given for every member of a container. -/
theorem induct {P : Value σ → Prop} (scalar : ∀ x, P (.scalar x)) (str : ∀ s, P (.str s))
    (list : ∀ items, (∀ v ∈ items, P v) → P (.list items))
    (tuple : ∀ items, (∀ v ∈ items, P v) → P (.tuple items))
    (dict : ∀ entries, (∀ e ∈ entries, P e.2) → P (.dict entries)) : ∀ v, P v :=
  @Value.rec σ P (fun items => ∀ v ∈ items, P v) (fun entries => ∀ e ∈ entries, P e.2) (fun e => P e.2)
    scalar str list tuple dict
    (List.forall_mem_nil _) (fun _ _ h hs => List.forall_mem_cons.2 ⟨h, hs⟩)
    (List.forall_mem_nil _) (fun _ _ h hs => List.forall_mem_cons.2 ⟨h, hs⟩) fun _ _ h => h

/-! ## Well-formed trees -/

mutual

/-- The keys of every dictionary are distinct. -/
def WellFormed : Value σ → Prop
  | .scalar _ => True
  | .str _ => True
  | .list items => WellFormedItems items
  | .tuple items => WellFormedItems items
  | .dict entries => (entries.map Prod.fst).Nodup ∧ WellFormedEntries entries

/-- `WellFormed` for every item. -/
def WellFormedItems : List (Value σ) → Prop
  | [] => True
  | v :: items => WellFormed v ∧ WellFormedItems items

/-- `WellFormed` for every entry. -/
def WellFormedEntries : List (String × Value σ) → Prop
  | [] => True
  | (_, v) :: entries => WellFormed v ∧ WellFormedEntries entries

end

theorem wellFormedItems_iff : ∀ {items : List (Value σ)}, WellFormedItems items ↔ ∀ v ∈ items, v.WellFormed
  | [] => by simp [WellFormedItems]
  | v :: items => by simp [WellFormedItems, @wellFormedItems_iff items]

theorem wellFormedEntries_iff : ∀ {entries : List (String × Value σ)},
    WellFormedEntries entries ↔ ∀ e ∈ entries, e.2.WellFormed
  | [] => by simp [WellFormedEntries]
  | (k, v) :: entries => by simp [WellFormedEntries, @wellFormedEntries_iff entries]

/-! ## Equality -/

mutual

/-- Two trees are equal when they have the same containers and equal leaves; the order of the
entries of a dictionary does not count, and `E` compares scalars. -/
def Equal (E : σ → σ → Prop) : Value σ → Value σ → Prop
  | .scalar x, .scalar y => E x y
  | .str s, .str t => s = t
  | .list ls, .list rs => EqualItems E ls rs
  | .tuple ls, .tuple rs => EqualItems E ls rs
  | .dict ls, .dict rs => (∀ k, k ∈ ls.map Prod.fst ↔ k ∈ rs.map Prod.fst) ∧ EqualEntries E ls rs
  | _, _ => False

/-- `Equal` item by item. -/
def EqualItems (E : σ → σ → Prop) : List (Value σ) → List (Value σ) → Prop
  | [], [] => True
  | v :: ls, w :: rs => Equal E v w ∧ EqualItems E ls rs
  | _, _ => False

/-- `Equal` for every entry on the left and the entry of its key on the right. -/
def EqualEntries (E : σ → σ → Prop) : List (String × Value σ) → List (String × Value σ) → Prop
  | [], _ => True
  | (k, v) :: ls, rs => (∃ w, Dict.lookup k rs = some w ∧ Equal E v w) ∧ EqualEntries E ls rs

end

theorem equalItems_iff {E : σ → σ → Prop} : ∀ {ls rs : List (Value σ)},
    EqualItems E ls rs ↔ List.Forall₂ (Equal E) ls rs
  | [], [] => by simp [EqualItems]
  | [], w :: rs => by simp [EqualItems]
  | v :: ls, [] => by simp [EqualItems]
  | v :: ls, w :: rs => by simp [EqualItems, @equalItems_iff E ls rs]

theorem equalEntries_iff {E : σ → σ → Prop} {rs : List (String × Value σ)} :
    ∀ {ls : List (String × Value σ)}, EqualEntries E ls rs ↔
      ∀ e ∈ ls, ∃ w, lookup e.1 rs = some w ∧ Equal E e.2 w
  | [] => by simp [EqualEntries]
  | (k, v) :: ls => by simp [EqualEntries, @equalEntries_iff E rs ls]

/-! ## Canonical form -/

mutual

/-- A tree with tuples as lists and the entries of every dictionary sorted by key: what is read back
from its serialised text. -/
def canonical : Value σ → Value σ
  | .scalar x => .scalar x
  | .str s => .str s
  | .list items => .list (canonicalItems items)
  | .tuple items => .list (canonicalItems items)
  | .dict entries => .dict ((canonicalEntries entries).insertionSort fun a b => a.1 ≤ b.1)

/-- `canonical` for every item. -/
def canonicalItems : List (Value σ) → List (Value σ)
  | [] => []
  | v :: items => canonical v :: canonicalItems items

/-- `canonical` for every entry. -/
def canonicalEntries : List (String × Value σ) → List (String × Value σ)
  | [] => []
  | (k, v) :: entries => (k, canonical v) :: canonicalEntries entries

end

theorem canonicalItems_eq_map : ∀ items : List (Value σ), canonicalItems items = items.map canonical
  | [] => rfl
  | v :: items => by rw [canonicalItems, canonicalItems_eq_map items, List.map_cons]

theorem canonicalEntries_eq_map : ∀ entries : List (String × Value σ),
    canonicalEntries entries = entries.map fun e => (e.1, canonical e.2)
  | [] => rfl
  | (k, v) :: entries => by rw [canonicalEntries, canonicalEntries_eq_map entries, List.map_cons]

/-- The entries of a canonical dictionary. -/
def canonicalDict (entries : List (String × Value σ)) : List (String × Value σ) :=
  (canonicalEntries entries).insertionSort fun a b => a.1 ≤ b.1

theorem canonical_dict (entries : List (String × Value σ)) :
    canonical (.dict entries) = .dict (canonicalDict entries) := rfl

theorem canonical_list (items : List (Value σ)) : canonical (.list items) = .list (items.map canonical) := by
  rw [canonical, canonicalItems_eq_map]

theorem canonical_tuple (items : List (Value σ)) :
    canonical (.tuple items) = .list (items.map canonical) := by
  rw [canonical, canonicalItems_eq_map]

theorem perm_canonicalDict (entries : List (String × Value σ)) :
    (canonicalDict entries).Perm (canonicalEntries entries) := List.perm_insertionSort _ _

theorem keys_perm_canonicalDict (entries : List (String × Value σ)) :
    ((canonicalDict entries).map Prod.fst).Perm (entries.map Prod.fst) := by
  refine ((perm_canonicalDict entries).map Prod.fst).trans ?_
  rw [canonicalEntries_eq_map, List.map_map]
  exact .refl _

variable {entries : List (String × Value σ)}

/-- **The entries of a dictionary are found in its canonical form.** -/
theorem lookup_canonicalDict (h : (entries.map Prod.fst).Nodup) (k : String) :
    lookup k (canonicalDict entries) = (lookup k entries).map canonical := by
  have hnodup : ((canonicalDict entries).map Prod.fst).Nodup :=
    (keys_perm_canonicalDict entries).nodup_iff.2 h
  cases hk : lookup k entries with
  | none =>
    rw [Option.map_none, lookup_eq_none_iff, (keys_perm_canonicalDict entries).mem_iff]
    exact lookup_eq_none_iff.1 hk
  | some v =>
    refine lookup_eq_some_of_mem hnodup ((perm_canonicalDict entries).mem_iff.2 ?_)
    rw [canonicalEntries_eq_map]
    exact List.mem_map.2 ⟨(k, v), mem_of_lookup_eq_some hk, rfl⟩

/-! ## Trees without tuples -/

mutual

/-- A tree without tuples. -/
def Plain : Value σ → Prop
  | .scalar _ => True
  | .str _ => True
  | .list items => PlainItems items
  | .tuple _ => False
  | .dict entries => PlainEntries entries

/-- `Plain` for every item. -/
def PlainItems : List (Value σ) → Prop
  | [] => True
  | v :: items => Plain v ∧ PlainItems items

/-- `Plain` for every entry. -/
def PlainEntries : List (String × Value σ) → Prop
  | [] => True
  | (_, v) :: entries => Plain v ∧ PlainEntries entries

end

theorem plainItems_iff : ∀ {items : List (Value σ)}, PlainItems items ↔ ∀ v ∈ items, Plain v
  | [] => by simp [PlainItems]
  | v :: items => by simp [PlainItems, @plainItems_iff items]

theorem plainEntries_iff : ∀ {entries : List (String × Value σ)},
    PlainEntries entries ↔ ∀ e ∈ entries, Plain e.2
  | [] => by simp [PlainEntries]
  | (k, v) :: entries => by simp [PlainEntries, @plainEntries_iff entries]

theorem plain_canonical (v : Value σ) : v.canonical.Plain := by
  induction v using induct with
  | scalar x | str s => trivial
  | list items ih =>
    rw [canonical_list]
    refine plainItems_iff.2 fun v hv => ?_
    obtain ⟨w, hw, rfl⟩ := List.mem_map.1 hv
    exact ih w hw
  | tuple items ih =>
    rw [canonical_tuple]
    refine plainItems_iff.2 fun v hv => ?_
    obtain ⟨w, hw, rfl⟩ := List.mem_map.1 hv
    exact ih w hw
  | dict entries ih =>
    rw [canonical_dict]
    refine plainEntries_iff.2 fun e he => ?_
    have hmem := (perm_canonicalDict entries).mem_iff.1 he
    rw [canonicalEntries_eq_map] at hmem
    obtain ⟨e', he', rfl⟩ := List.mem_map.1 hmem
    exact ih e' he'

theorem canonicalEntries_canonicalDict
    (h : ∀ e ∈ entries, canonical (canonical e.2) = canonical e.2) :
    canonicalEntries (canonicalDict entries) = canonicalDict entries := by
  rw [canonicalEntries_eq_map]
  refine (List.map_congr_left fun e he => ?_).trans (List.map_id _)
  have hmem := (perm_canonicalDict entries).mem_iff.1 he
  rw [canonicalEntries_eq_map] at hmem
  obtain ⟨e', he', rfl⟩ := List.mem_map.1 hmem
  rw [h e' he', id_eq]

/-- **A canonical tree is its own canonical form.** -/
theorem canonical_canonical (v : Value σ) : v.canonical.canonical = v.canonical := by
  induction v using induct with
  | scalar x | str s => rfl
  | list items ih =>
    rw [canonical_list, canonical_list, List.map_map]
    exact congrArg Value.list (List.map_congr_left ih)
  | tuple items ih =>
    rw [canonical_tuple, canonical_list, List.map_map]
    exact congrArg Value.list (List.map_congr_left ih)
  | dict entries ih =>
    rw [canonical_dict, canonical_dict, canonicalDict, canonicalEntries_canonicalDict ih]
    exact congrArg Value.dict (List.Pairwise.insertionSort_eq (List.pairwise_insertionSort _ _))

/-- **A tree without tuples equals its canonical form.** -/
theorem equal_canonical (v : Value σ) : v.Plain → v.WellFormed → Equal (· = ·) v v.canonical := by
  induction v using induct with
  | scalar x | str s => exact fun _ _ => rfl
  | list items ih =>
    intro hplain hwf
    rw [canonical_list, Equal, equalItems_iff, List.forall₂_map_right_iff, List.forall₂_same]
    exact fun v hv => ih v hv (plainItems_iff.1 hplain v hv) (wellFormedItems_iff.1 hwf v hv)
  | tuple items _ => exact fun h => h.elim
  | dict entries ih =>
    rintro hplain ⟨hnodup, hwf⟩
    rw [canonical_dict, Equal, equalEntries_iff]
    refine ⟨fun k => ((keys_perm_canonicalDict entries).mem_iff).symm, fun e he => ?_⟩
    refine ⟨e.2.canonical, ?_, ih e he (plainEntries_iff.1 hplain e he)
      (wellFormedEntries_iff.1 hwf e he)⟩
    rw [lookup_canonicalDict hnodup, lookup_eq_some_of_mem hnodup he, Option.map_some]

end Value

/-- A tree whose dictionaries have distinct keys. -/
def Document (σ : Type) : Type := { v : Value σ // v.WellFormed }
