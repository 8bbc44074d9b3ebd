import MyFuzz.Composition.AddressSearch
import Mathlib.Data.List.Sigma

/-!
# Composition/AddressMap — which address maps are allocated

A successful allocation places every region once, inside the address space, apart from the others and at
its fixed base.  Each base is a multiple of the larger of the region's own and the global alignment:

    base ∈ max own global · ℕ      which is   own · ℕ ∩ global · ℕ   only if one divides the other
-/

namespace MyFuzz

namespace Composition

open FirstFit Outcome List

/-! ## Arrangements -/

/-- Two regions at their bases lie apart. -/
def Apart (f : ℕ → ℕ) (p q : ℕ × LocalRegion) : Prop :=
  f p.1 + p.2.size ≤ f q.1 ∨ f q.1 + q.2.size ≤ f p.1

/-- **Regions at their bases**: aligned, inside the address space and apart. -/
structure Arranged (addressLimit : ℕ) (f : ℕ → ℕ) (items : List (ℕ × LocalRegion)) : Prop where
  aligned : ∀ p ∈ items, p.2.alignment ∣ f p.1
  inside : ∀ p ∈ items, f p.1 + p.2.size ≤ addressLimit
  apart : items.Pairwise (Apart f)

/-- What regions at their bases take. -/
def extents (f : ℕ → ℕ) (items : List (ℕ × LocalRegion)) : List (Extent ℕ) :=
  items.map fun p => extentOf p (f p.1)

variable {addressLimit : ℕ} {f : ℕ → ℕ} {items : List (ℕ × LocalRegion)}

variable {base n a g : ℕ} {p : ℕ × LocalRegion}

theorem clear_extents {size : ℕ} : Clear (extents f items) base size ↔
    ∀ q ∈ items, base + size ≤ f q.1 ∨ f q.1 + q.2.size ≤ base := by
  unfold Clear extents
  rw [forall_mem_map]
  refine forall₂_congr fun q _ => ?_
  show ¬ (base < f q.1 + q.2.size ∧ f q.1 < base + size) ↔ _
  omega

/-- **A region is added where it is clear of the others.** -/
theorem arranged_concat : Arranged addressLimit f (items ++ [p]) ↔
    Arranged addressLimit f items ∧ p.2.alignment ∣ f p.1 ∧ f p.1 + p.2.size ≤ addressLimit ∧
      Clear (extents f items) (f p.1) p.2.size := by
  rw [clear_extents]
  constructor
  · rintro ⟨haligned, hinside, hapart⟩
    obtain ⟨hitems, -, hlast⟩ := pairwise_append.1 hapart
    refine ⟨⟨fun q hq => haligned q (mem_append_left _ hq),
      fun q hq => hinside q (mem_append_left _ hq), hitems⟩,
      haligned p (mem_append_right _ (.head _)),
      hinside p (mem_append_right _ (.head _)), fun q hq => ?_⟩
    exact (hlast q hq p (.head _)).symm
  · rintro ⟨⟨haligned, hinside, hapart⟩, hp, hlimit, hclear⟩
    refine ⟨fun q hq => ?_, fun q hq => ?_, pairwise_append.2
      ⟨hapart, pairwise_singleton _ _, fun q hq r hr => ?_⟩⟩
    · rcases mem_append.1 hq with hq | hq
      · exact haligned q hq
      · rwa [mem_singleton.1 hq]
    · rcases mem_append.1 hq with hq | hq
      · exact hinside q hq
      · rwa [mem_singleton.1 hq]
    · rw [mem_singleton.1 hr]
      exact (hclear q hq).symm

/-- The order of the regions does not matter. -/
theorem Arranged.perm {items' : List (ℕ × LocalRegion)} (h : Arranged addressLimit f items)
    (hperm : items.Perm items') : Arranged addressLimit f items' :=
  ⟨fun p hp => h.aligned p (hperm.mem_iff.2 hp), fun p hp => h.inside p (hperm.mem_iff.2 hp),
    (hperm.pairwise_iff fun hpq => hpq.symm).1 h.apart⟩

/-- Only the bases of the regions matter. -/
theorem Arranged.congr {g : ℕ → ℕ} (h : Arranged addressLimit f items)
    (heq : ∀ p ∈ items, g p.1 = f p.1) : Arranged addressLimit g items := by
  obtain ⟨haligned, hinside, hapart⟩ := h
  refine ⟨fun p hp => ?_, fun p hp => ?_, hapart.imp_of_mem fun hp hq hpq => ?_⟩
  · rw [heq p hp]
    exact haligned p hp
  · rw [heq p hp]
    exact hinside p hp
  · unfold Apart
    rw [heq _ hp, heq _ hq]
    exact hpq

/-- **Placements in order are an arrangement.** -/
theorem arranged_of_inOrder {rest : List (ℕ × LocalRegion)} : ∀ {done : List (ℕ × LocalRegion)}
    {bases : List ℕ}, Arranged addressLimit f done → InOrder addressLimit rest (extents f done) bases →
    List.Forall₂ (fun item base => f item.1 = base) rest bases → Arranged addressLimit f (done ++ rest) := by
  induction rest with
  | nil =>
    intro done bases hdone _ _
    rwa [append_nil]
  | cons item rest ih =>
    rintro done _ hdone ⟨base, bases, rfl, ⟨start, -, -, hleast⟩, hin⟩ (_ | ⟨hbase, hall⟩)
    subst hbase
    obtain ⟨-, hdvd, hclear, hlimit⟩ := hleast.1
    have hnext : Arranged addressLimit f (done ++ [item]) := arranged_concat.2 ⟨hdone, hdvd, hlimit, hclear⟩
    have hextents : extents f done ++ [extentOf item (f item.1)] = extents f (done ++ [item]) := by
      unfold extents
      rw [map_append]
      rfl
    rw [hextents] at hin
    rw [append_cons]
    exact ih hnext hin hall

/-! ## Fixed regions -/

/-- The region's base is fixed. -/
def isFixed (p : ℕ × LocalRegion) : Bool := p.2.fixedBase.isSome

variable {effective : List LocalRegion}

theorem fixedConflicts_eq_nil {taken : List (Extent ℕ)} {region : LocalRegion} :
    fixedConflicts effective addressLimit taken region base = [] ↔
      region.alignment ∣ base ∧ base + region.size ≤ addressLimit ∧ Clear taken base region.size := by
  unfold fixedConflicts
  rw [append_eq_nil_iff, append_eq_nil_iff, ← overlap_eq_none, and_assoc]
  refine and_congr ?_ (and_congr ?_ ?_)
  · rw [Nat.dvd_iff_mod_eq_zero]
    split_ifs with h
    · simp [h]
    · simpa using h
  · split_ifs with h
    · simpa using h
    · simpa using h
  · cases overlap taken base region.size with
    | none | some o => simp

/-- **The fixed regions are placed where they must be**, and conflict exactly when they are not
arranged. -/
theorem placeFixed_spec (hf : ∀ p ∈ items, ∀ b, p.2.fixedBase = some b → f p.1 = b) :
    (items.foldl (placeFixed effective addressLimit) ⟨[], Dict.empty, []⟩).taken =
        extents f (items.filter isFixed) ∧
      (∀ p ∈ items.filter isFixed, (items.foldl (placeFixed effective addressLimit)
        ⟨[], Dict.empty, []⟩).assigned.get? p.1 = some (f p.1)) ∧
      ((items.foldl (placeFixed effective addressLimit) ⟨[], Dict.empty, []⟩).conflicts = [] ↔
        Arranged addressLimit f (items.filter isFixed)) := by
  induction items using List.reverseRecOn with
  | nil =>
    refine ⟨rfl, nofun, fun _ => ?_, fun _ => rfl⟩
    exact ⟨nofun, nofun, .nil⟩
  | append_singleton items item ih =>
    obtain ⟨htaken, hassigned, hconflicts⟩ := ih fun p hp => hf p (mem_append_left _ hp)
    rw [foldl_append, foldl_cons, foldl_nil, filter_append]
    cases hbase : item.2.fixedBase with
    | none =>
      have hplace : ∀ p, placeFixed effective addressLimit p item = p := by
        intro p
        unfold placeFixed
        rw [hbase]
      have hno : [item].filter isFixed = [] := by
        rw [filter_singleton, isFixed, hbase]
        rfl
      rw [hplace, hno, append_nil]
      exact ⟨htaken, hassigned, hconflicts⟩
    | some base =>
      obtain rfl := hf item (mem_append_right _ (.head _)) base hbase
      have hyes : [item].filter isFixed = [item] := by
        rw [filter_singleton, isFixed, hbase]
        rfl
      unfold placeFixed at htaken hassigned hconflicts ⊢
      rw [hyes, hbase]
      refine ⟨?_, fun p hp => ?_, ?_⟩
      · rw [htaken]
        unfold extents
        rw [map_append]
        rfl
      · rw [Dict.get?_set]
        split_ifs with hk
        · rw [hk]
        · rcases mem_append.1 hp with hp | hp
          · exact hassigned p hp
          · exact absurd (congrArg Prod.fst (mem_singleton.1 hp)) hk
      · rw [append_eq_nil_iff, hconflicts, fixedConflicts_eq_nil, htaken, arranged_concat]

/-! ## Requests -/

/-- The regions of a request with their indices. -/
def indexed (effective : List LocalRegion) : List (ℕ × LocalRegion) := effective.zipIdx.map Prod.swap

theorem mem_indexed : p ∈ indexed effective ↔ effective[p.1]? = some p.2 := by
  unfold indexed
  rw [mem_map]
  constructor
  · rintro ⟨q, hq, rfl⟩
    exact mem_zipIdx_iff_getElem?.mp hq
  · exact fun h => ⟨p.swap, mem_zipIdx_iff_getElem?.mpr h, Prod.swap_swap p⟩

theorem ordered_perm (effective : List LocalRegion) : (ordered effective).Perm (indexed effective) :=
  perm_insertionSort _ _

theorem nodup_ordered (effective : List LocalRegion) : ((ordered effective).map Prod.fst).Nodup := by
  refine ((ordered_perm effective).map Prod.fst).nodup_iff.2 ?_
  unfold indexed
  rw [map_map]
  exact nodup_zipIdx_map_snd effective

/-- The base a region must have, by its index. -/
def fixedAt (effective : List LocalRegion) (i : ℕ) : ℕ := (effective[i]?.bind (·.fixedBase)).getD 0

theorem fixedAt_of_mem (hp : p ∈ ordered effective) {b : ℕ} (hb : p.2.fixedBase = some b) :
    fixedAt effective p.1 = b := by
  have hmem := mem_indexed.1 ((ordered_perm effective).mem_iff.1 hp)
  unfold fixedAt
  rw [hmem, Option.bind_some, hb]
  rfl

/-- The free regions in their order. -/
def mutable (effective : List LocalRegion) : List (ℕ × LocalRegion) :=
  (ordered effective).filter fun item => item.2.fixedBase = none

/-- The fixed regions in their order. -/
def fixed (effective : List LocalRegion) : List (ℕ × LocalRegion) := (ordered effective).filter isFixed

theorem fixed_append_mutable_perm (effective : List LocalRegion) :
    (fixed effective ++ mutable effective).Perm (indexed effective) := by
  refine List.Perm.trans ?_ (ordered_perm effective)
  have hnot : mutable effective = (ordered effective).filter fun p => !isFixed p := by
    refine filter_congr fun p _ => ?_
    unfold isFixed
    cases p.2.fixedBase <;> rfl
  rw [hnot]
  exact filter_append_perm _ _

/-- **The bases a request asks for**: an arrangement that honours the fixed ones. -/
def Solves (addressLimit : ℕ) (effective : List LocalRegion) (f : ℕ → ℕ) : Prop :=
  Arranged addressLimit f (indexed effective) ∧
    ∀ p ∈ indexed effective, ∀ b, p.2.fixedBase = some b → f p.1 = b

/-- **Free regions next to the fixed ones and to each other**, in the order they are placed in. -/
def LeftJustified (addressLimit : ℕ) (effective : List LocalRegion) : Prop :=
  ∃ bases, InOrder addressLimit (mutable effective) (extents (fixedAt effective) (fixed effective)) bases

variable {checked : CheckedConstraints}

/-- What the fixed regions leave behind. -/
theorem placeAllFixed_spec (checked : CheckedConstraints) (effective : List LocalRegion) :
    (placeAllFixed checked effective).taken = extents (fixedAt effective) (fixed effective) ∧
      (∀ p ∈ fixed effective,
        (placeAllFixed checked effective).assigned.get? p.1 = some (fixedAt effective p.1)) ∧
      ((placeAllFixed checked effective).conflicts = [] ↔
        Arranged (2 ^ checked.width) (fixedAt effective) (fixed effective)) :=
  placeFixed_spec fun _ hp _ hb => fixedAt_of_mem hp hb

/-- Where there is an answer, the fixed regions do not conflict. -/
theorem conflicts_of_solves (h : Solves (2 ^ checked.width) effective f) :
    (placeAllFixed checked effective).conflicts = [] := by
  obtain ⟨harranged, hhonoured⟩ := h
  have hall := harranged.perm (fixed_append_mutable_perm effective).symm
  have hfixed : Arranged (2 ^ checked.width) f (fixed effective) :=
    ⟨fun p hp => hall.aligned p (mem_append_left _ hp),
      fun p hp => hall.inside p (mem_append_left _ hp), (pairwise_append.1 hall.apart).1⟩
  refine (placeAllFixed_spec checked effective).2.2.2 (hfixed.congr fun p hp => ?_)
  obtain ⟨hmem, hsome⟩ := mem_filter.1 hp
  obtain ⟨b, hb⟩ := Option.isSome_iff_exists.1 hsome
  rw [fixedAt_of_mem hmem hb, hhonoured p ((ordered_perm effective).mem_iff.1 hmem) b hb]

theorem runSearch_answers (checked : CheckedConstraints) (effective : List LocalRegion) :
    Answers ⟨checked.maxNodes, checked.candidateLimit, 2 ^ checked.width⟩ (mutable effective)
      (extents (fixedAt effective) (fixed effective))
      ⟨0, (placeAllFixed checked effective).assigned, false⟩
      (runSearch checked effective (placeAllFixed checked effective)) := by
  rw [← (placeAllFixed_spec checked effective).1]
  exact search_answers ((nodup_ordered effective).sublist (filter_sublist.map Prod.fst)) _ _

/-- **What a successful search assigned solves the request.** -/
theorem solves_of_runSearch {s : SearchState} (hfixed : (placeAllFixed checked effective).conflicts = [])
    (h : runSearch checked effective (placeAllFixed checked effective) = (true, s)) :
    ∃ f, Solves (2 ^ checked.width) effective f ∧
      ∀ p ∈ indexed effective, s.assigned.get? p.1 = some (f p.1) := by
  obtain ⟨-, hassigned, hconflicts⟩ := placeAllFixed_spec checked effective
  have hanswers := runSearch_answers checked effective
  rw [h] at hanswers
  obtain ⟨bases, hin, hall⟩ := hanswers.found rfl
  set f : ℕ → ℕ := fun i => (s.assigned.get? i).getD 0 with hf
  have hnodup : ((fixed effective ++ mutable effective).map Prod.fst).Nodup :=
    ((fixed_append_mutable_perm effective).trans (ordered_perm effective).symm |>.map
      Prod.fst).nodup_iff.2 (nodup_ordered effective)
  rw [map_append] at hnodup
  have hdisjoint := (nodup_append'.1 hnodup).2.2
  have hkept : ∀ p ∈ fixed effective, s.assigned.get? p.1 = some (fixedAt effective p.1) := fun p hp => by
    rw [← hassigned p hp]
    exact hanswers.kept p.1 (disjoint_left.1 hdisjoint (mem_map_of_mem hp))
  have hfixedAt : ∀ p ∈ fixed effective, f p.1 = fixedAt effective p.1 := fun p hp => by
    rw [hf]
    dsimp only
    rw [hkept p hp]
    rfl
  have hextents : extents (fixedAt effective) (fixed effective) = extents f (fixed effective) :=
    map_congr_left fun p hp => by rw [hfixedAt p hp]
  have harranged : Arranged (2 ^ checked.width) f (fixed effective) := (hconflicts.1 hfixed).congr hfixedAt
  rw [hextents] at hin
  obtain ⟨hsome, hall'⟩ := (forall₂_and_left (mutable effective) bases
      (p := fun item => s.assigned.get? item.1 = some (f item.1))
      (R := fun item base => f item.1 = base)).1 <| hall.imp fun item base hbase => by
    rw [hf]
    dsimp only
    rw [hbase]
    exact ⟨rfl, rfl⟩
  have hfree := arranged_of_inOrder harranged hin hall'
  have hperm := fixed_append_mutable_perm effective
  refine ⟨f, ⟨hfree.perm hperm, fun p hp b hb => ?_⟩, fun p hp => ?_⟩
  · have hmem : p ∈ fixed effective := mem_filter.2
      ⟨(ordered_perm effective).mem_iff.2 hp, by rw [isFixed, hb]; rfl⟩
    rw [hfixedAt p hmem]
    exact fixedAt_of_mem (mem_of_mem_filter hmem) hb
  · rcases mem_append.1 (hperm.mem_iff.2 hp) with hmem | hmem
    · rw [hkept p hmem, hfixedAt p hmem]
    · exact hsome p hmem

/-! ## From the request to its effective regions -/

/-- The base a request asks for, if any. -/
def requestedBase (c : AddressConstraints) (region : LocalRegion) : Option ℕ :=
  match explicitBase c.fixedBases region with
  | .ok base => base
  | .error _ => none

/-- The region as it is allocated. -/
def allocated (c : AddressConstraints) (region : LocalRegion) : LocalRegion :=
  region.effective c.alignment.toNat (requestedBase c region)

theorem positiveId_eq_ok {value : ℤ} {path : String} :
    positiveId value path = .ok n ↔ 0 < value ∧ value.toNat = n := by
  unfold positiveId
  split_ifs with h
  · exact ⟨fun hn => ⟨h, Except.ok.inj hn⟩, fun hn => congrArg _ hn.2⟩
  · exact ⟨fun hn => (by cases hn), fun hn => absurd hn.1 h⟩

variable {c : AddressConstraints}

/-- What the checked constraints say. -/
theorem checkConstraints_eq_ok (h : checkConstraints c = .ok checked) :
    checked.width = c.addressWidth.toNat ∧ checked.width ≤ 64 ∧ 0 < checked.alignment ∧
      checked.alignment = c.alignment.toNat := by
  obtain ⟨width, hwidth, h⟩ := bind_ok.1 h
  split_ifs at h with hle
  · cases h
  · obtain ⟨-, -, h⟩ := bind_ok.1 h
    obtain ⟨alignment, halignment, h⟩ := bind_ok.1 h
    obtain ⟨declared, -, h⟩ := bind_ok.1 h
    obtain ⟨maxNodes, -, candidateLimit, -, h⟩ := bind_ok₂ h
    obtain ⟨hpos, hn⟩ := positiveId_eq_ok.1 halignment
    cases h
    refine ⟨(positiveId_eq_ok.1 hwidth).2.symm, not_lt.1 hle, ?_, hn.symm⟩
    dsimp only
    omega

variable {regions : List LocalRegion}

/-- What is placed is the request with its alignments and bases. -/
theorem effectiveRegions_eq_ok (hc : checkConstraints c = .ok checked)
    (h : effectiveRegions c checked regions = .ok effective) :
    effective = regions.map (allocated c) := by
  obtain ⟨placed, hplaced, h⟩ := bind_ok.1 h
  have heffective : placed = effective := by
    split at h
    · exact Except.ok.inj h
    · cases h
  subst heffective
  rw [mapM_eq_ok] at hplaced
  refine (forall₂_eq_eq_eq ▸ (forall₂_map_left_iff.2 (hplaced.imp ?_)) :
    regions.map (allocated c) = placed).symm
  intro region e he
  obtain ⟨base, hbase, he⟩ := bind_ok.1 he
  cases he
  unfold allocated requestedBase
  rw [hbase, (checkConstraints_eq_ok hc).2.2.2]

theorem mem_indexed_map {g : LocalRegion → LocalRegion} :
    p ∈ indexed regions → (p.1, g p.2) ∈ indexed (regions.map g) := by
  intro h
  rw [mem_indexed] at h ⊢
  rw [getElem?_map, h]
  rfl

theorem indexed_map (g : LocalRegion → LocalRegion) :
    indexed (regions.map g) = (indexed regions).map fun p => (p.1, g p.2) := by
  unfold indexed
  rw [zipIdx_map, map_map, map_map]
  rfl

/-- **What is reported**: every effective region once, at its base. -/
theorem report_of {assigned : Dict ℕ ℕ}
    (hassigned : ∀ p ∈ indexed effective, assigned.get? p.1 = some (f p.1)) :
    report effective assigned = .ok (((indexed effective).map fun p => p.2.placed (f p.1)).insertionSort
      fun a b => resultKey a ≤ resultKey b) := by
  unfold indexed
  rw [map_map]
  refine bind_ok.2 ⟨_, mapM_of_ok fun q hq => ?_, rfl⟩
  have hmem : q.swap ∈ indexed effective := mem_map_of_mem hq
  have hbase : assigned.get? q.2 = some (f q.2) := hassigned q.swap hmem
  obtain ⟨region, index⟩ := q
  dsimp only at hbase ⊢
  rw [hbase]
  rfl

/-! ## Sound address maps -/

/-- A request's region at a base, as it is reported. -/
def placedAt (c : AddressConstraints) (region : LocalRegion) (base : ℕ) : AddressRegion :=
  ⟨region.componentId, region.portId, base, region.size, region.offset,
    if requestedBase c region = none then .inferred else .fixed⟩

/-- **Bases that meet a request**: inside the address space, apart, at the fixed bases, and multiples of
both alignments. -/
structure Meets (regions : List LocalRegion) (c : AddressConstraints) (f : ℕ → ℕ) : Prop where
  inside : ∀ p ∈ indexed regions, f p.1 + p.2.size ≤ 2 ^ c.addressWidth.toNat
  apart : (indexed regions).Pairwise (Apart f)
  honoured : ∀ p ∈ indexed regions, ∀ b, requestedBase c p.2 = some b → f p.1 = b
  own : ∀ p ∈ indexed regions, p.2.alignment ∣ f p.1
  shared : ∀ p ∈ indexed regions, c.alignment.toNat ∣ f p.1

/-- **A sound address map**: every region once, at bases that meet the request. -/
def SoundMap (regions : List LocalRegion) (c : AddressConstraints) (result : List AddressRegion) : Prop :=
  ∃ f, result.Perm ((indexed regions).map fun p => placedAt c p.2 (f p.1)) ∧ Meets regions c f

/-- An allocation behind the checks of the request. -/
theorem allocateRegions_of (hchecked : checkConstraints c = .ok checked)
    (heffective : effectiveRegions c checked regions = .ok effective) :
    allocateRegions regions c = if (placeAllFixed checked effective).conflicts ≠ [] then
        .error (.allocation (placeAllFixed checked effective).conflicts)
      else
        match runSearch checked effective (placeAllFixed checked effective) with
        | (false, _) => .error (.allocation [unsatisfiable effective])
        | (true, s) => report effective s.assigned := by
  unfold allocateRegions
  rw [hchecked, ok_bind, heffective, ok_bind]
  dsimp only
  split_ifs <;> rfl

/-- **A successful allocation gives the effective regions their bases.** -/
theorem solves_of_allocateRegions {result : List AddressRegion} (h : allocateRegions regions c = .ok result) :
    ∃ checked f, checkConstraints c = .ok checked ∧ Solves (2 ^ checked.width) (regions.map (allocated c)) f ∧
      result.Perm ((indexed regions).map fun p => placedAt c p.2 (f p.1)) := by
  obtain ⟨checked, hchecked, h'⟩ := bind_ok.1 h
  obtain ⟨effective, heffective, -⟩ := bind_ok.1 h'
  rw [allocateRegions_of hchecked heffective] at h
  obtain rfl := effectiveRegions_eq_ok hchecked heffective
  split_ifs at h with hconflicts
  split at h
  · cases h
  · rename_i s hsearch
    obtain ⟨f, hsolves, hassigned⟩ := solves_of_runSearch (not_not.1 hconflicts) hsearch
    refine ⟨checked, f, hchecked, hsolves, ?_⟩
    rw [report_of hassigned, indexed_map, map_map] at h
    cases h
    exact perm_insertionSort _ _

/-- The larger of two alignments stands for both if one divides the other, or where only zero is left. -/
theorem dvd_of_max_dvd {limit : ℕ} (h : a ∣ g ∨ g ∣ a ∨ 2 ^ 64 ≤ max a g) (ha : 0 < a) (hg : 0 < g)
    (hbase : base < limit) (hlimit : limit ≤ 2 ^ 64) (hdvd : max a g ∣ base) :
    a ∣ base ∧ g ∣ base := by
  rcases h with h | h | h
  · rw [max_eq_right (Nat.le_of_dvd hg h)] at hdvd
    exact ⟨h.trans hdvd, hdvd⟩
  · rw [max_eq_left (Nat.le_of_dvd ha h)] at hdvd
    exact ⟨hdvd, h.trans hdvd⟩
  · obtain rfl := Nat.eq_zero_of_dvd_of_lt hdvd (by omega)
    exact ⟨dvd_zero a, dvd_zero g⟩

/-- **Bases of the effective regions meet the request** when the alignments allow it. -/
theorem meets_of_solves (hchecked : checkConstraints c = .ok checked)
    (halignments : ∀ r ∈ regions, r.alignment ∣ c.alignment.toNat ∨ c.alignment.toNat ∣ r.alignment ∨
      2 ^ 64 ≤ max r.alignment c.alignment.toNat)
    (h : Solves (2 ^ checked.width) (regions.map (allocated c)) f) : Meets regions c f := by
  obtain ⟨⟨haligned, hinside, hapart⟩, hhonoured⟩ := h
  obtain ⟨hwidth, hle, hpos, halignment⟩ := checkConstraints_eq_ok hchecked
  rw [indexed_map] at hapart
  rw [hwidth] at hinside hle
  rw [halignment] at hpos
  have hboth : ∀ p ∈ indexed regions, p.2.alignment ∣ f p.1 ∧ c.alignment.toNat ∣ f p.1 := by
    intro p hp
    have hin := hinside _ (mem_indexed_map hp)
    have hsize : 0 < (allocated c p.2).size := (allocated c p.2).size_pos
    refine dvd_of_max_dvd (halignments p.2 (mem_of_getElem? (mem_indexed.1 hp))) p.2.alignment_pos
      hpos ?_ (Nat.pow_le_pow_right (by decide) hle) (haligned _ (mem_indexed_map hp))
    exact Nat.lt_of_lt_of_le (Nat.lt_add_of_pos_right hsize) hin
  refine ⟨fun p hp => ?_, ?_, fun p hp => ?_, fun p hp => (hboth p hp).1, fun p hp => (hboth p hp).2⟩
  · exact hinside (p.1, allocated c p.2) (mem_indexed_map hp)
  · rw [pairwise_map] at hapart
    exact hapart
  · exact hhonoured (p.1, allocated c p.2) (mem_indexed_map hp)

/-- Bases that meet the request are bases of the effective regions. -/
theorem solves_of_meets (hchecked : checkConstraints c = .ok checked) (h : Meets regions c f) :
    Solves (2 ^ checked.width) (regions.map (allocated c)) f := by
  obtain ⟨hinside, hapart, hhonoured, hown, hshared⟩ := h
  obtain ⟨hwidth, -, -, -⟩ := checkConstraints_eq_ok hchecked
  rw [hwidth]
  refine ⟨⟨?_, ?_, ?_⟩, ?_⟩ <;> rw [indexed_map]
  · rw [forall_mem_map]
    intro p hp
    show max p.2.alignment c.alignment.toNat ∣ f p.1
    rcases max_choice p.2.alignment c.alignment.toNat with hmax | hmax
    · rw [hmax]
      exact hown p hp
    · rw [hmax]
      exact hshared p hp
  · exact forall_mem_map.2 hinside
  · exact pairwise_map.2 hapart
  · exact forall_mem_map.2 hhonoured

/-- One region with a fixed base. -/
def single (a base : ℕ) (ha : 0 < a) : LocalRegion :=
  ⟨1, 1, 0, 1, a, some base, none, one_pos, one_pos, one_pos, ha⟩

theorem positiveId_natCast (h : 0 < n) (path : String) : positiveId n path = .ok n :=
  positiveId_eq_ok.2 ⟨Int.natCast_pos.2 h, Int.toNat_natCast n⟩

/-- **Only the larger of the two alignments keeps a region from its fixed base.** -/
theorem allocateRegions_single (ha : 0 < a) (hg : 0 < g) (hlt : max a g < 2 ^ 64) :
    ∃ result, allocateRegions [single a (max a g) ha]
      { alignment := g, declaredAlignments := [(max a g : ℕ)] } = .ok result := by
  have hmax : 0 < max a g := lt_max_of_lt_left ha
  set effective := (single a (max a g) ha).effective g (some (max a g)) with heq
  have hchecked : checkConstraints { alignment := g, declaredAlignments := [((max a g : ℕ) : ℤ)] } =
      .ok ⟨64, g, [max a g], 4096, 128⟩ := by
    unfold checkConstraints
    rw [positiveId_natCast hg, mapM_cons, positiveId_natCast hmax]
    rfl
  have hallowed : alignmentConflict [max a g] effective = none := if_pos (.inr (.head _))
  have heffective : effectiveRegions { alignment := g, declaredAlignments := [((max a g : ℕ) : ℤ)] }
      ⟨64, g, [max a g], 4096, 128⟩ [single a (max a g) ha] = .ok [effective] := by
    have hmapM : [single a (max a g) ha].mapM (fun region => do
        let base ← explicitBase Dict.empty region
        return region.effective g base) = .ok [effective] := rfl
    have hnone : [effective].filterMap (alignmentConflict [max a g]) = [] := by
      rw [filterMap_cons_none hallowed]
      rfl
    unfold effectiveRegions
    rw [hmapM, ok_bind]
    rw [hnone]
    rfl
  have hfixed : fixed [effective] = [(0, effective)] := rfl
  have hconflicts : (placeAllFixed ⟨64, g, [max a g], 4096, 128⟩ [effective]).conflicts = [] := by
    refine (placeAllFixed_spec _ _).2.2.2 ⟨?_, ?_, ?_⟩ <;> rw [hfixed]
    · exact forall_mem_singleton.2 dvd_rfl
    · exact forall_mem_singleton.2 hlt
    · exact pairwise_singleton _ _
  rw [allocateRegions_of hchecked heffective, if_neg (not_not.2 hconflicts)]
  have hassigned := (placeAllFixed_spec ⟨64, g, [max a g], 4096, 128⟩ [effective]).2.1 (0, effective)
    (hfixed ▸ .head _)
  have hsearch : runSearch ⟨64, g, [max a g], 4096, 128⟩ [effective]
      (placeAllFixed ⟨64, g, [max a g], 4096, 128⟩ [effective]) =
      (true, ⟨1, (placeAllFixed ⟨64, g, [max a g], 4096, 128⟩ [effective]).assigned, false⟩) := rfl
  rw [hsearch]
  exact ⟨_, report_of (f := fixedAt [effective]) (forall_mem_singleton.2 hassigned)⟩

/-- **When every allocated map is sound**: exactly when one of two alignments divides the other, whichever
of the regions' alignments meets the global one. -/
theorem soundMap_iff (alignments : Set ℕ) (g : ℕ) :
    (∀ (regions : List LocalRegion) (c : AddressConstraints) (result : List AddressRegion),
      (∀ r ∈ regions, r.alignment ∈ alignments) → c.alignment = g →
      allocateRegions regions c = .ok result → SoundMap regions c result) ↔
    ∀ a ∈ alignments, a ∣ g ∨ g ∣ a ∨ 2 ^ 64 ≤ max a g := by
  constructor
  · intro hsound a ha
    by_contra hnot
    obtain ⟨hag, hga, hlt⟩ : ¬ a ∣ g ∧ ¬ g ∣ a ∧ max a g < 2 ^ 64 := by
      rwa [not_or, not_or, not_le] at hnot
    have hapos : 0 < a := Nat.pos_of_ne_zero fun h => hga (h ▸ dvd_zero g)
    have hgpos : 0 < g := Nat.pos_of_ne_zero fun h => hag (h ▸ dvd_zero a)
    obtain ⟨result, h⟩ := allocateRegions_single hapos hgpos hlt
    obtain ⟨f, -, hmeets⟩ := hsound _ _ result (List.forall_mem_singleton.mpr ha) rfl h
    have hmem : (0, single a (max a g) hapos) ∈ indexed [single a (max a g) hapos] :=
      .head _
    have hbase : f 0 = max a g := hmeets.honoured _ hmem _ rfl
    have hown : a ∣ f 0 := hmeets.own _ hmem
    have hshared : g ∣ f 0 := hmeets.shared _ hmem
    rw [hbase] at hown hshared
    rcases max_choice a g with hmax | hmax
    · exact hga (hmax ▸ hshared)
    · exact hag (hmax ▸ hown)
  · intro hdvd regions c result hin hg h
    obtain ⟨checked, f, hchecked, hsolves, hperm⟩ := solves_of_allocateRegions h
    refine ⟨f, hperm, meets_of_solves hchecked (fun r hr => ?_) hsolves⟩
    rw [hg]
    exact hdvd _ (hin r hr)

/-- A region without a fixed base. -/
def free (component size alignment : ℕ) (hcomponent : 0 < component) (hsize : 0 < size)
    (halignment : 0 < alignment) : LocalRegion :=
  ⟨component, 1, 0, size, alignment, none, none, hcomponent, one_pos, hsize, halignment⟩

/-- Two regions at multiples of three and of four. -/
def threeByFour : List LocalRegion :=
  [free 1 1 3 one_pos one_pos three_pos, free 2 1 3 two_pos one_pos three_pos]

/-- The second region is placed at four. -/
theorem threeByFour_unsound :
    allocateRegions threeByFour { alignment := 4 } =
        .ok [⟨1, 1, 0, 1, 0, .inferred⟩, ⟨2, 1, 4, 1, 0, .inferred⟩] ∧
      ¬ SoundMap threeByFour { alignment := 4 } [⟨1, 1, 0, 1, 0, .inferred⟩, ⟨2, 1, 4, 1, 0, .inferred⟩] := by
  refine ⟨by rfl, ?_⟩
  rintro ⟨f, hperm, hmeets⟩
  have hmem := hperm.mem_iff.mp (.tail _ (.head _))
  obtain ⟨p, hp, hplaced⟩ := List.mem_map.mp hmem
  have hfour : f p.1 = 4 := congrArg AddressRegion.base hplaced
  have hown : p.2.alignment = 3 := by
    rcases List.mem_cons.mp hp with rfl | hp
    · rfl
    · rw [List.mem_singleton.mp hp]
      rfl
  have hdvd := hmeets.own p hp
  rw [hfour, hown] at hdvd
  revert hdvd
  decide

end Composition

end MyFuzz
