import MyFuzz.Composition.AddressMap

/-!
# Composition/AddressExchange — when a request without an answer is reported as one

The search tries a region only next to what stands before it.  A region that stands higher is moved
down to the nearest such base, and what stood between moves up by its size:

    ──| q₁ | q₂ | item |──        ⟿        ──| item | q₁ | q₂ |──

This keeps the alignments if the size of the region is a multiple of the later ones and no later
region lies across the lower base; a region like it may take its place instead.  Otherwise a request
that can be met may be reported as one that cannot.
-/

namespace MyFuzz

namespace Composition

open FirstFit Outcome List

/-! ## Moving a region down -/

/-- **A region may be placed before another**: they are alike, or its size keeps the other's
alignment and the other never lies across one of its multiples. -/
def Exchanges (p q : ℕ × LocalRegion) : Prop :=
  p.2.size = q.2.size ∧ p.2.alignment = q.2.alignment ∨ q.2.alignment ∣ p.2.size ∧
    (p.2.alignment ∣ q.2.alignment ∨ q.2.alignment ∣ p.2.alignment ∧ q.2.size ≤ q.2.alignment)

variable {taken : List (Extent ℕ)} {size alignment addressLimit base c : ℕ}

variable {item q : ℕ × LocalRegion} {rest items : List (ℕ × LocalRegion)} {f : ℕ → ℕ}

/-- The nearest boundary under a clear place: everything above it, up to the place, is clear. -/
theorem exists_boundary (hclear : Clear taken base size) : ∃ start,
    (start = 0 ∨ ∃ o ∈ taken, o.stop = start) ∧ start ≤ base ∧
      ∀ o ∈ taken, o.base < base + size → o.stop ≤ start := by
  induction taken with
  | nil => exact ⟨0, .inl rfl, Nat.zero_le _, fun o ho => absurd ho not_mem_nil⟩
  | cons o taken ih =>
    obtain ⟨start, hstart, hle, hbelow⟩ := ih fun o ho => hclear o (.tail _ ho)
    have ho := hclear o (.head _)
    have hmem : start = 0 ∨ ∃ o' ∈ o :: taken, o'.stop = start :=
      hstart.imp_right fun ⟨o', ho', hstop⟩ => ⟨o', .tail _ ho', hstop⟩
    by_cases hnear : o.base < base + size ∧ start < o.stop
    · refine ⟨o.stop, .inr ⟨o, .head _, rfl⟩, ?_, fun o' ho' hbase => ?_⟩
      · by_contra hlt
        exact ho ⟨not_le.1 hlt, hnear.1⟩
      · rcases mem_cons.1 ho' with rfl | ho'
        · exact le_rfl
        · exact (hbelow o' ho' hbase).trans hnear.2.le
    · refine ⟨start, hmem, hle, fun o' ho' hbase => ?_⟩
      rcases mem_cons.1 ho' with rfl | ho'
      · by_contra hlt
        exact hnear ⟨hbase, not_le.1 hlt⟩
      · exact hbelow o' ho' hbase

/-- Where a region is moved down to: a base next to what is taken, with everything up to its old end
clear, and no later region across it. -/
structure Lowered (addressLimit : ℕ) (taken : List (Extent ℕ)) (item : ℕ × LocalRegion)
    (base c : ℕ) :
    Prop where
  candidate : Candidate item.2 taken addressLimit c
  le : c ≤ base
  clear : ∀ o ∈ taken, o.base < base + item.2.size → o.stop ≤ c
  beside : ∀ q : ℕ × LocalRegion, Exchanges item q → ∀ x, q.2.alignment ∣ x →
    Clear taken x q.2.size → x + q.2.size ≤ c ∨ c ≤ x

/-- **A region at a clear base can be moved down.** -/
theorem exists_lowered (htaken : ∀ o ∈ taken, o.base < o.stop) (hdvd : item.2.alignment ∣ base)
    (hfits : base + item.2.size ≤ addressLimit) (hclear : Clear taken base item.2.size) :
    ∃ c, Lowered addressLimit taken item base c := by
  obtain ⟨start, hstart, hle, hbelow⟩ := exists_boundary hclear
  have hpos := item.2.alignment_pos
  have hup : start ≤ alignUp start item.2.alignment := le_alignUp hpos
  have hdown : alignUp start item.2.alignment ≤ base := alignUp_le hpos hdvd hle
  have hleast : IsLeast (places taken item.2.size item.2.alignment addressLimit start)
      (alignUp start item.2.alignment) := by
    refine ⟨⟨hup, dvd_alignUp _ _, fun o ho hmeets => ?_, by omega⟩, fun x hx => ?_⟩
    · have hmeets' : alignUp start item.2.alignment < o.stop ∧
          o.base < alignUp start item.2.alignment + item.2.size := hmeets
      have hstop := hbelow o ho (by omega)
      omega
    · exact alignUp_le hpos hx.2.1 hx.1
  refine ⟨alignUp start item.2.alignment, ⟨start, ?_, by omega, hleast⟩, hdown,
    fun o ho hbase => ?_,
    fun q hex x hx hq => ?_⟩
  · rcases hstart with rfl | ⟨o, ho, rfl⟩
    · exact .head _
    · exact .tail _ (mem_flatMap.2 ⟨o, ho, .tail _ (.head _)⟩)
  · exact (hbelow o ho hbase).trans hup
  · -- the boundary is the end of something that is taken, and no region lies across that
    have hacross : x + q.2.size ≤ start ∨ start ≤ x := by
      rcases hstart with rfl | ⟨o, ho, rfl⟩
      · exact .inr (Nat.zero_le x)
      · have hmeets : ¬ (x < o.stop ∧ o.base < x + q.2.size) := hq o ho
        have := htaken o ho
        omega
    rcases hacross with h | h
    · exact .inl (h.trans hup)
    rcases hex with ⟨-, halike⟩ | ⟨-, hcoarse | ⟨hfine, hsize⟩⟩
    · exact .inr (alignUp_le hpos (halike ▸ hx) h)
    · exact .inr (alignUp_le hpos (hcoarse.trans hx) h)
    · by_cases hlt : x < alignUp start item.2.alignment
      · -- the next multiple of the finer alignment is not above the base
        obtain ⟨k, rfl⟩ := hx
        obtain ⟨j, hj⟩ := hfine.trans (dvd_alignUp start item.2.alignment)
        rw [hj] at hlt ⊢
        have hkj : k + 1 ≤ j := Nat.lt_of_mul_lt_mul_left hlt
        have hmul := Nat.mul_le_mul_left q.2.alignment hkj
        rw [Nat.mul_succ] at hmul
        exact .inl (by omega)
      · exact .inr (not_lt.1 hlt)

/-- Where a region may come from: its own base, or that of a region like it, with no such region
below. -/
structure Slot (f : ℕ → ℕ) (item : ℕ × LocalRegion) (rest : List (ℕ × LocalRegion)) (base : ℕ) :
    Prop where
  own : base = f item.1 ∨ base + item.2.size ≤ f item.1
  taken : ∀ q ∈ rest, (f q.1 = base ∧ q.2.size = item.2.size ∧ q.2.alignment = item.2.alignment) ∨
    f q.1 + q.2.size ≤ base ∨ base + item.2.size ≤ f q.1
  below : ∀ q ∈ rest, f q.1 < base → q.2.alignment ∣ item.2.size
  at_some : ∃ q ∈ item :: rest, f q.1 = base ∧ q.2.size = item.2.size ∧
    q.2.alignment = item.2.alignment

theorem exists_slot (h : Arranged addressLimit f (item :: rest))
    (hex : ∀ q ∈ rest, Exchanges item q) : ∃ base, Slot f item rest base := by
  obtain ⟨hitem, hrest⟩ := pairwise_cons.1 h.apart
  set P : ℕ → Prop := fun base => ∃ q ∈ item :: rest,
    f q.1 = base ∧ q.2.size = item.2.size ∧ q.2.alignment = item.2.alignment with hP
  obtain ⟨base, ⟨q₀, hmem, hq₀, hsize, halign⟩, hleast⟩ : ∃ base, P base ∧ ∀ x, P x → base ≤ x := by
    classical
    have hex : ∃ base, P base := ⟨f item.1, item, .head _, rfl, rfl, rfl⟩
    exact ⟨Nat.find hex, Nat.find_spec hex, fun x hx => Nat.find_min' hex hx⟩
  have hpos := item.2.size_pos
  have hle := hleast _ ⟨item, .head _, rfl, rfl, rfl⟩
  have happ : ∀ q ∈ rest, f item.1 + item.2.size ≤ f q.1 ∨ f q.1 + q.2.size ≤ f item.1 := hitem
  refine ⟨base, ?_, fun q hq => ?_, fun q hq hlt => ?_, q₀, hmem, hq₀, hsize, halign⟩
  · rcases mem_cons.1 hmem with rfl | hmem
    · exact .inl hq₀.symm
    · have := happ q₀ hmem
      omega
  · rcases mem_cons.1 hmem with rfl | hmem
    · have := happ q hq
      omega
    · by_cases heq : q = q₀
      · exact .inl ⟨heq ▸ hq₀, heq ▸ hsize, heq ▸ halign⟩
      · have hsymm : Std.Symm (Apart f) := ⟨fun _ _ h => h.symm⟩
        have hapart : f q.1 + q.2.size ≤ f q₀.1 ∨ f q₀.1 + q₀.2.size ≤ f q.1 :=
          hrest.forall hq hmem heq
        omega
  · rcases hex q hq with ⟨hsize, halign⟩ | ⟨hdvd, -⟩
    · exact absurd (hleast _ ⟨q, .tail _ hq, rfl, hsize.symm, halign.symm⟩) (not_le.2 hlt)
    · exact hdvd

/-- What stood between the two bases moves up by the size of the region, and a region like it that
stood at the upper one takes the base it leaves. -/
def shifted (f : ℕ → ℕ) (c base size left i : ℕ) : ℕ :=
  if f i = base then left else if c ≤ f i ∧ f i < base then f i + size else f i

/-- **A region is moved down, and the others make room.** -/
theorem arranged_shifted (h : Arranged addressLimit f (item :: rest))
    (hslot : Slot f item rest base)
    (hex : ∀ q ∈ rest, Exchanges item q) (hlow : Lowered addressLimit taken item base c)
    (hclear : ∀ p ∈ item :: rest, Clear taken (f p.1) p.2.size) :
    Arranged addressLimit (shifted f c base item.2.size (f item.1)) rest ∧
      ∀ q ∈ rest, Clear (taken ++ [extentOf item c])
        (shifted f c base item.2.size (f item.1) q.1) q.2.size := by
  obtain ⟨haligned, hinside, hapart⟩ := h
  obtain ⟨hitem, hrest⟩ := pairwise_cons.1 hapart
  have hfits := hinside item (.head _)
  have hpos := item.2.size_pos
  have hown := hslot.own
  have hle := hlow.le
  generalize hg : shifted f c base item.2.size (f item.1) = g
  -- a region stands below, moves up, takes the base that is left, or stands above
  have hwhere : ∀ q ∈ rest, f item.1 + item.2.size ≤ f q.1 ∨ f q.1 + q.2.size ≤ f item.1 →
      (f q.1 + q.2.size ≤ c ∧ g q.1 = f q.1) ∨
      (c ≤ f q.1 ∧ f q.1 + q.2.size ≤ base ∧ g q.1 = f q.1 + item.2.size) ∨
      (f q.1 = base ∧ q.2.size = item.2.size ∧ g q.1 = f item.1) ∨
      (base + item.2.size ≤ f q.1 ∧ g q.1 = f q.1) := by
    intro q hq hq'
    have hqpos := q.2.size_pos
    have hbeside := hlow.beside q (hex q hq) (f q.1) (haligned q (.tail _ hq))
      (hclear q (.tail _ hq))
    have htaken := hslot.taken q hq
    rw [← hg]
    unfold shifted
    split_ifs with hsame hmoves <;> omega
  refine ⟨⟨fun q hq => ?_, fun q hq => ?_, hrest.imp_of_mem fun hp hq hpq => ?_⟩,
    fun q hq o ho hmeets => ?_⟩
  · have hdvd := haligned q (.tail _ hq)
    have hqpos := q.2.size_pos
    rcases hwhere q hq (hitem q hq) with ⟨-, heq⟩ | ⟨-, hlt, heq⟩ | ⟨hat, -, heq⟩ | ⟨-, heq⟩
    · rwa [heq]
    · rw [heq]
      exact Nat.dvd_add hdvd (hslot.below q hq (by omega))
    · rcases hslot.taken q hq with ⟨-, -, halign⟩ | h | h
      · rw [heq, halign]
        exact haligned item (.head _)
      · omega
      · omega
    · rwa [heq]
  · have hin := hinside q (.tail _ hq)
    have hwhere' := hwhere q hq (hitem q hq)
    omega
  · have hpq' : f _ + _ ≤ f _ ∨ f _ + _ ≤ f _ := hpq
    have hp' := hwhere _ hp (hitem _ hp)
    have hq' := hwhere _ hq (hitem _ hq)
    have hpapart : f _ + _ ≤ f _ ∨ f _ + _ ≤ f _ := hitem _ hp
    have hqapart : f _ + _ ≤ f _ ∨ f _ + _ ≤ f _ := hitem _ hq
    unfold Apart
    omega
  · have hmeets' : g q.1 < o.stop ∧ o.base < g q.1 + q.2.size := hmeets
    have hwhere' := hwhere q hq (hitem q hq)
    have hqapart : f _ + _ ≤ f _ ∨ f _ + _ ≤ f _ := hitem q hq
    rcases mem_append.1 ho with ho | ho
    · have hq' : ¬ (f q.1 < o.stop ∧ o.base < f q.1 + q.2.size) := hclear q (.tail _ hq) o ho
      have hitem' : ¬ (f item.1 < o.stop ∧ o.base < f item.1 + item.2.size) :=
        hclear item (.head _) o ho
      have hbelow := hlow.clear o ho
      omega
    · obtain rfl := mem_singleton.1 ho
      have hmeets'' : g q.1 < c + item.2.size ∧ c < g q.1 + q.2.size := hmeets'
      omega

/-- **Regions that exchange are placed in order wherever they can be placed at all.** -/
theorem exists_inOrder : ∀ {items : List (ℕ × LocalRegion)} {taken : List (Extent ℕ)} {f : ℕ → ℕ},
    items.Pairwise Exchanges → (∀ o ∈ taken, o.base < o.stop) → Arranged addressLimit f items →
    (∀ p ∈ items, Clear taken (f p.1) p.2.size) →
      ∃ bases, InOrder addressLimit items taken bases := by
  intro items
  induction items with
  | nil => exact fun _ _ _ _ => ⟨[], rfl⟩
  | cons item rest ih =>
    intro taken f hex htaken harranged hclear
    obtain ⟨hitem, hrest⟩ := pairwise_cons.1 hex
    obtain ⟨base, hslot⟩ := exists_slot harranged hitem
    obtain ⟨q, hq, rfl, hsize, halign⟩ := hslot.at_some
    obtain ⟨c, hlow⟩ := exists_lowered htaken (halign ▸ harranged.aligned q hq)
      (hsize ▸ harranged.inside q hq) (hsize ▸ hclear q hq)
    obtain ⟨hshifted, hclear'⟩ := arranged_shifted harranged hslot hitem hlow hclear
    have htaken' : ∀ o ∈ taken ++ [extentOf item c], o.base < o.stop := by
      intro o ho
      rcases mem_append.1 ho with ho | ho
      · exact htaken o ho
      · rw [mem_singleton.1 ho]
        exact Nat.lt_add_of_pos_right item.2.size_pos
    obtain ⟨bases, hin⟩ := ih hrest htaken' hshifted hclear'
    exact ⟨c :: bases, c, bases, rfl, hlow.candidate, hin⟩

/-! ## Requests without an answer -/

variable {effective : List LocalRegion} {checked : CheckedConstraints} {regions : List LocalRegion}

variable {cs : AddressConstraints}

/-- A request that can be met can be met in order, if its free regions exchange. -/
theorem leftJustified_of_solves (h : Solves addressLimit effective f)
    (hex : (mutable effective).Pairwise Exchanges) :
    LeftJustified addressLimit effective := by
  obtain ⟨harranged, hhonoured⟩ := h
  obtain ⟨haligned, hinside, hapart⟩ := harranged.perm (fixed_append_mutable_perm effective).symm
  obtain ⟨-, hmutable, hbetween⟩ := pairwise_append.1 hapart
  have hextents : extents (fixedAt effective) (fixed effective) = extents f (fixed effective) := by
    refine map_congr_left fun p hp => ?_
    obtain ⟨hmem, hsome⟩ := mem_filter.1 hp
    obtain ⟨b, hb⟩ := Option.isSome_iff_exists.1 hsome
    rw [fixedAt_of_mem hmem hb, hhonoured p ((ordered_perm effective).mem_iff.1 hmem) b hb]
  unfold LeftJustified
  rw [hextents]
  refine exists_inOrder hex (forall_mem_map.2 fun p _ => ?_) ⟨fun p hp => ?_, fun p hp => ?_,
    hmutable⟩ fun p hp => clear_extents.2 fun q hq => (hbetween q hq p hp).symm
  · exact Nat.lt_add_of_pos_right p.2.size_pos
  · exact haligned p (mem_append_right _ hp)
  · exact hinside p (mem_append_right _ hp)

/-- **Nothing is reported as impossible that is possible**: if a search that was not cut off finds
no address map, there is none. -/
def Complete (regions : List LocalRegion) (c : AddressConstraints) : Prop :=
  ∀ checked effective, checkConstraints c = .ok checked →
    effectiveRegions c checked regions = .ok effective →
    (runSearch checked effective (placeAllFixed checked effective)).2.cut = false →
    allocateRegions regions c = .error (.allocation [unsatisfiable effective]) →
      ¬ ∃ f, Meets regions c f

/-- What an uncut search answers. -/
theorem reports_iff (hchecked : checkConstraints cs = .ok checked)
    (heffective : effectiveRegions cs checked regions = .ok effective)
    (hcut : (runSearch checked effective (placeAllFixed checked effective)).2.cut = false)
    (hmeets : ∃ f, Meets regions cs f) :
    allocateRegions regions cs = .error (.allocation [unsatisfiable effective]) ↔
      ¬ LeftJustified (2 ^ checked.width) effective := by
  obtain ⟨f, hf⟩ := hmeets
  rw [allocateRegions_of hchecked heffective]
  obtain rfl := effectiveRegions_eq_ok hchecked heffective
  have hconflicts := conflicts_of_solves (solves_of_meets hchecked hf)
  have hanswers := runSearch_answers checked (regions.map (allocated cs))
  rw [if_neg (not_not.mpr hconflicts)]
  rcases hresult : runSearch checked (regions.map (allocated cs))
    (placeAllFixed checked (regions.map (allocated cs))) with ⟨_ | _, s⟩
  · rw [hresult] at hanswers hcut
    exact ⟨fun _ => hanswers.missed rfl hcut, fun _ => rfl⟩
  · rw [hresult] at hanswers
    obtain ⟨bases, hin, -⟩ := hanswers.found rfl
    obtain ⟨g, -, hassigned⟩ := solves_of_runSearch hconflicts hresult
    dsimp only
    rw [report_of hassigned]
    exact ⟨fun h => (by cases h), fun h => absurd ⟨bases, hin⟩ h⟩

/-- **A request whose free regions exchange is answered rightly.** -/
theorem complete_of_exchanges
    (hex : (mutable (regions.map (allocated cs))).Pairwise Exchanges) : Complete regions cs := by
  rintro checked effective hchecked heffective hcut hreport ⟨f, hf⟩
  refine (reports_iff hchecked heffective hcut ⟨f, hf⟩).1 hreport ?_
  obtain rfl := effectiveRegions_eq_ok hchecked heffective
  exact leftJustified_of_solves (solves_of_meets hchecked hf) hex

/-! ## Searches that are not cut off -/

theorem length_eraseDups_le : ∀ l : List ℕ, l.eraseDups.length ≤ l.length
  | [] => le_rfl
  | a :: l => by
    rw [eraseDups_cons, length_cons, length_cons]
    exact Nat.succ_le_succ ((length_eraseDups_le _).trans (length_filter_le _ _))
termination_by l => l.length
decreasing_by exact Nat.lt_succ_of_le (length_filter_le _ _)

theorem length_candidateStarts_le (region : LocalRegion) (taken : List (Extent ℕ))
    (addressLimit : ℕ) :
    (candidateStarts region taken addressLimit).length ≤ 2 * taken.length + 1 := by
  have hpairs : (taken.flatMap fun o => [o.base, o.stop]).length = 2 * taken.length := by
    rw [length_flatMap]
    induction taken with
    | nil => rfl
    | cons o taken ih =>
      rw [map_cons, sum_cons, ih, length_cons]
      simp only [length_cons, length_nil]
      omega
  unfold candidateStarts
  rw [length_insertionSort]
  refine (length_eraseDups_le _).trans ?_
  rw [length_map]
  refine (length_filter_le _ _).trans ?_
  rw [length_cons, hpairs]

/-- With room for a candidate of every boundary, none is left out. -/
theorem truncated_eq_false {limits : SearchLimits} {region : LocalRegion}
    (h : 2 * taken.length + 1 ≤ limits.candidates) : truncated limits region taken = false := by
  have hlength := length_candidateStarts_le region taken limits.address
  unfold truncated candidateBases
  rw [foldl_addCandidate_of_room (by rw [length_nil]; omega),
    foldl_addCandidate_of_room (by rw [length_nil]; omega)]
  simp

theorem length_candidateBases_le {region : LocalRegion} {limit : ℕ}
    (h : 2 * taken.length + 1 ≤ limit) :
    (candidateBases region taken limit addressLimit).length ≤ 2 * taken.length + 1 := by
  have hlength := length_candidateStarts_le region taken addressLimit
  unfold candidateBases
  rw [foldl_addCandidate_of_room (by rw [length_nil]; omega), nil_append]
  exact ((length_eraseDups_le _).trans (length_filterMap_le _ _)).trans hlength

/-- How many nodes a search of so many regions next to so many extents visits at most. -/
def nodeBound : ℕ → ℕ → ℕ
  | 0, _ => 1
  | regions + 1, extents => 1 + (2 * extents + 1) * nodeBound regions (extents + 1)

/-- A search that is not cut off, and the nodes it may visit. -/
def Uncut (nodes : ℕ) (s : SearchState) (result : Bool × SearchState) : Prop :=
  s.cut = false → result.2.cut = false ∧ result.2.nodes ≤ s.nodes + nodes

theorem uncut_tryBases {next : ℕ → SearchState → Bool × SearchState} {maxNodes nodes : ℕ}
    (hnext : ∀ base s, s.nodes + nodes ≤ maxNodes → Uncut nodes s (next base s)) :
    ∀ (bases : List ℕ) (s : SearchState), s.nodes + bases.length * nodes ≤ maxNodes →
      Uncut (bases.length * nodes) s (tryBases next bases s) := by
  intro bases
  induction bases with
  | nil => exact fun s _ hs => ⟨hs, Nat.le_add_right _ _⟩
  | cons base bases ih =>
    intro s hroom hs
    rw [length_cons, Nat.succ_mul] at hroom ⊢
    obtain ⟨hcut, hnodes⟩ := hnext base s (by omega) hs
    rw [tryBases]
    rcases hresult : next base s with ⟨_ | _, s'⟩
    · rw [hresult] at hcut hnodes
      obtain ⟨hcut', hnodes'⟩ := ih s' (by dsimp only at hnodes; omega) hcut
      refine ⟨hcut', ?_⟩
      dsimp only at hnodes ⊢
      omega
    · rw [hresult] at hcut hnodes
      refine ⟨hcut, ?_⟩
      dsimp only at hnodes ⊢
      omega

/-- **A search with enough nodes and candidates is not cut off.** -/
theorem uncut_search {limits : SearchLimits} : ∀ (items : List (ℕ × LocalRegion))
    (taken : List (Extent ℕ)) (s : SearchState),
    s.nodes + nodeBound items.length taken.length ≤ limits.maxNodes →
    2 * (taken.length + items.length) + 1 ≤ limits.candidates →
      Uncut (nodeBound items.length taken.length) s (search limits items taken s) := by
  intro items
  induction items with
  | nil =>
    intro taken s hroom _ hs
    rw [length_nil, nodeBound] at hroom ⊢
    rw [search, if_neg (by omega)]
    exact ⟨hs, le_rfl⟩
  | cons item rest ih =>
    intro taken s hroom hcandidates hs
    obtain ⟨index, region⟩ := item
    rw [length_cons] at hroom hcandidates ⊢
    rw [nodeBound] at hroom ⊢
    rw [search, if_neg (by omega)]
    have hlength : (candidateBases region taken limits.candidates limits.address).length ≤
        2 * taken.length + 1 := length_candidateBases_le (by omega)
    have hmul := Nat.mul_le_mul_right (nodeBound rest.length (taken.length + 1)) hlength
    have htry := @uncut_tryBases (fun base s => takeBack index (search limits rest
        (taken ++ [⟨base, base + region.size, index⟩])
        { s with assigned := s.assigned.set index base })) limits.maxNodes
      (nodeBound rest.length (taken.length + 1)) (fun base s hs => ?_)
      (candidateBases region taken limits.candidates limits.address)
      ⟨s.nodes + 1, s.assigned, s.cut || truncated limits region taken⟩
      (by dsimp only; omega) (by rw [hs, truncated_eq_false (by omega)]; rfl)
    · refine ⟨htry.1, ?_⟩
      have := htry.2
      dsimp only at this
      omega
    · have hrest := ih (taken ++ [⟨base, base + region.size, index⟩])
        { s with assigned := s.assigned.set index base }
        (by rw [length_append]; exact hs) (by rw [length_append, length_singleton]; omega)
      rw [length_append] at hrest
      intro hcut
      obtain ⟨hcut', hnodes'⟩ := hrest hcut
      unfold takeBack
      split <;> rename_i heq <;> rw [heq] at hcut' hnodes' <;> exact ⟨hcut', hnodes'⟩

/-! ## Alignments that are always answered rightly -/

variable {b : ℕ} {p : ℕ × LocalRegion}

/-- The byte is tried at zero only, where the other region must stand. -/
theorem not_inOrder_crossing (hb : 2 ≤ b) (hp : p.2.size = 1) (hq : q.2.size = b)
    (halign : q.2.alignment = b) (hlimit : 1 ≤ addressLimit) (hzero : Clear taken 0 1)
    (hroom : ∀ x size, 0 < size → x + size ≤ addressLimit → Clear taken x size → x + size ≤ b + 1)
    (hstarts : ∀ start ∈ taken.flatMap fun o => [o.base, o.stop], b + 1 ≤ start) :
    ¬ ∃ bases, InOrder addressLimit [p, q] taken bases := by
  rintro ⟨_, x, _, rfl, ⟨start, hstart, -, hleast⟩, y, _, rfl, ⟨_, -, -, hplace, -⟩, rfl⟩
  obtain ⟨⟨hle, -, hclear, hfits⟩, hlower⟩ := hleast
  rw [hp] at hclear hfits hlower
  have hx : x = 0 := by
    rcases mem_cons.1 hstart with rfl | hmem
    · exact Nat.le_zero.1 (hlower ⟨le_rfl, dvd_zero _, hzero, by omega⟩)
    · have := hstarts start hmem
      have := hroom x 1 one_pos hfits hclear
      omega
  subst hx
  obtain ⟨-, hdvd, hclear', hfits'⟩ := hplace
  rw [hq] at hclear' hfits'
  rw [halign] at hdvd
  have hin := hroom y b (by omega) hfits' fun o ho => hclear' o (mem_append_left _ ho)
  obtain rfl : y = 0 := Nat.eq_zero_of_dvd_of_lt hdvd (by omega)
  refine hclear' (extentOf p 0) (mem_append_right _ (.head _)) ⟨?_, ?_⟩
  · show 0 < 0 + p.2.size
    omega
  · show 0 < 0 + b
    omega

/-- A request that can be met, but not in order, is reported as one that cannot. -/
theorem not_complete_of (hchecked : checkConstraints cs = .ok checked)
    (heffective : effectiveRegions cs checked regions = .ok effective)
    (hnodes : nodeBound (mutable effective).length (fixed effective).length ≤ checked.maxNodes)
    (hcandidates : 2 * ((fixed effective).length + (mutable effective).length) + 1 ≤
      checked.candidateLimit)
    (hmeets : ∃ f, Meets regions cs f) (hnot : ¬ LeftJustified (2 ^ checked.width) effective) :
    ¬ Complete regions cs := by
  intro hcomplete
  have hlength : (placeAllFixed checked effective).taken.length = (fixed effective).length := by
    rw [(placeAllFixed_spec checked effective).1]
    exact length_map _
  have hcut := @uncut_search ⟨checked.maxNodes, checked.candidateLimit, 2 ^ checked.width⟩
    (mutable effective) (placeAllFixed checked effective).taken
    ⟨0, (placeAllFixed checked effective).assigned, false⟩ (by rw [hlength]; dsimp only; omega)
    (by rw [hlength]; exact hcandidates) rfl
  exact hcomplete checked effective hchecked heffective hcut.1
    ((reports_iff hchecked heffective hcut.1 hmeets).2 hnot) hmeets

/-- The effective regions of a request without declared bases. -/
theorem effectiveRegions_of (hchecked : checkConstraints cs = .ok checked)
    (hbases : cs.fixedBases = .empty)
    (hallowed : ∀ r ∈ regions.map (allocated cs), alignmentAllowed r.alignment checked.declared) :
    effectiveRegions cs checked regions = .ok (regions.map (allocated cs)) := by
  have hbase : ∀ region, explicitBase cs.fixedBases region = .ok (requestedBase cs region) := by
    intro region
    unfold requestedBase explicitBase
    rw [hbases]
    cases region.fixedBase with
    | some base => rfl
    | none =>
      have hnone : region.fixedKeys.findSome? (Dict.get? (Dict.empty : Dict FixedKey ℤ)) = none :=
        findSome?_eq_none_iff.2 fun _ _ => rfl
      dsimp only
      rw [hnone]
  have hmapM : regions.mapM (fun region => do
      let base ← explicitBase cs.fixedBases region
      return region.effective checked.alignment base) =
      (.ok (regions.map (allocated cs)) : Except AddressError _) := by
    refine mapM_of_ok fun region _ => ?_
    rw [hbase, ok_bind, (checkConstraints_eq_ok hchecked).2.2.2]
    rfl
  have hconflicts : (regions.map (allocated cs)).filterMap
      (alignmentConflict checked.declared) = [] :=
    filterMap_eq_nil_iff.2 fun r hr => if_pos (hallowed r hr)
  unfold effectiveRegions
  rw [hmapM, ok_bind, hconflicts]
  rfl

/-- A fixed region that leaves room for `b + 1` bytes. -/
def blockAbove (h : b + 1 < 2 ^ 64) : LocalRegion :=
  ⟨3, 1, 0, 2 ^ 64 - (b + 1), 1, some (b + 1), none, Nat.succ_pos 2, Nat.one_pos,
    Nat.sub_pos_of_lt h, Nat.one_pos⟩

/-- A byte, and `b` bytes behind it, with room for just the two of them. -/
def crossing (hb : 0 < b) (h : b + 1 < 2 ^ 64) : List LocalRegion :=
  [free 1 1 b Nat.one_pos Nat.one_pos hb, free 2 b b Nat.two_pos hb hb, blockAbove h]

/-- What a caller asks of these regions. -/
def declaring (b : ℕ) : AddressConstraints := { declaredAlignments := [(b : ℤ)] }

theorem checkConstraints_declaring (hb : 0 < b) :
    checkConstraints (declaring b) = .ok ⟨64, 1, [b], 4096, 128⟩ := by
  unfold checkConstraints declaring
  rw [mapM_cons, positiveId_natCast hb]
  rfl

/-- The regions that are free, as they are allocated. -/
theorem mutable_crossing (hb : 0 < b) (h : b + 1 < 2 ^ 64) :
    mutable ((crossing hb h).map (allocated (declaring b))) =
      [(0, allocated (declaring b) (free 1 1 b one_pos one_pos hb)),
        (1, allocated (declaring b) (free 2 b b Nat.two_pos hb hb))] := rfl

/-- The byte stands above, where the search does not look. -/
theorem meets_crossing (hb : 0 < b) (h : b + 1 < 2 ^ 64) :
    Meets (crossing hb h) (declaring b) fun i =>
      if i = 0 then b else if i = 1 then 0 else b + 1 := by
  have hall : ∀ {P : ℕ × LocalRegion → Prop}, P (0, free 1 1 b one_pos one_pos hb) →
      P (1, free 2 b b Nat.two_pos hb hb) → P (2, blockAbove h) →
        ∀ p ∈ indexed (crossing hb h), P p :=
    fun h₀ h₁ h₂ => forall_mem_cons.2 ⟨h₀, forall_mem_cons.2 ⟨h₁,
      forall_mem_singleton.2 h₂⟩⟩
  refine ⟨hall ?_ ?_ ?_, pairwise_cons.2 ⟨forall_mem_cons.2 ⟨.inr ?_,
    forall_mem_singleton.2 (.inl ?_)⟩, pairwise_pair.2 (.inl ?_)⟩, ?_,
    hall dvd_rfl (dvd_zero b) (one_dvd _), hall (one_dvd _) (one_dvd _) (one_dvd _)⟩
  · show b + 1 ≤ 2 ^ 64
    omega
  · show 0 + b ≤ 2 ^ 64
    omega
  · show b + 1 + (2 ^ 64 - (b + 1)) ≤ 2 ^ 64
    omega
  · show 0 + b ≤ b
    omega
  · exact le_rfl
  · show 0 + b ≤ b + 1
    omega
  · exact hall (fun _ hbase => (by cases hbase)) (fun _ hbase => (by cases hbase))
      fun _ hbase => Option.some.inj hbase

/-- **The byte takes the only base of the other region.** -/
theorem not_complete_crossing (hb : 2 ≤ b) (hpos : 0 < b) (h : b + 1 < 2 ^ 64) :
    ¬ Complete (crossing hpos h) (declaring b) := by
  have hchecked := checkConstraints_declaring hpos
  have hmax : max b 1 = b := max_eq_left (Nat.succ_le_of_lt hpos)
  have hallowed : ∀ r ∈ (crossing hpos h).map (allocated (declaring b)),
      alignmentAllowed r.alignment [b] := by
    refine forall_mem_cons.2 ⟨?_, forall_mem_cons.2 ⟨?_, forall_mem_singleton.2 ?_⟩⟩
    · exact .inr (mem_singleton.2 hmax)
    · exact .inr (mem_singleton.2 hmax)
    · exact .inl (show max 1 1 &&& (max 1 1 - 1) = 0 by decide)
  refine not_complete_of hchecked (effectiveRegions_of hchecked rfl hallowed) ?_ ?_
    ⟨_, meets_crossing hpos h⟩ ?_
  · rw [mutable_crossing]
    change nodeBound 2 1 ≤ 4096
    decide
  · rw [mutable_crossing]
    change 2 * (1 + 2) + 1 ≤ 128
    decide
  · unfold LeftJustified
    rw [mutable_crossing]
    refine not_inOrder_crossing hb rfl rfl hmax Nat.one_le_two_pow ?_ ?_ ?_
    · refine forall_mem_singleton.2 fun hmeets => ?_
      have hbelow : b + 1 < 0 + 1 := hmeets.2
      omega
    · intro x size hsize hfits hclear
      have hmeets : ¬ (x < b + 1 + (2 ^ 64 - (b + 1)) ∧ b + 1 < x + size) := hclear _ (.head _)
      change x + size ≤ 2 ^ 64 at hfits
      omega
    · exact forall_mem_cons.2 ⟨le_rfl, forall_mem_singleton.2 (Nat.le_add_right _ _)⟩

/-- **When a request without an answer is reported rightly**: whenever the free regions of the
request exchange, in the order in which they are placed.  Alignments alone settle it exactly when
each is one. -/
theorem unsatisfiable_iff (regions : List LocalRegion) (c : AddressConstraints)
    (alignments : Set ℕ) :
    ((mutable (regions.map (allocated c))).Pairwise Exchanges → Complete regions c) ∧
    ((∀ a ∈ alignments, a + 1 < 2 ^ 64) →
      ((∀ regions c, (∀ p ∈ mutable (regions.map (allocated c)), p.2.alignment ∈ alignments) →
        Complete regions c) ↔ ∀ a ∈ alignments, a ≤ 1)) := by
  refine ⟨fun hex => complete_of_exchanges hex, fun hsmall =>
    ⟨fun hcomplete a hmem => ?_, fun hone regions c hall => ?_⟩⟩
  · by_contra ha
    have hpos : 0 < a := by omega
    have hmax : max a 1 = a := max_eq_left (Nat.succ_le_of_lt hpos)
    have hsmall' := hsmall a hmem
    refine not_complete_crossing (not_le.1 ha) hpos hsmall' (hcomplete _ _ ?_)
    rw [mutable_crossing]
    refine List.forall_mem_cons.2 ⟨?_, List.forall_mem_singleton.2 ?_⟩
    · show max a 1 ∈ alignments
      rwa [hmax]
    · show max a 1 ∈ alignments
      rwa [hmax]
  · have hall' : ∀ p ∈ mutable (regions.map (allocated c)), p.2.alignment = 1 := fun p hp =>
      le_antisymm (hone _ (hall p hp)) p.2.alignment_pos
    refine complete_of_exchanges (List.pairwise_of_forall_mem_list fun p hp q hq =>
      .inr ⟨?_, .inl ?_⟩)
    · rw [hall' q hq]
      exact one_dvd _
    · rw [hall' p hp]
      exact one_dvd _

/-- A small region with an alignment of eight, and one behind it that fills half the space. -/
def halfAndQuarter : List LocalRegion :=
  [free 1 4 8 Nat.one_pos four_pos (by decide), free 2 8 16 Nat.two_pos (by decide) (by decide)]

/-- The first region is tried at zero only, where the second must stand. -/
theorem halfAndQuarter_missed :
    (∃ conflict, allocateRegions halfAndQuarter { addressWidth := 4 } =
      .error (.allocation [conflict]) ∧
      conflict.kind = .unsatisfiable) ∧
    (∃ checked effective, checkConstraints { addressWidth := 4 } = .ok checked ∧
      effectiveRegions { addressWidth := 4 } checked halfAndQuarter = .ok effective ∧
      (runSearch checked effective (placeAllFixed checked effective)).2.cut = false) ∧
    ∃ f, Meets halfAndQuarter { addressWidth := 4 } f := by
  refine ⟨⟨_, by rfl, rfl⟩, ⟨_, _, rfl, rfl, by rfl⟩, fun i => if i = 0 then 8 else 0, ?_⟩
  refine ⟨by decide, List.pairwise_pair.mpr (.inr (by decide)), ?_, by decide, by decide⟩
  intro p hp b hb
  rcases List.mem_cons.mp hp with rfl | hp
  · cases hb
  · rw [List.mem_singleton.mp hp] at hb
    cases hb

end Composition

end MyFuzz
