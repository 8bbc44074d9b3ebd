import MyFuzz.Composition.Address

/-!
# Composition/AddressSearch — what the search finds

A base that is tried for a region is the lowest clear place at or above a boundary of what is taken.
The search returns one such base for every remaining region, or there is no choice of them at all,
unless a limit cut it off:

    search rest taken = true    ⟹   InOrder rest taken bases,  the bases are assigned
    search rest taken = false   ⟹   no InOrder rest taken bases
-/

namespace MyFuzz

namespace Composition

open FirstFit List

/-! ## Candidates -/

/-- **A base next to what is taken**: the lowest clear place at or above zero or a boundary. -/
def Candidate (region : LocalRegion) (taken : List (Extent ℕ)) (addressLimit base : ℕ) : Prop :=
  ∃ start ∈ 0 :: taken.flatMap fun o => [o.base, o.stop], start ≤ addressLimit ∧
    IsLeast (places taken region.size region.alignment addressLimit start) base

variable {region : LocalRegion} {taken : List (Extent ℕ)} {limit addressLimit base : ℕ}

variable {start : ℕ} {candidates starts : List ℕ} {item : ℕ × LocalRegion} {rest : List (ℕ × LocalRegion)}

theorem mem_candidateStarts : start ∈ candidateStarts region taken addressLimit ↔
    ∃ s ∈ 0 :: taken.flatMap fun o => [o.base, o.stop], s ≤ addressLimit ∧
      alignUp s region.alignment = start := by
  unfold candidateStarts
  rw [mem_insertionSort, mem_eraseDups, mem_map]
  constructor
  · rintro ⟨s, hs, rfl⟩
    obtain ⟨hmem, hle⟩ := mem_filter.1 hs
    exact ⟨s, hmem, of_decide_eq_true hle, rfl⟩
  · rintro ⟨s, hmem, hle, rfl⟩
    exact ⟨s, mem_filter.2 ⟨hmem, decide_eq_true hle⟩, rfl⟩

/-- What is found from an aligned start. -/
theorem firstFit_of_start (h : start ∈ candidateStarts region taken addressLimit) :
    firstFit taken region.size region.alignment addressLimit (taken.length + 1) start = some base ↔
      IsLeast (places taken region.size region.alignment addressLimit start) base := by
  obtain ⟨s, -, -, rfl⟩ := mem_candidateStarts.1 h
  exact firstFit_eq_some_iff region.alignment_pos (dvd_alignUp _ _)
    (Nat.lt_succ_of_le (ahead_le_length _))

theorem mem_foldl_addCandidate
    (h : base ∈ starts.foldl (addCandidate region taken limit addressLimit) candidates) :
    base ∈ candidates ∨ ∃ start ∈ starts,
      firstFit taken region.size region.alignment addressLimit (taken.length + 1) start = some base := by
  induction starts generalizing candidates with
  | nil => exact .inl h
  | cons start starts ih =>
    rcases ih h with hmem | ⟨s, hs, hfit⟩
    · unfold addCandidate at hmem
      split_ifs at hmem
      · rcases mem_append.1 hmem with hmem | hmem
        · exact .inl hmem
        · exact .inr ⟨start, .head _, Option.mem_toList.1 hmem⟩
      · exact .inl hmem
    · exact .inr ⟨s, .tail _ hs, hfit⟩

/-- With room for a candidate of every start, all of them are found. -/
theorem foldl_addCandidate_of_room (h : candidates.length + starts.length ≤ limit) :
    starts.foldl (addCandidate region taken limit addressLimit) candidates = candidates ++ starts.filterMap
        (firstFit taken region.size region.alignment addressLimit (taken.length + 1)) := by
  induction starts generalizing candidates with
  | nil => exact (append_nil _).symm
  | cons start starts ih =>
    rw [length_cons] at h
    have hadd : addCandidate region taken limit addressLimit candidates start = candidates ++
        (firstFit taken region.size region.alignment addressLimit (taken.length + 1) start).toList :=
      if_pos (by omega)
    rw [foldl_cons, hadd]
    cases hfit : firstFit taken region.size region.alignment addressLimit (taken.length + 1) start with
    | none =>
      rw [Option.toList_none, append_nil, ih (by omega), filterMap_cons_none hfit]
    | some b =>
      rw [Option.toList_some, ih (by rw [length_append, length_singleton]; omega),
        filterMap_cons_some hfit, append_assoc]
      rfl

/-- **Every base that is tried is a candidate.** -/
theorem candidate_of_mem (h : base ∈ candidateBases region taken limit addressLimit) :
    Candidate region taken addressLimit base := by
  rcases mem_foldl_addCandidate (mem_eraseDups.1 h) with hmem | ⟨start, hstart, hfit⟩
  · cases hmem
  · have hleast := (firstFit_of_start hstart).1 hfit
    obtain ⟨s, hs, hle, rfl⟩ := mem_candidateStarts.1 hstart
    rw [places_alignUp region.alignment_pos] at hleast
    exact ⟨s, hs, hle, hleast⟩

/-- **Every candidate is tried, unless the limit cuts the list.** -/
theorem mem_of_candidate {limits : SearchLimits} (hcut : truncated limits region taken = false)
    (h : Candidate region taken limits.address base) :
    base ∈ candidateBases region taken limits.candidates limits.address := by
  obtain ⟨s, hs, hle, hleast⟩ := h
  have hstart : alignUp s region.alignment ∈ candidateStarts region taken limits.address :=
    mem_candidateStarts.2 ⟨s, hs, hle, rfl⟩
  rw [← places_alignUp region.alignment_pos] at hleast
  rw [not_not.1 (of_decide_eq_false hcut), candidateBases, mem_eraseDups,
    foldl_addCandidate_of_room (by simp), nil_append, mem_filterMap]
  exact ⟨_, hstart, (firstFit_of_start hstart).2 hleast⟩

/-! ## Placements in order -/

/-- The extent of a region at a base. -/
def extentOf (item : ℕ × LocalRegion) (base : ℕ) : Extent ℕ := ⟨base, base + item.2.size, item.1⟩

/-- **Every region, in order, stands at a candidate next to those before it.** -/
def InOrder (addressLimit : ℕ) : List (ℕ × LocalRegion) → List (Extent ℕ) → List ℕ → Prop
  | [], _, bases => bases = []
  | item :: rest, taken, bases => ∃ base bases', bases = base :: bases' ∧
      Candidate item.2 taken addressLimit base ∧
      InOrder addressLimit rest (taken ++ [extentOf item base]) bases'

variable {limits : SearchLimits}

/-- What a finished search says: the bases it assigned, or that there are none. -/
structure Answers (limits : SearchLimits) (items : List (ℕ × LocalRegion)) (taken : List (Extent ℕ))
    (s : SearchState) (result : Bool × SearchState) : Prop where
  cut_mono : s.cut = true → result.2.cut = true
  kept : ∀ k, k ∉ items.map Prod.fst → result.2.assigned.get? k = s.assigned.get? k
  found : result.1 = true → ∃ bases, InOrder limits.address items taken bases ∧
    List.Forall₂ (fun item base => result.2.assigned.get? item.1 = some base) items bases
  missed : result.1 = false → result.2.cut = false → ¬ ∃ bases, InOrder limits.address items taken bases

/-- One base and what follows from it. -/
structure AnswersAt (limits : SearchLimits) (item : ℕ × LocalRegion) (rest : List (ℕ × LocalRegion))
    (taken : List (Extent ℕ)) (base : ℕ) (s : SearchState) (result : Bool × SearchState) : Prop where
  cut_mono : s.cut = true → result.2.cut = true
  kept : ∀ k, k ∉ (item :: rest).map Prod.fst → result.2.assigned.get? k = s.assigned.get? k
  found : result.1 = true → ∃ bases, InOrder limits.address rest (taken ++ [extentOf item base]) bases ∧
    List.Forall₂ (fun i b => result.2.assigned.get? i.1 = some b) (item :: rest) (base :: bases)
  missed : result.1 = false → result.2.cut = false →
    ¬ ∃ bases, InOrder limits.address rest (taken ++ [extentOf item base]) bases

/-- Bases that are tried one after another. -/
theorem tryBases_answers {next : ℕ → SearchState → Bool × SearchState}
    (hnext : ∀ base s, AnswersAt limits item rest taken base s (next base s)) (bases : List ℕ) :
    ∀ s : SearchState, (s.cut = true → (tryBases next bases s).2.cut = true) ∧
      (∀ k, k ∉ (item :: rest).map Prod.fst → (tryBases next bases s).2.assigned.get? k = s.assigned.get? k) ∧
      ((tryBases next bases s).1 = true → ∃ base ∈ bases, ∃ bs,
        InOrder limits.address rest (taken ++ [extentOf item base]) bs ∧
        List.Forall₂ (fun i b => (tryBases next bases s).2.assigned.get? i.1 = some b)
          (item :: rest) (base :: bs)) ∧
      ((tryBases next bases s).1 = false → (tryBases next bases s).2.cut = false → ∀ base ∈ bases,
        ¬ ∃ bs, InOrder limits.address rest (taken ++ [extentOf item base]) bs) := by
  induction bases with
  | nil =>
    intro s
    exact ⟨fun h => h, fun _ _ => rfl, fun h => (by cases h), nofun⟩
  | cons base bases ih =>
    intro s
    obtain ⟨hcut, hkept, hfound, hmissed⟩ := hnext base s
    rw [tryBases]
    rcases hresult : next base s with ⟨_ | _, s'⟩
    · rw [hresult] at hcut hkept hmissed
      obtain ⟨ihcut, ihkept, ihfound, ihmissed⟩ := ih s'
      refine ⟨fun h => ihcut (hcut h), fun k hk => (ihkept k hk).trans (hkept k hk), fun h => ?_,
        fun h hc b hb => ?_⟩
      · obtain ⟨b, hb, hrest⟩ := ihfound h
        exact ⟨b, .tail _ hb, hrest⟩
      · rcases mem_cons.1 hb with rfl | hb
        · refine hmissed rfl ?_
          by_contra hne
          have htrue := ihcut (by simpa using hne)
          rw [hc] at htrue
          cases htrue
        · exact ihmissed h hc b hb
    · rw [hresult] at hcut hkept hfound
      refine ⟨hcut, hkept, fun h => ?_, fun h => (by cases h)⟩
      obtain ⟨bs, hbs⟩ := hfound rfl
      exact ⟨base, .head _, bs, hbs⟩

/-- What follows from a base, with the base taken back if nothing does. -/
theorem takeBack_answers {s : SearchState} {result : Bool × SearchState} (hnew : item.1 ∉ rest.map Prod.fst)
    (h : Answers limits rest (taken ++ [extentOf item base])
      { s with assigned := s.assigned.set item.1 base } result) :
    AnswersAt limits item rest taken base s (takeBack item.1 result) := by
  obtain ⟨hcut, hkept, hfound, hmissed⟩ := h
  have hkept' : ∀ k, k ∉ (item :: rest).map Prod.fst → result.2.assigned.get? k = s.assigned.get? k := by
    intro k hk
    rw [map_cons, mem_cons, not_or] at hk
    rw [hkept k hk.2, Dict.get?_set_of_ne _ hk.1]
  obtain ⟨_ | _, s'⟩ := result
  · refine ⟨hcut, fun k hk => ?_, fun h => (by cases h), fun _ hc => hmissed rfl hc⟩
    have hne : k ≠ item.1 := by
      rintro rfl
      exact hk (.head _)
    exact (Dict.get?_erase _ _ _).trans ((if_neg hne).trans (hkept' k hk))
  · refine ⟨hcut, hkept', fun _ => ?_, fun h => (by cases h)⟩
    obtain ⟨bases, hin, hall⟩ := hfound rfl
    exact ⟨bases, hin, .cons ((hkept item.1 hnew).trans (Dict.get?_set_self ..)) hall⟩

/-- **The search answers for what remains.** -/
theorem search_answers : ∀ {items : List (ℕ × LocalRegion)}, (items.map Prod.fst).Nodup →
    ∀ (taken : List (Extent ℕ)) (s : SearchState),
      Answers limits items taken s (search limits items taken s) := by
  intro items
  induction items with
  | nil =>
    intro _ taken s
    rw [search]
    split_ifs
    · exact ⟨fun _ => rfl, fun _ _ => rfl, fun h => (by cases h), fun _ h => (by cases h)⟩
    · exact ⟨fun h => h, fun _ _ => rfl, fun _ => ⟨[], rfl, .nil⟩, fun h => (by cases h)⟩
  | cons item rest ih =>
    intro hnodup taken s
    rw [map_cons, nodup_cons] at hnodup
    obtain ⟨index, region⟩ := item
    have hnext : ∀ (base : ℕ) (s : SearchState), AnswersAt limits (index, region) rest taken base s
        (takeBack index (search limits rest (taken ++ [⟨base, base + region.size, index⟩])
          { s with assigned := s.assigned.set index base })) :=
      fun base s => takeBack_answers hnodup.1 (ih hnodup.2 _ _)
    rw [search]
    split_ifs with hnodes
    · exact ⟨fun _ => rfl, fun _ _ => rfl, fun h => (by cases h), fun _ h => (by cases h)⟩
    · obtain ⟨hcut, hkept, hfound, hmissed⟩ := tryBases_answers hnext
        (candidateBases region taken limits.candidates limits.address)
        ⟨s.nodes + 1, s.assigned, s.cut || truncated limits region taken⟩
      refine ⟨fun h => hcut (by rw [h, Bool.true_or]), hkept, fun h => ?_, fun h hc => ?_⟩
      · obtain ⟨base, hmem, bs, hin, hall⟩ := hfound h
        exact ⟨base :: bs, ⟨base, bs, rfl, candidate_of_mem hmem, hin⟩, hall⟩
      · rintro ⟨_, base, bs, rfl, hcandidate, hin⟩
        have huncut : truncated limits region taken = false := by
          by_contra hne
          have htrue := hcut (by rw [Bool.not_eq_false] at hne; rw [hne, Bool.or_true])
          rw [hc] at htrue
          cases htrue
        exact hmissed h hc base (mem_of_candidate huncut hcandidate) ⟨bs, hin⟩

end Composition

end MyFuzz
