import MyFuzz.Fuzz.Feedback

/-!
# Fuzz/FeedbackLaw — what a session of observations reports

The features reported new are those that are kept, each once, up to the bound.  The truncation flag
says that a feature was not kept, except after the bound was just reached:

    features so far    before the last      with it       flag       not kept
                       fewer than the bound  no more        off        none
                       the bound             the bound      on         none        ◂ the flag is wrong
                       any                   more           on         some

`novelty_exact_iff` gives the sessions after which the flag is right.
-/

namespace MyFuzz

open Ordered Sequence Outcome Finset

namespace Feedback

namespace FeedbackState

variable {state next : FeedbackState} {case : Case} {report : CaseFeedback}

/-! ## One observation -/

/-- The features that an observation supports: none when it is refused. -/
def supported (case : Case) : List Feature :=
  match flowOf case with
  | .ok flow => featuresOf case flow
  | .error _ => []

/-- An observation that is not refused. -/
def accepted (case : Case) : Bool := (flowOf case).isOk

/-- The features not seen yet, in order. -/
def candidates (state : FeedbackState) (features : List Feature) : List Feature :=
  features.filter fun feature => feature ∉ state.discovered

/-- How many features may still be kept. -/
def room (state : FeedbackState) : ℕ := state.maxFeatures - state.discovered.card

/-- **What one observation does.** -/
theorem observe_eq_ok (h : state.observe case = .ok (report, next)) :
    accepted case ∧ report.features = supported case ∧
      report.new = (state.candidates report.features).take state.room ∧
      next.discovered = state.discovered ∪ report.new.toFinset ∧ next.maxFeatures = state.maxFeatures ∧
      (next.truncated = true ↔ state.truncated = true ∨ state.room = 0 ∨
        state.room < (state.candidates report.features).length) := by
  obtain ⟨flow, hflow, h⟩ := bind_ok.1 h
  have haccepted : accepted case = true := by
    rw [accepted, hflow]
    rfl
  have hsupported : supported case = extract case flow (statusOf case = "failed") := by
    rw [supported, hflow]
    rfl
  rw [hsupported]
  by_cases hroom : (state.maxFeatures : ℤ) - state.discovered.card ≤ 0
  · simp only [if_pos hroom] at h
    cases Except.ok.inj h
    have hzero : state.room = 0 := by
      unfold room
      omega
    refine ⟨haccepted, rfl, ?_, ?_, rfl, ?_⟩
    · rw [hzero, List.take_zero]
    · exact (union_empty _).symm
    · exact ⟨fun _ => .inr (.inl hzero), fun _ => rfl⟩
  · simp only [if_neg hroom] at h
    cases Except.ok.inj h
    have hcast : ((state.maxFeatures : ℤ) - state.discovered.card).toNat = state.room := by
      unfold room
      omega
    have hpos : state.room ≠ 0 := by omega
    refine ⟨haccepted, rfl, ?_, rfl, rfl, ?_⟩
    · rw [candidates, ← hcast]
    · have hiff : (state.maxFeatures : ℤ) - state.discovered.card <
          ((extract case flow (statusOf case = "failed")).filter fun feature =>
            feature ∉ state.discovered).length ↔
            state.room < (state.candidates (extract case flow (statusOf case = "failed"))).length := by
        rw [candidates]
        omega
      split_ifs with hmore
      · exact ⟨fun _ => .inr (.inr (hiff.1 hmore)), fun _ => rfl⟩
      · refine ⟨.inl, fun h => h.resolve_right ?_⟩
        rintro (h | h)
        · exact hpos h
        · exact hmore (hiff.2 h)

theorem observe_of_not_accepted (state : FeedbackState) (h : accepted case = false) :
    ∃ e, state.observe case = .error e := by
  unfold accepted at h
  cases hflow : flowOf case with
  | error e =>
    unfold observe
    rw [hflow]
    exact ⟨e, rfl⟩
  | ok flow =>
    rw [hflow] at h
    cases h

theorem exists_observe (state : FeedbackState) (h : accepted case = true) :
    ∃ report next, state.observe case = .ok (report, next) := by
  obtain ⟨flow, hflow⟩ := exists_eq_ok h
  have hok : (state.observe case).isOk = true := by
    unfold observe
    rw [hflow, ok_bind]
    dsimp only
    split_ifs <;> rfl
  obtain ⟨⟨report, next⟩, hobserve⟩ := exists_eq_ok hok
  exact ⟨report, next, hobserve⟩

/-- The order tells all features apart. -/
theorem featureOrder_injective : Function.Injective featureOrder := by
  refine List.map_injective_iff.2 fun p q h => ?_
  cases p with
  | int i =>
    cases q with
    | int j => exact congrArg _ (Sum.inl.inj (toLex.injective h))
    | str t => cases toLex.injective h
  | str s =>
    cases q with
    | int j => cases toLex.injective h
    | str t => exact congrArg _ (Sum.inr.inj (toLex.injective h))

/-- The features of an observation are in order, each once. -/
theorem pairwise_supported (case : Case) :
    (supported case).Pairwise fun f g => featureOrder f < featureOrder g := by
  unfold supported
  cases flowOf case with
  | error e => exact .nil
  | ok flow => exact pairwise_lt_sortOn (fun f _ g _ h => featureOrder_injective h) (nodup_firsts _)

theorem nodup_supported (case : Case) : (supported case).Nodup :=
  (pairwise_supported case).imp fun {f g} h => by
    rintro rfl
    exact lt_irrefl _ h

/-! ## What is kept -/

/-- All features of some observations. -/
def featureSet (cases : List Case) : Finset Feature := (cases.flatMap supported).toFinset

/-- **What a session keeps** of the features that were observed: all of them, or as many as the
bound allows. -/
structure Keeps (state : FeedbackState) (all : Finset Feature) : Prop where
  subset : state.discovered ⊆ all
  bounded : state.discovered.card ≤ state.maxFeatures
  kept : state.discovered = all ∨ state.discovered.card = state.maxFeatures

theorem Keeps.card (h : Keeps state all) : state.discovered.card = min all.card state.maxFeatures := by
  have hle := card_le_card h.subset
  have hbound := h.bounded
  rcases h.kept with heq | heq
  · rw [heq] at hbound ⊢
    omega
  · omega

/-- Something was not kept exactly when more was observed than the bound allows. -/
theorem Keeps.missing_iff (h : Keeps state all) :
    (∃ f ∈ all, f ∉ state.discovered) ↔ state.maxFeatures < all.card := by
  have hcard := h.card
  constructor
  · rintro ⟨f, hf, hmissing⟩
    have hlt := card_lt_card (ssubset_iff_of_subset h.subset |>.mpr ⟨f, hf, hmissing⟩)
    omega
  · intro hlt
    by_contra hnone
    have heq : state.discovered = all :=
      Finset.Subset.antisymm h.subset fun f hf => not_not.1 fun hmissing => hnone ⟨f, hf, hmissing⟩
    rw [heq] at hcard
    omega

variable {f : Feature} {cases : List Case}

theorem mem_candidates {features : List Feature} :
    f ∈ state.candidates features ↔ f ∈ features ∧ f ∉ state.discovered := by
  rw [candidates, List.mem_filter, decide_eq_true_eq]

theorem nodup_candidates (state : FeedbackState) (case : Case) : (state.candidates (supported case)).Nodup :=
  (nodup_supported case).filter _

/-- The features that are new to the set, counted. -/
theorem length_candidates (h : state.discovered = all) (case : Case) :
    all.card + (state.candidates (supported case)).length = (all ∪ (supported case).toFinset).card := by
  have hsdiff : (state.candidates (supported case)).toFinset = (supported case).toFinset \ all := by
    ext f
    rw [List.mem_toFinset, mem_candidates, mem_sdiff, List.mem_toFinset, h]
  rw [← List.toFinset_card_of_nodup (nodup_candidates state case), hsdiff, union_comm, add_comm,
    card_sdiff_add_card]

/-- **An observation keeps what the bound allows.** -/
theorem Keeps.observe (h : Keeps state all) (hobserve : state.observe case = .ok (report, next)) :
    Keeps next (all ∪ (supported case).toFinset) := by
  obtain ⟨-, hfeatures, hnew, hdiscovered, hmax, -⟩ := observe_eq_ok hobserve
  rw [hfeatures] at hnew
  have hdisjoint : Disjoint state.discovered report.new.toFinset := by
    rw [disjoint_right]
    intro f hf
    rw [List.mem_toFinset, hnew] at hf
    exact (mem_candidates.1 (List.mem_of_mem_take hf)).2
  have hnodup : report.new.Nodup := hnew ▸ (List.take_sublist _ _).nodup (nodup_candidates state case)
  have hcard : next.discovered.card = state.discovered.card + min state.room
    (state.candidates (supported case)).length := by
    rw [hdiscovered, card_union_of_disjoint hdisjoint, List.toFinset_card_of_nodup hnodup, hnew,
      List.length_take]
  have hbound := h.bounded
  have hroom : state.room = state.maxFeatures - state.discovered.card := rfl
  refine ⟨?_, by omega, ?_⟩
  · rw [hdiscovered]
    refine union_subset_union h.subset fun f hf => ?_
    rw [List.mem_toFinset, hnew] at hf
    exact List.mem_toFinset.2 (mem_candidates.1 (List.mem_of_mem_take hf)).1
  · rcases Nat.lt_or_ge state.room (state.candidates (supported case)).length with hlt | hle
    · exact .inr (by omega)
    · rcases h.kept with heq | hfull
      · refine .inl ?_
        rw [hdiscovered, hnew, List.take_of_length_le hle, heq]
        ext f
        rw [mem_union, mem_union, List.mem_toFinset, List.mem_toFinset, mem_candidates, heq]
        by_cases hf : f ∈ all
        · simp only [hf, true_or]
        · simp only [hf, false_or, not_false_eq_true, and_true]
      · exact .inr (by omega)

/-- **When the flag is raised**: the bound was reached already, or it is exceeded now. -/
theorem truncated_observe (h : Keeps state all) (hobserve : state.observe case = .ok (report, next)) :
    next.truncated = true ↔ state.truncated = true ∨ state.maxFeatures ≤ all.card ∨
      state.maxFeatures < (all ∪ (supported case).toFinset).card := by
  obtain ⟨-, hfeatures, -, -, -, htruncated⟩ := observe_eq_ok hobserve
  rw [htruncated, hfeatures]
  refine or_congr_right ?_
  have hcard := h.card
  have hroom : state.room = state.maxFeatures - state.discovered.card := rfl
  rcases Nat.lt_or_ge all.card state.maxFeatures with hlt | hge
  · have heq : state.discovered = all := h.kept.resolve_right fun hfull => by omega
    have hlength := length_candidates heq case
    rw [heq] at hroom
    omega
  · exact ⟨fun _ => .inl hge, fun _ => .inl (by omega)⟩

/-! ## Sessions -/

/-- **A session**: the state before each observation that is not refused, with its report, and the
state at the end. -/
def session (state : FeedbackState) : List Case → List (FeedbackState × CaseFeedback) × FeedbackState
  | [] => ([], state)
  | case :: cases =>
    match state.observe case with
    | .ok (report, next) => ((state, report) :: (session next cases).1, (session next cases).2)
    | .error _ => session state cases

/-- **Feedback novelty is exact**: what is reported is new, once, and what was discovered; an unseen feature
is reported unless there is no room left for it; the bound holds; and the flag says whether a feature was
not kept. -/
structure Exact (maxFeatures : ℕ) (reports : List (FeedbackState × CaseFeedback))
    (final : FeedbackState) : Prop where
  disjoint : reports.Pairwise fun a b => a.2.new.Disjoint b.2.new
  union : ∀ f, f ∈ final.discovered ↔ ∃ r ∈ reports, f ∈ r.2.new
  reported : ∀ r ∈ reports, ∀ f ∈ r.2.features, f ∉ r.1.discovered → f ∈ r.2.new ∨
    maxFeatures ≤ (r.1.discovered ∪ (r.2.features.filter fun g =>
      featureOrder g < featureOrder f).toFinset).card
  bounded : (∀ r ∈ reports, r.1.discovered.card ≤ maxFeatures) ∧ final.discovered.card ≤ maxFeatures
  flag : final.truncated = true ↔ ∃ r ∈ reports, ∃ f ∈ r.2.features, f ∉ final.discovered

/-- A feature that there was no room for comes after as many others as the bound allows. -/
theorem reported_observe (h : Keeps state all) (hobserve : state.observe case = .ok (report, next))
    (hf : f ∈ report.features) (hunseen : f ∉ state.discovered) : f ∈ report.new ∨
      state.maxFeatures ≤ (state.discovered ∪
        (report.features.filter fun g => featureOrder g < featureOrder f).toFinset).card := by
  obtain ⟨-, hfeatures, hnew, -, -, -⟩ := observe_eq_ok hobserve
  rw [hfeatures] at hf hnew ⊢
  have hmem : f ∈ state.candidates (supported case) := mem_candidates.2 ⟨hf, hunseen⟩
  rw [← List.take_append_drop state.room (state.candidates (supported case)), ← hnew] at hmem
  refine (List.mem_append.1 hmem).imp id fun hdrop => ?_
  have hordered : (state.candidates (supported case)).Pairwise fun f g => featureOrder f < featureOrder g :=
    (pairwise_supported case).filter _
  rw [← List.take_append_drop state.room (state.candidates (supported case))] at hordered
  have hbefore := (List.pairwise_append.1 hordered).2.2
  have hlong : state.room < (state.candidates (supported case)).length := by
    have hpos := List.length_pos_of_mem hdrop
    rw [List.length_drop] at hpos
    omega
  have hsubset : state.discovered ∪ ((state.candidates (supported case)).take state.room).toFinset ⊆
      state.discovered ∪ ((supported case).filter fun g => featureOrder g < featureOrder f).toFinset := by
    refine union_subset_union_right fun g hg => ?_
    rw [List.mem_toFinset] at hg ⊢
    exact List.mem_filter.2 ⟨(mem_candidates.1 (List.mem_of_mem_take hg)).1,
      decide_eq_true (hbefore g hg f hdrop)⟩
  have hdisjoint : Disjoint state.discovered
    ((state.candidates (supported case)).take state.room).toFinset := by
    rw [disjoint_right]
    intro g hg
    rw [List.mem_toFinset] at hg
    exact (mem_candidates.1 (List.mem_of_mem_take hg)).2
  have hcard := card_le_card hsubset
  have hnodup := (List.take_sublist state.room _).nodup (nodup_candidates state case)
  rw [card_union_of_disjoint hdisjoint, List.toFinset_card_of_nodup hnodup, List.length_take] at hcard
  have hroom : state.room = state.maxFeatures - state.discovered.card := rfl
  have hbound := h.bounded
  omega

theorem featureSet_concat (cases : List Case) (case : Case) :
    featureSet (cases ++ [case]) = featureSet cases ∪ (supported case).toFinset := by
  rw [featureSet, featureSet, List.flatMap_append, List.flatMap_singleton, List.toFinset_append]

/-- The bound was reached before the last observation, or is exceeded. -/
def Raised (maxFeatures : ℕ) (cases : List Case) : Prop :=
  (∃ earlier last, cases = earlier ++ [last] ∧ maxFeatures ≤ (featureSet earlier).card) ∨
    maxFeatures < (featureSet cases).card

theorem raised_concat {maxFeatures : ℕ} {case : Case} : Raised maxFeatures (cases ++ [case]) ↔
    maxFeatures ≤ (featureSet cases).card ∨ maxFeatures < (featureSet (cases ++ [case])).card := by
  refine or_congr_left ⟨?_, fun h => ⟨cases, case, rfl, h⟩⟩
  rintro ⟨earlier, last, heq, hle⟩
  obtain ⟨rfl, -⟩ := List.append_inj' heq rfl
  exact hle

/-- What a state remembers of the observations that were not refused. -/
structure Remembers (state : FeedbackState) (cases : List Case) : Prop where
  keeps : Keeps state (featureSet cases)
  flag : state.truncated = true ↔ Raised state.maxFeatures cases

theorem Remembers.observe (h : Remembers state cases) (hobserve : state.observe case = .ok (report, next)) :
    Remembers next (cases ++ [case]) ∧ next.maxFeatures = state.maxFeatures := by
  obtain ⟨-, -, -, -, hmax, -⟩ := observe_eq_ok hobserve
  refine ⟨⟨featureSet_concat cases case ▸ h.keeps.observe hobserve, ?_⟩, hmax⟩
  rw [truncated_observe h.keeps hobserve, h.flag, hmax, raised_concat, ← featureSet_concat]
  refine ⟨fun h => h.elim (fun hraised => .inl ?_) id, .inr⟩
  rcases hraised with ⟨earlier, last, rfl, hle⟩ | hlt
  · refine hle.trans (card_le_card ?_)
    rw [featureSet_concat]
    exact subset_union_left
  · exact hlt.le

/-- **What a session remembers**, and what its reports say. -/
theorem session_law : ∀ (cases : List Case) {state : FeedbackState} {before : List Case},
    Remembers state before →
    Remembers (session state cases).2 (before ++ cases.filter accepted) ∧
    (session state cases).2.maxFeatures = state.maxFeatures ∧
    (∀ r ∈ (session state cases).1, r.2.new.Disjoint state.discovered.toList) ∧
    (session state cases).1.Pairwise (fun a b => a.2.new.Disjoint b.2.new) ∧
    (∀ f, f ∈ (session state cases).2.discovered ↔
      f ∈ state.discovered ∨ ∃ r ∈ (session state cases).1, f ∈ r.2.new) ∧
    (∀ r ∈ (session state cases).1, r.1.discovered.card ≤ state.maxFeatures ∧
      ∀ f ∈ r.2.features, f ∉ r.1.discovered → f ∈ r.2.new ∨ state.maxFeatures ≤
        (r.1.discovered ∪ (r.2.features.filter fun g => featureOrder g < featureOrder f).toFinset).card) ∧
    ∀ f, (∃ r ∈ (session state cases).1, f ∈ r.2.features) ↔ f ∈ featureSet (cases.filter accepted)
  | [], state, before, h => by
      refine ⟨?_, rfl, nofun, .nil, fun f => ?_, nofun, fun f => ?_⟩
      · rw [List.filter_nil, List.append_nil]
        exact h
      · exact ⟨.inl, fun h => h.resolve_right fun ⟨_, h, _⟩ => nomatch h⟩
      · exact ⟨fun ⟨_, h, _⟩ => absurd h List.not_mem_nil, fun h => absurd h (notMem_empty _)⟩
  | case :: cases, state, before, h => by
      cases haccepted : accepted case with
      | false =>
        obtain ⟨e, he⟩ := observe_of_not_accepted state haccepted
        rw [session, he, List.filter_cons_of_neg (by rw [haccepted]; decide)]
        exact session_law cases h
      | true =>
        obtain ⟨report, next, hobserve⟩ := exists_observe state haccepted
        obtain ⟨hremembers, hmax⟩ := h.observe hobserve
        obtain ⟨hfinal, hmax', hfresh, hpairwise, hunion, hreports, hfeatures⟩ := session_law cases hremembers
        obtain ⟨-, hsupported, hnew, hdiscovered, -, -⟩ := observe_eq_ok hobserve
        rw [session, hobserve, List.filter_cons_of_pos haccepted]
        have hmem : ∀ f, f ∈ next.discovered ↔ f ∈ state.discovered ∨ f ∈ report.new := fun f => by
          rw [hdiscovered, mem_union, List.mem_toFinset]
        refine ⟨?_, hmax'.trans hmax, ?_, ?_, fun f => ?_, ?_, fun f => ?_⟩
        · rwa [List.append_assoc] at hfinal
        · refine List.forall_mem_cons.2 ⟨fun f hf hold => ?_, fun r hr f hf hold => ?_⟩
          · rw [hnew] at hf
            exact (mem_candidates.1 (List.mem_of_mem_take hf)).2 (mem_toList.1 hold)
          · exact hfresh r hr hf (mem_toList.2 ((hmem f).2 (.inl (mem_toList.1 hold))))
        · refine List.pairwise_cons.2 ⟨fun r hr f hf hf' => ?_, hpairwise⟩
          exact hfresh r hr hf' (mem_toList.2 ((hmem f).2 (.inr hf)))
        · rw [hunion, hmem, List.exists_mem_cons_iff, or_assoc]
        · rw [hmax] at hreports
          exact List.forall_mem_cons.2
            ⟨⟨h.keeps.bounded, fun f hf hunseen => reported_observe h.keeps hobserve hf hunseen⟩,
            hreports⟩
        · rw [List.exists_mem_cons_iff, hfeatures, hsupported, featureSet, featureSet, List.flatMap_cons,
            List.toFinset_append, mem_union, List.mem_toFinset, List.mem_toFinset]

/-- **The last observation does not come just after the bound was reached**: the ones before it
brought fewer features than the bound, or all of them bring more. -/
def NotJustFull (maxFeatures : ℕ) (cases : List Case) : Prop :=
  ∀ earlier last, cases.filter accepted = earlier ++ [last] →
    (featureSet earlier).card < maxFeatures ∨ maxFeatures < (featureSet (earlier ++ [last])).card

/-- **The novelty that a session reports is exact exactly when its last observation does not come
just after the bound was reached.** -/
theorem novelty_exact_iff (maxFeatures : ℤ) (state : FeedbackState) (hmake : make maxFeatures = .ok state)
    (cases : List Case) :
    Exact maxFeatures.toNat (session state cases).1 (session state cases).2 ↔
      NotJustFull maxFeatures.toNat cases := by
  unfold make at hmake
  split_ifs at hmake with hpos
  cases hmake
  have hstart : Remembers ⟨∅, maxFeatures.toNat, 0, false, by omega⟩ [] := by
    refine ⟨⟨Finset.Subset.refl _, Nat.zero_le _, .inl rfl⟩, ⟨fun h => absurd h Bool.false_ne_true, ?_⟩⟩
    rintro (⟨earlier, last, heq, -⟩ | hlt)
    · exact absurd heq.symm (by simp)
    · exact absurd hlt (Nat.not_lt_zero _)
  obtain ⟨hfinal, hmax, -, hpairwise, hunion, hreports, hfeatures⟩ := session_law cases hstart
  rw [List.nil_append] at hfinal
  have hflag : (∃ r ∈ (session ⟨∅, maxFeatures.toNat, 0, false, by omega⟩ cases).1, ∃ f ∈ r.2.features,
      f ∉ (session ⟨∅, maxFeatures.toNat, 0, false, by omega⟩ cases).2.discovered) ↔
        maxFeatures.toNat < (featureSet (cases.filter accepted)).card := by
    have hmissing := hfinal.keeps.missing_iff
    rw [hmax] at hmissing
    rw [← hmissing]
    constructor
    · rintro ⟨r, hr, f, hf, hmissing⟩
      exact ⟨f, (hfeatures f).mp ⟨r, hr, hf⟩, hmissing⟩
    · rintro ⟨f, hf, hmissing⟩
      obtain ⟨r, hr, hrf⟩ := (hfeatures f).mpr hf
      exact ⟨r, hr, f, hrf, hmissing⟩
  have hraised := hfinal.flag
  rw [hmax] at hraised
  constructor
  · rintro hexact earlier last heq
    rw [← heq]
    by_contra hnot
    obtain ⟨hreached, hwithin⟩ := not_or.mp hnot
    exact hwithin (hflag.mp (hexact.flag.mp (hraised.mpr (.inl ⟨earlier, last, heq, not_lt.mp hreached⟩))))
  · intro hfull
    refine ⟨hpairwise, fun f => ?_, fun r hr => (hreports r hr).2, ⟨fun r hr => (hreports r hr).1, ?_⟩, ?_⟩
    · rw [hunion]
      exact ⟨fun h => h.resolve_left (Finset.notMem_empty f), .inr⟩
    · have hbounded := hfinal.keeps.bounded
      rwa [hmax] at hbounded
    · rw [hflag, hraised]
      refine ⟨?_, .inr⟩
      rintro (⟨earlier, last, heq, hreached⟩ | hlt)
      · rcases hfull earlier last heq with hless | hmore
        · exact absurd hreached (not_le.mpr hless)
        · rwa [heq]
      · exact hlt

/-- A line that says how many words a program has. -/
def wordsCase (words : ℤ) : Case := ⟨[("flow", .str "F1"), ("prog_words", .int words)], by simp⟩

/-- Two features and room for one: the flag is right. -/
theorem novelty_exact_of_more : Exact 1 (session ⟨∅, 1, 0, false, le_rfl⟩ [wordsCase 3, wordsCase 4]).1
    (session ⟨∅, 1, 0, false, le_rfl⟩ [wordsCase 3, wordsCase 4]).2 := by
  refine (novelty_exact_iff 1 ⟨∅, 1, 0, false, le_rfl⟩ rfl [wordsCase 3, wordsCase 4]).mpr
    fun earlier last heq => ?_
  refine .inr ?_
  rw [← heq]
  decide

/-- **The flag is raised although every feature was kept**: one feature, seen twice, and room for one. -/
theorem novelty_not_exact :
    (session ⟨∅, 1, 0, false, le_rfl⟩ [wordsCase 3, wordsCase 3]).2.truncated = true ∧
      (∀ r ∈ (session ⟨∅, 1, 0, false, le_rfl⟩ [wordsCase 3, wordsCase 3]).1, ∀ f ∈ r.2.features,
        f ∈ (session ⟨∅, 1, 0, false, le_rfl⟩ [wordsCase 3, wordsCase 3]).2.discovered) ∧
      ¬ Exact 1 (session ⟨∅, 1, 0, false, le_rfl⟩ [wordsCase 3, wordsCase 3]).1
        (session ⟨∅, 1, 0, false, le_rfl⟩ [wordsCase 3, wordsCase 3]).2 := by
  have hflag : (session ⟨∅, 1, 0, false, le_rfl⟩ [wordsCase 3, wordsCase 3]).2.truncated = true := by decide
  have hkept : ∀ r ∈ (session ⟨∅, 1, 0, false, le_rfl⟩ [wordsCase 3, wordsCase 3]).1, ∀ f ∈ r.2.features,
      f ∈ (session ⟨∅, 1, 0, false, le_rfl⟩ [wordsCase 3, wordsCase 3]).2.discovered := by decide
  refine ⟨hflag, hkept, fun hexact => ?_⟩
  obtain ⟨r, hr, f, hf, hmissing⟩ := hexact.flag.mp hflag
  exact hmissing (hkept r hr f hf)

end FeedbackState

end Feedback

end MyFuzz
