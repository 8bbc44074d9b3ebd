import Mathlib.Tactic

/-!
# Fuzz/MustKnown — the registers that are known on every path

A worklist over a control-flow graph keeps, for each instruction that was reached, the registers
known before it; a set that shrinks is looked at again.

    known i ── reads i ⊆ known i ? ──▸ known i ∪ writes i ──∩──▸ known j,  pushed when it shrinks

A set bounds what every path has made available, and a register that it lacks is lost on some path,
so an early refusal is right.  Each push lowers the potential of the sets, which the budget covers.
-/

namespace MyFuzz

open List Function

namespace Strategy

/-- The registers of a program. -/
abbrev Register := Fin 32

/-- What an analysis is given of a program. -/
structure Flow where
  count : ℕ
  reads : ℕ → List Register
  writes : ℕ → List Register
  successors : ℕ → List ℤ

/-- The registers known before each instruction, `none` for those that were not reached. -/
abbrev Known := ℕ → Option (Finset Register)

/-- The end of the analysis: its result, or an empty budget. -/
inductive Verdict where
  | decided (result : Bool)
  | exhausted
  deriving DecidableEq

/-- The first set that reaches an instruction, and then the meet. -/
def merge (existing : Option (Finset Register)) (outgoing : Finset Register) : Finset Register :=
  match existing with
  | none => outgoing
  | some existing => existing ∩ outgoing

namespace Flow

variable (p : Flow) (seed : Finset Register)

/-- Merge a set into a successor of the program, and push the successor when its own set is new or changes. -/
def visit (outgoing : Finset Register) (state : Known × List ℕ) (successor : ℤ) : Known × List ℕ :=
  if 0 ≤ successor ∧ successor < p.count then
    let merged := merge (state.1 successor.toNat) outgoing
    if state.1 successor.toNat = some merged then state
    else (Function.update state.1 successor.toNat (some merged), successor.toNat :: state.2)
  else state

/-- The work, last in first out, with a budget of instructions to look at. -/
def loop : ℕ → Known → List ℕ → Verdict
  | _, _, [] => .decided true
  | 0, _, _ :: _ => .exhausted
  | budget + 1, known, index :: work =>
    match known index with
    | none => loop budget known work
    | some current =>
      if ∃ register ∈ p.reads index, register ∉ current then .decided false
      else
        let state := (p.successors index).foldl (p.visit (current ∪ (p.writes index).toFinset)) (known, work)
        loop budget state.1 state.2

/-- **Whether every register that is read is known on every path.** -/
def mustKnownFixpoint : Verdict :=
  if p.count = 0 then .decided true
  else p.loop ((p.count + 1) * 40 + 64) (Function.update (fun _ => none) 0 (some seed)) [0]

/-! ## Paths -/

/-- A path from instruction 0: the instructions before, and the one that comes next. -/
inductive Path : List ℕ → ℕ → Prop
  | start (h : 0 < p.count) : Path [] 0
  | step {before : List ℕ} {i j : ℕ} (h : Path before i) (hj : (j : ℤ) ∈ p.successors i) (hlt : j < p.count) :
      Path (before ++ [i]) j

/-- A register of the seed, or one that an earlier instruction wrote. -/
def Available (before : List ℕ) (r : Register) : Prop := r ∈ seed ∨ ∃ i ∈ before, r ∈ p.writes i

variable {p seed} {known : Known} {work : List ℕ} {outgoing : Finset Register}
    {state state' : Known × List ℕ} {i j : ℕ}

/-! ## One visit -/

/-- The room a set has to shrink. -/
def weight : Option (Finset Register) → ℕ
  | none => 33
  | some K => K.card

/-- The room of all sets, and the work that waits. -/
def potential (p : Flow) (state : Known × List ℕ) : ℕ :=
  ∑ s ∈ Finset.range p.count, weight (state.1 s) + state.2.length

/-- A register that a set lacks is lost on some path. -/
def Lost (p : Flow) (seed : Finset Register) (s : ℕ) (K : Finset Register) : Prop :=
  ∀ r ∉ K, ∃ before, p.Path before s ∧ ¬ p.Available seed before r

/-- **What visits do**: sets shrink, those that change wait, and the potential does not grow. -/
structure Visited (p : Flow) (state state' : Known × List ℕ) : Prop where
  shrinks : ∀ s K, state.1 s = some K → ∃ K' ⊆ K, state'.1 s = some K'
  kept : ∀ s ∉ state'.2, state'.1 s = state.1 s ∧ s ∉ state.2
  potential : p.potential state' ≤ p.potential state

theorem Visited.refl (p : Flow) (state : Known × List ℕ) : Visited p state state :=
  ⟨fun _ K h => ⟨K, Finset.Subset.refl K, h⟩, fun _ h => ⟨rfl, h⟩, le_rfl⟩

theorem Visited.within (h : Visited p state state') {s : ℕ} {K : Finset Register}
    (hK : ∃ K' ⊆ K, state.1 s = some K') : ∃ K' ⊆ K, state'.1 s = some K' := by
  obtain ⟨K', hsub, hK'⟩ := hK
  obtain ⟨K'', hsub', hK''⟩ := h.shrinks s K' hK'
  exact ⟨K'', hsub'.trans hsub, hK''⟩

theorem Visited.trans {state'' : Known × List ℕ} (h : Visited p state state')
    (h' : Visited p state' state'') :
    Visited p state state'' := by
  refine ⟨fun s K hK => h'.within (h.shrinks s K hK), fun s hs => ?_, h'.potential.trans h.potential⟩
  obtain ⟨hsame, hs'⟩ := h'.kept s hs
  obtain ⟨hsame', hs''⟩ := h.kept s hs'
  exact ⟨hsame.trans hsame', hs''⟩

theorem merge_subset (existing : Option (Finset Register)) : merge existing outgoing ⊆ outgoing := by
  cases existing with
  | none => exact Finset.Subset.refl _
  | some K => exact Finset.inter_subset_right

/-- A merge that changes a set leaves it less room. -/
theorem weight_merge {existing : Option (Finset Register)} (h : existing ≠ some (merge existing outgoing)) :
    (merge existing outgoing).card < weight existing := by
  cases existing with
  | none => exact Nat.lt_succ_of_le (Finset.card_le_univ outgoing)
  | some K =>
    refine Finset.card_lt_card (Finset.inter_subset_left.ssubset_of_ne fun heq => h ?_)
    exact congrArg some heq.symm

theorem sum_weight_update (known : Known) {s : ℕ} (hs : s < p.count) (K : Option (Finset Register)) :
    ∑ t ∈ Finset.range p.count, weight (update known s K t) + weight (known s) =
      ∑ t ∈ Finset.range p.count, weight (known t) + weight K := by
  have hmem := Finset.mem_range.2 hs
  have hrest : ∑ t ∈ (Finset.range p.count).erase s, weight (update known s K t) =
      ∑ t ∈ (Finset.range p.count).erase s, weight (known t) := by
    refine Finset.sum_congr rfl fun t ht => ?_
    rw [update_of_ne (Finset.ne_of_mem_erase ht)]
  rw [← Finset.add_sum_erase _ _ hmem, ← Finset.add_sum_erase _ _ hmem, hrest, update_self]
  omega

/-- **One visit.** -/
theorem visited_visit (outgoing : Finset Register) (state : Known × List ℕ) (successor : ℤ) :
    Visited p state (p.visit outgoing state successor) := by
  unfold visit
  split_ifs with hvalid
  swap
  · exact .refl p state
  dsimp only
  split_ifs with hsame
  · exact .refl p state
  refine ⟨fun s K hK => ?_, fun s hs => ?_, ?_⟩
  · by_cases heq : s = successor.toNat
    · subst heq
      refine ⟨_, ?_, update_self _ _ _⟩
      rw [hK]
      exact Finset.inter_subset_left
    · exact ⟨K, Finset.Subset.refl K, (update_of_ne heq _ _).trans hK⟩
  · obtain ⟨hne, hs⟩ := not_or.1 (mt mem_cons.2 hs)
    exact ⟨update_of_ne hne _ _, hs⟩
  · have hlt : successor.toNat < p.count := by omega
    have hsum := sum_weight_update state.1 hlt (some (merge (state.1 successor.toNat) outgoing))
    have hless := weight_merge hsame
    unfold potential
    rw [length_cons]
    change _ + weight (state.1 successor.toNat) = _ + (merge (state.1 successor.toNat) outgoing).card at hsum
    dsimp only
    omega

theorem visit_subset (outgoing : Finset Register) (state : Known × List ℕ) (hlt : j < p.count) :
    ∃ K ⊆ outgoing, (p.visit outgoing state j).1 j = some K := by
  refine ⟨merge (state.1 j) outgoing, merge_subset _, ?_⟩
  unfold visit
  rw [if_pos ⟨Int.natCast_nonneg j, by exact_mod_cast hlt⟩]
  simp only [Int.toNat_natCast]
  split_ifs with hsame
  · exact hsame
  · exact update_self _ _ _

theorem lost_visit (hlost : ∀ s K, state.1 s = some K → p.Lost seed s K) {successor : ℤ}
    (hout : 0 ≤ successor ∧ successor < p.count → p.Lost seed successor.toNat outgoing) :
    ∀ s K, (p.visit outgoing state successor).1 s = some K → p.Lost seed s K := by
  intro s K hK
  unfold visit at hK
  split_ifs at hK with hvalid
  · dsimp only at hK
    split_ifs at hK with hsame
    · exact hlost s K hK
    · by_cases heq : s = successor.toNat
      · subst heq
        simp only [update_self, Option.some.injEq] at hK
        subst hK
        intro r hr
        cases hexisting : state.1 successor.toNat with
        | none =>
          rw [hexisting] at hr
          exact hout hvalid r hr
        | some existing =>
          rw [hexisting, merge, Finset.mem_inter, not_and_or] at hr
          exact hr.elim (hlost _ _ hexisting r) (hout hvalid r)
      · exact hlost s K ((update_of_ne heq _ _).symm.trans hK)
  · exact hlost s K hK

/-- **All successors are visited.** -/
theorem visited_successors (successors : List ℤ) (state : Known × List ℕ)
    (hlost : ∀ s K, state.1 s = some K → p.Lost seed s K)
    (hout : ∀ successor ∈ successors, 0 ≤ successor ∧ successor < p.count →
      p.Lost seed successor.toNat outgoing) :
    Visited p state (successors.foldl (p.visit outgoing) state) ∧
    (∀ s K, (successors.foldl (p.visit outgoing) state).1 s = some K → p.Lost seed s K) ∧
    ∀ j : ℕ, (j : ℤ) ∈ successors → j < p.count →
      ∃ K ⊆ outgoing, (successors.foldl (p.visit outgoing) state).1 j = some K := by
  induction successors generalizing state with
  | nil => exact ⟨.refl p state, hlost, fun j hj => absurd hj not_mem_nil⟩
  | cons successor successors ih =>
    have hhead := lost_visit hlost (hout successor (.head _))
    obtain ⟨hvisited, hlost', hreached⟩ := ih _ hhead fun s hs => hout s (.tail _ hs)
    refine ⟨(visited_visit outgoing state successor).trans hvisited, hlost', fun j hj hlt => ?_⟩
    rcases mem_cons.1 hj with rfl | hj
    · exact hvisited.within (visit_subset outgoing state hlt)
    · exact hreached j hj hlt

/-! ## The loop -/

/-- **The invariant of the work**: a set that does not wait is known, and its successors know no more. -/
structure Inv (p : Flow) (seed : Finset Register) (known : Known) (work : List ℕ) : Prop where
  start : ∃ K ⊆ seed, known 0 = some K
  lost : ∀ s K, known s = some K → p.Lost seed s K
  settled : ∀ i K, known i = some K → i ∉ work → (∀ r ∈ p.reads i, r ∈ K) ∧
    ∀ j : ℕ, (j : ℤ) ∈ p.successors i → j < p.count → ∃ K' ⊆ K ∪ (p.writes i).toFinset, known j = some K'

/-- Without work, a set bounds what every path makes available. -/
theorem Inv.subset_available (h : Inv p seed known []) {before : List ℕ} (hpath : p.Path before i) :
    ∃ K, known i = some K ∧ ∀ r ∈ K, p.Available seed before r := by
  induction hpath with
  | start =>
    obtain ⟨K, hsub, hK⟩ := h.start
    exact ⟨K, hK, fun r hr => .inl (hsub hr)⟩
  | @step before i j _ hj hlt ih =>
    obtain ⟨K, hK, havailable⟩ := ih
    obtain ⟨K', hsub, hK'⟩ := (h.settled i K hK not_mem_nil).2 j hj hlt
    refine ⟨K', hK', fun r hr => ?_⟩
    rcases Finset.mem_union.1 (hsub hr) with hr | hr
    · exact (havailable r hr).imp_right fun ⟨k, hk, hw⟩ => ⟨k, mem_append_left _ hk, hw⟩
    · exact .inr ⟨i, mem_append_right _ (.head _), mem_toFinset.1 hr⟩

/-- What an instruction hands on lacks what is lost before it and not written. -/
theorem lost_outgoing {K : Finset Register} (h : p.Lost seed i K) (hj : (j : ℤ) ∈ p.successors i)
    (hlt : j < p.count) : p.Lost seed j (K ∪ (p.writes i).toFinset) := by
  intro r hr
  obtain ⟨hK, hwrites⟩ := not_or.1 (mt Finset.mem_union.2 hr)
  obtain ⟨before, hpath, hlost⟩ := h r hK
  refine ⟨before ++ [i], hpath.step hj hlt, ?_⟩
  rintro (hseed | ⟨k, hk, hw⟩)
  · exact hlost (.inl hseed)
  · rcases mem_append.1 hk with hk | hk
    · exact hlost (.inr ⟨k, hk, hw⟩)
    · obtain rfl := mem_singleton.1 hk
      exact hwrites (mem_toFinset.2 hw)

/-- **One instruction is looked at.** -/
theorem Inv.step (h : Inv p seed known (i :: work)) {current : Finset Register}
    (hcurrent : known i = some current)
    (hreads : ¬ ∃ r ∈ p.reads i, r ∉ current) :
    let state := (p.successors i).foldl (p.visit (current ∪ (p.writes i).toFinset)) (known, work)
    Inv p seed state.1 state.2 ∧ p.potential state ≤ p.potential (known, work) := by
  obtain ⟨hvisited, hlost, hreached⟩ := visited_successors (p.successors i) (known, work) h.lost
    fun successor hs hvalid => by
      obtain ⟨j, rfl⟩ := Int.eq_ofNat_of_zero_le hvalid.1
      exact lost_outgoing (h.lost i current hcurrent) hs (by exact_mod_cast hvalid.2)
  refine ⟨⟨hvisited.within h.start, hlost, fun s K hK hs => ?_⟩, hvisited.potential⟩
  obtain ⟨hsame, hs⟩ := hvisited.kept s hs
  rw [hsame] at hK
  by_cases heq : s = i
  · subst heq
    cases hcurrent.symm.trans hK
    exact ⟨by simpa using hreads, hreached⟩
  · obtain ⟨hknown, hnext⟩ := h.settled s K hK (not_mem_cons_of_ne_of_not_mem heq hs)
    exact ⟨hknown, fun j hj hlt => hvisited.within (hnext j hj hlt)⟩

/-- Every register that is read is available, on every path. -/
def KnownOnPaths (p : Flow) (seed : Finset Register) : Prop :=
  ∀ before i, p.Path before i → ∀ r ∈ p.reads i, p.Available seed before r

theorem Inv.knownOnPaths (h : Inv p seed known []) : p.KnownOnPaths seed := by
  intro before i hpath r hr
  obtain ⟨K, hK, havailable⟩ := h.subset_available hpath
  exact havailable r ((h.settled i K hK not_mem_nil).1 r hr)

/-- **A budget that covers the potential is not exhausted, and the result is that of all paths.** -/
theorem Inv.loop (budget : ℕ) (h : Inv p seed known work) (hbudget : p.potential (known, work) ≤ budget) :
    ∃ result, p.loop budget known work = .decided result ∧ (result = true ↔ p.KnownOnPaths seed) := by
  induction budget generalizing known work with
  | zero =>
    cases work with
    | nil => exact ⟨true, rfl, iff_of_true rfl h.knownOnPaths⟩
    | cons index work => exact absurd hbudget (by rw [potential, length_cons]; omega)
  | succ budget ih =>
    cases work with
    | nil => exact ⟨true, rfl, iff_of_true rfl h.knownOnPaths⟩
    | cons index work =>
      have hless : p.potential (known, work) ≤ budget := by
        simp only [potential, length_cons] at hbudget ⊢
        omega
      rw [Flow.loop]
      cases hcurrent : known index with
      | none =>
        refine ih ⟨h.start, h.lost, fun s K hK hs => h.settled s K hK fun hmem => ?_⟩ hless
        rcases mem_cons.1 hmem with rfl | hmem
        · rw [hcurrent] at hK
          cases hK
        · exact hs hmem
      | some current =>
        dsimp only
        split_ifs with hreads
        · obtain ⟨r, hr, hunknown⟩ := hreads
          obtain ⟨before, hpath, hlost⟩ := h.lost index current hcurrent r hunknown
          exact ⟨false, rfl, iff_of_false Bool.false_ne_true fun hall => hlost (hall before index hpath r hr)⟩
        · obtain ⟨hinv, hpotential⟩ := h.step hcurrent hreads
          exact ih hinv (hpotential.trans hless)

/-- At the start only instruction 0 is known, with the seed. -/
theorem Inv.init (hcount : p.count ≠ 0) : Inv p seed (update (fun _ => none) 0 (some seed)) [0] := by
  refine ⟨⟨seed, Finset.Subset.refl seed, update_self _ _ _⟩, fun s K hK => ?_, fun i K hK hi => ?_⟩
  · by_cases hs : s = 0
    · subst hs
      simp only [update_self, Option.some.injEq] at hK
      subst hK
      refine fun r hr => ⟨[], .start (Nat.pos_of_ne_zero hcount), ?_⟩
      rintro (hseed | ⟨i, hi, -⟩)
      · exact hr hseed
      · exact not_mem_nil hi
    · cases (update_of_ne hs _ _).symm.trans hK
  · cases (update_of_ne (mt mem_singleton.2 hi) _ _).symm.trans hK

/-- The budget of the source covers the potential of the start. -/
theorem potential_init_le (hcount : p.count ≠ 0) (seed : Finset Register) :
    p.potential (update (fun _ => none) 0 (some seed), [0]) ≤ (p.count + 1) * 40 + 64 := by
  have hsum := sum_weight_update (fun _ => none) (Nat.pos_of_ne_zero hcount) (some seed)
  have hcard : seed.card ≤ 32 := Finset.card_le_univ seed
  have hnone : ∑ t ∈ Finset.range p.count, weight none = p.count * 33 := by simp [weight]
  change _ + 33 = _ + seed.card at hsum
  rw [hnone] at hsum
  simp only [potential, length_singleton]
  omega

/-- **The fixpoint is exact**: the budget is never exhausted, and the result is whether every register that
is read is available on every path to it. -/
theorem mustKnownFixpoint_exact (p : Flow) (seed : Finset Register) :
    p.mustKnownFixpoint seed ≠ .exhausted ∧
      (p.mustKnownFixpoint seed = .decided true ↔ p.KnownOnPaths seed) := by
  have hresult : ∃ result, p.mustKnownFixpoint seed = .decided result ∧
    (result = true ↔ p.KnownOnPaths seed) := by
    unfold mustKnownFixpoint
    split_ifs with hcount
    · refine ⟨true, rfl, iff_of_true rfl fun before i hpath => ?_⟩
      cases hpath <;> omega
    · exact (Inv.init hcount).loop _ (potential_init_le hcount seed)
  obtain ⟨result, heq, hiff⟩ := hresult
  rw [heq, ← hiff]
  refine ⟨fun h => ?_, by rw [Verdict.decided.injEq]⟩
  cases h

end Flow

end Strategy

end MyFuzz
