import MyFuzz.Scenario.RetirementMoves

/-!
# Scenario/RetirementCertainty — certainty is not regained without a reset

A scope is **barred** when its records come too late or find a degraded state, and **blocked** when it
is barred or its state is degraded.  A blocked scope certifies nothing, and every record keeps it
blocked except in three cases, each a forgotten entry of a bounded table:

    a reset to the scope itself ─────────────── its CPU's barrier was dropped
    a barrier dropped over a restored scope ─── the restored scope counts as never seen
    a restored scope evicted from the states ── so does this one

The runs without these cases keep both promises of the matcher: a reset barrier is permanent, and a
scope that was made uncertain is never certified again.
-/

namespace MyFuzz

open CpuEvents CpuRetirementMatcher Dict

namespace CpuRetirementMatcher

variable {m : CpuRetirementMatcher} {record : CpuRecord} {σ τ : CpuScope}

/-! ## Barred and blocked scopes -/

/-- No record of the scope finds a state that is not degraded, and none can open one. -/
structure Barred (m : CpuRetirementMatcher) (τ : CpuScope) : Prop where
  tombstone : ∀ s, m.states.get? τ = some s → s.degraded = true
  unseen : m.Precedes τ ∨ (m.scopeOverflow = true ∨ m.globalUncertain = true) ∧ m.restoredScopes.get? τ = none

/-- No record of the scope is certified. -/
def Blocked (m : CpuRetirementMatcher) (τ : CpuScope) : Prop :=
  (∃ s, m.states.get? τ = some s ∧ s.degraded = true) ∨ m.Barred τ

/-- The entry a reset drops from the table of reset epochs. -/
def droppedEpoch? (m : CpuRetirementMatcher) (record : CpuRecord) : Option ((String × String) × ℕ) :=
  match record with
  | .observed σ .reset =>
      if m.Advances σ ∧ m.DropsEpoch σ.cpu then m.resetEpochs.entries.head? else none
  | _ => none

/-- A scope that is degraded or barred is opened degraded. -/
theorem degraded_current (h : m.Blocked τ) (hbarrier : ¬ m.Precedes τ) : (m.current τ).degraded = true := by
  cases hs : m.states.get? τ with
  | some s =>
    rw [current_of_some hs]
    rcases h with ⟨s', hs', hd⟩ | hbarred
    · obtain rfl : s = s' := Option.some.inj (hs.symm.trans hs')
      exact hd
    · exact hbarred.tombstone s hs
  | none =>
    rcases h with ⟨s', hs', -⟩ | hbarred
    · rw [hs] at hs'
      cases hs'
    · obtain ⟨hlost, hrestored⟩ := hbarred.unseen.resolve_left hbarrier
      rw [degraded_current_of_none hs, restoredScopes_makeRoom, hrestored, globalUncertain_makeRoom]
      rcases hlost with hlost | hlost
      · rw [scopeOverflow_makeRoom hlost]
        rfl
      · rw [hlost, Bool.or_true]
        rfl

/-- **A blocked scope certifies nothing.** -/
theorem not_blocked_of_accepted {retired : RetireRecord} {found : Finding}
    (hfound : found ∈ (m.consumeRecord (.observed τ (.retire retired))).1)
    (haccepted : found.status = .accepted) : ¬ m.Blocked τ := by
  intro hblocked
  rw [consumeRecord_observed (by simp)] at hfound
  split at hfound
  · rw [List.mem_singleton.1 hfound] at haccepted
    cases haccepted
  · rename_i hbarrier
    rw [if_neg (by simp)] at hfound
    rcases List.mem_append.1 hfound with hevicted | hretired
    · change found ∈ (m.openScope τ).1 at hevicted
      unfold openScope at hevicted
      split at hevicted
      · cases hevicted
      · split at hevicted
        · rw [List.mem_singleton.1 hevicted] at haccepted
          cases haccepted
        · cases hevicted
    · change found ∈ [((m.current τ).retire retired).1] at hretired
      rw [List.mem_singleton.1 hretired] at haccepted
      have hsure := CpuState.not_degraded_of_retire_accepted haccepted
      rw [degraded_current hblocked hbarrier] at hsure
      cases hsure

/-! ## Frames -/

theorem not_precedes_of_opens (h : m.opens? record = some σ) {observation : CpuObservation}
    (hrecord : record = .observed σ observation) (hreset : observation ≠ .reset) :
    ¬ m.Precedes σ := by
  subst hrecord
  rw [opens?_observed hreset] at h
  intro hbarrier
  rw [if_pos hbarrier] at h
  cases h

variable {s : CpuState}

theorem get?_states_setState_of_ne (h : τ ≠ σ) :
    (m.setState σ s).states.get? τ = m.states.get? τ := get?_set_of_ne _ h s

@[simp] theorem get?_states_setState_self :
    (m.setState σ s).states.get? σ = some s := get?_set_self _ σ s

/-- Opening another scope takes the state of this one only by evicting it. -/
theorem get?_states_opened (h : m.opens? record = some σ) (hevict : ¬ m.Evicts record τ) :
    (m.opened σ).states.get? τ = m.states.get? τ := by
  cases hs : m.states.get? σ with
  | some s => rw [opened_of_some hs]
  | none =>
    rw [opened_of_none hs, get?_states_makeRoom]
    split_ifs with hfull
    · exact absurd ⟨σ, h, hs, hfull⟩ hevict
    · rfl

theorem get?_of_get?_opened (h : (m.opened σ).states.get? τ = some s) : m.states.get? τ = some s := by
  cases hs : m.states.get? σ with
  | some s' => rwa [opened_of_some hs] at h
  | none =>
    rw [opened_of_none hs, get?_states_makeRoom] at h
    split at h
    · cases h
    · exact h

/-- An evicted scope is gone, and the matcher knows that it forgot one. -/
theorem evicted_opened (hopen : m.opens? record = some σ) (h : m.Evicts record τ) :
    (m.opened σ).states.get? τ = none ∧ (m.opened σ).scopeOverflow = true := by
  obtain ⟨σ', hopen', hs, hfull, hhead⟩ := h
  obtain rfl : σ = σ' := Option.some.inj (hopen.symm.trans hopen')
  rw [opened_of_none hs]
  refine ⟨by rw [get?_states_makeRoom, if_pos ⟨hfull, hhead⟩], ?_⟩
  unfold makeRoom
  rw [if_pos hfull]

/-- What opening a scope and binding its state leaves of the knowledge about another. -/
theorem unseen_setState_opened
    (h : m.Precedes τ ∨
      (m.scopeOverflow = true ∨ m.globalUncertain = true) ∧ m.restoredScopes.get? τ = none) :
    ((m.opened σ).setState σ s).Precedes τ ∨ (((m.opened σ).setState σ s).scopeOverflow = true ∨
        ((m.opened σ).setState σ s).globalUncertain = true) ∧
        ((m.opened σ).setState σ s).restoredScopes.get? τ = none := by
  obtain ⟨hepochs, hrestored, hglobal, -, hoverflow⟩ := opened_tables m σ
  refine h.imp (fun h => ?_) fun h => ⟨h.1.imp hoverflow (hglobal.trans ·), ?_⟩
  · change τ.sourceEpoch < (m.opened σ).resetEpochs.getD τ.cpu 0
    rw [hepochs]
    exact h
  · change (m.opened σ).restoredScopes.get? τ = none
    rw [hrestored]
    exact h.2

/-! ## The reset barrier -/

section Reset

/-- The matcher behind an accepted reset. -/
abbrev afterReset (m : CpuRetirementMatcher) (σ : CpuScope) : CpuRetirementMatcher :=
  (((m.recordReset σ).restore σ).cancelScopes σ.cpu).2

theorem get?_states_afterReset : (m.afterReset σ).states.get? τ =
    if τ.cpu = σ.cpu then none else m.states.get? τ := by
  have hstates : ((m.recordReset σ).restore σ).states = m.states := by
    unfold restore recordReset
    dsimp only
    split <;> rfl
  change (((m.recordReset σ).restore σ).states.filterKeys fun τ => τ.cpu ≠ σ.cpu).get? τ = _
  rw [hstates, get?_filterKeys]
  by_cases h : τ.cpu = σ.cpu
  · simp [h]
  · simp [h]

theorem resetEpochs_afterReset : (m.afterReset σ).resetEpochs = (m.recordReset σ).resetEpochs := rfl

theorem scopeOverflow_afterReset (h : m.scopeOverflow = true) : (m.afterReset σ).scopeOverflow = true := by
  change (m.recordReset σ).scopeOverflow = true
  unfold recordReset
  dsimp only
  split
  · rfl
  · exact h

theorem globalUncertain_afterReset : (m.afterReset σ).globalUncertain = m.globalUncertain := by
  change (m.recordReset σ).globalUncertain = m.globalUncertain
  unfold recordReset
  dsimp only
  split <;> rfl

/-- A reset restores no scope but its own. -/
theorem restored_afterReset (hne : τ ≠ σ) (h : m.restoredScopes.get? τ = none) :
    (m.afterReset σ).restoredScopes.get? τ = none := by
  have hrecord : (m.recordReset σ).restoredScopes = m.restoredScopes := by
    unfold recordReset
    dsimp only
    split <;> rfl
  change ((m.recordReset σ).restore σ).restoredScopes.get? τ = none
  unfold restore
  dsimp only
  rw [get?_set_of_ne _ hne, hrecord]
  split
  · rw [get?_popFirst]
    split
    · rfl
    · exact h
  · exact h

/-- **Behind a reset the older epochs of its CPU come too late.** -/
theorem precedes_afterReset (hadvances : m.Advances σ) (hcpu : τ.cpu = σ.cpu)
    (hepoch : τ.sourceEpoch < σ.sourceEpoch) : (m.afterReset σ).Precedes τ := by
  change τ.sourceEpoch < (m.afterReset σ).resetEpochs.getD τ.cpu 0
  rw [resetEpochs_afterReset, hcpu, getD_recordReset hadvances]
  exact hepoch

/-- The barrier of another CPU stays unless it is dropped. -/
theorem getD_afterReset_of_ne (hadvances : m.Advances σ) (hcpu : τ.cpu ≠ σ.cpu) :
    (m.afterReset σ).resetEpochs.getD τ.cpu 0 = m.resetEpochs.getD τ.cpu 0 ∨
      (m.afterReset σ).scopeOverflow = true ∧
        m.droppedEpoch? (.observed σ .reset) = some (τ.cpu, m.resetEpochs.getD τ.cpu 0) := by
  rw [resetEpochs_afterReset]
  change _ ∨ (m.recordReset σ).scopeOverflow = true ∧ _
  unfold recordReset droppedEpoch?
  dsimp only
  rw [getD_set_of_ne _ hcpu]
  by_cases hdrop : m.DropsEpoch σ.cpu
  · rw [if_pos hdrop, if_pos ⟨hadvances, hdrop⟩]
    unfold getD
    dsimp only
    rw [get?_popFirst]
    split_ifs with hhead
    · obtain ⟨⟨cpu, epoch⟩, hentry, hkey⟩ : ∃ e, m.resetEpochs.entries.head? = some e ∧ e.1 = τ.cpu := by
        unfold keys at hhead
        rw [List.head?_map, Option.map_eq_some_iff] at hhead
        exact hhead
      obtain rfl : cpu = τ.cpu := hkey
      have hget : m.resetEpochs.get? τ.cpu = some epoch := mem_entries_iff.1 (List.mem_of_head? hentry)
      rw [hget]
      exact .inr ⟨rfl, hentry⟩
    · exact .inl rfl
  · rw [if_neg hdrop]
    exact .inl rfl

end Reset

/-! ## What every record keeps -/

/-- The record restores no barred scope: it is no reset of the scope itself, and drops no barrier
over it while it is restored. -/
structure Spares (m : CpuRetirementMatcher) (record : CpuRecord) (τ : CpuScope) : Prop where
  noReset : record = .observed τ .reset → ¬ m.Advances τ
  noDrop : ∀ epoch, m.droppedEpoch? record = some (τ.cpu, epoch) → τ.sourceEpoch < epoch →
    m.restoredScopes.get? τ = none

/-- A barred scope stays barred behind a reset. -/
theorem barred_afterReset (h : m.Barred τ) (hadvances : m.Advances σ)
    (hspares : m.Spares (.observed σ .reset) τ) : (m.afterReset σ).Barred τ := by
  have hne : τ ≠ σ := by
    rintro rfl
    exact hspares.noReset rfl hadvances
  have hlost : (m.scopeOverflow = true ∨ m.globalUncertain = true) ∧ m.restoredScopes.get? τ = none →
      ((m.afterReset σ).scopeOverflow = true ∨ (m.afterReset σ).globalUncertain = true) ∧
        (m.afterReset σ).restoredScopes.get? τ = none := by
    rintro ⟨hlost, hrestored⟩
    exact ⟨hlost.imp scopeOverflow_afterReset (globalUncertain_afterReset.trans ·),
      restored_afterReset hne hrestored⟩
  refine ⟨fun s hs => ?_, ?_⟩
  · rw [get?_states_afterReset] at hs
    split at hs
    · cases hs
    · exact h.tombstone s hs
  · rcases h.unseen with hbarrier | hunseen
    · by_cases hcpu : τ.cpu = σ.cpu
      · refine .inl (precedes_afterReset hadvances hcpu ?_)
        unfold Precedes getD at hbarrier
        rw [hcpu] at hbarrier
        cases hold : m.resetEpochs.get? σ.cpu with
        | none =>
          rw [hold] at hbarrier
          exact absurd hbarrier (Nat.not_lt_zero _)
        | some old =>
          rw [hold] at hbarrier
          exact lt_trans hbarrier (lt_of_advances hadvances hold)
      · rcases getD_afterReset_of_ne hadvances hcpu with hsame | ⟨hoverflow, hdropped⟩
        · refine .inl ?_
          unfold Precedes
          rw [hsame]
          exact hbarrier
        · refine .inr ⟨.inl hoverflow, restored_afterReset hne ?_⟩
          exact hspares.noDrop _ hdropped hbarrier
    · exact .inr (hlost hunseen)

/-- **A barred scope stays barred.** -/
theorem barred_consumeRecord (h : m.Barred τ) (hspares : m.Spares record τ) :
    (m.consumeRecord record).2.Barred τ := by
  have hmove := move_consumeRecord m record
  generalize (m.consumeRecord record).2 = m' at hmove ⊢
  cases hmove with
  | stay _ => exact h
  | degradeAll _ _ =>
    refine ⟨fun s hs => ?_, .inr ⟨.inr rfl, rfl⟩⟩
    obtain ⟨s', -, rfl⟩ := Option.map_eq_some_iff.1 ((get?_mapVal _ _ _).symm.trans hs)
    rfl
  | degraded σ hopen =>
    refine ⟨fun s hs => ?_, unseen_setState_opened h.unseen⟩
    by_cases hσ : τ = σ
    · subst hσ
      rw [get?_states_setState_self] at hs
      cases hs
      rfl
    · rw [get?_states_setState_of_ne hσ] at hs
      exact h.tombstone s (get?_of_get?_opened hs)
  | admitted σ observation hopen hrecord hreset =>
    refine ⟨fun s hs => ?_, unseen_setState_opened h.unseen⟩
    by_cases hσ : τ = σ
    · subst hσ
      rw [get?_states_setState_self] at hs
      cases hs
      exact CpuState.degraded_observe _ observation
        (degraded_current (.inr h) (not_precedes_of_opens hopen hrecord hreset))
    · rw [get?_states_setState_of_ne hσ] at hs
      exact h.tombstone s (get?_of_get?_opened hs)
  | reset σ hrecord hadvances =>
    subst hrecord
    exact barred_afterReset h hadvances hspares

/-- **A blocked scope stays blocked**, unless it is evicted while it is restored. -/
theorem blocked_consumeRecord (h : m.Blocked τ) (hspares : m.Spares record τ)
    (hevict : m.Evicts record τ → m.restoredScopes.get? τ = none) :
    (m.consumeRecord record).2.Blocked τ := by
  rcases h with ⟨s, hs, hd⟩ | hbarred
  swap
  · exact .inr (barred_consumeRecord hbarred hspares)
  have hmove := move_consumeRecord m record
  generalize (m.consumeRecord record).2 = m' at hmove ⊢
  -- opening another scope leaves the degraded state or evicts it
  have hother : ∀ {σ : CpuScope} {s' : CpuState}, m.opens? record = some σ → τ ≠ σ →
      ((m.opened σ).setState σ s').Blocked τ := by
    intro σ s' hopen hσ
    by_cases hgone : m.Evicts record τ
    · obtain ⟨hnone, hoverflow⟩ := evicted_opened hopen hgone
      refine .inr ⟨fun s'' hs'' => ?_, .inr ⟨.inl hoverflow, ?_⟩⟩
      · rw [get?_states_setState_of_ne hσ, hnone] at hs''
        cases hs''
      · change (m.opened σ).restoredScopes.get? τ = none
        rw [(opened_tables m σ).2.1]
        exact hevict hgone
    · refine .inl ⟨s, ?_, hd⟩
      rw [get?_states_setState_of_ne hσ, get?_states_opened hopen hgone, hs]
  cases hmove with
  | stay _ => exact .inl ⟨s, hs, hd⟩
  | degradeAll _ _ =>
    refine .inl ⟨{ s with degraded := true }, ?_, rfl⟩
    change (m.states.mapVal _).get? τ = _
    rw [get?_mapVal, hs]
    rfl
  | degraded σ hopen =>
    by_cases hσ : τ = σ
    · subst hσ
      exact .inl ⟨_, get?_states_setState_self, rfl⟩
    · exact hother hopen hσ
  | admitted σ observation hopen hrecord hreset =>
    by_cases hσ : τ = σ
    · subst hσ
      refine .inl ⟨_, get?_states_setState_self, CpuState.degraded_observe _ observation ?_⟩
      rw [current_of_some hs]
      exact hd
    · exact hother hopen hσ
  | reset σ hrecord hadvances =>
    by_cases hcpu : τ.cpu = σ.cpu
    · have hmem : τ.sourceEpoch ∈ m.observedEpochs σ.cpu := by
        refine List.mem_append_left _ (List.mem_map.2 ⟨τ, List.mem_filter.2 ⟨?_, ?_⟩, rfl⟩)
        · exact mem_keys_iff.2 (by rw [hs]; rfl)
        · exact decide_eq_true hcpu
      refine .inr ⟨fun s' hs' => ?_, .inl (precedes_afterReset hadvances hcpu (hadvances _ hmem))⟩
      rw [get?_states_afterReset, if_pos hcpu] at hs'
      cases hs'
    · refine .inl ⟨s, ?_, hd⟩
      rw [get?_states_afterReset, if_neg hcpu, hs]

end CpuRetirementMatcher

/-! ## Sessions -/

/-- One event fed to a matcher. -/
structure FedEvent where
  before : CpuRetirementMatcher
  event : CpuEvent

variable {τ : CpuScope}

namespace FedEvent

/-- What the event says. -/
def record (fe : FedEvent) : CpuRecord := classify fe.event

/-- What the matcher answers. -/
def reports (fe : FedEvent) : List CpuReport := (fe.before.consume fe.event).1

/-- The matcher after the event. -/
def after (fe : FedEvent) : CpuRetirementMatcher := (fe.before.consume fe.event).2

/-- A reset to this scope that is not rejected. -/
def AcceptsReset (fe : FedEvent) (σ : CpuScope) : Prop :=
  fe.record = .observed σ .reset ∧ ∀ report ∈ fe.reports, report.finding.status ≠ .rejected

/-- A retirement of this scope that is reported accepted. -/
def AcceptsRetire (fe : FedEvent) (σ : CpuScope) : Prop :=
  (∃ retired, fe.record = .observed σ (.retire retired)) ∧
    ∃ report ∈ fe.reports, report.finding.status = .accepted

variable {fe : FedEvent}

theorem advances_of_acceptsReset {σ : CpuScope} (h : fe.AcceptsReset σ) : fe.before.Advances σ := by
  obtain ⟨hrecord, hreports⟩ := h
  by_contra hadvances
  refine hreports ⟨CpuRetirementMatcher.headerOf fe.event,
    finding .rejected "reset_epoch_did_not_advance"⟩ ?_ rfl
  change CpuReport.mk _ _ ∈ List.map _ (fe.before.consumeRecord fe.record).1
  rw [hrecord]
  change CpuReport.mk _ _ ∈ List.map _ (fe.before.reset σ).1
  rw [reset_of_not_advances hadvances]
  exact .head _

/-- **A blocked scope is not certified.** -/
theorem not_acceptsRetire_of_blocked (h : fe.before.Blocked τ) : ¬ fe.AcceptsRetire τ := by
  rintro ⟨⟨retired, hrecord⟩, report, hreport, haccepted⟩
  obtain ⟨found, hfound, rfl⟩ := List.mem_map.1 hreport
  change found ∈ (fe.before.consumeRecord fe.record).1 at hfound
  rw [hrecord] at hfound
  exact not_blocked_of_accepted hfound haccepted h

end FedEvent

/-- A matcher with the events it was fed. -/
structure Session where
  matcher : CpuRetirementMatcher
  fed : List FedEvent

namespace Session

/-- A session of a new matcher. -/
def start (maxPending : ℕ) (positive : 0 < maxPending) : Session := ⟨.init maxPending positive, []⟩

/-- Feed the next event. -/
def feed (s : Session) (event : CpuEvent) : Session :=
  ⟨(s.matcher.consume event).2, s.fed ++ [⟨s.matcher, event⟩]⟩

/-- Feed a sequence of events to a new matcher. -/
def run (maxPending : ℕ) (positive : 0 < maxPending) (events : List CpuEvent) : Session :=
  Run.run feed (start maxPending positive) events

/-! ### The reset barrier -/

/-- A reset of the CPU to a larger epoch has been accepted. -/
def Superseded (s : Session) (τ : CpuScope) : Prop :=
  ∃ fe ∈ s.fed, ∃ σ, fe.AcceptsReset σ ∧ τ.cpu = σ.cpu ∧ τ.sourceEpoch < σ.sourceEpoch

/-- The next event spares the superseded scopes: it is no accepted reset to one of them, and drops
no reset epoch above one of them that is restored. -/
def SparesSuperseded (s : Session) (event : CpuEvent) : Prop :=
  ∀ τ, s.Superseded τ → s.matcher.Spares (classify event) τ

/-- A reset barrier holds for the rest of the session. -/
def BarriersHold (s : Session) : Prop :=
  s.fed.Pairwise fun earlier later => ∀ σ τ, earlier.AcceptsReset σ → later.AcceptsRetire τ →
    τ.cpu = σ.cpu → σ.sourceEpoch ≤ τ.sourceEpoch

/-- A superseded scope is barred, and no barrier has been passed. -/
structure BarrierInvariant (s : Session) : Prop where
  barred : ∀ τ, s.Superseded τ → s.matcher.Barred τ
  held : s.BarriersHold

theorem barrierInvariant_start (maxPending : ℕ) (positive : 0 < maxPending) :
    BarrierInvariant (start maxPending positive) where
  barred := fun _ ⟨_, hfe, _⟩ => nomatch hfe
  held := List.Pairwise.nil

theorem superseded_feed {s : Session} {event : CpuEvent} (h : (s.feed event).Superseded τ) :
    s.Superseded τ ∨ ∃ σ, (FedEvent.mk s.matcher event).AcceptsReset σ ∧ τ.cpu = σ.cpu ∧
        τ.sourceEpoch < σ.sourceEpoch := by
  obtain ⟨fe, hfe, hσ⟩ := h
  rcases List.mem_append.1 hfe with hfe | hfe
  · exact .inl ⟨fe, hfe, hσ⟩
  · obtain rfl := List.mem_singleton.1 hfe
    exact .inr hσ

/-- **One event keeps the barriers.** -/
theorem barrierInvariant_feed (s : Session) (event : CpuEvent) (h : s.BarrierInvariant)
    (hspares : s.SparesSuperseded event) : (s.feed event).BarrierInvariant where
  barred τ hτ := by
    rcases superseded_feed hτ with hold | ⟨σ, haccepts, hcpu, hepoch⟩
    · exact barred_consumeRecord (h.barred τ hold) (hspares τ hold)
    · have hadvances := FedEvent.advances_of_acceptsReset haccepts
      change (s.matcher.consumeRecord (classify event)).2.Barred τ
      rw [show classify event = .observed σ .reset from haccepts.1]
      change (s.matcher.reset σ).2.Barred τ
      rw [reset_of_advances hadvances]
      refine ⟨fun state hs => ?_, .inl (precedes_afterReset hadvances hcpu hepoch)⟩
      rw [get?_states_afterReset, if_pos hcpu] at hs
      cases hs
  held := by
    refine List.pairwise_append.2 ⟨h.held, List.pairwise_singleton _ _, ?_⟩
    intro earlier hearlier later hlater σ τ hreset hretire hcpu
    obtain rfl := List.mem_singleton.1 hlater
    by_contra hepoch
    exact FedEvent.not_acceptsRetire_of_blocked
      (.inr (h.barred τ ⟨earlier, hearlier, σ, hreset, hcpu, not_le.1 hepoch⟩)) hretire

end Session

/-- **A reset barrier is permanent** in every session whose events spare the superseded scopes. -/
theorem reset_barrier_permanent (maxPending : ℕ) (positive : 0 < maxPending) (events : List CpuEvent)
    (h : Run.Guarded Session.feed Session.SparesSuperseded (.start maxPending positive) events) :
    (Session.run maxPending positive events).BarriersHold :=
  (Run.run_invariant_of_guarded Session.barrierInvariant_feed events
    (Session.barrierInvariant_start maxPending positive) h).held

/-! ### Two CPUs and a table of one -/

namespace Sample

/-- The identity of a CPU. -/
def identity (component : String) (epoch : ℤ) : EventFields :=
  [("execution_id", .str "x"), ("source_component", .str component), ("source_epoch", .scalar (.int epoch))]

/-- A reset. -/
def reset (component : String) (epoch : ℤ) : CpuEvent :=
  .dict (("kind", .str "cpu_reset") :: identity component epoch)

/-- The transaction of a response or a beat. -/
def transaction (component : String) (epoch : ℤ) (channel : String) (sequence : ℤ) : Value EventScalar :=
  .dict (identity component epoch ++ [("testcase_id", .str "t"), ("channel_id", .str channel),
    ("source_sequence", .scalar (.int sequence))])

/-- The first instruction response of a CPU, at address 0. -/
def fetch (component : String) (epoch insn : ℤ) (data : List UInt8) : CpuEvent :=
  .dict [("kind", .str "instr_response"), ("transaction", transaction component epoch "instr" 1),
    ("rdata", .scalar (.int insn)), ("error", .scalar (.int 0)), ("address", .scalar (.int 0)),
    ("snapshot", .dict [("value", .scalar (.int insn)), ("data", .scalar (.bytes data)),
      ("writer_kinds", .list (List.replicate 4 (.str "STORE"))),
      ("writer_event_ids", .list (List.replicate 4 (.str "w"))), ("versions", .list (List.replicate 4
        (.list [.scalar (.int 0), .scalar (.int 1)])))])]

/-- The first retirement of a CPU, at address 0; the fields that are not given are 0. -/
def retire (component : String) (epoch insn : ℤ) (fields : EventFields) : CpuEvent :=
  .dict (("kind", .str "cpu_retire") :: identity component epoch ++ fields ++
    [("insn", .scalar (.int insn))] ++ retirementWidths.map fun field => (field.1, .scalar (.int 0)))

/-- `addi x1, x0, 1` is fetched and retired. -/
def addi (component : String) (epoch : ℤ) : List CpuEvent :=
  [fetch component epoch 0x00100093 [0x93, 0x00, 0x10, 0x00],
    retire component epoch 0x00100093 [("rd_addr", .scalar (.int 1)), ("rd_wdata", .scalar (.int 1))]]

end Sample

/-- **A dropped barrier certifies an old epoch**: behind a reset of another CPU the first one is
reset from epoch 7 to epoch 3. -/
theorem dropped_barrier_certifies_old_epoch :
    ¬ (Session.run 1 (by decide)
      ([Sample.reset "A" 7, Sample.reset "B" 1, Sample.reset "A" 3] ++ Sample.addi "A" 3)).BarriersHold := by
  intro h
  have hpair := List.pairwise_iff_getElem.mp h 0 4 (by decide) (by decide) (by decide)
  have hepoch := hpair ⟨"x", "A", 7⟩ ⟨"x", "A", 3⟩ ⟨by decide, by decide⟩
    ⟨⟨.fields ⟨0, 0, 0x00100093, 0, 0, 0, 0, 0, 1, 1, 0, 0, 0, 0, 0⟩, by decide⟩, by decide⟩ rfl
  exact absurd hepoch (by decide)

/-- The record is a reset. -/
def CpuRecord.isReset : CpuRecord → Bool
  | .observed _ .reset => true
  | _ => false

/-- A record that is no reset restores nothing. -/
theorem CpuRetirementMatcher.spares_of_not_isReset {m : CpuRetirementMatcher} {record : CpuRecord}
    (h : record.isReset = false) (τ : CpuScope) : m.Spares record τ where
  noReset hrecord := by
    rw [hrecord] at h
    cases h
  noDrop epoch hdropped := by
    unfold droppedEpoch? at hdropped
    split at hdropped
    · cases h
    · cases hdropped

/-- Resets of one CPU to rising epochs, and a retirement behind them. -/
theorem rising_resets_hold : (Session.run 2 (by decide)
    ([Sample.reset "A" 1, Sample.reset "A" 2] ++ Sample.addi "A" 2)).BarriersHold := by
  refine reset_barrier_permanent 2 (by decide) _ ⟨?_, ?_, ?_, ?_, trivial⟩
  · rintro τ ⟨fe, hfe, -⟩
    cases hfe
  · rintro τ ⟨fe, hfe, σ, ⟨hrecord, -⟩, -, hepoch⟩
    obtain rfl := List.mem_singleton.mp hfe
    have hσ : σ = ⟨"x", "A", 1⟩ := by
      have hfirst : CpuRecord.observed ⟨"x", "A", 1⟩ .reset = .observed σ .reset := hrecord
      cases hfirst
      rfl
    subst hσ
    refine ⟨fun h => ?_, fun epoch h => ?_⟩
    · have hsecond : CpuRecord.observed ⟨"x", "A", 2⟩ .reset = .observed τ .reset := h
      cases hsecond
      exact absurd hepoch (by decide)
    · have hnone : (none : Option ((String × String) × ℕ)) = some (τ.cpu, epoch) := h
      cases hnone
  · exact fun τ _ => CpuRetirementMatcher.spares_of_not_isReset rfl τ
  · exact fun τ _ => CpuRetirementMatcher.spares_of_not_isReset rfl τ

end MyFuzz
