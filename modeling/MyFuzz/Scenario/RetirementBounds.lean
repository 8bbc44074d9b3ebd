import MyFuzz.Scenario.RetirementQueue

/-!
# Scenario/RetirementBounds — the tables of the matcher are bounded

No record makes a table longer than `maxPending`: the fetches and beats of a scope, the scopes, the
reset epochs and the restored scopes.
-/

namespace MyFuzz

open Dict

namespace CpuState

variable {s : CpuState} {maxPending : ℕ}

/-- What is kept of a scope is bounded. -/
structure Bounded (maxPending : ℕ) (s : CpuState) : Prop where
  fetches : s.fetches.length ≤ maxPending
  recent : s.recentFetches.length ≤ maxPending
  beats : s.beats.length ≤ maxPending

theorem bounded_new (degraded : Bool) : (CpuState.new degraded).Bounded maxPending :=
  ⟨Nat.zero_le _, Nat.zero_le _, Nat.zero_le _⟩

/-- The bound depends on the three stores only. -/
theorem Bounded.congr {s' : CpuState} (h : s.Bounded maxPending) (hfetches : s'.fetches = s.fetches)
    (hrecent : s'.recentFetches = s.recentFetches) (hbeats : s'.beats = s.beats) :
    s'.Bounded maxPending :=
  ⟨hfetches ▸ h.fetches, hrecent ▸ h.recent, hbeats ▸ h.beats⟩

section

variable (h : s.Bounded maxPending)

include h

theorem bounded_noteInstrSequence (sequence : ℕ) :
    (s.noteInstrSequence sequence).2.Bounded maxPending := by
  unfold noteInstrSequence
  split <;> exact h.congr rfl rfl rfl

theorem bounded_noteRecent (fetch : Fetch) :
    (s.noteRecent maxPending fetch).Bounded maxPending := by
  refine ⟨h.fetches, ?_, h.beats⟩
  have hset := length_set s.recentFetches fetch.transaction fetch.signature
  have hrecent := h.recent
  unfold noteRecent
  dsimp only
  split_ifs with hroom
  · rw [length_popFirst]
    split at hset
    · omega
    · omega
  · exact not_lt.1 hroom

theorem bounded_addFetch (fetch : Fetch) :
    (s.addFetch maxPending fetch).2.Bounded maxPending := by
  unfold addFetch
  split
  · exact h
  split
  · exact h
  rename_i old rest hlist
  have hlength : (old :: rest).length = s.fetches.length + 1 := by
    rw [← hlist, List.length_append, List.length_singleton]
  have hfetches := h.fetches
  split_ifs with hroom
  · refine ⟨?_, h.recent, h.beats⟩
    change rest.length ≤ maxPending
    rw [List.length_cons] at hlength
    omega
  · exact ⟨not_lt.1 hroom, h.recent, h.beats⟩

theorem bounded_instrResponse (fetch : Fetch) :
    (s.instrResponse maxPending fetch).2.Bounded maxPending := by
  unfold instrResponse
  split
  · unfold repeatFetch
    dsimp only
    split
    · exact h.congr rfl rfl rfl
    · exact h
  dsimp only
  split
  · exact (bounded_noteInstrSequence h _).congr rfl rfl rfl
  · exact bounded_addFetch (bounded_noteRecent (bounded_noteInstrSequence h _) fetch) fetch

theorem bounded_dataAccept (beat : DataBeat) :
    (s.dataAccept maxPending beat).2.Bounded maxPending := by
  unfold dataAccept
  split
  · unfold repeatAccept
    dsimp only
    split
    · exact h.congr rfl rfl rfl
    · split
      · exact h
      · exact h.congr rfl rfl rfl
  · have hnote : (s.noteAcceptSequence beat.transaction.sourceSequence).2.Bounded maxPending := by
      unfold noteAcceptSequence
      split
      · exact h.congr rfl rfl rfl
      · exact h.congr rfl rfl rfl
    dsimp only
    unfold addBeat
    split_ifs with hroom
    · refine ⟨hnote.fetches, hnote.recent, ?_⟩
      have hbeats := hnote.beats
      change (List.tail _).length ≤ maxPending
      rw [List.length_tail, List.length_append, List.length_singleton]
      omega
    · exact ⟨hnote.fetches, hnote.recent, not_lt.1 hroom⟩

end

theorem length_answerFirst (response : DataResponse) (beats : List DataBeat) :
    (answerFirst response beats).length = beats.length := by
  have hkeys := congrArg List.length (map_transaction_answerFirst response beats)
  rwa [List.length_map, List.length_map] at hkeys

theorem bounded_dataResponse (h : s.Bounded maxPending) (response : DataResponse) :
    (s.dataResponse response).2.Bounded maxPending := by
  have hrefuse : (s.refuseResponse response).2.Bounded maxPending := by
    unfold refuseResponse
    dsimp only
    split
    · exact h
    · exact h.congr rfl rfl rfl
  unfold dataResponse
  split
  · exact hrefuse
  split
  · exact hrefuse
  split
  · exact ⟨h.fetches, h.recent, (length_answerFirst response s.beats).trans_le h.beats⟩
  · exact h.congr rfl rfl rfl

/-- A retirement keeps the fetches and takes beats. -/
theorem frame_retire (record : RetireRecord) :
    (s.retire record).2.fetches = s.fetches ∧ (s.retire record).2.recentFetches = s.recentFetches := by
  have hmemory : ∀ (s : CpuState) witnesses write width r,
      (s.retireMemory witnesses write width r).2.fetches = s.fetches ∧
        (s.retireMemory witnesses write width r).2.recentFetches = s.recentFetches := by
    intro s witnesses write width r
    unfold retireMemory
    split
    · exact ⟨rfl, rfl⟩
    dsimp only
    split
    · exact ⟨rfl, rfl⟩
    split <;> exact ⟨rfl, rfl⟩
  have hinstruction : ∀ (s : CpuState) r, (s.retireInstruction r).2.fetches = s.fetches ∧
      (s.retireInstruction r).2.recentFetches = s.recentFetches := by
    intro s r
    unfold retireInstruction
    split
    · split
      · exact ⟨rfl, rfl⟩
      · exact ⟨rfl, rfl⟩
    rename_i operation _
    dsimp only
    split
    · exact ⟨rfl, rfl⟩
    split
    · exact ⟨rfl, rfl⟩
    cases hkind : accessOf operation with
    | none =>
      rw [retireOperation_register hkind]
      split <;> exact ⟨rfl, rfl⟩
    | some access =>
      rw [retireOperation_access hkind]
      exact hmemory _ _ _ _ _
  have hwitness : (s.retireWitness record).2.fetches = s.fetches ∧
      (s.retireWitness record).2.recentFetches = s.recentFetches := by
    cases record with
    | invalidValid | missingFields | outOfRange => exact ⟨rfl, rfl⟩
    | fields r =>
      rw [retireWitness_fields]
      split
      · exact ⟨rfl, rfl⟩
      split
      · exact ⟨rfl, rfl⟩
      · exact hinstruction (s.noteOrder r.order) r
  unfold retire
  dsimp only
  split
  · split
    · exact hwitness
    · exact hwitness
  · exact hwitness

theorem bounded_retire (h : s.Bounded maxPending) (record : RetireRecord) :
    (s.retire record).2.Bounded maxPending := by
  obtain ⟨hfetches, hrecent⟩ := frame_retire (s := s) record
  refine ⟨hfetches ▸ h.fetches, hrecent ▸ h.recent, ?_⟩
  have hqueue := congrArg List.length (takes_retire (s := s) record).queue
  have hbeats := h.beats
  rw [List.length_append] at hqueue
  omega

/-- **Every observation keeps a scope bounded.** -/
theorem bounded_observe (h : s.Bounded maxPending) (observation : CpuObservation) :
    (s.observe maxPending observation).2.Bounded maxPending := by
  cases observation with
  | reset | flush => exact h
  | instrResponse fetch => exact bounded_instrResponse h fetch
  | dataAccept beat => exact bounded_dataAccept h beat
  | dataResponse response => exact bounded_dataResponse h response
  | retire record => exact bounded_retire h record

end CpuState

namespace CpuRetirementMatcher

variable {m : CpuRetirementMatcher} {σ : CpuScope}

/-- What the matcher keeps is bounded. -/
structure Bounded (m : CpuRetirementMatcher) : Prop where
  scopes : m.states.length ≤ m.maxPending
  states : ∀ σ s, m.states.get? σ = some s → s.Bounded m.maxPending
  resetEpochs : m.resetEpochs.length ≤ m.maxPending
  restoredScopes : m.restoredScopes.length ≤ m.maxPending

theorem bounded_current (h : m.Bounded) : (m.current σ).Bounded m.maxPending := by
  cases hs : m.states.get? σ with
  | some s =>
    rw [current_of_some hs]
    exact h.states σ s hs
  | none =>
    unfold current openScope
    rw [hs]
    exact CpuState.bounded_new _

/-- Binding the state of an opened scope keeps the bounds. -/
theorem bounded_setState_opened (h : m.Bounded) {s : CpuState} (hs : s.Bounded m.maxPending) :
    ((m.opened σ).setState σ s).Bounded := by
  obtain ⟨hepochs, hrestored, -, hmax, -⟩ := opened_tables m σ
  refine ⟨?_, fun τ s' hs' => ?_, ?_, ?_⟩
  · change ((m.opened σ).states.set σ s).length ≤ (m.opened σ).maxPending
    rw [hmax]
    cases hσ : m.states.get? σ with
    | some s' =>
      rw [opened_of_some hσ, length_set, hσ]
      exact h.scopes
    | none =>
      have hroom := length_set_of_room m.positive h.scopes σ s
      rw [opened_of_none hσ]
      unfold makeRoom
      split_ifs with hfull
      · rw [if_pos ⟨hfull, hσ⟩] at hroom
        exact hroom
      · rw [if_neg fun h => hfull h.1] at hroom
        exact hroom
  · change s'.Bounded (m.opened σ).maxPending
    rw [hmax]
    by_cases hτ : τ = σ
    · subst hτ
      rw [get?_states_setState_self] at hs'
      cases hs'
      exact hs
    · rw [get?_states_setState_of_ne hτ] at hs'
      exact h.states τ s' (get?_of_get?_opened hs')
  · change (m.opened σ).resetEpochs.length ≤ (m.opened σ).maxPending
    rw [hepochs, hmax]
    exact h.resetEpochs
  · change (m.opened σ).restoredScopes.length ≤ (m.opened σ).maxPending
    rw [hrestored, hmax]
    exact h.restoredScopes

theorem maxPending_recordReset : (m.recordReset σ).maxPending = m.maxPending := by
  unfold recordReset
  dsimp only
  split <;> rfl

theorem bounded_afterReset (h : m.Bounded) : (m.afterReset σ).Bounded := by
  have hmax : (m.afterReset σ).maxPending = m.maxPending := maxPending_recordReset
  have hstates : ((m.recordReset σ).restore σ).states = m.states := by
    unfold restore recordReset
    dsimp only
    split <;> rfl
  have hrestored : (m.recordReset σ).restoredScopes = m.restoredScopes := by
    unfold recordReset
    dsimp only
    split <;> rfl
  refine ⟨?_, fun τ s hs => ?_, ?_, ?_⟩
  · rw [hmax]
    refine (length_filterKeys_le _ _).trans ?_
    rw [hstates]
    exact h.scopes
  · rw [hmax]
    rw [get?_states_afterReset] at hs
    split at hs
    · cases hs
    · exact h.states τ s hs
  · rw [hmax, resetEpochs_afterReset]
    have hroom := length_set_of_room m.positive h.resetEpochs σ.cpu
    unfold recordReset
    dsimp only
    split_ifs with hdrop
    · have hroom := hroom (max σ.sourceEpoch (m.resetEpochs.popFirst.getD σ.cpu 0))
      rw [if_pos ⟨hdrop.1, hdrop.2⟩] at hroom
      exact hroom
    · have hroom := hroom (max σ.sourceEpoch (m.resetEpochs.getD σ.cpu 0))
      rw [if_neg fun h => hdrop ⟨h.1, h.2⟩] at hroom
      exact hroom
  · rw [hmax]
    change ((m.recordReset σ).restore σ).restoredScopes.length ≤ m.maxPending
    unfold restore
    dsimp only
    rw [maxPending_recordReset, hrestored]
    exact length_set_of_room m.positive h.restoredScopes σ ()

/-- **Every record keeps the matcher bounded.** -/
theorem bounded_consumeRecord (h : m.Bounded) (record : CpuRecord) : (m.consumeRecord record).2.Bounded := by
  have hmove := move_consumeRecord m record
  generalize (m.consumeRecord record).2 = m' at hmove ⊢
  cases hmove with
  | stay _ => exact h
  | degradeAll _ _ =>
    refine ⟨(length_mapVal _ _).trans_le h.scopes, fun τ s hs => ?_, h.resetEpochs, Nat.zero_le _⟩
    obtain ⟨s', hs', rfl⟩ := Option.map_eq_some_iff.1 ((get?_mapVal _ _ _).symm.trans hs)
    exact (h.states τ s' hs').congr rfl rfl rfl
  | degraded σ hopen =>
    exact bounded_setState_opened h ((bounded_current h).congr rfl rfl rfl)
  | admitted σ observation hopen _ _ =>
    rw [(opened_tables m σ).2.2.2.1]
    exact bounded_setState_opened h (CpuState.bounded_observe (bounded_current h) observation)
  | reset σ _ hadvances => exact bounded_afterReset h

end CpuRetirementMatcher

end MyFuzz
