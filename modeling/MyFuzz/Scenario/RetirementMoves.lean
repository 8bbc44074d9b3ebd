import MyFuzz.Foundations.Run
import MyFuzz.Scenario.CpuRetirement

/-!
# Scenario/RetirementMoves — what a record does to the matcher

A record leaves the matcher as it is, degrades every scope, degrades its own scope, passes a reset
barrier or is admitted to the state of its scope.  Within a scope nothing takes back a degradation,
and a degraded scope certifies nothing.
-/

namespace MyFuzz

open CpuEvents

namespace CpuState

/-! ## A degraded scope stays degraded -/

variable {s : CpuState}

theorem degraded_repeatFetch (fetch : Fetch) (h : s.degraded = true) :
    (s.repeatFetch fetch).2.degraded = true := by
  unfold repeatFetch
  dsimp only
  split
  · rfl
  · exact h

theorem degraded_noteInstrSequence (sequence : ℕ) (h : s.degraded = true) :
    (s.noteInstrSequence sequence).2.degraded = true := by
  unfold noteInstrSequence
  split
  · rfl
  · exact h

theorem degraded_addFetch (maxPending : ℕ) (fetch : Fetch) (h : s.degraded = true) :
    (s.addFetch maxPending fetch).2.degraded = true := by
  unfold addFetch
  split
  · exact h
  · split
    · exact h
    · split
      · rfl
      · exact h

theorem degraded_instrResponse (maxPending : ℕ) (fetch : Fetch) (h : s.degraded = true) :
    (s.instrResponse maxPending fetch).2.degraded = true := by
  unfold instrResponse
  split
  · exact degraded_repeatFetch fetch h
  · dsimp only
    split
    · rfl
    · exact degraded_addFetch (s := noteRecent _ _ _) maxPending fetch
        (degraded_noteInstrSequence _ h)

theorem degraded_repeatAccept (beat : DataBeat) (h : s.degraded = true) :
    (s.repeatAccept beat).2.degraded = true := by
  unfold repeatAccept
  dsimp only
  split
  · rfl
  · split
    · exact h
    · rfl

theorem degraded_noteAcceptSequence (sequence : ℕ) (h : s.degraded = true) :
    (s.noteAcceptSequence sequence).2.degraded = true := by
  unfold noteAcceptSequence
  split
  · rfl
  · exact h

theorem degraded_addBeat (maxPending : ℕ) (beat : DataBeat) (h : s.degraded = true) :
    (s.addBeat maxPending beat).2.degraded = true := by
  unfold addBeat
  split
  · rfl
  · exact h

theorem degraded_dataAccept (maxPending : ℕ) (beat : DataBeat) (h : s.degraded = true) :
    (s.dataAccept maxPending beat).2.degraded = true := by
  unfold dataAccept
  split
  · exact degraded_repeatAccept beat h
  · exact degraded_addBeat maxPending beat (degraded_noteAcceptSequence _ h)

theorem degraded_refuseResponse (response : DataResponse) (h : s.degraded = true) :
    (s.refuseResponse response).2.degraded = true := by
  unfold refuseResponse
  dsimp only
  split
  · exact h
  · rfl

theorem degraded_dataResponse (response : DataResponse) (h : s.degraded = true) :
    (s.dataResponse response).2.degraded = true := by
  unfold dataResponse
  split
  · exact degraded_refuseResponse response h
  · split
    · exact degraded_refuseResponse response h
    · split
      · exact h
      · rfl

theorem degraded_retireInstruction (r : Retirement) (h : s.degraded = true) :
    (s.retireInstruction r).2.degraded = true := by
  unfold retireInstruction
  split
  · split
    · rfl
    · exact h
  · dsimp only
    split
    · exact h
    · split_ifs with hsure
      · exact h
      · exact absurd (.inl h) hsure

theorem degraded_noteOrder (order : ℕ) (h : s.degraded = true) : (s.noteOrder order).degraded = true := by
  unfold noteOrder
  rw [h]
  rfl

theorem retireWitness_fields (r : Retirement) : s.retireWitness (.fields r) =
    if (r.order : ℤ) ≤ s.lastOrder then (finding .rejected "nonmonotonic_retirement_order", s)
    else if r.trap ≠ 0 then
      (finding .rejected "trap_retirement_observation_only", { s.noteOrder r.order with degraded := true })
    else (s.noteOrder r.order).retireInstruction r := rfl

theorem degraded_retireWitness (record : RetireRecord) (h : s.degraded = true) :
    (s.retireWitness record).2.degraded = true := by
  cases record with
  | invalidValid | missingFields | outOfRange => rfl
  | fields r =>
    rw [retireWitness_fields]
    split
    · exact h
    · split
      · rfl
      · exact degraded_retireInstruction r (degraded_noteOrder r.order h)

theorem degraded_retire (record : RetireRecord) (h : s.degraded = true) :
    (s.retire record).2.degraded = true := by
  unfold retire
  dsimp only
  split
  · split
    · rfl
    · exact degraded_retireWitness _ h
  · exact degraded_retireWitness _ h

/-- **Nothing a scope observes takes back its degradation.** -/
theorem degraded_observe (maxPending : ℕ) (observation : CpuObservation) (h : s.degraded = true) :
    (s.observe maxPending observation).2.degraded = true := by
  cases observation with
  | reset | flush => exact h
  | instrResponse fetch => exact degraded_instrResponse maxPending fetch h
  | dataAccept beat => exact degraded_dataAccept maxPending beat h
  | dataResponse response => exact degraded_dataResponse response h
  | retire record => exact degraded_retire record h

/-! ## What is certified -/

/-- The status of an accepted retirement comes from its operation. -/
theorem retireInstruction_accepted {r : Retirement} (h : (s.retireInstruction r).1.status = .accepted) :
    s.degraded = false ∧ ∃ operation witnesses, operationOf r.insn = some operation ∧
      s.retireInstruction r = s.retireOperation witnesses operation r := by
  unfold retireInstruction at h ⊢
  split at h
  · cases h
  · rename_i operation hoperation
    dsimp only at h ⊢
    split at h
    · cases h
    · rename_i hwitness
      split at h
      · cases h
      · rename_i hsure
        rw [if_neg hwitness, if_neg hsure]
        refine ⟨?_, operation, _, hoperation, rfl⟩
        simpa using fun hd => hsure (.inl hd)

variable {record : RetireRecord}

/-- **An accepted retirement is in order, without a trap, in a scope that is not degraded.** -/
theorem retire_accepted (h : (s.retire record).1.status = .accepted) :
    ∃ r operation witnesses, record = .fields r ∧ s.lastOrder < r.order ∧ r.trap = 0 ∧
      (s.noteOrder r.order).degraded = false ∧ operationOf r.insn = some operation ∧
      s.retire record = (s.noteOrder r.order).retireOperation witnesses operation r := by
  have hwitness : (s.retireWitness record).1.status = .accepted := by
    unfold retire at h
    dsimp only at h
    split at h
    · exact h
    · exact h
  cases record with
  | invalidValid | missingFields | outOfRange => cases hwitness
  | fields r =>
    have hretire : s.retire (.fields r) = s.retireWitness (.fields r) := by
      unfold retire
      dsimp only
      rw [if_neg fun hbad => hbad.1 hwitness]
    rw [hretire]
    rw [retireWitness_fields] at hwitness ⊢
    split at hwitness
    · cases hwitness
    · rename_i horder
      split at hwitness
      · cases hwitness
      · rename_i htrap
        obtain ⟨hsure, operation, witnesses, hoperation, heq⟩ := retireInstruction_accepted hwitness
        rw [if_neg horder, if_neg htrap]
        exact ⟨r, operation, witnesses, rfl, not_le.1 horder, not_not.1 htrap, hsure, hoperation, heq⟩

theorem not_degraded_of_retire_accepted (h : (s.retire record).1.status = .accepted) :
    s.degraded = false := by
  obtain ⟨r, -, -, -, -, -, hsure, -⟩ := retire_accepted h
  by_contra hd
  rw [degraded_noteOrder r.order (by simpa using hd)] at hsure
  cases hsure

end CpuState

namespace CpuRetirementMatcher

variable {m : CpuRetirementMatcher} {record : CpuRecord} {σ τ : CpuScope}

/-! ## Opening a scope -/

/-- The state a record of a scope finds. -/
def current (m : CpuRetirementMatcher) (σ : CpuScope) : CpuState := (m.openScope σ).2.1

/-- The matcher with room for a scope. -/
def opened (m : CpuRetirementMatcher) (σ : CpuScope) : CpuRetirementMatcher := (m.openScope σ).2.2

/-- The scope whose state a record opens. -/
def opens? (m : CpuRetirementMatcher) : CpuRecord → Option CpuScope
  | .ignored | .unidentified _ => none
  | .malformed σ _ => some σ
  | .observed σ .reset => if m.Advances σ then none else some σ
  | .observed σ _ => if m.Precedes σ then none else some σ

/-- A record evicts a scope: it opens one that has no state when the table is full, and the evicted
scope has been there the longest. -/
def Evicts (m : CpuRetirementMatcher) (record : CpuRecord) (τ : CpuScope) : Prop :=
  ∃ σ, m.opens? record = some σ ∧ m.states.get? σ = none ∧ m.maxPending ≤ m.states.length ∧
    m.states.keys.head? = some τ

variable {s : CpuState} {observation : CpuObservation}

theorem openScope_of_some (h : m.states.get? σ = some s) : m.openScope σ = ([], s, m) := by
  unfold openScope
  rw [h]

theorem opened_of_none (h : m.states.get? σ = none) : m.opened σ = m.makeRoom := by
  unfold opened openScope
  rw [h]

theorem current_of_some (h : m.states.get? σ = some s) : m.current σ = s := by
  unfold current
  rw [openScope_of_some h]

theorem opened_of_some (h : m.states.get? σ = some s) : m.opened σ = m := by
  unfold opened
  rw [openScope_of_some h]

/-- The flag of a scope that is opened anew. -/
theorem degraded_current_of_none (h : m.states.get? σ = none) : (m.current σ).degraded =
    ((m.makeRoom.scopeOverflow || m.makeRoom.globalUncertain) &&
      (m.makeRoom.restoredScopes.get? σ).isNone) := by
  unfold current openScope
  rw [h]
  rfl

@[simp] theorem resetEpochs_makeRoom : m.makeRoom.resetEpochs = m.resetEpochs := by
  unfold makeRoom
  split <;> rfl

@[simp] theorem restoredScopes_makeRoom : m.makeRoom.restoredScopes = m.restoredScopes := by
  unfold makeRoom
  split <;> rfl

@[simp] theorem globalUncertain_makeRoom : m.makeRoom.globalUncertain = m.globalUncertain := by
  unfold makeRoom
  split <;> rfl

@[simp] theorem maxPending_makeRoom : m.makeRoom.maxPending = m.maxPending := by
  unfold makeRoom
  split <;> rfl

theorem scopeOverflow_makeRoom (h : m.scopeOverflow = true) : m.makeRoom.scopeOverflow = true := by
  unfold makeRoom
  split
  · rfl
  · exact h

/-- A full table makes room for nothing but its oldest scope. -/
theorem get?_states_makeRoom : m.makeRoom.states.get? τ =
    if m.maxPending ≤ m.states.length ∧ m.states.keys.head? = some τ then none
    else m.states.get? τ := by
  unfold makeRoom
  split
  · rename_i hfull
    rw [Dict.get?_popFirst]
    simp [hfull]
  · rename_i hroom
    rw [if_neg fun h => hroom h.1]

section

variable (m : CpuRetirementMatcher) (σ : CpuScope)

/-- The tables that opening a scope leaves alone. -/
theorem opened_tables :
    (m.opened σ).resetEpochs = m.resetEpochs ∧ (m.opened σ).restoredScopes = m.restoredScopes ∧
      (m.opened σ).globalUncertain = m.globalUncertain ∧ (m.opened σ).maxPending = m.maxPending ∧
      (m.scopeOverflow = true → (m.opened σ).scopeOverflow = true) := by
  cases h : m.states.get? σ with
  | some s =>
    rw [opened_of_some h]
    exact ⟨rfl, rfl, rfl, rfl, id⟩
  | none =>
    rw [opened_of_none h]
    exact ⟨resetEpochs_makeRoom, restoredScopes_makeRoom, globalUncertain_makeRoom,
      maxPending_makeRoom, scopeOverflow_makeRoom⟩

theorem degrade_eq :
    m.degrade σ = (m.opened σ).setState σ { m.current σ with degraded := true } := by
  cases h : m.states.get? σ with
  | some s =>
    rw [opened_of_some h, current_of_some h, degrade, h]
  | none =>
    rw [opened_of_none h, degrade, h, current, openScope, h]
    rfl

theorem observeScope_eq (observation : CpuObservation) :
    (m.observeScope σ observation).2 = (m.opened σ).setState σ
      ((m.current σ).observe (m.opened σ).maxPending observation).2 := rfl

end

/-! ## Moves -/

/-- **What a record does to the matcher.** -/
inductive Move (m : CpuRetirementMatcher) (record : CpuRecord) : CpuRetirementMatcher → Prop
  | stay (h : m.opens? record = none) : Move m record m
  | degradeAll (reason : String) (h : record = .unidentified reason) : Move m record m.degradeAll
  | degraded (σ : CpuScope) (h : m.opens? record = some σ) :
      Move m record ((m.opened σ).setState σ { m.current σ with degraded := true })
  | admitted (σ : CpuScope) (observation : CpuObservation) (h : m.opens? record = some σ)
      (hrecord : record = .observed σ observation) (hreset : observation ≠ .reset) :
      Move m record ((m.opened σ).setState σ
        ((m.current σ).observe (m.opened σ).maxPending observation).2)
  | reset (σ : CpuScope) (h : record = .observed σ .reset) (hadvances : m.Advances σ) :
      Move m record (((m.recordReset σ).restore σ).cancelScopes σ.cpu).2

theorem lt_of_advances (h : m.Advances σ) {e : ℕ} (he : m.resetEpochs.get? σ.cpu = some e) :
    e < σ.sourceEpoch :=
  h e (List.mem_append_right _ (by rw [he]; exact .head _))

/-- A reset records its own epoch: what was there is smaller. -/
theorem getD_recordReset (h : m.Advances σ) : (m.recordReset σ).resetEpochs.getD σ.cpu 0 = σ.sourceEpoch := by
  have hle : ∀ d : Dict (String × String) ℕ, (∀ e, d.get? σ.cpu = some e → e < σ.sourceEpoch) →
      d.getD σ.cpu 0 ≤ σ.sourceEpoch := by
    intro d hd
    unfold Dict.getD
    cases he : d.get? σ.cpu with
    | none => exact Nat.zero_le _
    | some e => exact (hd e he).le
  unfold recordReset
  dsimp only
  rw [Dict.getD_set_self]
  refine max_eq_left (hle _ fun e he => ?_)
  split at he
  · exact lt_of_advances h (Dict.get?_of_get?_popFirst he)
  · exact lt_of_advances h he

theorem reset_of_advances (h : m.Advances σ) :
    m.reset σ = ((m.recordReset σ).restore σ).cancelScopes σ.cpu := by
  unfold reset
  have hbarrier : ¬ (m.recordReset σ).Precedes σ := by
    unfold Precedes
    rw [getD_recordReset h]
    exact lt_irrefl _
  rw [if_neg (not_not.2 h)]
  rw [if_neg hbarrier]

theorem reset_of_not_advances (h : ¬ m.Advances σ) :
    m.reset σ = ([finding .rejected "reset_epoch_did_not_advance"], m.degrade σ) := if_pos h

/-- A record other than a reset, behind its barrier or not. -/
theorem consumeRecord_observed (h : observation ≠ .reset) :
    m.consumeRecord (.observed σ observation) =
      if m.Precedes σ then ([finding .rejected "event_precedes_reset_epoch"], m)
      else if observation = .flush then
        ([finding .incomplete "cpu_flush_pairing_barrier"], m.degrade σ)
      else m.observeScope σ observation := by
  cases observation with
  | reset => exact absurd rfl h
  | flush | instrResponse fetch | dataAccept beat | dataResponse response | retire record => rfl

theorem opens?_observed (h : observation ≠ .reset) :
    m.opens? (.observed σ observation) = if m.Precedes σ then none else some σ := by
  cases observation with
  | reset => exact absurd rfl h
  | flush | instrResponse fetch | dataAccept beat | dataResponse response | retire record => rfl

/-- **Every record moves the matcher in one of these ways.** -/
theorem move_consumeRecord (m : CpuRetirementMatcher) (record : CpuRecord) :
    Move m record (m.consumeRecord record).2 := by
  cases record with
  | ignored => exact .stay rfl
  | unidentified reason => exact .degradeAll reason rfl
  | malformed σ reason =>
    change Move m _ (m.degrade σ)
    rw [degrade_eq]
    exact .degraded σ rfl
  | observed σ observation =>
    by_cases hreset : observation = .reset
    · subst hreset
      change Move m _ (m.reset σ).2
      by_cases hadvances : m.Advances σ
      · rw [reset_of_advances hadvances]
        exact .reset σ rfl hadvances
      · rw [reset_of_not_advances hadvances, degrade_eq]
        exact .degraded σ (if_neg hadvances)
    · rw [consumeRecord_observed hreset]
      have hopens := opens?_observed (m := m) (σ := σ) hreset
      split
      · rename_i hbarrier
        exact .stay (hopens.trans (if_pos hbarrier))
      · rename_i hbarrier
        have hopen : m.opens? (.observed σ observation) = some σ := hopens.trans (if_neg hbarrier)
        split
        · rw [degrade_eq]
          exact .degraded σ hopen
        · rw [observeScope_eq]
          exact .admitted σ observation hopen rfl hreset

end CpuRetirementMatcher

end MyFuzz
