import MyFuzz.Scenario.RetirementCertainty

/-!
# Scenario/RetirementUncertainty — what makes a scope uncertain, for good

A scope becomes uncertain with every record the matcher cannot explain: a malformed or conflicting
one, a gap in a sequence, a flush, a trap, an unsupported memory instruction, a full table, or a
record that names no CPU.  Each leaves the scope blocked, so it is certified again only under another
epoch.
-/

namespace MyFuzz

open CpuEvents CpuRetirementMatcher

variable {observation : CpuObservation}

namespace CpuState

variable {s : CpuState} {maxPending : ℕ}

/-! ## Records that a scope cannot explain -/

/-- What has been recorded of a fetch. -/
def recordedFetch? (s : CpuState) (transaction : CpuTransaction) : Option FetchSignature :=
  ((s.fetches.find? fun item => item.transaction = transaction).map Fetch.signature).or
    (s.recentFetches.get? transaction)

/-- A response that neither answers the first open beat nor repeats an earlier response. -/
def ConflictingResponse (s : CpuState) (response : DataResponse) : Prop :=
  match s.beats.find? fun beat => beat.response = none with
  | none => s.repeatsResponse response = false
  | some unanswered =>
      if unanswered.transaction = response.transaction then echoes response unanswered = false
      else s.repeatsResponse response = false

/-- A conflicting record, a gap, an error response or a full table, for each kind of record. -/
def Unexplained (maxPending : ℕ) (s : CpuState) : CpuObservation → Prop
  | .reset | .flush => False
  | .instrResponse fetch =>
      let sequence := fetch.transaction.sourceSequence
      sequence ≤ s.lastInstrSequence ∧ s.recordedFetch? fetch.transaction ≠ some fetch.signature ∨
        s.lastInstrSequence + 1 < sequence ∨ s.lastInstrSequence < sequence ∧ (fetch.frozen = none ∨
          fetch.signature ∉ s.fetchSignatures ∧ maxPending ≤ s.fetches.length)
  | .dataAccept beat =>
      let sequence : ℤ := beat.transaction.sourceSequence
      sequence ≤ s.lastAcceptSequence ∧ (∀ previous,
          (s.beats.find? fun item => item.transaction = beat.transaction) = some previous →
          sameRequest previous beat = false) ∨
        max 1 (s.lastAcceptSequence + 1) < sequence ∨
        s.lastAcceptSequence < sequence ∧ maxPending ≤ s.beats.length
  | .dataResponse response => s.ConflictingResponse response
  | .retire (.fields r) =>
      0 ≤ s.lastOrder ∧ s.lastOrder + 1 < r.order ∨ s.lastOrder < r.order ∧ r.trap ≠ 0 ∨
        operationOf r.insn = none ∧ memoryEncoding r.insn = true
  | .retire _ => True

theorem degraded_instrResponse_of_unexplained {fetch : Fetch}
    (h : s.Unexplained maxPending (.instrResponse fetch)) :
    (s.instrResponse maxPending fetch).2.degraded = true := by
  unfold instrResponse
  rcases h with ⟨hold, hconflict⟩ | hgap | ⟨hnew, hfrozen | ⟨hsignature, hfull⟩⟩
  · rw [if_pos hold]
    dsimp only
    exact congrArg CpuState.degraded (if_pos hconflict)
  · rw [if_neg (by omega)]
    have hdegraded : (s.noteInstrSequence fetch.transaction.sourceSequence).2.degraded = true := by
      unfold noteInstrSequence
      rw [if_pos (by omega)]
    dsimp only
    split
    · rfl
    · exact degraded_addFetch (s := noteRecent _ _ _) maxPending fetch hdegraded
  · rw [if_neg (not_le.2 hnew)]
    rw [hfrozen]
  · rw [if_neg (not_le.2 hnew)]
    dsimp only
    split
    · rfl
    · have hfetches : (noteRecent maxPending
          (s.noteInstrSequence fetch.transaction.sourceSequence).2 fetch).fetches = s.fetches := by
        unfold noteRecent noteInstrSequence
        dsimp only
        split <;> rfl
      have hsignatures : (noteRecent maxPending
          (s.noteInstrSequence fetch.transaction.sourceSequence).2 fetch).fetchSignatures =
          s.fetchSignatures := by
        unfold noteRecent noteInstrSequence
        dsimp only
        split <;> rfl
      unfold addFetch
      rw [if_neg (by rw [hsignatures]; exact hsignature), hfetches]
      cases hlist : s.fetches ++ [fetch] with
      | nil => simp at hlist
      | cons old rest =>
        have hlength : (old :: rest).length = s.fetches.length + 1 := by
          rw [← hlist, List.length_append, List.length_singleton]
        dsimp only
        rw [if_pos (by omega)]

theorem degraded_dataAccept_of_unexplained {beat : DataBeat}
    (h : s.Unexplained maxPending (.dataAccept beat)) :
    (s.dataAccept maxPending beat).2.degraded = true := by
  unfold dataAccept
  rcases h with ⟨hold, hconflict⟩ | hgap | ⟨hnew, hfull⟩
  · rw [if_pos hold]
    unfold repeatAccept
    dsimp only
    split
    · rfl
    · rename_i previous hprevious
      rw [hconflict previous hprevious]
      rfl
  · have hlast : ¬ (beat.transaction.sourceSequence : ℤ) ≤ s.lastAcceptSequence := by omega
    rw [if_neg hlast]
    refine degraded_addBeat maxPending beat ?_
    unfold noteAcceptSequence
    rw [if_pos (by omega)]
  · rw [if_neg (not_le.2 hnew)]
    have hbeats : (s.noteAcceptSequence beat.transaction.sourceSequence).2.beats = s.beats := by
      unfold noteAcceptSequence
      split <;> rfl
    dsimp only
    unfold addBeat
    rw [hbeats, if_pos (by rw [List.length_append, List.length_singleton]; omega)]

variable {response : DataResponse}

theorem degraded_refuseResponse_of_new (h : s.repeatsResponse response = false) :
    (s.refuseResponse response).2.degraded = true := by
  unfold refuseResponse
  rw [h]
  rfl

theorem degraded_dataResponse_of_conflicting (h : s.ConflictingResponse response) :
    (s.dataResponse response).2.degraded = true := by
  unfold ConflictingResponse at h
  unfold dataResponse
  cases hfind : s.beats.find? fun beat => beat.response = none with
  | none =>
    simp only [hfind] at h ⊢
    exact degraded_refuseResponse_of_new h
  | some unanswered =>
    simp only [hfind] at h ⊢
    split_ifs at h with hsame
    · rw [if_neg (not_not.2 hsame), h]
      rfl
    · rw [if_pos hsame]
      exact degraded_refuseResponse_of_new h

theorem degraded_retire_of_unexplained {record : RetireRecord}
    (h : s.Unexplained maxPending (.retire record)) : (s.retire record).2.degraded = true := by
  cases record with
  | invalidValid | missingFields | outOfRange => rfl
  | fields r =>
    by_contra hsure
    -- were the scope sure, the retirement would be accepted or no memory instruction
    have hwitness : (s.retireWitness (.fields r)).2.degraded ≠ true := by
      intro hd
      refine hsure ?_
      unfold retire
      dsimp only
      split
      · rfl
      · exact hd
    rcases h with ⟨hfirst, hgap⟩ | ⟨hnew, htrap⟩ | ⟨hunsupported, hmemory⟩
    · have horder : (s.noteOrder r.order).degraded = true := by
        have hmissing : 0 ≤ s.lastOrder ∧ (r.order : ℤ) ≠ s.lastOrder + 1 := ⟨hfirst, by omega⟩
        unfold noteOrder
        dsimp only
        rw [decide_eq_true hmissing, Bool.or_true]
      refine hwitness ?_
      rw [retireWitness_fields, if_neg (by omega)]
      split
      · rfl
      · exact degraded_retireInstruction r horder
    · refine hwitness ?_
      rw [retireWitness_fields, if_neg (not_le.2 hnew), if_pos htrap]
    · have hstatus : (s.retireWitness (.fields r)).1.status ≠ .accepted := by
        rw [retireWitness_fields]
        unfold retireInstruction
        rw [hunsupported]
        split
        · simp [finding]
        · split
          · simp [finding]
          · simp [finding]
      refine hsure ?_
      unfold retire
      dsimp only
      rw [if_pos ⟨hstatus, hmemory⟩]

/-- **A record that a scope cannot explain degrades it.** -/
theorem degraded_observe_of_unexplained (h : s.Unexplained maxPending observation) :
    (s.observe maxPending observation).2.degraded = true := by
  cases observation with
  | reset | flush => exact h.elim
  | instrResponse fetch => exact degraded_instrResponse_of_unexplained h
  | dataAccept beat => exact degraded_dataAccept_of_unexplained h
  | dataResponse response => exact degraded_dataResponse_of_conflicting h
  | retire record => exact degraded_retire_of_unexplained h

end CpuState

namespace CpuRetirementMatcher

variable {m : CpuRetirementMatcher} {record : CpuRecord} {τ : CpuScope}

/-- The record is one that its scope cannot explain: malformed, a reset that does not advance, a
flush, or unexplained in the state it finds. -/
def Occasion (m : CpuRetirementMatcher) (τ : CpuScope) : CpuRecord → Prop
  | .ignored | .unidentified _ => False
  | .malformed σ _ => σ = τ
  | .observed σ .reset => σ = τ ∧ ¬ m.Advances τ
  | .observed σ .flush => σ = τ ∧ ¬ m.Precedes τ
  | .observed σ observation =>
      σ = τ ∧ ¬ m.Precedes τ ∧ (m.current τ).Unexplained m.maxPending observation

theorem blocked_of_degraded {s : CpuState} (h : s.degraded = true) (m : CpuRetirementMatcher) :
    (m.setState τ s).Blocked τ := .inl ⟨s, get?_states_setState_self, h⟩

theorem blocked_degrade (m : CpuRetirementMatcher) (τ : CpuScope) : (m.degrade τ).Blocked τ := by
  rw [degrade_eq]
  exact blocked_of_degraded rfl _

/-- An unexplained record leaves its scope blocked. -/
theorem blocked_observeScope (h : (m.current τ).Unexplained m.maxPending observation) :
    (m.observeScope τ observation).2.Blocked τ := by
  rw [observeScope_eq, (opened_tables m τ).2.2.2.1]
  exact blocked_of_degraded (CpuState.degraded_observe_of_unexplained h) _

/-- **Every such occasion blocks the scope.** -/
theorem blocked_of_occasion (h : m.Occasion τ record) : (m.consumeRecord record).2.Blocked τ := by
  cases record with
  | ignored | unidentified reason => exact h.elim
  | malformed σ reason =>
    obtain rfl : σ = τ := h
    exact blocked_degrade m σ
  | observed σ observation =>
    cases observation with
    | reset =>
      obtain ⟨rfl, hadvances⟩ := h
      change (m.reset σ).2.Blocked σ
      rw [reset_of_not_advances hadvances]
      exact blocked_degrade m σ
    | flush =>
      obtain ⟨rfl, hbarrier⟩ := h
      rw [consumeRecord_observed (by simp), if_neg hbarrier, if_pos rfl]
      exact blocked_degrade m σ
    | instrResponse fetch | dataAccept beat | dataResponse response | retire retired =>
      obtain ⟨rfl, hbarrier, hunexplained⟩ := h
      rw [consumeRecord_observed (by simp), if_neg hbarrier, if_neg (by simp)]
      exact blocked_observeScope hunexplained

/-- A record without an identity blocks every scope. -/
theorem blocked_degradeAll (m : CpuRetirementMatcher) (τ : CpuScope) : m.degradeAll.Blocked τ := by
  refine .inr ⟨fun s hs => ?_, .inr ⟨.inr rfl, rfl⟩⟩
  obtain ⟨s', -, rfl⟩ := Option.map_eq_some_iff.1 ((Dict.get?_mapVal _ _ _).symm.trans hs)
  rfl

/-- An evicted scope that is not restored is blocked. -/
theorem blocked_of_evicts (h : m.Evicts record τ) (hrestored : m.restoredScopes.get? τ = none) :
    (m.consumeRecord record).2.Blocked τ := by
  obtain ⟨σ, hopen, hs, hfull, hhead⟩ := h
  have hevicts : m.Evicts record τ := ⟨σ, hopen, hs, hfull, hhead⟩
  have hne : τ ≠ σ := by
    rintro rfl
    have hmem : τ ∈ m.states.keys := List.mem_of_head? hhead
    rw [Dict.mem_keys_iff, hs] at hmem
    cases hmem
  obtain ⟨hnone, hoverflow⟩ := evicted_opened hopen hevicts
  have hopened : ∀ s, ((m.opened σ).setState σ s).Blocked τ := fun s => by
    refine .inr ⟨fun s' hs' => ?_, .inr ⟨.inl hoverflow, ?_⟩⟩
    · rw [get?_states_setState_of_ne hne, hnone] at hs'
      cases hs'
    · change (m.opened σ).restoredScopes.get? τ = none
      rw [(opened_tables m σ).2.1]
      exact hrestored
  have hmove := move_consumeRecord m record
  generalize (m.consumeRecord record).2 = m' at hmove ⊢
  cases hmove with
  | stay hstay =>
    rw [hstay] at hopen
    cases hopen
  | degradeAll _ _ => exact blocked_degradeAll m τ
  | degraded σ' hopen' | admitted σ' observation hopen' _ _ =>
    cases hopen.symm.trans hopen'
    exact hopened _
  | reset σ' hrecord hadvances =>
    subst hrecord
    rw [opens?, if_pos hadvances] at hopen
    cases hopen

end CpuRetirementMatcher

/-! ## Sessions -/

/-- The scope a record names. -/
def CpuRecord.scope? : CpuRecord → Option CpuScope
  | .ignored | .unidentified _ => none
  | .malformed σ _ | .observed σ _ => some σ

/-- **The event makes the scope uncertain**: it cannot be explained or leaves the scope degraded, it
evicts the scope, or it names no CPU after the scope has been seen. -/
def FedEvent.MakesUncertain (earlier : List FedEvent) (fe : FedEvent) (τ : CpuScope) : Prop :=
  fe.before.Occasion τ fe.record ∨ (∃ s, fe.after.states.get? τ = some s ∧ s.degraded = true) ∨
    fe.before.Evicts fe.record τ ∨
    (∃ reason, fe.record = .unidentified reason) ∧ ∃ past ∈ earlier, past.record.scope? = some τ

/-- One of the events made the scope uncertain. -/
def UncertainIn (fed : List FedEvent) (τ : CpuScope) : Prop :=
  ∃ earlier fe later, fed = earlier ++ fe :: later ∧ fe.MakesUncertain earlier τ

theorem uncertainIn_concat {fed : List FedEvent} {fe : FedEvent} {τ : CpuScope} :
    UncertainIn (fed ++ [fe]) τ ↔ UncertainIn fed τ ∨ fe.MakesUncertain fed τ := by
  constructor
  · rintro ⟨earlier, fe', later, hfed, huncertain⟩
    rcases Sequence.concat_eq_append_cons.1 hfed with ⟨-, rfl, rfl⟩ | ⟨rest, -, rfl⟩
    · exact .inr huncertain
    · exact .inl ⟨earlier, fe', rest, rfl, huncertain⟩
  · rintro (⟨earlier, fe', later, rfl, huncertain⟩ | huncertain)
    · exact ⟨earlier, fe', later ++ [fe], by simp, huncertain⟩
    · exact ⟨fed, fe, [], rfl, huncertain⟩

namespace Session

/-- The next event spares the uncertain scopes and evicts no restored one. -/
structure SparesUncertain (s : Session) (event : CpuEvent) : Prop where
  spares : ∀ τ, UncertainIn s.fed τ → s.matcher.Spares (classify event) τ
  evicts : ∀ τ, s.matcher.Evicts (classify event) τ → s.matcher.restoredScopes.get? τ = none

/-- An uncertain scope is not certified afterwards. -/
def UncertaintyLasts (s : Session) : Prop :=
  ∀ earlier fe later, s.fed = earlier ++ fe :: later → ∀ τ, UncertainIn earlier τ → ¬ fe.AcceptsRetire τ

/-- Uncertain scopes are blocked, and none has been certified. -/
structure UncertaintyInvariant (s : Session) : Prop where
  blocked : ∀ τ, UncertainIn s.fed τ → s.matcher.Blocked τ
  lasts : s.UncertaintyLasts

theorem uncertaintyInvariant_start (maxPending : ℕ) (positive : 0 < maxPending) :
    UncertaintyInvariant (start maxPending positive) where
  blocked := by
    rintro τ ⟨earlier, fe, later, hfed, -⟩
    exact absurd hfed.symm (by simp [start])
  lasts earlier fe later hfed := absurd hfed.symm (by simp [start])

/-- **One event leaves every uncertain scope blocked.** -/
theorem uncertaintyInvariant_feed (s : Session) (event : CpuEvent) (h : s.UncertaintyInvariant)
    (hspares : s.SparesUncertain event) : (s.feed event).UncertaintyInvariant where
  blocked τ hτ := by
    rcases uncertainIn_concat.1 hτ with hold | hoccasion | hdegraded | hevicted | ⟨⟨reason, hr⟩, -⟩
    · exact blocked_consumeRecord (h.blocked τ hold) (hspares.spares τ hold)
        (hspares.evicts τ)
    · exact blocked_of_occasion hoccasion
    · exact .inl hdegraded
    · exact blocked_of_evicts hevicted (hspares.evicts τ hevicted)
    · change (s.matcher.consumeRecord (classify event)).2.Blocked τ
      rw [show classify event = .unidentified reason from hr]
      exact blocked_degradeAll s.matcher τ
  lasts earlier fe later hfed τ hτ := by
    change s.fed ++ [⟨s.matcher, event⟩] = _ at hfed
    rcases Sequence.concat_eq_append_cons.1 hfed with ⟨-, rfl, rfl⟩ | ⟨rest, -, hrest⟩
    · exact FedEvent.not_acceptsRetire_of_blocked (h.blocked τ hτ)
    · exact h.lasts earlier fe rest hrest τ hτ

end Session

/-- **Certainty is not regained without a reset to a new epoch**, in every session whose events spare
the uncertain scopes and evict no restored one. -/
theorem uncertain_scope_stays_uncertain (maxPending : ℕ) (positive : 0 < maxPending) (events : List CpuEvent)
    (h : Run.Guarded Session.feed Session.SparesUncertain (.start maxPending positive) events) :
    (Session.run maxPending positive events).UncertaintyLasts :=
  (Run.run_invariant_of_guarded Session.uncertaintyInvariant_feed events
    (Session.uncertaintyInvariant_start maxPending positive) h).lasts

/-- A flush. -/
def Sample.flush (component : String) (epoch : ℤ) : CpuEvent :=
  .dict (("kind", .str "cpu_flush") :: Sample.identity component epoch)

/-- **An evicted scope is certified again**: the scope of a reset is flushed, evicted by a fetch of
another CPU and opened anew. -/
theorem evicted_scope_certified_again : ¬ (Session.run 1 (by decide)
    ([Sample.reset "A" 1, Sample.flush "A" 1, Sample.fetch "B" 3 0 [0, 0, 0, 0]] ++
      Sample.addi "A" 1)).UncertaintyLasts := by
  intro h
  refine h [_, _, _, _] _ [] rfl ⟨"x", "A", 1⟩ ⟨[_], _, [_, _], rfl, .inl ⟨rfl, ?_⟩⟩
    ⟨⟨.fields ⟨0, 0, 0x00100093, 0, 0, 0, 0, 0, 1, 1, 0, 0, 0, 0, 0⟩, ?_⟩, ?_⟩
  · decide
  · decide
  · decide

/-- A flushed CPU is certified in the epoch of its next reset. -/
theorem flushed_scope_stays_uncertain : (Session.run 2 (by decide)
    ([Sample.flush "A" 1, Sample.reset "A" 2] ++ Sample.addi "A" 2)).UncertaintyLasts := by
  refine uncertain_scope_stays_uncertain 2 (by decide) _ ⟨⟨?_, ?_⟩, ⟨?_, ?_⟩, ⟨?_, ?_⟩, ⟨?_, ?_⟩, trivial⟩
  · exact fun τ _ => CpuRetirementMatcher.spares_of_not_isReset rfl τ
  · rintro τ ⟨σ, -, -, hfull, -⟩
    cases hfull
  · intro τ hτ
    refine ⟨fun h => ?_, fun epoch h => ?_⟩
    · have hreset : CpuRecord.observed ⟨"x", "A", 2⟩ .reset = .observed τ .reset := h
      cases hreset
      -- the only earlier event is the flush of epoch 1
      rcases (@uncertainIn_concat [] _ _).mp hτ with ⟨earlier, fe, later, hnil, -⟩ | huncertain
      · exact absurd hnil.symm (by simp)
      rcases huncertain with hoccasion | ⟨s, hs, -⟩ | ⟨σ, -, -, hfull, -⟩ | ⟨-, past, hpast, -⟩
      · exact absurd hoccasion.1 (by decide)
      · have hnone : (none : Option CpuState) = some s := hs
        cases hnone
      · cases hfull
      · cases hpast
    · have hnone : (none : Option ((String × String) × ℕ)) = some (τ.cpu, epoch) := h
      cases hnone
  · rintro τ ⟨σ, -, -, hfull, -⟩
    exact absurd hfull (by decide)
  · exact fun τ _ => CpuRetirementMatcher.spares_of_not_isReset rfl τ
  · rintro τ ⟨σ, -, -, hfull, -⟩
    cases hfull
  · exact fun τ _ => CpuRetirementMatcher.spares_of_not_isReset rfl τ
  · rintro τ ⟨σ, -, -, hfull, -⟩
    exact absurd hfull (by decide)

end MyFuzz
