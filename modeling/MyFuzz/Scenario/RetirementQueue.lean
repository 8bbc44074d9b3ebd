import MyFuzz.Scenario.RetirementCertainty
import MyFuzz.Scenario.RetirementEffects

/-!
# Scenario/RetirementQueue — the beats of a scope are a queue

As long as a scope is not degraded, an acceptance puts a beat at the end of its queue and an accepted
retirement takes some from the front.  A record either reaches the state of its scope, and its reports
say what was put and taken, or it is silent.
-/

namespace MyFuzz

open CpuEvents CpuState Finding Outcome DataBeat List

/-- The beats a report certifies. -/
def Finding.certified (found : Finding) : List DataBeat :=
  if found.status = .accepted then found.dataBeats else []

variable {found : Finding} {observation : CpuObservation} {beat : DataBeat}

theorem Finding.certified_of_ne (h : found.status ≠ .accepted) : found.certified = [] := if_neg h

theorem Finding.certified_of_nil (h : found.dataBeats = []) : found.certified = [] := by
  unfold certified
  rw [h, ite_self]

namespace CpuState

variable {s : CpuState} {maxPending : ℕ}

/-! ## A retirement takes from the front -/

/-- What a retirement leaves of the queue. -/
structure Takes (s : CpuState) (result : Finding × CpuState) : Prop where
  queue : s.beats = result.1.certified ++ result.2.beats
  last : result.2.lastAcceptSequence = s.lastAcceptSequence

theorem takes_of_nil {s' : CpuState} (hfound : found.dataBeats = []) (hbeats : s'.beats = s.beats)
    (hlast : s'.lastAcceptSequence = s.lastAcceptSequence) : s.Takes (found, s') := by
  refine ⟨?_, hlast⟩
  rw [certified_of_nil hfound, nil_append, hbeats]

theorem takes_retireMemory (witnesses : List (WitnessSignature × Fetch)) (write : Bool) (width : ℕ)
    (r : Retirement) : s.Takes (s.retireMemory witnesses write width r) := by
  unfold retireMemory
  split
  · exact takes_of_nil rfl rfl rfl
  dsimp only
  split
  · exact takes_of_nil rfl rfl rfl
  split
  · exact takes_of_nil rfl rfl rfl
  · exact ⟨(take_append_drop _ _).symm, rfl⟩

theorem takes_retireOperation (witnesses : List (WitnessSignature × Fetch))
    (operation : RetiredOperation) (r : Retirement) :
    s.Takes (s.retireOperation witnesses operation r) := by
  cases hkind : accessOf operation with
  | none =>
    rw [retireOperation_register hkind]
    split <;> exact takes_of_nil rfl rfl rfl
  | some access =>
    rw [retireOperation_access hkind]
    exact takes_retireMemory witnesses _ _ r

theorem takes_retireInstruction (r : Retirement) : s.Takes (s.retireInstruction r) := by
  unfold retireInstruction
  split
  · refine takes_of_nil rfl ?_ ?_
    · split <;> rfl
    · split <;> rfl
  dsimp only
  split
  · exact takes_of_nil rfl rfl rfl
  split
  · exact takes_of_nil rfl rfl rfl
  · exact takes_retireOperation _ _ r

theorem takes_retireWitness (record : RetireRecord) : s.Takes (s.retireWitness record) := by
  cases record with
  | invalidValid | missingFields | outOfRange => exact takes_of_nil rfl rfl rfl
  | fields r =>
    rw [retireWitness_fields]
    split
    · exact takes_of_nil rfl rfl rfl
    split
    · exact takes_of_nil rfl rfl rfl
    · obtain ⟨hqueue, hlast⟩ := takes_retireInstruction (s := s.noteOrder r.order) r
      exact ⟨hqueue, hlast⟩

/-- **A retirement takes what it certifies from the front of the queue.** -/
theorem takes_retire (record : RetireRecord) : s.Takes (s.retire record) := by
  obtain ⟨hqueue, hlast⟩ := takes_retireWitness (s := s) record
  unfold retire
  dsimp only
  split
  · refine ⟨hqueue.trans ?_, Eq.trans ?_ hlast⟩
    · split <;> rfl
    · split <;> rfl
  · exact ⟨hqueue, hlast⟩

/-! ## An acceptance puts at the end -/

/-- The beats an observation puts in the queue. -/
def puts (s : CpuState) : CpuObservation → List DataBeat
  | .dataAccept beat =>
      if (beat.transaction.sourceSequence : ℤ) ≤ s.lastAcceptSequence then [] else [beat]
  | _ => []

/-- The beats an observation certifies. -/
def certifies (s : CpuState) : CpuObservation → List DataBeat
  | .retire record => (s.retire record).1.certified
  | _ => []

/-- What an observation does to the keys of the queue. -/
structure Queues (maxPending : ℕ) (s : CpuState) (observation : CpuObservation) : Prop where
  queue : (s.beats ++ s.puts observation).map DataBeat.transaction =
    (s.certifies observation ++ (s.observe maxPending observation).2.beats).map DataBeat.transaction
  above : ∀ beat ∈ s.puts observation, s.lastAcceptSequence < beat.transaction.sourceSequence ∧
    (beat.transaction.sourceSequence : ℤ) ≤ (s.observe maxPending observation).2.lastAcceptSequence
  last : s.lastAcceptSequence ≤ (s.observe maxPending observation).2.lastAcceptSequence

/-- An observation that leaves the queue alone. -/
theorem queues_of_frame (hputs : s.puts observation = []) (hcertifies : s.certifies observation = [])
    (hbeats : (s.observe maxPending observation).2.beats.map transaction =
      s.beats.map transaction)
    (hlast : (s.observe maxPending observation).2.lastAcceptSequence = s.lastAcceptSequence) :
    s.Queues maxPending observation where
  queue := by
    rw [hputs, hcertifies, append_nil, nil_append, hbeats]
  above beat hbeat := by
    rw [hputs] at hbeat
    cases hbeat
  last := hlast.ge

/-- An instruction response is none of the business of the beats. -/
theorem frame_instrResponse (fetch : Fetch) :
    (s.instrResponse maxPending fetch).2.beats = s.beats ∧
      (s.instrResponse maxPending fetch).2.lastAcceptSequence = s.lastAcceptSequence := by
  have hsequence : ∀ sequence, (s.noteInstrSequence sequence).2.beats = s.beats ∧
      (s.noteInstrSequence sequence).2.lastAcceptSequence = s.lastAcceptSequence := by
    intro sequence
    unfold noteInstrSequence
    split <;> exact ⟨rfl, rfl⟩
  have hadd : ∀ s' : CpuState, (s'.addFetch maxPending fetch).2.beats = s'.beats ∧
      (s'.addFetch maxPending fetch).2.lastAcceptSequence = s'.lastAcceptSequence := by
    intro s'
    unfold addFetch
    split
    · exact ⟨rfl, rfl⟩
    split
    · exact ⟨rfl, rfl⟩
    split <;> exact ⟨rfl, rfl⟩
  unfold instrResponse
  split
  · unfold repeatFetch
    dsimp only
    split
    · exact ⟨rfl, rfl⟩
    · exact ⟨rfl, rfl⟩
  dsimp only
  split
  · exact hsequence _
  · obtain ⟨hbeats, hlast⟩ := hadd
      (noteRecent maxPending (s.noteInstrSequence fetch.transaction.sourceSequence).2 fetch)
    exact ⟨hbeats.trans (hsequence _).1, hlast.trans (hsequence _).2⟩

theorem map_transaction_answerFirst (response : DataResponse) : ∀ beats : List DataBeat,
    (answerFirst response beats).map transaction = beats.map transaction
  | [] => rfl
  | beat :: beats => by
      unfold answerFirst
      split
      · rfl
      · rw [map_cons, map_cons, map_transaction_answerFirst response beats]

/-- A data response leaves the keys of the queue. -/
theorem frame_dataResponse (response : DataResponse) :
    (s.dataResponse response).2.beats.map transaction = s.beats.map transaction ∧
      (s.dataResponse response).2.lastAcceptSequence = s.lastAcceptSequence := by
  have hrefuse : (s.refuseResponse response).2.beats = s.beats ∧
      (s.refuseResponse response).2.lastAcceptSequence = s.lastAcceptSequence := by
    unfold refuseResponse
    dsimp only
    split <;> exact ⟨rfl, rfl⟩
  unfold dataResponse
  split
  · exact ⟨congrArg _ hrefuse.1, hrefuse.2⟩
  split
  · exact ⟨congrArg _ hrefuse.1, hrefuse.2⟩
  split
  · exact ⟨map_transaction_answerFirst response s.beats, rfl⟩
  · exact ⟨rfl, rfl⟩

/-- A new beat goes to the end of the queue, unless the queue overflows. -/
theorem queues_dataAccept (h : (s.dataAccept maxPending beat).2.degraded = false) :
    s.Queues maxPending (.dataAccept beat) := by
  by_cases hold : (beat.transaction.sourceSequence : ℤ) ≤ s.lastAcceptSequence
  · have hrepeat : (s.dataAccept maxPending beat).2 = (s.repeatAccept beat).2 := by
      unfold dataAccept
      rw [if_pos hold]
    have hframe : (s.repeatAccept beat).2.beats = s.beats ∧
        (s.repeatAccept beat).2.lastAcceptSequence = s.lastAcceptSequence := by
      unfold repeatAccept
      dsimp only
      split
      · exact ⟨rfl, rfl⟩
      · split
        · exact ⟨rfl, rfl⟩
        · exact ⟨rfl, rfl⟩
    refine queues_of_frame (if_pos hold) rfl ?_ ?_
    · change (s.dataAccept maxPending beat).2.beats.map _ = _
      rw [hrepeat, hframe.1]
    · change (s.dataAccept maxPending beat).2.lastAcceptSequence = _
      rw [hrepeat, hframe.2]
  · have hnew : (s.dataAccept maxPending beat).2 =
        ((s.noteAcceptSequence beat.transaction.sourceSequence).2.addBeat maxPending beat).2 := by
      unfold dataAccept
      rw [if_neg hold]
    have hnote : (s.noteAcceptSequence beat.transaction.sourceSequence).2.beats = s.beats ∧
        (s.noteAcceptSequence beat.transaction.sourceSequence).2.lastAcceptSequence =
          beat.transaction.sourceSequence := by
      unfold noteAcceptSequence
      split
      · exact ⟨rfl, rfl⟩
      · exact ⟨rfl, rfl⟩
    have hadd : (s.dataAccept maxPending beat).2.beats = s.beats ++ [beat] ∧
        (s.dataAccept maxPending beat).2.lastAcceptSequence = beat.transaction.sourceSequence := by
      rw [hnew] at h ⊢
      unfold addBeat at h ⊢
      split at h
      · cases h
      · rename_i hroom
        rw [if_neg hroom]
        exact ⟨congrArg (· ++ [beat]) hnote.1, hnote.2⟩
    have hputs : s.puts (.dataAccept beat) = [beat] := if_neg hold
    refine ⟨?_, fun b hb => ?_, ?_⟩
    · rw [hputs]
      change _ = List.map _ ([] ++ (s.dataAccept maxPending beat).2.beats)
      rw [hadd.1, nil_append]
    · rw [hputs] at hb
      obtain rfl := mem_singleton.1 hb
      exact ⟨not_le.1 hold, hadd.2.ge⟩
    · exact (not_le.1 hold).le.trans hadd.2.ge

/-- **The queue of a scope that is not degraded.** -/
theorem queues_observe (h : (s.observe maxPending observation).2.degraded = false) :
    s.Queues maxPending observation := by
  cases observation with
  | reset | flush => exact queues_of_frame rfl rfl rfl rfl
  | instrResponse fetch =>
    obtain ⟨hbeats, hlast⟩ := @frame_instrResponse s maxPending fetch
    exact queues_of_frame rfl rfl (congrArg _ hbeats) hlast
  | dataAccept beat => exact queues_dataAccept h
  | dataResponse response =>
    obtain ⟨hbeats, hlast⟩ := frame_dataResponse (s := s) response
    exact queues_of_frame rfl rfl hbeats hlast
  | retire record =>
    obtain ⟨hqueue, hlast⟩ := takes_retire (s := s) record
    refine ⟨?_, nofun, hlast.ge⟩
    change List.map _ (s.beats ++ []) = List.map _ ((s.retire record).1.certified ++ _)
    rw [append_nil, hqueue]
    rfl

end CpuState

/-! ## What an event says -/

namespace CpuEvents

variable {event : CpuEvent} {σ : CpuScope}

theorem observationOf_of_classify (h : classify event = .observed σ observation) :
    ∃ kind fields, observationOf kind σ fields = .ok observation := by
  unfold classify at h
  split at h
  swap
  · cases h
  rename_i fields
  split at h
  · cases h
  rename_i kind hkind
  split at h
  · cases h
  split at h
  · cases h
  split at h
  · cases h
  · rename_i hok
    cases h
    exact ⟨kind, fields, hok⟩

variable {transaction : CpuTransaction}

theorem scope_requireTransaction {channel : String} {identity : EventFields}
    (h : requireTransaction channel σ identity = .ok transaction) : transaction.scope = σ := by
  unfold requireTransaction at h
  split at h
  · cases h
  · rename_i htransaction
    cases h
    unfold transactionOf at htransaction
    -- the checks, the texts and the sequence before the transaction
    iterate 6 obtain ⟨_, -, htransaction⟩ := Option.bind_eq_some_iff.1 htransaction
    cases htransaction
    rfl

theorem transaction_acceptanceOf {fields : EventFields}
    (h : acceptanceOf transaction fields = some beat) : beat.transaction = transaction := by
  iterate 4 obtain ⟨_, -, h⟩ := Option.bind_eq_some_iff.1 h
  cases h
  rfl

/-- **A measured beat belongs to the scope of its event.** -/
theorem scope_of_classify (h : classify event = .observed σ (.dataAccept beat)) :
    beat.transaction.scope = σ := by
  obtain ⟨kind, fields, hobservation⟩ := observationOf_of_classify h
  cases kind with
  | instrResponse =>
    obtain ⟨transaction, -, fetch, -, hobservation⟩ := bind_ok₂ hobservation
    cases hobservation
  | dataAccept =>
    obtain ⟨transaction, htransaction, hobservation⟩ := bind_ok.1 hobservation
    split at hobservation
    · cases hobservation
    · rename_i beat' hbeat
      cases Except.ok.inj hobservation
      rw [transaction_acceptanceOf hbeat, scope_requireTransaction htransaction]
  | dataResponse =>
    obtain ⟨transaction, -, response, -, hobservation⟩ := bind_ok₂ hobservation
    cases hobservation
  | cpuRetire | cpuReset | cpuFlush => cases hobservation

theorem uint?_lt {bits n : ℕ} {v : Option (Value EventScalar)} (h : uint? bits v = some n) :
    n < 2 ^ bits := by
  unfold uint? at h
  split at h
  · rename_i m
    split_ifs at h with hm
    rw [← Option.some.inj h]
    exact (Int.toNat_lt hm.1).2 (by exact_mod_cast hm.2)
  · cases h

/-- **The word of a measured retirement has 32 bits.** -/
theorem insn_lt_of_classify {r : Retirement} (h : classify event = .observed σ (.retire (.fields r))) :
    r.insn < 2 ^ 32 := by
  obtain ⟨kind, fields, hobservation⟩ := observationOf_of_classify h
  have hrecord : retireRecordOf fields = .fields r := by
    cases kind with
    | instrResponse =>
      obtain ⟨transaction, -, fetch, -, hobservation⟩ := bind_ok₂ hobservation
      cases hobservation
    | dataAccept =>
      obtain ⟨transaction, -, hobservation⟩ := bind_ok.1 hobservation
      split at hobservation <;> cases hobservation
    | dataResponse =>
      obtain ⟨transaction, -, response, -, hobservation⟩ := bind_ok₂ hobservation
      cases hobservation
    | cpuRetire =>
      obtain hretire := Except.ok.inj hobservation
      injection hretire
    | cpuReset | cpuFlush => cases hobservation
  unfold retireRecordOf at hrecord
  split_ifs at hrecord
  split at hrecord
  · cases hrecord
  · rename_i r' hfields
    cases hrecord
    unfold retirementOf at hfields
    -- the fields before the word, and the word
    obtain ⟨order, -, hfields⟩ := Option.bind_eq_some_iff.1 hfields
    obtain ⟨pcRdata, -, hfields⟩ := Option.bind_eq_some_iff.1 hfields
    obtain ⟨insn, hinsn, hfields⟩ := Option.bind_eq_some_iff.1 hfields
    -- the fields behind the word
    iterate 12 obtain ⟨_, -, hfields⟩ := Option.bind_eq_some_iff.1 hfields
    cases hfields
    exact uint?_lt hinsn

end CpuEvents

/-! ## Reports -/

namespace CpuState

variable {s : CpuState} {maxPending : ℕ} {found : Finding}

theorem ne_accepted_of_singleton {status : ReportStatus} {reason : String}
    (h : found ∈ [finding status reason]) (hstatus : status ≠ .accepted) :
    found.status ≠ .accepted := by
  rw [mem_singleton.1 h]
  exact hstatus

theorem noteInstrSequence_ne_accepted {sequence : ℕ}
    (h : found ∈ (s.noteInstrSequence sequence).1) : found.status ≠ .accepted := by
  unfold noteInstrSequence at h
  split at h
  · exact ne_accepted_of_singleton h (by simp)
  · cases h

variable {fetch : Fetch}

theorem addFetch_ne_accepted (h : found ∈ (s.addFetch maxPending fetch).1) : found.status ≠ .accepted := by
  unfold addFetch at h
  split at h
  · cases h
  split at h
  · cases h
  split at h
  · exact ne_accepted_of_singleton h (by simp)
  · cases h

theorem instrResponse_ne_accepted (h : found ∈ (s.instrResponse maxPending fetch).1) :
    found.status ≠ .accepted := by
  unfold instrResponse at h
  split at h
  · exact ne_accepted_of_singleton h (by simp)
  dsimp only at h
  split at h
  · rcases mem_append.1 h with hgap | hmissing
    · exact noteInstrSequence_ne_accepted hgap
    · exact ne_accepted_of_singleton hmissing (by simp)
  · rcases mem_append.1 h with hgap | hdropped
    · exact noteInstrSequence_ne_accepted hgap
    · exact addFetch_ne_accepted hdropped

/-- An acceptance is rejected exactly when it repeats an old sequence number, and never certified. -/
theorem status_dataAccept (h : found ∈ (s.dataAccept maxPending beat).1) :
    found.status ≠ .accepted ∧ (found.status = .rejected ↔
      (beat.transaction.sourceSequence : ℤ) ≤ s.lastAcceptSequence) := by
  unfold dataAccept at h
  split at h
  · rename_i hold
    rw [mem_singleton.1 h]
    exact ⟨by simp [repeatAccept, finding], by simp [repeatAccept, finding, hold]⟩
  rename_i hnew
  have hincomplete : found.status = .incomplete := by
    rcases mem_append.1 h with hgap | hdropped
    · unfold noteAcceptSequence at hgap
      split at hgap
      · rw [mem_singleton.1 hgap]
        rfl
      · cases hgap
    · unfold addBeat at hdropped
      split at hdropped
      · rw [mem_singleton.1 hdropped]
        rfl
      · cases hdropped
  rw [hincomplete]
  exact ⟨by simp, by simp [hnew]⟩

theorem dataResponse_ne_accepted {response : DataResponse}
    (h : found ∈ (s.dataResponse response).1) : found.status ≠ .accepted := by
  unfold dataResponse at h
  split at h
  · exact ne_accepted_of_singleton h (by simp)
  split at h
  · exact ne_accepted_of_singleton h (by simp)
  split at h
  · cases h
  · exact ne_accepted_of_singleton h (by simp)

theorem flatMap_certified_eq_nil {findings : List Finding}
    (h : ∀ found ∈ findings, found.status ≠ .accepted) : findings.flatMap certified = [] :=
  flatMap_eq_nil_iff.2 fun found hfound => certified_of_ne (h found hfound)

/-- The reports of an observation certify what it takes. -/
theorem flatMap_certified_observe (observation : CpuObservation) :
    (s.observe maxPending observation).1.flatMap certified = s.certifies observation := by
  cases observation with
  | reset | flush => rfl
  | instrResponse fetch => exact flatMap_certified_eq_nil fun _ => instrResponse_ne_accepted
  | dataAccept beat => exact flatMap_certified_eq_nil fun _ h => (status_dataAccept h).1
  | dataResponse response => exact flatMap_certified_eq_nil fun _ => dataResponse_ne_accepted
  | retire record =>
    change (s.retire record).1.certified ++ [] = (s.retire record).1.certified
    rw [append_nil]

/-- An old sequence number is reported as a rejection. -/
theorem any_rejected_dataAccept (beat : DataBeat) :
    (s.dataAccept maxPending beat).1.any (fun found => found.status = .rejected) =
      decide ((beat.transaction.sourceSequence : ℤ) ≤ s.lastAcceptSequence) := by
  by_cases hold : (beat.transaction.sourceSequence : ℤ) ≤ s.lastAcceptSequence
  · rw [decide_eq_true hold]
    unfold dataAccept
    rw [if_pos hold]
    rfl
  · rw [decide_eq_false hold, any_eq_false]
    intro found hfound
    rw [decide_eq_true_iff, (status_dataAccept hfound).2]
    exact hold

/-- A scope that certifies is not degraded. -/
theorem not_degraded_of_certifies (h : s.certifies observation ≠ []) : s.degraded = false := by
  cases observation with
  | retire record =>
    have haccepted : (s.retire record).1.status = .accepted := by
      by_contra hstatus
      exact h (certified_of_ne hstatus)
    exact not_degraded_of_retire_accepted haccepted
  | reset | flush | instrResponse | dataAccept | dataResponse => exact absurd rfl h

/-- What a certifying observation takes was in the queue. -/
theorem beats_of_certifies (h : s.certifies observation ≠ []) :
    s.puts observation = [] ∧ ∃ rest, s.beats = s.certifies observation ++ rest := by
  cases observation with
  | retire record => exact ⟨rfl, _, (takes_retire record).queue⟩
  | reset | flush | instrResponse | dataAccept | dataResponse => exact absurd rfl h

end CpuState

namespace CpuRetirementMatcher

variable {m : CpuRetirementMatcher} {record : CpuRecord} {σ τ : CpuScope}

/-- The beats a record is certified with. -/
def certifiedBy (m : CpuRetirementMatcher) (record : CpuRecord) : List DataBeat :=
  (m.consumeRecord record).1.flatMap Finding.certified

/-- The beat of an acceptance that is not rejected. -/
def acceptedBy (m : CpuRetirementMatcher) (record : CpuRecord) : List DataBeat :=
  match record with
  | .observed _ (.dataAccept beat) =>
      if (m.consumeRecord record).1.any (fun found => found.status = .rejected) then [] else [beat]
  | _ => []

theorem evicted_incomplete (h : found ∈ (m.openScope σ).1) : found.status = .incomplete := by
  unfold openScope at h
  split at h
  · cases h
  · split at h
    · rw [mem_singleton.1 h]
      rfl
    · cases h

theorem ne_accepted_of_reset (h : found ∈ (m.reset σ).1) : found.status ≠ .accepted := by
  by_cases hadvances : m.Advances σ
  · rw [reset_of_advances hadvances] at h
    obtain ⟨beat, -, rfl⟩ := mem_map.1 h
    simp [finding]
  · rw [reset_of_not_advances hadvances] at h
    exact ne_accepted_of_singleton h (by simp)

/-- A record that reaches the state of its scope. -/
structure Reaches (m : CpuRetirementMatcher) (record : CpuRecord) (σ : CpuScope)
    (observation : CpuObservation) : Prop where
  record_eq : record = .observed σ observation
  notReset : observation ≠ .reset
  opens : m.opens? record = some σ
  after : (m.consumeRecord record).2 = (m.opened σ).setState σ
    ((m.current σ).observe (m.opened σ).maxPending observation).2
  certified : m.certifiedBy record = (m.current σ).certifies observation
  accepted : m.acceptedBy record = (m.current σ).puts observation

/-- A record that certifies and accepts nothing: the states it leaves certain were there before. -/
structure Silent (m : CpuRetirementMatcher) (record : CpuRecord) : Prop where
  certified : m.certifiedBy record = []
  accepted : m.acceptedBy record = []
  kept : ∀ τ s, (m.consumeRecord record).2.states.get? τ = some s → s.degraded = false →
    m.states.get? τ = some s

/-- The states a degraded scope leaves certain were there before. -/
theorem kept_degrade {s : CpuState} (hs : (m.degrade σ).states.get? τ = some s)
    (hd : s.degraded = false) : m.states.get? τ = some s := by
  rw [degrade_eq] at hs
  by_cases hσ : τ = σ
  · subst hσ
    rw [get?_states_setState_self] at hs
    cases hs
    cases hd
  · rw [get?_states_setState_of_ne hσ] at hs
    exact get?_of_get?_opened hs

theorem reaches_observeScope (hreset : observation ≠ .reset) (hflush : observation ≠ .flush)
    (hbarrier : ¬ m.Precedes σ) : m.Reaches (.observed σ observation) σ observation := by
  have hconsume : m.consumeRecord (.observed σ observation) = m.observeScope σ observation := by
    rw [consumeRecord_observed hreset, if_neg hbarrier, if_neg hflush]
  have hfindings : (m.observeScope σ observation).1 = (m.openScope σ).1 ++
      ((m.current σ).observe (m.opened σ).maxPending observation).1 := rfl
  have hevicted : (m.openScope σ).1.flatMap certified = [] :=
    flatMap_certified_eq_nil fun found hfound => by
      rw [evicted_incomplete hfound]
      simp
  refine ⟨rfl, hreset, (opens?_observed hreset).trans (if_neg hbarrier), ?_, ?_, ?_⟩
  · rw [hconsume, observeScope_eq]
  · unfold certifiedBy
    rw [hconsume, hfindings, flatMap_append, hevicted, nil_append,
      flatMap_certified_observe]
  · cases observation with
    | dataAccept beat =>
      have hnone : (m.openScope σ).1.any (fun found => found.status = .rejected) = false := by
        rw [any_eq_false]
        intro found hfound
        rw [evicted_incomplete hfound]
        simp
      unfold acceptedBy
      dsimp only
      rw [hconsume, hfindings, any_append, hnone, Bool.false_or]
      change (if ((m.current σ).dataAccept _ beat).1.any _ = true then _ else _) = _
      rw [any_rejected_dataAccept]
      simp only [decide_eq_true_eq]
      rfl
    | reset | flush | instrResponse | dataResponse | retire => rfl

/-- **A record reaches the state of its scope or is silent.** -/
theorem reaches_or_silent (m : CpuRetirementMatcher) (record : CpuRecord) :
    (∃ σ observation, m.Reaches record σ observation) ∨ m.Silent record := by
  cases record with
  | ignored => exact .inr ⟨rfl, rfl, fun _ _ hs _ => hs⟩
  | unidentified reason =>
    refine .inr ⟨rfl, rfl, fun τ s hs hd => ?_⟩
    obtain ⟨s', -, rfl⟩ := Option.map_eq_some_iff.1 ((Dict.get?_mapVal _ _ _).symm.trans hs)
    cases hd
  | malformed σ reason => exact .inr ⟨rfl, rfl, fun _ _ => kept_degrade⟩
  | observed σ observation =>
    by_cases hreset : observation = .reset
    · subst hreset
      refine .inr ⟨flatMap_certified_eq_nil fun _ => ne_accepted_of_reset, rfl, ?_⟩
      intro τ s hs hd
      change (m.reset σ).2.states.get? τ = some s at hs
      by_cases hadvances : m.Advances σ
      · rw [reset_of_advances hadvances, get?_states_afterReset] at hs
        split at hs
        · cases hs
        · exact hs
      · rw [reset_of_not_advances hadvances] at hs
        exact kept_degrade hs hd
    by_cases hbarrier : m.Precedes σ
    · have hconsume : m.consumeRecord (.observed σ observation) =
          ([finding .rejected "event_precedes_reset_epoch"], m) := by
        rw [consumeRecord_observed hreset, if_pos hbarrier]
      refine .inr ⟨?_, ?_, fun τ s hs _ => ?_⟩
      · unfold certifiedBy
        rw [hconsume]
        rfl
      · cases observation with
        | dataAccept beat =>
          unfold acceptedBy
          dsimp only
          rw [hconsume]
          rfl
        | reset | flush | instrResponse | dataResponse | retire => rfl
      · rwa [hconsume] at hs
    by_cases hflush : observation = .flush
    · subst hflush
      have hconsume : m.consumeRecord (.observed σ .flush) =
          ([finding .incomplete "cpu_flush_pairing_barrier"], m.degrade σ) := by
        rw [consumeRecord_observed hreset, if_neg hbarrier, if_pos rfl]
      refine .inr ⟨?_, rfl, fun τ s hs hd => ?_⟩
      · unfold certifiedBy
        rw [hconsume]
        rfl
      · rw [hconsume] at hs
        exact kept_degrade hs hd
    · exact .inl ⟨σ, observation, reaches_observeScope hreset hflush hbarrier⟩

/-- **An accepted report is that of a retirement.** -/
theorem retire_of_accepted (hfound : found ∈ (m.consumeRecord record).1)
    (haccepted : found.status = .accepted) : ∃ σ retired, record = .observed σ (.retire retired) ∧
      found = ((m.current σ).retire retired).1 := by
  cases record with
  | ignored => cases hfound
  | unidentified reason | malformed σ reason =>
    exact absurd haccepted (ne_accepted_of_singleton hfound (by simp))
  | observed σ observation =>
    by_cases hreset : observation = .reset
    · subst hreset
      exact absurd haccepted (ne_accepted_of_reset hfound)
    rw [consumeRecord_observed hreset] at hfound
    split at hfound
    · exact absurd haccepted (ne_accepted_of_singleton hfound (by simp))
    split at hfound
    · exact absurd haccepted (ne_accepted_of_singleton hfound (by simp))
    rcases mem_append.1 hfound with hevicted | hobserved
    · rw [evicted_incomplete hevicted] at haccepted
      cases haccepted
    · change found ∈ ((m.current σ).observe (m.opened σ).maxPending observation).1 at hobserved
      cases observation with
      | reset => exact absurd rfl hreset
      | flush => cases hobserved
      | instrResponse fetch =>
        exact absurd haccepted (instrResponse_ne_accepted hobserved)
      | dataAccept beat => exact absurd haccepted (status_dataAccept hobserved).1
      | dataResponse response =>
        exact absurd haccepted (dataResponse_ne_accepted hobserved)
      | retire retired => exact ⟨σ, retired, rfl, mem_singleton.1 hobserved⟩

/-- A state that is gone was never there, was evicted or was cancelled by a reset to a larger epoch. -/
theorem gone_cases (h : (m.consumeRecord record).2.states.get? τ = none) :
    m.states.get? τ = none ∨ m.Evicts record τ ∨ ∃ σ, record = .observed σ .reset ∧
      m.Advances σ ∧ τ.cpu = σ.cpu ∧ τ.sourceEpoch < σ.sourceEpoch := by
  have hmove := move_consumeRecord m record
  generalize (m.consumeRecord record).2 = m' at hmove h
  have hopened : ∀ {σ : CpuScope} {s : CpuState}, m.opens? record = some σ →
      ((m.opened σ).setState σ s).states.get? τ = none → m.states.get? τ = none ∨ m.Evicts record τ := by
    intro σ s hopen hnone
    by_cases hσ : τ = σ
    · subst hσ
      rw [get?_states_setState_self] at hnone
      cases hnone
    by_cases hevict : m.Evicts record τ
    · exact .inr hevict
    · rw [get?_states_setState_of_ne hσ, get?_states_opened hopen hevict] at hnone
      exact .inl hnone
  cases hmove with
  | stay _ => exact .inl h
  | degradeAll _ _ =>
    refine .inl ?_
    change (m.states.mapVal _).get? τ = none at h
    rw [Dict.get?_mapVal, Option.map_eq_none_iff] at h
    exact h
  | degraded σ hopen | admitted σ observation hopen _ _ => exact (hopened hopen h).imp_right .inl
  | reset σ hrecord hadvances =>
    cases hs : m.states.get? τ with
    | none => exact .inl rfl
    | some s =>
      rw [get?_states_afterReset] at h
      split_ifs at h with hcpu
      · have hmem : τ.sourceEpoch ∈ m.observedEpochs σ.cpu := by
          refine mem_append_left _ (mem_map.2 ⟨τ, mem_filter.2 ⟨?_, ?_⟩, rfl⟩)
          · exact Dict.mem_keys_iff.2 (by rw [hs]; rfl)
          · exact decide_eq_true hcpu
        exact .inr (.inr ⟨σ, hrecord, hadvances, hcpu, hadvances _ hmem⟩)
      · rw [hs] at h
        cases h

end CpuRetirementMatcher

end MyFuzz
