import MyFuzz.Scenario.RetirementBounds

/-!
# Scenario/RetirementOnce — each beat is certified at most once, and in order

    accepted:   b₁ b₂ b₃ b₄ b₅ b₆
    certified:  b₁ b₂ b₃
    queue:               b₄ b₅ b₆

The certified beats of a scope are a prefix of its accepted ones as long as the scope is certain, and
from then on nothing is certified.  The sequence numbers rise along the queue, which makes the
certified keys distinct.
-/

namespace MyFuzz

open CpuEvents CpuRetirementMatcher CpuState DataBeat List

variable {fe : FedEvent} {σ τ : CpuScope} {m : CpuRetirementMatcher} {record : CpuRecord}

/-! ## Certified and accepted keys of a session -/

namespace FedEvent

/-- The keys an event is certified with. -/
def certifiedKeys (fe : FedEvent) : List CpuTransaction :=
  (fe.reports.flatMap fun report => report.finding.certified).map DataBeat.transaction

/-- The key of a beat that is accepted. -/
def acceptedKeys (fe : FedEvent) : List CpuTransaction :=
  match fe.record with
  | .observed _ (.dataAccept beat) =>
      if fe.reports.any fun report => report.finding.status = .rejected then []
      else [beat.transaction]
  | _ => []

theorem certifiedKeys_eq (fe : FedEvent) :
    fe.certifiedKeys = (fe.before.certifiedBy fe.record).map transaction := by
  unfold certifiedKeys certifiedBy
  change List.map _ (List.flatMap _ (List.map _ (fe.before.consumeRecord fe.record).1)) = _
  rw [flatMap_map]

theorem acceptedKeys_eq (fe : FedEvent) :
    fe.acceptedKeys = (fe.before.acceptedBy fe.record).map transaction := by
  have hany : (fe.reports.any fun report => report.finding.status = .rejected) =
      (fe.before.consumeRecord fe.record).1.any fun found => found.status = .rejected := by
    change List.any (List.map _ (fe.before.consumeRecord fe.record).1) _ = _
    rw [any_map]
    rfl
  unfold acceptedKeys acceptedBy
  rw [hany]
  generalize (fe.before.consumeRecord fe.record).1.any _ = rejected
  cases fe.record with
  | observed σ observation =>
    cases observation with
    | dataAccept beat => cases rejected <;> rfl
    | reset | flush | instrResponse | dataResponse | retire => rfl
  | ignored | unidentified | malformed => rfl

theorem acceptsReset_of_advances (hrecord : fe.record = .observed σ .reset)
    (h : fe.before.Advances σ) : fe.AcceptsReset σ := by
  refine ⟨hrecord, fun report hreport => ?_⟩
  obtain ⟨found, hfound, rfl⟩ := mem_map.1 hreport
  change found ∈ (fe.before.consumeRecord fe.record).1 at hfound
  rw [hrecord] at hfound
  change found ∈ (fe.before.reset σ).1 at hfound
  rw [reset_of_advances h] at hfound
  obtain ⟨beat, -, rfl⟩ := mem_map.1 hfound
  simp [finding]

end FedEvent

namespace Session

/-- The keys certified so far. -/
def certifiedKeys (s : Session) : List CpuTransaction := s.fed.flatMap FedEvent.certifiedKeys

/-- The keys accepted so far. -/
def acceptedKeys (s : Session) : List CpuTransaction := s.fed.flatMap FedEvent.acceptedKeys

/-- The keys of one scope. -/
def inScope (σ : CpuScope) (keys : List CpuTransaction) : List CpuTransaction :=
  keys.filter fun key => key.scope = σ

theorem inScope_append (σ : CpuScope) (keys more : List CpuTransaction) :
    inScope σ (keys ++ more) = inScope σ keys ++ inScope σ more := filter_append ..

variable {keys : List CpuTransaction} {s : Session} {event : CpuEvent}

theorem inScope_of_forall (h : ∀ key ∈ keys, key.scope = σ) : inScope σ keys = keys :=
  filter_eq_self.2 fun key hkey => decide_eq_true (h key hkey)

theorem inScope_of_ne (h : ∀ key ∈ keys, key.scope = σ) (hne : τ ≠ σ) : inScope τ keys = [] :=
  filter_eq_nil_iff.2 fun key hkey => by
    rw [decide_eq_true_iff, h key hkey]
    exact hne.symm

theorem scope_of_mem_inScope {key : CpuTransaction} (h : key ∈ inScope σ keys) :
    key.scope = σ := of_decide_eq_true (mem_filter.1 h).2

/-- The sequence numbers rise. -/
def Rising (keys : List CpuTransaction) : Prop :=
  keys.Pairwise fun key later => key.sourceSequence < later.sourceSequence

/-- A state that is certain holds the accepted keys that have not been certified, in order. -/
structure Queued (s : Session) (σ : CpuScope) (state : CpuState) : Prop where
  queue : inScope σ s.acceptedKeys = inScope σ s.certifiedKeys ++ state.beats.map DataBeat.transaction
  rising : Rising (inScope σ s.acceptedKeys)
  above : ∀ key ∈ inScope σ s.acceptedKeys, (key.sourceSequence : ℤ) ≤ state.lastAcceptSequence

/-- The keys of a scope through a session. -/
structure ScopeInvariant (s : Session) (σ : CpuScope) : Prop where
  consumed : inScope σ s.certifiedKeys <+: inScope σ s.acceptedKeys
  rising : Rising (inScope σ s.certifiedKeys)
  queued : ∀ state, s.matcher.states.get? σ = some state → state.degraded = false → s.Queued σ state
  unseen : s.matcher.states.get? σ = none → s.Superseded σ ∨ inScope σ s.acceptedKeys = []

/-- The next event evicts no scope and spares the superseded ones. -/
structure Undisturbed (s : Session) (event : CpuEvent) : Prop where
  noEviction : ∀ τ, ¬ s.matcher.Evicts (classify event) τ
  spares : s.SparesSuperseded event

/-- What the session keeps. -/
structure OnceInvariant (s : Session) : Prop where
  barriers : s.BarrierInvariant
  scopes : ∀ σ, s.ScopeInvariant σ

theorem certifiedKeys_feed (s : Session) (event : CpuEvent) : (s.feed event).certifiedKeys =
    s.certifiedKeys ++ (s.matcher.certifiedBy (classify event)).map transaction := by
  unfold certifiedKeys feed
  rw [flatMap_append, flatMap_singleton, FedEvent.certifiedKeys_eq]
  rfl

theorem acceptedKeys_feed (s : Session) (event : CpuEvent) : (s.feed event).acceptedKeys =
    s.acceptedKeys ++ (s.matcher.acceptedBy (classify event)).map transaction := by
  unfold acceptedKeys feed
  rw [flatMap_append, flatMap_singleton, FedEvent.acceptedKeys_eq]
  rfl

theorem superseded_mono (h : s.Superseded σ) (event : CpuEvent) : (s.feed event).Superseded σ := by
  obtain ⟨fe, hfe, hσ⟩ := h
  exact ⟨fe, mem_append_left _ hfe, hσ⟩

/-- A scope without a state after an event. -/
theorem unseen_feed (h : s.ScopeInvariant τ) (hevict : ¬ s.matcher.Evicts (classify event) τ)
    (hsame : inScope τ (s.feed event).acceptedKeys = inScope τ s.acceptedKeys)
    (hnone : (s.feed event).matcher.states.get? τ = none) :
    (s.feed event).Superseded τ ∨ inScope τ (s.feed event).acceptedKeys = [] := by
  rcases gone_cases hnone with hnone' | hevicted | ⟨σ, hrecord, hadvances, hσ⟩
  · exact (h.unseen hnone').imp (superseded_mono · event) hsame.trans
  · exact absurd hevicted hevict
  · exact .inl ⟨⟨s.matcher, event⟩, mem_append_right _ (.head _), σ,
      FedEvent.acceptsReset_of_advances hrecord hadvances, hσ⟩

/-- A silent event changes no key. -/
theorem scopeInvariant_of_silent (h : s.ScopeInvariant τ)
    (hsilent : s.matcher.Silent (classify event)) (hevict : ¬ s.matcher.Evicts (classify event) τ) :
    (s.feed event).ScopeInvariant τ := by
  have hcertified : (s.feed event).certifiedKeys = s.certifiedKeys := by
    rw [certifiedKeys_feed, hsilent.certified, map_nil, append_nil]
  have haccepted : (s.feed event).acceptedKeys = s.acceptedKeys := by
    rw [acceptedKeys_feed, hsilent.accepted, map_nil, append_nil]
  refine ⟨?_, ?_, fun state hstate hd => ?_, fun hnone => ?_⟩
  · rw [hcertified, haccepted]
    exact h.consumed
  · rw [hcertified]
    exact h.rising
  · obtain ⟨hqueue, hrising, habove⟩ := h.queued state (hsilent.kept τ state hstate hd) hd
    refine ⟨?_, ?_, ?_⟩
    · rw [hcertified, haccepted]
      exact hqueue
    · rw [haccepted]
      exact hrising
    · rw [haccepted]
      exact habove
  · exact unseen_feed h hevict (congrArg (inScope τ) haccepted) hnone

/-- The state a record finds holds the queue of its scope, unless it is degraded. -/
theorem queued_current (h : s.OnceInvariant) (hbarrier : ¬ s.matcher.Precedes σ)
    (hd : (s.matcher.current σ).degraded = false) : s.Queued σ (s.matcher.current σ) := by
  cases hs : s.matcher.states.get? σ with
  | some state =>
    rw [current_of_some hs] at hd ⊢
    exact (h.scopes σ).queued state hs hd
  | none =>
    have hempty : inScope σ s.acceptedKeys = [] := by
      refine ((h.scopes σ).unseen hs).resolve_left fun hsuperseded => ?_
      have hblocked := degraded_current
        (.inr (h.barriers.barred σ hsuperseded)) hbarrier
      rw [hblocked] at hd
      cases hd
    have hbeats : (s.matcher.current σ).beats = [] := by
      unfold current openScope
      rw [hs]
      rfl
    have hcertified : inScope σ s.certifiedKeys = [] := prefix_nil.1 (hempty ▸ (h.scopes σ).consumed)
    refine ⟨?_, ?_, ?_⟩
    · rw [hempty, hcertified, hbeats]
      rfl
    · rw [hempty]
      exact List.Pairwise.nil
    · rw [hempty]
      exact nofun

section Reaches

variable {s : Session} {event : CpuEvent} {σ : CpuScope} {observation : CpuObservation}

/-- What a record puts in a queue carries the key of its scope. -/
theorem scope_of_puts (hreaches : s.matcher.Reaches (classify event) σ observation) :
    ∀ beat ∈ (s.matcher.current σ).puts observation, beat.transaction.scope = σ := by
  intro beat hbeat
  cases observation with
  | dataAccept beat' =>
    unfold puts at hbeat
    dsimp only at hbeat
    split at hbeat
    · cases hbeat
    · rw [mem_singleton.1 hbeat]
      exact scope_of_classify hreaches.record_eq
  | reset | flush | instrResponse | dataResponse | retire => cases hbeat

section

variable (h : s.OnceInvariant)

include h

/-- What a record certifies carries the key of its scope. -/
theorem scope_of_certifies (hbarrier : ¬ s.matcher.Precedes σ) :
    ∀ beat ∈ (s.matcher.current σ).certifies observation, beat.transaction.scope = σ := by
  intro beat hbeat
  have hne := ne_nil_of_mem hbeat
  have hqueued := queued_current h hbarrier (not_degraded_of_certifies hne)
  obtain ⟨-, rest, hrest⟩ := beats_of_certifies hne
  have hmem : beat.transaction ∈ inScope σ s.acceptedKeys := by
    rw [hqueued.queue, hrest]
    exact mem_append_right _ (mem_map_of_mem (mem_append_left _ hbeat))
  exact scope_of_mem_inScope hmem

/-- The keys of the scope a record reaches. -/
theorem inScope_feed (hreaches : s.matcher.Reaches (classify event) σ observation)
    (hbarrier : ¬ s.matcher.Precedes σ) :
    inScope σ (s.feed event).certifiedKeys = inScope σ s.certifiedKeys ++
        ((s.matcher.current σ).certifies observation).map transaction ∧
      inScope σ (s.feed event).acceptedKeys = inScope σ s.acceptedKeys ++
        ((s.matcher.current σ).puts observation).map transaction := by
  rw [certifiedKeys_feed, acceptedKeys_feed, hreaches.certified, hreaches.accepted, inScope_append,
    inScope_append]
  refine ⟨congrArg _ (inScope_of_forall ?_), congrArg _ (inScope_of_forall ?_)⟩
  · exact forall_mem_map.2 (scope_of_certifies h hbarrier)
  · exact forall_mem_map.2 (scope_of_puts hreaches)

/-- The keys of another scope. -/
theorem inScope_feed_of_ne (hreaches : s.matcher.Reaches (classify event) σ observation)
    (hbarrier : ¬ s.matcher.Precedes σ) (hne : τ ≠ σ) :
    inScope τ (s.feed event).certifiedKeys = inScope τ s.certifiedKeys ∧
      inScope τ (s.feed event).acceptedKeys = inScope τ s.acceptedKeys := by
  rw [certifiedKeys_feed, acceptedKeys_feed, hreaches.certified, hreaches.accepted, inScope_append,
    inScope_append, inScope_of_ne (forall_mem_map.2 (scope_of_certifies h hbarrier)) hne,
    inScope_of_ne (forall_mem_map.2 (scope_of_puts hreaches)) hne, append_nil, append_nil]
  exact ⟨rfl, rfl⟩

/-- A record of another scope leaves the keys and the state of this one. -/
theorem scopeInvariant_of_ne (hreaches : s.matcher.Reaches (classify event) σ observation)
    (hbarrier : ¬ s.matcher.Precedes σ) (hne : τ ≠ σ)
    (hevict : ¬ s.matcher.Evicts (classify event) τ) : (s.feed event).ScopeInvariant τ := by
  obtain ⟨hcertified, haccepted⟩ := inScope_feed_of_ne h hreaches hbarrier hne
  refine ⟨?_, ?_, fun state hstate hd => ?_, unseen_feed (h.scopes τ) hevict haccepted⟩
  · rw [hcertified, haccepted]
    exact (h.scopes τ).consumed
  · rw [hcertified]
    exact (h.scopes τ).rising
  · change (s.matcher.consumeRecord (classify event)).2.states.get? τ = some state at hstate
    rw [hreaches.after, get?_states_setState_of_ne hne] at hstate
    obtain ⟨hqueue, hrising, habove⟩ :=
      (h.scopes τ).queued state (get?_of_get?_opened hstate) hd
    refine ⟨?_, ?_, ?_⟩
    · rw [hcertified, haccepted]
      exact hqueue
    · rw [haccepted]
      exact hrising
    · rw [haccepted]
      exact habove

/-- A state that stays certain keeps its queue. -/
theorem queued_feed (hreaches : s.matcher.Reaches (classify event) σ observation)
    (hbarrier : ¬ s.matcher.Precedes σ) {maxPending : ℕ}
    (hd : ((s.matcher.current σ).observe maxPending observation).2.degraded = false) :
    (s.feed event).Queued σ ((s.matcher.current σ).observe maxPending observation).2 := by
  have hcertain : (s.matcher.current σ).degraded = false := by
    by_contra hdegraded
    rw [degraded_observe maxPending observation (by simpa using hdegraded)] at hd
    cases hd
  obtain ⟨hqueue, hrising, habove⟩ := queued_current h hbarrier hcertain
  obtain ⟨hstep, hputs, hlast⟩ := queues_observe hd
  obtain ⟨hcertified, haccepted⟩ := inScope_feed h hreaches hbarrier
  refine ⟨?_, ?_, ?_⟩
  · rw [haccepted, hcertified, hqueue, append_assoc, ← map_append, hstep, map_append,
      append_assoc]
  · rw [haccepted]
    refine pairwise_append.2 ⟨hrising, ?_, ?_⟩
    · cases observation with
      | dataAccept beat =>
        unfold puts
        dsimp only
        split
        · exact List.Pairwise.nil
        · exact pairwise_singleton _ _
      | reset | flush | instrResponse | dataResponse | retire => exact List.Pairwise.nil
    · intro key hkey later hlater
      obtain ⟨beat, hbeat, rfl⟩ := mem_map.1 hlater
      have hlt := lt_of_le_of_lt (habove key hkey) (hputs beat hbeat).1
      exact_mod_cast hlt
  · rw [haccepted]
    intro key hkey
    rcases mem_append.1 hkey with hold | hnew
    · exact (habove key hold).trans hlast
    · obtain ⟨beat, hbeat, rfl⟩ := mem_map.1 hnew
      exact (hputs beat hbeat).2

/-- The keys of the scope a record reaches stay in order. -/
theorem scopeInvariant_of_reaches (hreaches : s.matcher.Reaches (classify event) σ observation)
    (hbarrier : ¬ s.matcher.Precedes σ) : (s.feed event).ScopeInvariant σ := by
  obtain ⟨hcertified, haccepted⟩ := inScope_feed h hreaches hbarrier
  have hstate : (s.feed event).matcher.states.get? σ = some ((s.matcher.current σ).observe
      (s.matcher.opened σ).maxPending observation).2 := by
    change (s.matcher.consumeRecord (classify event)).2.states.get? σ = _
    rw [hreaches.after, get?_states_setState_self]
  refine ⟨?_, ?_, fun state hs hd => ?_, fun hnone => ?_⟩
  · rw [hcertified, haccepted]
    by_cases hnil : (s.matcher.current σ).certifies observation = []
    · rw [hnil, map_nil, append_nil]
      exact (h.scopes σ).consumed.trans (prefix_append _ _)
    · obtain ⟨hputs, rest, hrest⟩ := beats_of_certifies hnil
      have hqueued := queued_current h hbarrier (not_degraded_of_certifies hnil)
      rw [hputs, map_nil, append_nil, hqueued.queue, hrest, map_append, ← append_assoc]
      exact prefix_append _ _
  · rw [hcertified]
    by_cases hnil : (s.matcher.current σ).certifies observation = []
    · rw [hnil, map_nil, append_nil]
      exact (h.scopes σ).rising
    · obtain ⟨-, rest, hrest⟩ := beats_of_certifies hnil
      have hqueued := queued_current h hbarrier (not_degraded_of_certifies hnil)
      have hrising := hqueued.rising
      rw [hqueued.queue, hrest, map_append, ← append_assoc] at hrising
      exact (pairwise_append.1 hrising).1
  · cases hstate.symm.trans hs
    exact queued_feed h hreaches hbarrier hd
  · rw [hstate] at hnone
    cases hnone

end

end Reaches

theorem onceInvariant_start (maxPending : ℕ) (positive : 0 < maxPending) :
    OnceInvariant (start maxPending positive) where
  barriers := barrierInvariant_start maxPending positive
  scopes _ := ⟨prefix_rfl, List.Pairwise.nil, fun _ h => (nomatch h), fun _ => .inr rfl⟩

/-- **One event keeps the queues.** -/
theorem onceInvariant_feed (s : Session) (event : CpuEvent) (h : s.OnceInvariant)
    (hguard : s.Undisturbed event) : (s.feed event).OnceInvariant where
  barriers := barrierInvariant_feed s event h.barriers hguard.spares
  scopes τ := by
    rcases s.matcher.reaches_or_silent (classify event) with ⟨σ, observation, hreaches⟩ | hsilent
    · have hbarrier := not_precedes_of_opens hreaches.opens hreaches.record_eq
        hreaches.notReset
      by_cases hτ : τ = σ
      · subst hτ
        exact scopeInvariant_of_reaches h hreaches hbarrier
      · exact scopeInvariant_of_ne h hreaches hbarrier hτ (hguard.noEviction τ)
    · exact scopeInvariant_of_silent (h.scopes τ) hsilent (hguard.noEviction τ)

/-- **Each beat is certified at most once and in order, every accepted retirement has the effect of
its word, and the tables are bounded.** -/
structure CertifiesOnce (s : Session) : Prop where
  distinct : s.certifiedKeys.Nodup
  ordered : ∀ σ, inScope σ s.certifiedKeys <+: inScope σ s.acceptedKeys
  agrees : ∀ fe ∈ s.fed, ∀ report ∈ fe.reports, report.finding.status = .accepted →
    ∃ σ r, fe.record = .observed σ (.retire (.fields r)) ∧ EffectAgrees r report.finding.dataBeats
  bounded : s.matcher.Bounded

/-- Keys that are distinct in every scope are distinct. -/
theorem nodup_of_inScope (h : ∀ σ, (inScope σ keys).Nodup) : keys.Nodup := by
  refine nodup_iff_count_le_one.2 fun key => ?_
  have hcount := nodup_iff_count_le_one.1 (h key.scope) key
  unfold inScope at hcount
  rwa [count_filter (by simp)] at hcount

theorem nodup_of_rising (h : Rising keys) : keys.Nodup := by
  refine List.Pairwise.imp (fun {key later} hlt heq => ?_) h
  rw [heq] at hlt
  exact lt_irrefl _ hlt

end Session

/-- **An accepted report is that of a retirement with the effect of its word.** -/
theorem FedEvent.effect_of_accepted {report : CpuReport} (hreport : report ∈ fe.reports)
    (haccepted : report.finding.status = .accepted) :
    ∃ σ r, fe.record = .observed σ (.retire (.fields r)) ∧ EffectAgrees r report.finding.dataBeats := by
  obtain ⟨found, hfound, rfl⟩ := mem_map.1 hreport
  obtain ⟨σ, retired, hrecord, rfl⟩ := retire_of_accepted hfound haccepted
  obtain ⟨r, -, -, rfl, -⟩ := retire_accepted haccepted
  exact ⟨σ, r, hrecord, retire_effect (insn_lt_of_classify hrecord) haccepted⟩

/-- What every event keeps, whatever it does to the scopes. -/
structure Session.ReportInvariant (s : Session) : Prop where
  agrees : ∀ fe ∈ s.fed, ∀ report ∈ fe.reports, report.finding.status = .accepted →
    ∃ σ r, fe.record = .observed σ (.retire (.fields r)) ∧ EffectAgrees r report.finding.dataBeats
  bounded : s.matcher.Bounded

theorem Session.reportInvariant_run (maxPending : ℕ) (positive : 0 < maxPending)
    (events : List CpuEvent) : (Session.run maxPending positive events).ReportInvariant := by
  refine Run.run_invariant (fun s event h => ?_) events ⟨?_, ?_⟩
  · refine ⟨fun fe hfe => ?_, bounded_consumeRecord h.bounded _⟩
    rcases mem_append.1 hfe with hfe | hfe
    · exact h.agrees fe hfe
    · exact fun report => FedEvent.effect_of_accepted
  · exact nofun
  · exact ⟨Nat.zero_le _, fun _ _ h => (nomatch h), Nat.zero_le _, Nat.zero_le _⟩

/-- **Data transactions are certified at most once, in order and byte by byte**, in every session
whose events evict no scope and spare the superseded ones. -/
theorem transactions_certified_once (maxPending : ℕ) (positive : 0 < maxPending) (events : List CpuEvent)
    (h : Run.Guarded Session.feed Session.Undisturbed (.start maxPending positive) events) :
    (Session.run maxPending positive events).CertifiesOnce := by
  have hscopes := (Run.run_invariant_of_guarded Session.onceInvariant_feed events
    (Session.onceInvariant_start maxPending positive) h).scopes
  have hreports := Session.reportInvariant_run maxPending positive events
  refine ⟨Session.nodup_of_inScope fun σ => ?_, fun σ => (hscopes σ).consumed, hreports.agrees,
    hreports.bounded⟩
  exact Session.nodup_of_rising (hscopes σ).rising

/-! ### A store, twice -/

/-- The record makes the matcher forget a scope. -/
def CpuRetirementMatcher.forgets (m : CpuRetirementMatcher) (record : CpuRecord) : Bool :=
  match m.opens? record with
  | none => false
  | some σ => (m.states.get? σ).isNone && decide (m.maxPending ≤ m.states.length)

theorem CpuRetirementMatcher.forgets_of_evicts (h : m.Evicts record τ) : m.forgets record = true := by
  obtain ⟨σ, hopen, hnone, hfull, -⟩ := h
  unfold forgets
  rw [hopen]
  dsimp only
  rw [hnone, decide_eq_true hfull]
  rfl

theorem CpuRetirementMatcher.not_evicts (h : m.forgets record = false) (τ : CpuScope) :
    ¬ m.Evicts record τ := by
  intro hevicts
  rw [forgets_of_evicts hevicts] at h
  cases h

namespace Sample

/-- The word store of a CPU to address 0 is accepted and answered. -/
def beat (component : String) (epoch : ℤ) : List CpuEvent :=
  [.dict [("kind", .str "data_accept"), ("transaction", transaction component epoch "data" 1),
    ("raw_address", .scalar (.int 0)), ("aligned_address", .scalar (.int 0)),
    ("address", .scalar (.int 0)), ("wdata", .scalar (.int 0)), ("be", .scalar (.int 15)),
    ("write", .scalar (.int 1))],
  .dict [("kind", .str "data_response"), ("transaction", transaction component epoch "data" 1),
    ("rdata", .scalar (.int 0)), ("error", .scalar (.int 0))]]

/-- `sw x0, 0(x0)` is fetched, performed and retired. -/
def store (component : String) (epoch : ℤ) : List CpuEvent :=
  [fetch component epoch 0x00002023 [0x23, 0x20, 0x00, 0x00]] ++ beat component epoch ++
    [retire component epoch 0x00002023 [("mem_wmask", .scalar (.int 15))]]

/-- Two CPUs and a table of one: behind the resets of the other CPU the first one is reset to an
epoch it has left. -/
def repeatedEpoch : List CpuEvent :=
  [reset "A" 7] ++ store "A" 7 ++ [reset "B" 1, reset "A" 8, reset "B" 2, reset "A" 7] ++ store "A" 7

end Sample

/-- **A repeated epoch certifies a transaction twice**, though no scope is evicted. -/
theorem repeated_epoch_certifies_twice :
    Run.Guarded Session.feed (fun s event => ∀ τ, ¬ s.matcher.Evicts (classify event) τ)
      (.start 1 (by decide)) Sample.repeatedEpoch ∧
    ¬ (Session.run 1 (by decide) Sample.repeatedEpoch).CertifiesOnce := by
  refine ⟨⟨?_, ?_, ?_, ?_, ?_, ?_, ?_, ?_, ?_, ?_, ?_, ?_, ?_, trivial⟩, fun h => ?_⟩
  all_goals first
    | exact CpuRetirementMatcher.not_evicts (by decide)
    | exact absurd h.distinct (by decide)

/-- A store behind a reset is certified once. -/
theorem store_certified_once :
    (Session.run 2 (by decide) ([Sample.reset "A" 7] ++ Sample.store "A" 7)).CertifiesOnce := by
  refine transactions_certified_once 2 (by decide) _
    ⟨⟨?_, ?_⟩, ⟨?_, ?_⟩, ⟨?_, ?_⟩, ⟨?_, ?_⟩, ⟨?_, ?_⟩, trivial⟩
  · exact CpuRetirementMatcher.not_evicts (by decide)
  · rintro τ ⟨fe, hfe, -⟩
    cases hfe
  all_goals first
    | exact CpuRetirementMatcher.not_evicts (by decide)
    | exact fun τ _ => CpuRetirementMatcher.spares_of_not_isReset rfl τ

end MyFuzz
