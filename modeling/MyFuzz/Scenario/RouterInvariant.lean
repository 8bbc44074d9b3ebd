import MyFuzz.Scenario.RouterCore

/-!
# Scenario/RouterInvariant — where each request is, in every run

`Inv` holds after every router call.  It places each accepted request by the status of its ledger
entry, keeps the queue in acceptance order, and says that from its first request on a channel the
router is the only one to accept there (`contiguous`).

The queue and the ledger disagree in one case: a request cancelled by a pass that raised later.  The
pass raised at a request whose channel is held by a key the router cannot move (`refused`), no later
call moves it either (`Blocked.step`), and so a stale request always has such a request beside it
(`Inv.stale`).
-/

namespace MyFuzz

namespace RouterCore

open TransactionLedger TransactionKey List Function

variable {δ : Type}

/-- The ledger entry of a request identity. -/
def entry (s : RouterCore δ) (i : ℕ × TransactionKey) : Option (Entry δ (ℕ × ℕ)) :=
  (s.ledgers i.1).entries.get? i.2

/-- The sequence number a source channel delivers next. -/
def target (s : RouterCore δ) (c : ℕ × Channel) : ℕ := (s.ledgers c.1).nextTarget c.2

theorem entry_id (s : RouterCore δ) (q : Request) :
    s.entry q.id = (s.ledgers q.ledger).entries.get? q.key := rfl

theorem target_lane (s : RouterCore δ) (q : Request) :
    s.target q.lane = (s.ledgers q.ledger).nextTarget q.key.channel := rfl

/-- Where a request is, by the status of its entry. -/
def Placed (s : RouterCore δ) (q : Request) : Status (ℕ × ℕ) → Prop
  | .targetPending => q ∈ s.queued ∧ s.accessed.count q = 0
  | .complete _ | .uncertainEffect => q ∉ s.queued ∧ s.accessed.count q = 1
  | .cancelled => s.accessed.count q = 0
  | .targetInflight => False

/-- The next key of its channel, which no router call will move: its effect is uncertain, or it was
not accepted by the router. -/
def Held (s : RouterCore δ) (ledger : ℕ) (k : TransactionKey) : Prop :=
  k.sourceSequence = s.target (ledger, k.channel) ∧ ∃ e, s.entry (ledger, k) = some e ∧
    (e.status = .uncertainEffect ∨ (ledger, k) ∉ s.accepted.map Request.id)

/-- A request of the ledger waits in the queue behind a held key. -/
def Blocked (s : RouterCore δ) (ledger : ℕ) : Prop :=
  ∃ x ∈ s.queued, x.ledger = ledger ∧ ∃ k, k.channel = x.key.channel ∧ s.Held ledger k

/-- What holds of the core after every router call. -/
structure Inv (digest : MmioPayload → Except Exn δ) (s : RouterCore δ) : Prop where
  wf : ∀ l, (s.ledgers l).WF
  queued_sublist : s.queued.Sublist s.accepted
  nodup : (s.accepted.map Request.id).Nodup
  increasing : s.accepted.Pairwise fun q q' =>
    q.lane = q'.lane → q.key.sourceSequence < q'.key.sourceSequence
  placed : ∀ q ∈ s.accepted, ∃ d st, digest q.payload = .ok d ∧ s.entry q.id = some ⟨d, st⟩ ∧ s.Placed q st
  accessed_subset : ∀ q ∈ s.accessed, q ∈ s.accepted
  contiguous : ∀ q ∈ s.accepted, ∀ k, k.channel = q.key.channel →
    q.key.sourceSequence ≤ k.sourceSequence → (s.entry (q.ledger, k)).isSome →
    (q.ledger, k) ∈ s.accepted.map Request.id
  stale : ∀ q ∈ s.queued, ∀ d, s.entry q.id = some ⟨d, .cancelled⟩ → s.Blocked q.ledger

variable {L : ℕ → TransactionLedger δ (ℕ × ℕ)} {q q' x : Request} {e : Entry δ (ℕ × ℕ)}
  {post pre : List Request} {L' : TransactionLedger δ (ℕ × ℕ)} {l : ℕ}

/-- A router that has accepted nothing, over well-formed ledgers. -/
theorem inv_init {digest : MmioPayload → Except Exn δ} (hL : ∀ l, (L l).WF) : Inv digest ⟨[], L, [], []⟩ where
  wf := hL
  queued_sublist := List.Sublist.refl _
  nodup := nodup_nil
  increasing := List.Pairwise.nil
  placed _ hq := nomatch hq
  accessed_subset _ hq := hq
  contiguous _ hq := nomatch hq
  stale _ hq := nomatch hq

/-! ## Reading the invariant -/

theorem lane_eq_iff : q.lane = q'.lane ↔ q.ledger = q'.ledger ∧ q.key.channel = q'.key.channel := by
  simp [Request.lane]

theorem id_eq_of_lane (hl : q.lane = q'.lane) (hs : q.key.sourceSequence = q'.key.sourceSequence) :
    q.id = q'.id := by
  obtain ⟨hl, hc⟩ := lane_eq_iff.1 hl
  exact Prod.ext hl (ext_channel hc hs)

namespace Inv

variable {digest : MmioPayload → Except Exn δ} {s : RouterCore δ}

section

variable (h : s.Inv digest)

include h

theorem mem_accepted (hq : q ∈ s.queued) : q ∈ s.accepted := h.queued_sublist.subset hq

/-- Accepted requests are told apart by their identity. -/
theorem eq_of_id (hq : q ∈ s.accepted) (hq' : q' ∈ s.accepted)
    (hid : q.id = q'.id) : q = q' :=
  inj_on_of_nodup_map h.nodup hq hq' hid

theorem queued_nodup : s.queued.Nodup := h.queued_sublist.nodup h.nodup.of_map

/-- A queued request is pending, or cancelled and left behind. -/
theorem pending_or_stale (hq : q ∈ s.queued) :
    ∃ d, digest q.payload = .ok d ∧
      (s.entry q.id = some ⟨d, .targetPending⟩ ∨ s.entry q.id = some ⟨d, .cancelled⟩) := by
  obtain ⟨d, st, hd, he, hp⟩ := h.placed q (h.mem_accepted hq)
  cases st with
  | targetPending => exact ⟨d, hd, .inl he⟩
  | cancelled => exact ⟨d, hd, .inr he⟩
  | complete r | uncertainEffect => exact absurd hq hp.1
  | targetInflight => exact hp.elim

/-- An accepted request whose entry is not settled waits in the queue, or its effect is
uncertain. -/
theorem waiting_or_uncertain (hq : q ∈ s.accepted) (he : s.entry q.id = some e)
    (hset : ¬ e.status.Settled) : q ∈ s.queued ∨ e.status = .uncertainEffect := by
  obtain ⟨d, st, -, he', hp⟩ := h.placed q hq
  rw [he] at he'
  cases he'
  cases st with
  | targetPending => exact .inl hp.1
  | uncertainEffect => exact .inr rfl
  | complete r | cancelled => exact absurd trivial hset
  | targetInflight => exact hp.elim

/-- The queue lists the requests of a channel by sequence number. -/
theorem queued_increasing : s.queued.Pairwise fun q q' =>
    q.lane = q'.lane → q.key.sourceSequence < q'.key.sourceSequence :=
  h.increasing.sublist h.queued_sublist

/-- A request of the same channel with a smaller sequence number was queued earlier. -/
theorem mem_before (hsplit : s.queued = pre ++ x :: post) (hq : q ∈ s.queued)
    (hl : q.lane = x.lane) (hlt : q.key.sourceSequence < x.key.sourceSequence) : q ∈ pre := by
  have hinc := h.queued_increasing
  rw [hsplit, pairwise_append, pairwise_cons] at hinc
  rw [hsplit, mem_append, mem_cons] at hq
  rcases hq with hq | rfl | hq
  · exact hq
  · exact absurd hlt (lt_irrefl _)
  · have := hinc.2.1.1 q hq hl.symm
    omega

end

end Inv

/-! ## What a step does to entries and targets -/

theorem get?_update {key : TransactionKey}
    (h : ∀ k, L'.entries.get? k = if k = key then some e else (L l).entries.get? k)
    (i : ℕ × TransactionKey) : (update L l L' i.1).entries.get? i.2
      = if i = (l, key) then some e else (L i.1).entries.get? i.2 := by
  obtain ⟨l', k⟩ := i
  by_cases hl : l' = l
  · subst hl
    simp only [update_self, Prod.mk.injEq, true_and]
    exact h k
  · simp [hl]

theorem nextTarget_update (c : ℕ × Channel) (h : c.1 = l → L'.nextTarget c.2 = (L l).nextTarget c.2) :
    (update L l L' c.1).nextTarget c.2 = (L c.1).nextTarget c.2 := by
  by_cases hl : c.1 = l
  · rw [hl, update_self, ← hl, h hl, hl]
  · rw [update_of_ne hl]

theorem wf_update (hL : ∀ l, (L l).WF) (hL' : L'.WF) (l' : ℕ) : (update L l L' l').WF := by
  by_cases hl : l' = l
  · rw [hl, update_self]
    exact hL'
  · rw [update_of_ne hl]
    exact hL l'

section Steps

variable [DecidableEq δ] {digest : MmioPayload → Except Exn δ} {s : RouterCore δ}

variable {qs queued : List Request} {k : TransactionKey} {s' : RouterCore δ}

/-- **Entries after a run of cancellations**: those of the run are cancelled, the others stay. -/
theorem get?_update_cancelRun (hwf : (s.ledgers l).WF) (hqs : ∀ q ∈ qs, q.ledger = l)
    (hrun : RouterSystem.CancelRun digest (s.ledgers l) qs L') (i : ℕ × TransactionKey) :
    (i ∉ qs.map Request.id ∧ (update s.ledgers l L' i.1).entries.get? i.2 = s.entry i) ∨
      ∃ q ∈ qs, i = q.id ∧ ∃ d, digest q.payload = .ok d ∧ s.entry i = some ⟨d, .targetPending⟩ ∧
        (update s.ledgers l L' i.1).entries.get? i.2 = some ⟨d, .cancelled⟩ := by
  by_cases hi : i ∈ qs.map Request.id
  · obtain ⟨q, hq, rfl⟩ := mem_map.1 hi
    obtain ⟨d, hd, hpend, hcanc⟩ := hrun.get?_of_mem hwf hq
    refine .inr ⟨q, hq, rfl, d, hd, ?_, ?_⟩
    · rw [← hqs q hq] at hpend
      exact hpend
    · simp only [Request.id, hqs q hq, update_self]
      exact hcanc
  · refine .inl ⟨hi, ?_⟩
    by_cases hl : i.1 = l
    · rw [hl, update_self, hrun.get?_of_notMem hwf, entry, hl]
      intro q hq hk
      exact hi (mem_map.2 ⟨q, hq, Prod.ext ((hqs q hq).trans hl.symm) hk⟩)
    · rw [update_of_ne hl]
      rfl

/-- **A channel whose next key is not a pending request of the run is left out of it.** -/
theorem channel_notMem_cancelRun (hwf : (s.ledgers l).WF)
    (hrun : RouterSystem.CancelRun digest (s.ledgers l) qs L')
    (hseq : k.sourceSequence = (s.ledgers l).nextTarget k.channel)
    (hk : ∀ q ∈ qs, q.key = k → ∀ d, (s.ledgers l).entries.get? k ≠ some ⟨d, .targetPending⟩) :
    ∀ q ∈ qs, q.key.channel ≠ k.channel := by
  intro q hq hc
  -- the first request of the channel in the run stood at the channel's next key
  obtain ⟨f, hf⟩ : ∃ f, (qs.find? fun x => x.key.channel = k.channel) = some f := by
    rw [← Option.isSome_iff_exists, find?_isSome]
    exact ⟨q, hq, by simpa using hc⟩
  obtain ⟨hfc, pre, post, rfl, hpre⟩ := find?_eq_some_iff_append.1 hf
  have hfc : f.key.channel = k.channel := by simpa using hfc
  have hready := hrun.ready_of_first hwf fun q' hq' => by
    rw [hfc]
    simpa using hpre q' hq'
  obtain ⟨⟨d, hd⟩, hfs⟩ := targetReady_iff.1 hready
  have hfk : f.key = k := ext_channel hfc (by rw [hfs, hseq, hfc])
  rw [hfk] at hd
  exact hk f (mem_append_right _ (.head _)) hfk d hd

/-! ## Held keys stay held -/

omit [DecidableEq δ] in
/-- A held key is not a pending request of the router. -/
theorem Held.not_pending (h : s.Held l k) (hq : q ∈ s.accepted) (hid : q.id = (l, k)) (d : δ) :
    s.entry (l, k) ≠ some ⟨d, .targetPending⟩ := by
  obtain ⟨-, e, he, hu | hnot⟩ := h
  · rintro hd
    rw [he] at hd
    cases hd
    cases hu
  · exact absurd (hid ▸ mem_map_of_mem hq) hnot

omit [DecidableEq δ] in
/-- A held key stays held through any step that leaves its entry, its channel's target and whether
the router accepted it. -/
theorem Held.of_eq (h : s.Held l k) (ht : s'.target (l, k.channel) = s.target (l, k.channel))
    (he : s'.entry (l, k) = s.entry (l, k))
    (hacc : (l, k) ∈ s'.accepted.map Request.id → (l, k) ∈ s.accepted.map Request.id) :
    s'.Held l k := by
  obtain ⟨hseq, e, hent, hu⟩ := h
  exact ⟨by rw [ht, hseq], e, by rw [he, hent], hu.imp_right fun hnot hin => hnot (hacc hin)⟩

/-- A run of cancellations does not pass a held key. -/
theorem Held.channel_notMem (hs : s.Inv digest) (h : s.Held l k) (hqs : ∀ q ∈ qs, q ∈ s.queued ∧ q.ledger = l)
    (hrun : RouterSystem.CancelRun digest (s.ledgers l) qs L') :
    ∀ q ∈ qs, q.key.channel ≠ k.channel :=
  channel_notMem_cancelRun (hs.wf l) hrun h.1 fun q hq hk =>
    h.not_pending (hs.mem_accepted (hqs q hq).1) (Prod.ext (hqs q hq).2 hk)

/-- A run of cancellations leaves a held key held. -/
theorem Held.cancelRun (hs : s.Inv digest) {l' : ℕ} (h : s.Held l k)
    (hqs : ∀ q ∈ qs, q ∈ s.queued ∧ q.ledger = l')
    (hrun : RouterSystem.CancelRun digest (s.ledgers l') qs L') :
    Held ⟨queued, update s.ledgers l' L', s.accepted, s.accessed⟩ l k := by
  refine h.of_eq (nextTarget_update _ ?_) ?_ id
  · rintro rfl
    exact hrun.nextTarget_of_notMem (hs.wf _) (h.channel_notMem hs hqs hrun)
  · rcases get?_update_cancelRun (hs.wf l') (fun q hq => (hqs q hq).2) hrun (l, k) with
      ⟨-, he⟩ | ⟨q, hq, hid, d, -, hd, -⟩
    · exact he
    · exact absurd hd (h.not_pending (hs.mem_accepted (hqs q hq).1) hid.symm d)

/-- **A blocked ledger stays blocked.** -/
theorem Blocked.step (hs : s.Inv digest) (hstep : Step digest s s') (h : s.Blocked l) : s'.Blocked l := by
  obtain ⟨x, hx, hxl, k, hc, hheld⟩ := h
  cases hstep with
  | same => exact ⟨x, hx, hxl, k, hc, hheld⟩
  | @accept q d hd hn hseq =>
    obtain ⟨-, e, hent, -⟩ := id hheld
    have hne : (l, k) ≠ q.id := by
      intro hid
      rw [hid, entry_id, hn] at hent
      cases hent
    refine ⟨x, mem_append_left _ hx, hxl, k, hc, hheld.of_eq (nextTarget_update _ ?_) ?_ ?_⟩
    · intro hl
      exact nextTarget_push _ _ _ _
    · exact (get?_update (get?_push _ _ · _) _).trans (if_neg hne)
    · intro hin
      rw [map_append, mem_append] at hin
      rcases hin with hin | hin
      · exact hin
      · exact absurd (mem_singleton.1 hin) hne
  | @reach q d st L' hst hfind hres =>
    have hq : q ∈ s.queued := mem_of_find?_eq_some hfind
    have hne : (l, k) ≠ q.id := fun hid =>
      hheld.not_pending (hs.mem_accepted hq) hid.symm d (by rw [hid, entry_id, hres.pending])
    have hlane : (l, k.channel) ≠ q.lane := by
      intro hl
      refine hne (Prod.ext (Prod.ext_iff.1 hl).1
        (ext_channel (Prod.ext_iff.1 hl).2 ?_))
      rw [hheld.1, hl, target_lane]
      exact hres.at_target.symm
    refine ⟨x, ?_, hxl, k, hc, hheld.of_eq (nextTarget_update _ ?_) ?_ id⟩
    · refine (mem_erase_of_ne ?_).2 hx
      rintro rfl
      exact hlane (Prod.ext hxl.symm hc)
    · intro hl
      exact hres.nextTarget_of_ne fun hch => hlane (Prod.ext hl hch)
    · exact (get?_update hres.get? _).trans (if_neg hne)
  | @cancel l' L' hrun =>
    have hqs : ∀ q ∈ s.queued.filter fun q => q.ledger = l', q ∈ s.queued ∧ q.ledger = l' := by
      intro q hq
      simpa using hq
    have hl : x.ledger ≠ l' := by
      intro hl
      have hll : l = l' := hxl.symm.trans hl
      subst hll
      exact hheld.channel_notMem hs hqs hrun x (by simp [hx, hl]) hc.symm
    exact ⟨x, by simp [hx, hl], hxl, k, hc, hheld.cancelRun hs hqs hrun⟩
  | @cancelFailed l' L' pre post y e hq hy hrun hfail =>
    have hqs : ∀ q ∈ pre.filter fun q => q.ledger = l', q ∈ s.queued ∧ q.ledger = l' := by
      intro q hq'
      obtain ⟨hmem, hl⟩ := mem_filter.1 hq'
      exact ⟨by rw [hq]; exact mem_append_left _ hmem, by simpa using hl⟩
    exact ⟨x, hx, hxl, k, hc, hheld.cancelRun hs hqs hrun⟩

/-! ## A refused cancellation -/

/-- **A pass that refuses a pending request stops at a held key of its channel.** -/
theorem refused (hs : s.Inv digest) {l : ℕ} {pre post : List Request} {x : Request} {d : δ} {e : Exn}
    {L' : TransactionLedger δ (ℕ × ℕ)} (hsplit : s.queued = pre ++ x :: post) (hx : x.ledger = l)
    (hrun : RouterSystem.CancelRun digest (s.ledgers l) (pre.filter fun q => q.ledger = l) L')
    (hfail : L'.cancelAccepted digest x.key x.payload = .error e)
    (hd : digest x.payload = .ok d) (hpend : s.entry x.id = some ⟨d, .targetPending⟩) :
    ∃ k, k.channel = x.key.channel ∧ k.sourceSequence < x.key.sourceSequence ∧
      Held ⟨s.queued, update s.ledgers l L', s.accepted, s.accessed⟩ l k ∧
      s.entry (l, k) = L'.entries.get? k := by
  subst hx
  have hwf := hrun.wf (hs.wf x.ledger)
  have hmem : ∀ q ∈ pre.filter fun q => q.ledger = x.ledger, q ∈ s.queued := fun q hq => by
    rw [hsplit]
    exact mem_append_left _ (mem_filter.1 hq).1
  have hnodup : ∀ q ∈ pre, q ≠ x := by
    have h := hs.queued_nodup
    rw [hsplit] at h
    exact fun q hq => nodup_append.1 h |>.2.2 q hq x (.head _)
  have hxL : L'.entries.get? x.key = some ⟨d, .targetPending⟩ := by
    rw [hrun.get?_of_notMem (hs.wf x.ledger), ← entry_id, hpend]
    intro q hq hk
    obtain ⟨hqpre, hql⟩ := mem_filter.1 hq
    refine hnodup q hqpre (hs.eq_of_id (hs.mem_accepted (hmem q hq)) (hs.mem_accepted ?_) ?_)
    · rw [hsplit]
      exact mem_append_right _ (.head _)
    · exact Prod.ext (of_decide_eq_true hql) hk
  -- the counter has not reached the refused request
  have hlt : L'.nextTarget x.key.channel < x.key.sourceSequence := by
    have hns := mt (hwf.settled_iff hxL).2 fun h : Status.Settled .targetPending => h
    have hne : x.key.sourceSequence ≠ L'.nextTarget x.key.channel := fun h => by
      rw [cancelAccepted_of_next hd hxL h] at hfail
      cases hfail
    omega
  obtain ⟨k, ek, hkc, hks, hek, hnset⟩ := hwf.next_unsettled hxL hlt
  have hknot : ∀ q ∈ pre.filter fun q => q.ledger = x.ledger, q.key ≠ k := by
    intro q hq hk
    obtain ⟨d', -, -, hcanc⟩ := hrun.get?_of_mem (hs.wf x.ledger) hq
    rw [hk, hek] at hcanc
    cases hcanc
    exact hnset trivial
  have hsame : s.entry (x.ledger, k) = L'.entries.get? k := (hrun.get?_of_notMem (hs.wf x.ledger) hknot).symm
  refine ⟨k, hkc, hks ▸ hlt, ⟨?_, ek, ?_, ?_⟩, hsame⟩
  · simp [target, hks, hkc]
  · simpa [entry] using hek
  · by_cases hacc : (x.ledger, k) ∈ s.accepted.map Request.id
    · obtain ⟨q, hq, hid⟩ := mem_map.1 hacc
      refine .inl ((hs.waiting_or_uncertain hq (hid ▸ hsame.trans hek) hnset).resolve_left ?_)
      intro hqueued
      have hql : q.ledger = x.ledger := (Prod.ext_iff.1 hid).1
      have hqk : q.key = k := (Prod.ext_iff.1 hid).2
      have hlane : q.lane = x.lane := lane_eq_iff.2 ⟨hql, by rw [hqk, hkc]⟩
      have hpre := hs.mem_before hsplit hqueued hlane (by rw [hqk, hks]; exact hlt)
      exact hknot q (mem_filter.2 ⟨hpre, by simpa using hql⟩) hqk
    · exact .inr hacc

/-- **A pass that refuses a request found its channel stuck**: the oldest queued request of the channel
was not ready when the pass began. -/
theorem not_ready_of_refused (hs : s.Inv digest) {f : Request} {e : Exn}
    (hsplit : s.queued = pre ++ x :: post) (hx : x.ledger = l)
    (hrun : RouterSystem.CancelRun digest (s.ledgers l) (pre.filter fun q => q.ledger = l) L')
    (hfail : L'.cancelAccepted digest x.key x.payload = .error e)
    (hf : (s.queued.find? fun q => q.lane = x.lane) = some f) :
    (s.ledgers l).targetReady f.key = false := by
  subst hx
  by_contra hready
  rw [Bool.not_eq_false] at hready
  have hxq : x ∈ s.queued := by
    rw [hsplit]
    exact mem_append_right _ (.head _)
  have hlane : f.lane = x.lane := by simpa using find?_some hf
  obtain ⟨hlf, hcf⟩ := lane_eq_iff.1 hlane
  have hfa : f ∈ s.accepted := hs.mem_accepted (mem_of_find?_eq_some hf)
  obtain ⟨⟨df, hdf⟩, hfs⟩ := targetReady_iff.1 hready
  obtain ⟨d, hd, hpend | hcanc⟩ := hs.pending_or_stale hxq
  · -- the channel moves from its first queued request on, so `x` was not refused
    obtain ⟨k, hc, -, ⟨hks, ek, hek, hheld⟩, hsame⟩ := refused hs hsplit rfl hrun hfail hd hpend
    simp only [target, entry, update_self] at hks hek
    have hle : f.key.sourceSequence ≤ k.sourceSequence := by
      rw [hfs, hks, hcf, hc]
      exact hrun.nextTarget_le (hs.wf x.ledger) _
    have hin : (x.ledger, k) ∈ s.accepted.map Request.id := by
      refine hlf ▸ hs.contiguous f hfa k (hc.trans hcf.symm) hle ?_
      rw [hlf, hsame, hek]
      rfl
    have hunc := hheld.resolve_right (not_not.2 hin)
    have heq := (hs.wf x.ledger).uncertain_eq (hsame.trans hek) (by rw [hunc]; trivial)
    have hkf : k = f.key := ext_channel (hc.trans hcf.symm)
      (by rw [heq, hfs, hc, hcf])
    rw [hkf] at hsame hek
    rw [← hsame] at hek
    have hboth : s.entry (x.ledger, f.key) = some ⟨df, .targetPending⟩ := hdf
    rw [hek] at hboth
    cases hboth
    cases hunc
  · -- the counter has passed `x`, and `f` was queued no later
    have hpassed : x.key.sourceSequence < (s.ledgers x.ledger).nextTarget x.key.channel :=
      ((hs.wf x.ledger).settled_iff hcanc).1 trivial
    have hle : f.key.sourceSequence ≤ x.key.sourceSequence := by
      obtain ⟨-, before, after, hqueue, hbefore⟩ := find?_eq_some_iff_append.1 hf
      have hinc := hs.queued_increasing
      rw [hqueue, pairwise_append, pairwise_cons] at hinc
      rw [hqueue, mem_append, mem_cons] at hxq
      rcases hxq with hxq | rfl | hxq
      · exact absurd (hbefore x hxq) (by simp)
      · exact le_rfl
      · exact (hinc.2.1.1 x hxq hlane).le
    rw [hfs, hcf] at hle
    omega

/-! ## The invariant is kept -/

namespace Inv

theorem accept (hs : s.Inv digest) {q : Request} {d : δ} (hd : digest q.payload = .ok d)
    (hn : (s.ledgers q.ledger).entries.get? q.key = none)
    (hseq : q.key.sourceSequence = (s.ledgers q.ledger).nextChannel q.key.channel) :
    Inv digest ⟨s.queued ++ [q],
      update s.ledgers q.ledger ((s.ledgers q.ledger).push q.key ⟨d, .targetPending⟩),
      s.accepted ++ [q], s.accessed⟩ := by
  have hentry : ∀ i : ℕ × TransactionKey, entry ⟨s.queued ++ [q], update s.ledgers q.ledger
      ((s.ledgers q.ledger).push q.key ⟨d, .targetPending⟩), s.accepted ++ [q], s.accessed⟩ i
        = if i = q.id then some ⟨d, .targetPending⟩ else s.entry i :=
    get?_update (get?_push _ _ · _)
  have hfresh : ∀ i : ℕ × TransactionKey, (s.entry i).isSome → i ≠ q.id := by
    rintro i hi rfl
    rw [entry_id, hn] at hi
    cases hi
  have hnew : ∀ x ∈ s.accepted, x.id ≠ q.id := fun x hx => by
    obtain ⟨_, _, -, he, -⟩ := hs.placed x hx
    exact hfresh _ (by rw [he]; rfl)
  refine ⟨wf_update hs.wf ((hs.wf _).push hseq (fun h => h) fun h => h.elim), ?_, ?_, ?_, ?_, ?_, ?_, ?_⟩
  · exact hs.queued_sublist.append_right [q]
  · rw [map_append, nodup_append]
    refine ⟨hs.nodup, nodup_singleton _, ?_⟩
    intro i hi j hj
    obtain ⟨x, hx, rfl⟩ := mem_map.1 hi
    rw [mem_singleton.1 hj]
    exact hnew x hx
  · rw [pairwise_append]
    refine ⟨hs.increasing, pairwise_singleton _ _, ?_⟩
    intro x hx y hy hl
    rw [mem_singleton.1 hy] at hl ⊢
    obtain ⟨_, _, -, he, -⟩ := hs.placed x hx
    obtain ⟨hl, hc⟩ := lane_eq_iff.1 hl
    have h := ((hs.wf x.ledger).accepted_iff x.key).1 (by rw [← entry_id, he]; rfl)
    rw [hl, hc] at h
    omega
  · intro x hx
    rcases mem_append.1 hx with hx | hx
    · obtain ⟨d', st, hd', he, hp⟩ := hs.placed x hx
      refine ⟨d', st, hd', by rw [hentry, if_neg (hnew x hx), he], ?_⟩
      have hne : x ≠ q := fun h => hnew x hx (congrArg _ h)
      cases st with
      | targetPending => exact ⟨mem_append_left _ hp.1, hp.2⟩
      | cancelled => exact hp
      | complete r | uncertainEffect => exact ⟨by simp [hp.1, hne], hp.2⟩
      | targetInflight => exact hp
    · obtain rfl := mem_singleton.1 hx
      refine ⟨d, .targetPending, hd, by rw [hentry, if_pos rfl], by simp, ?_⟩
      exact count_eq_zero.2 fun h => hnew x (hs.accessed_subset x h) rfl
  · exact fun x hx => mem_append_left _ (hs.accessed_subset x hx)
  · intro x hx k hc hle hk
    rw [hentry] at hk
    rw [map_append, mem_append]
    by_cases hid : (x.ledger, k) = q.id
    · exact .inr (by simp [hid])
    · rw [if_neg hid] at hk
      rcases mem_append.1 hx with hx | hx
      · exact .inl (hs.contiguous x hx k hc hle hk)
      · obtain rfl := mem_singleton.1 hx
        have h := ((hs.wf x.ledger).accepted_iff k).1 hk
        rw [hc] at h
        omega
  · intro x hx d' he
    rw [hentry] at he
    split_ifs at he with hid
    · cases he
    · rcases mem_append.1 hx with hx | hx
      · exact (hs.stale x hx d' he).step hs (.accept hd hn hseq)
      · exact absurd (congrArg _ (mem_singleton.1 hx)) hid

theorem reach (hs : s.Inv digest) {q : Request} {d : δ} {st : Status (ℕ × ℕ)}
    {L' : TransactionLedger δ (ℕ × ℕ)} (hst : st.Reached)
    (hfind : (s.queued.find? fun x => x.window.deviceId = q.window.deviceId) = some q)
    (hres : (s.ledgers q.ledger).Resolves q.key d st L') :
    Inv digest ⟨s.queued.erase q, update s.ledgers q.ledger L', s.accepted, s.accessed ++ [q]⟩ := by
  have hq : q ∈ s.queued := mem_of_find?_eq_some hfind
  have hentry : ∀ i : ℕ × TransactionKey, entry ⟨s.queued.erase q,
      update s.ledgers q.ledger L', s.accepted, s.accessed ++ [q]⟩ i
        = if i = q.id then some ⟨d, st⟩ else s.entry i := get?_update hres.get?
  have hsome : ∀ i, (entry ⟨s.queued.erase q, update s.ledgers q.ledger L', s.accepted,
      s.accessed ++ [q]⟩ i).isSome → (s.entry i).isSome := by
    intro i hi
    rw [hentry] at hi
    by_cases hid : i = q.id
    · rw [hid, entry_id, hres.pending]
      rfl
    · rwa [if_neg hid] at hi
  have hne : ∀ x ∈ s.accepted, x ≠ q → x.id ≠ q.id := fun x hx hxq hid =>
    hxq (hs.eq_of_id hx (hs.mem_accepted hq) hid)
  refine ⟨wf_update hs.wf hres.wf, erase_sublist.trans hs.queued_sublist, hs.nodup,
    hs.increasing, ?_, ?_, fun x hx k hc hle hk => hs.contiguous x hx k hc hle (hsome _ hk), ?_⟩
  · intro x hx
    obtain ⟨d', st', hd', he, hp⟩ := hs.placed x hx
    by_cases hxq : x = q
    · subst hxq
      rw [entry_id, hres.pending] at he
      cases he
      refine ⟨d, st, hd', by rw [hentry, if_pos rfl], ?_⟩
      have hcount : (s.accessed ++ [x]).count x = 1 := by simp [hp.2]
      cases st with
      | complete r | uncertainEffect => exact ⟨hs.queued_nodup.not_mem_erase, hcount⟩
      | targetPending | cancelled | targetInflight => exact hst.elim
    · refine ⟨d', st', hd', by rw [hentry, if_neg (hne x hx hxq), he], ?_⟩
      have hcount : (s.accessed ++ [q]).count x = s.accessed.count x := by
        simp [Ne.symm hxq]
      cases st' with
      | targetPending => exact ⟨(mem_erase_of_ne hxq).2 hp.1, hcount.trans hp.2⟩
      | cancelled => exact hcount.trans hp
      | complete r
      | uncertainEffect => exact ⟨fun h => hp.1 (mem_of_mem_erase h), hcount.trans hp.2⟩
      | targetInflight => exact hp
  · intro x hx
    rcases mem_append.1 hx with hx | hx
    · exact hs.accessed_subset x hx
    · rw [mem_singleton.1 hx]
      exact hs.mem_accepted hq
  · intro x hx d' he
    have hxq : x ≠ q := by
      rintro rfl
      exact hs.queued_nodup.not_mem_erase hx
    have hx := mem_of_mem_erase hx
    rw [hentry, if_neg (hne x (hs.mem_accepted hx) hxq)] at he
    exact (hs.stale x hx d' he).step hs (.reach hst hfind hres)

/-- A run of cancellations along the queue keeps the invariant, whatever cancelled requests leave
the queue, when stale ones end up blocked. -/
theorem cancelRun (hs : s.Inv digest) (hqs : ∀ q ∈ qs, q ∈ s.queued ∧ q.ledger = l)
    (hrun : RouterSystem.CancelRun digest (s.ledgers l) qs L')
    (hsub : queued.Sublist s.queued) (hkeep : ∀ q ∈ s.queued, q ∉ qs → q ∈ queued)
    (hstale : ∀ q ∈ queued, q ∈ qs → Blocked
      ⟨queued, update s.ledgers l L', s.accepted, s.accessed⟩ q.ledger)
    (hblocked : ∀ l', s.Blocked l' → Blocked
      ⟨queued, update s.ledgers l L', s.accepted, s.accessed⟩ l') :
    Inv digest ⟨queued, update s.ledgers l L', s.accepted, s.accessed⟩ := by
  have hentry := get?_update_cancelRun (hs.wf l) (fun q hq => (hqs q hq).2) hrun
  refine ⟨wf_update hs.wf (hrun.wf (hs.wf l)), hsub.trans hs.queued_sublist, hs.nodup, hs.increasing,
    ?_, hs.accessed_subset, ?_, ?_⟩
  · intro x hx
    obtain ⟨d, st, hd, he, hp⟩ := hs.placed x hx
    rcases hentry x.id with ⟨hnot, hsame⟩ | ⟨q, hq, hid, d', -, hpend, hcanc⟩
    · refine ⟨d, st, hd, hsame.trans he, ?_⟩
      cases st with
      | targetPending =>
        exact ⟨hkeep x hp.1 fun h => hnot (mem_map_of_mem h), hp.2⟩
      | cancelled => exact hp
      | complete r | uncertainEffect => exact ⟨fun h => hp.1 (hsub.subset h), hp.2⟩
      | targetInflight => exact hp
    · rw [hpend] at he
      cases he
      exact ⟨d, .cancelled, hd, hcanc, hp.2⟩
  · intro x hx k hc hle hk
    refine hs.contiguous x hx k hc hle ?_
    rcases hentry (x.ledger, k) with ⟨-, hsame⟩ | ⟨q, -, -, d, -, hpend, -⟩
    · rw [← hsame]
      exact hk
    · rw [hpend]
      rfl
  · intro x hx d he
    rcases hentry x.id with ⟨-, hsame⟩ | ⟨q, hq, hid, -⟩
    · exact hblocked _ (hs.stale x (hsub.subset hx) d (hsame.symm.trans he))
    · obtain rfl := hs.eq_of_id (hs.mem_accepted (hsub.subset hx)) (hs.mem_accepted (hqs q hq).1) hid
      exact hstale x hx hq

theorem cancelFailed (hs : s.Inv digest) {l : ℕ} {L' : TransactionLedger δ (ℕ × ℕ)}
    {pre post : List Request} {x : Request} {e : Exn} (hsplit : s.queued = pre ++ x :: post)
    (hx : x.ledger = l)
    (hrun : RouterSystem.CancelRun digest (s.ledgers l) (pre.filter fun q => q.ledger = l) L')
    (hfail : L'.cancelAccepted digest x.key x.payload = .error e) :
    Inv digest { s with ledgers := update s.ledgers l L' } := by
  have hqs : ∀ q ∈ pre.filter fun q => q.ledger = l, q ∈ s.queued ∧ q.ledger = l := by
    intro q hq
    obtain ⟨hmem, hl⟩ := mem_filter.1 hq
    exact ⟨by rw [hsplit]; exact mem_append_left _ hmem, by simpa using hl⟩
  have hxq : x ∈ s.queued := by
    rw [hsplit]
    exact mem_append_right _ (.head _)
  have hblocked : ∀ l', s.Blocked l' →
      Blocked { s with ledgers := update s.ledgers l L' } l' := fun l' h =>
    h.step hs (.cancelFailed hsplit hx hrun hfail)
  refine hs.cancelRun hqs hrun (List.Sublist.refl _) (fun q hq _ => hq) ?_ hblocked
  intro q _ hq
  rw [(hqs q hq).2]
  obtain ⟨d, hd, hpend | hcanc⟩ := hs.pending_or_stale hxq
  · obtain ⟨k, hc, -, hheld, -⟩ := refused hs hsplit hx hrun hfail hd hpend
    exact ⟨x, hxq, hx, k, hc, hheld⟩
  · exact hx ▸ hblocked _ (hs.stale x hxq d hcanc)

/-- **Every core step keeps the invariant.** -/
theorem step (hs : s.Inv digest) (h : Step digest s s') : s'.Inv digest := by
  cases h with
  | same => exact hs
  | accept hd hn hseq => exact hs.accept hd hn hseq
  | reach hst hfind hres => exact hs.reach hst hfind hres
  | cancelFailed hsplit hx hrun hfail => exact hs.cancelFailed hsplit hx hrun hfail
  | @cancel l L' hrun =>
    refine hs.cancelRun (fun q hq => by simpa using hq) hrun filter_sublist ?_ ?_ ?_
    · intro q hq hnot
      by_contra h
      exact hnot (by simpa [hq] using h)
    · intro q hq hmem
      simp only [mem_filter, decide_eq_true_eq] at hq hmem
      exact absurd hmem.2 hq.2
    · exact fun l' hl => hl.step hs (.cancel hrun)

end Inv

end Steps

end RouterCore

end MyFuzz
