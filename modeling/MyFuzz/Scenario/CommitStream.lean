import MyFuzz.Scenario.LedgerDelivery
import MyFuzz.Scenario.ServiceMove

/-!
# Scenario/CommitStream — the commit stream loses and repeats nothing

The stream of a service is read against its history: the receipts of the stores that completed, in
order, and how many events were acknowledged.  The `i`-th completed store issues the event with
sequence number `i + 1`, and what is pending is what was issued and not acknowledged.

    completed :  r₁   r₂   r₃   r₄   r₅
    issued    :  e₁   e₂   e₃   e₄   e₅
                 └ acked ┘ └─ pending ─┘

Pending events are kept under the digest of their document.  Documents of different stores differ,
so all that is asked of the digest is that it tells those apart that the service issued.
-/

namespace MyFuzz

open Run Outcome PersistentMemory ServiceCore CommitEvent Dict TransactionLedger List

/-- A service with the receipts of its completed stores and the number of acknowledged events. -/
structure CommitTrace where
  service : MemoryService
  written : List WriteReceipt
  acked : ℕ

/-- The events issued for completed stores. -/
def issuedEvents (written : List WriteReceipt) : List CommitEvent :=
  written.mapIdx fun i r => {
    serviceCommitSequence := i + 1
    transaction := r.transactionId
    commitId := r.commitJson.commitId
    commitDocument := r.commitJson }

/-- The digest tells the documents of these stores apart. -/
def CollisionFree (cfg : ServiceConfig) (written : List WriteReceipt) : Prop :=
  ∀ r ∈ written, ∀ r' ∈ written,
    cfg.commitHash r.commitJson.document = cfg.commitHash r'.commitJson.document →
      r.commitJson.document = r'.commitJson.document

namespace CommitTrace

/-- A new service. -/
def init (cfg : ServiceConfig) : CommitTrace := ⟨.init cfg, [], 0⟩

/-- The store a call completed, if it did: its key was not in the ledger before. -/
def completes (s : MemoryService) : ServiceCall → Except Exn ServiceAnswer → List WriteReceipt
  | .write key _ _ _ _, .ok (.receipt (.written r)) =>
      if s.ledger.entries.get? key = none then [r] else []
  | _, _ => []

/-- The events a call acknowledged. -/
def acknowledges : ServiceCall → Except Exn ServiceAnswer → ℕ
  | .ackCommitEvents ids, .ok _ => ids.length
  | _, _ => 0

/-- One call, with its history. -/
def record (cfg : ServiceConfig) (t : CommitTrace) (c : ServiceCall) : CommitTrace where
  service := (t.service.call cfg c).2
  written := t.written ++ completes t.service c (t.service.call cfg c).1
  acked := t.acked + acknowledges c (t.service.call cfg c).1

end CommitTrace

variable {id : String} {p : PendingCommit}

/-! ## The pending commits of a service -/

namespace MemoryService

variable {cfg : ServiceConfig} {s : MemoryService}

/-- A pending commit is found. -/
theorem lookupPendingCommit_of_inv (hs : s.Inv cfg) (hp : s.pendingCommits.get? id = some p) :
    s.lookupPendingCommit id = .ok (p.receipt, p.event) := by
  have hpub := hs.published id p hp
  obtain ⟨d, hd⟩ := hpub.complete
  rw [lookupPendingCommit, hp]
  dsimp only
  rw [hd]
  exact ensure_ok.2 ⟨⟨decide_eq_true rfl, hpub.frozen_eq⟩, rfl⟩

/-- How many events a drain returns at most. -/
def drainLimit (s : MemoryService) : Option ℤ → ℕ
  | none => s.pendingCommits.length
  | some n => n.toNat

/-- **A drain returns the first pending events.** -/
theorem drainCommitEvents_eq (hs : s.Inv cfg) {maxEvents : Option ℤ} (h : ∀ n ∈ maxEvents, 1 ≤ n) :
    s.drainCommitEvents maxEvents
      = .ok ((s.pendingCommits.entries.map fun q => q.2.event).take (s.drainLimit maxEvents)) := by
  have hlookup : ∀ n : ℕ, (s.pendingCommits.keys.take n).mapM
      (fun key => (s.lookupPendingCommit key).map Prod.snd)
        = .ok ((s.pendingCommits.entries.map fun q => q.2.event).take n) := by
    intro n
    rw [Dict.keys, ← map_take, ← map_take, mapM_eq_ok, forall₂_map_left_iff,
      forall₂_map_right_iff, forall₂_same]
    intro q hq
    rw [lookupPendingCommit_of_inv hs (mem_entries_iff.1 (mem_of_mem_take hq))]
    rfl
  refine ensure_ok.2 ⟨h, ?_⟩
  cases maxEvents with
  | none =>
    have hall : s.pendingCommits.keys = s.pendingCommits.keys.take s.pendingCommits.length := by
      rw [← length_keys, take_length]
    rw [hall]
    exact hlookup _
  | some n => exact hlookup _

/-- **An acknowledgement names the first pending commits and removes them, or changes nothing.** -/
theorem ackCommitEvents_cases (hs : s.Inv cfg) (ids : List String) :
    (ids = s.pendingCommits.keys.take ids.length ∧ (s.ackCommitEvents ids).1 = .ok () ∧
      (s.ackCommitEvents ids).2.pendingCommits.entries
        = s.pendingCommits.entries.drop ids.length) ∨
    (ids ≠ s.pendingCommits.keys.take ids.length ∧ (∃ e, (s.ackCommitEvents ids).1 = .error e) ∧
      (s.ackCommitEvents ids).2 = s) := by
  unfold ackCommitEvents
  split_ifs with hids
  · obtain ⟨pending, issued, heach, hentries, -⟩ := each_releaseCommit
      (s.pendingCommits.entries.take ids.length) (take_append_drop ids.length _).symm
      (fun id p h => (hs.published id p h).issued) hs.idents
    have hmap : (s.pendingCommits.entries.take ids.length).map Prod.fst = ids := by
      rw [map_take]
      exact hids.symm
    rw [hmap] at heach
    rw [heach]
    exact .inl ⟨hids, rfl, hentries⟩
  · exact .inr ⟨hids, ⟨_, rfl⟩, rfl⟩

end MemoryService

/-! ## The history -/

namespace CommitTrace

open MemoryService

variable {cfg : ServiceConfig} {t : CommitTrace}

/-- The completed stores are the store receipts of the ledger, each with its own document. -/
structure History (cfg : ServiceConfig) (t : CommitTrace) : Prop where
  inv : t.service.Inv cfg
  frozen : ∀ r ∈ t.written, ∃ d, t.service.ledger.entries.get? r.transactionId
    = some ⟨d, .complete (.written r)⟩
  listed : ∀ key d r, t.service.ledger.entries.get? key = some ⟨d, .complete (.written r)⟩ →
    r ∈ t.written ∧ r.transactionId = key
  documented : ∀ r ∈ t.written, r.commitJson.commitId = cfg.commitHash r.commitJson.document ∧
    r.commitJson.document.fullkey = r.transactionId
  nodup : (t.written.map WriteReceipt.transactionId).Nodup

theorem history_init (cfg : ServiceConfig) : (init cfg).History cfg where
  inv := MemoryService.inv_init cfg
  frozen r h := nomatch h
  listed key d r h := by cases h
  documented r h := nomatch h
  nodup := nodup_nil

variable {s' : MemoryService} {c : ServiceCall} {a : Except Exn ServiceAnswer}
  {written : List WriteReceipt} {e : CommitEvent}

/-- A call that completes no store keeps the completed stores. -/
theorem History.same (ht : t.History cfg) (h : Move cfg t.service c a s') (acked : ℕ)
    (hnew : ∀ key d r, s'.ledger.entries.get? key = some ⟨d, .complete (.written r)⟩ →
      t.service.ledger.entries.get? key = some ⟨d, .complete (.written r)⟩) :
    History cfg ⟨s', t.written ++ [], acked⟩ := by
  rw [append_nil]
  refine ⟨ht.inv.move h, fun r hr => ?_, fun key d r hk => ht.listed key d r (hnew key d r hk),
    ht.documented, ht.nodup⟩
  obtain ⟨d, hd⟩ := ht.frozen r hr
  exact ⟨d, h.entry_complete hd⟩

/-- A store that completes is added. -/
theorem History.stored (ht : t.History cfg) {s' : MemoryService} {c : ServiceCall}
    {a : Except Exn ServiceAnswer} (h : Move cfg t.service c a s') {receipt : WriteReceipt}
    {d : String} (hfresh : t.service.ledger.entries.get? receipt.transactionId = none)
    (hledger : ∀ k, s'.ledger.entries.get? k = if k = receipt.transactionId then
      some ⟨d, .complete (.written receipt)⟩ else t.service.ledger.entries.get? k)
    (hdoc : receipt.commitJson.commitId = cfg.commitHash receipt.commitJson.document ∧
      receipt.commitJson.document.fullkey = receipt.transactionId) (acked : ℕ) :
    History cfg ⟨s', t.written ++ [receipt], acked⟩ := by
  refine ⟨ht.inv.move h, fun r hr => ?_, fun key d' r hk => ?_, fun r hr => ?_, ?_⟩
  · rcases mem_append.1 hr with hr | hr
    · obtain ⟨d, hd⟩ := ht.frozen r hr
      exact ⟨d, h.entry_complete hd⟩
    · rw [mem_singleton.1 hr]
      exact ⟨d, by rw [hledger, if_pos rfl]⟩
  · rw [hledger] at hk
    split_ifs at hk with hkey
    · cases hk
      exact ⟨mem_append_right _ (.head _), hkey.symm⟩
    · obtain ⟨hr, hkey⟩ := ht.listed key d' r hk
      exact ⟨mem_append_left _ hr, hkey⟩
  · rcases mem_append.1 hr with hr | hr
    · exact ht.documented r hr
    · rw [mem_singleton.1 hr]
      exact hdoc
  · rw [map_append, nodup_append]
    refine ⟨ht.nodup, nodup_singleton _, fun k hk k' hk' heq => ?_⟩
    obtain ⟨r, hr, rfl⟩ := mem_map.1 hk
    obtain ⟨d, hd⟩ := ht.frozen r hr
    rw [heq, mem_singleton.1 hk', hfresh] at hd
    cases hd

/-- What a move adds to the history. -/
theorem History.move (ht : t.History cfg) (h : Move cfg t.service c a s') (acked : ℕ) :
    History cfg ⟨s', t.written ++ completes t.service c a, acked⟩ := by
  have hmove := h
  cases h with
  | @replayed c key payload r hc hentry =>
    have hnone : completes t.service c (.ok (.receipt r)) = [] := by
      cases c with
      | write key' address value width byteEnable =>
        cases Option.some.inj hc
        cases r with
        | snapshot snapshot => rfl
        | written r => exact if_neg (by rw [hentry]; simp)
      | _ => rfl
    rw [hnone]
    exact ht.same hmove acked fun _ _ _ hk => hk
  | fetched hfresh =>
    refine ht.same hmove acked fun key d r hk => ?_
    rw [get?_completed] at hk
    split_ifs at hk
    · cases hk
    · exact hk
  | @stored key address value width byteEnable region offset hfresh hfull hres hfits hroom hcount
      receipt hreceipt =>
    have hone : completes t.service (.write key address value width byteEnable)
        (.ok (.receipt (.written receipt))) = [receipt] := if_pos hfresh.absent
    rw [hone]
    subst hreceipt
    refine ht.stored (d := cfg.digest (.write address value width byteEnable)) hmove hfresh.absent
      (fun k => ?_) ⟨rfl, rfl⟩ acked
    rw [ledger_published]
    exact get?_completed _ _ _ _ k
  | uncertain hfresh =>
    refine ht.same hmove acked fun key d r hk => ?_
    rw [get?_raised] at hk
    split_ifs at hk
    · cases hk
    · exact hk
  | @refused c e =>
    have hnone : completes t.service c (.error e) = [] := by
      cases c <;> rfl
    rw [hnone]
    exact ht.same hmove acked fun _ _ _ hk => hk
  | accepted hacc | memory ha | lookedUp hl | issued hl | drained hl
  | acknowledged hids hpending hissued => exact ht.same hmove acked fun _ _ _ hk => hk

theorem History.record (ht : t.History cfg) (c : ServiceCall) : (t.record cfg c).History cfg :=
  ht.move (move_call ht.inv c) _

/-! ## The stream -/

/-- What is pending was issued and is not acknowledged. -/
structure Streams (t : CommitTrace) : Prop where
  acked_le : t.acked ≤ t.written.length
  sequence : t.service.serviceCommitSequence = t.written.length
  pending : t.service.pendingCommits.entries.map (fun q => (q.1, q.2.event))
    = ((issuedEvents t.written).drop t.acked).map fun e => (e.commitId, e)

theorem streams_init (cfg : ServiceConfig) : (init cfg).Streams := ⟨le_refl _, rfl, rfl⟩

theorem issuedEvents_concat (written : List WriteReceipt) (r : WriteReceipt) :
    issuedEvents (written ++ [r]) = issuedEvents written ++ [{
      serviceCommitSequence := written.length + 1
      transaction := r.transactionId
      commitId := r.commitJson.commitId
      commitDocument := r.commitJson }] := by
  simp [issuedEvents, mapIdx_append]

@[simp] theorem length_issuedEvents (written : List WriteReceipt) :
    (issuedEvents written).length = written.length := by
  simp [issuedEvents]

theorem mem_issuedEvents (h : e ∈ issuedEvents written) :
    ∃ r ∈ written, e.commitId = r.commitJson.commitId := by
  obtain ⟨i, hi, rfl⟩ := mem_mapIdx.1 h
  exact ⟨written[i], getElem_mem hi, rfl⟩

theorem CollisionFree.left {more : List WriteReceipt} (h : CollisionFree cfg (written ++ more)) :
    CollisionFree cfg written :=
  fun r hr r' hr' => h r (mem_append_left _ hr) r' (mem_append_left _ hr')

/-- The commit id of a completed store tells it apart. -/
theorem transactionId_eq_of_commitId (ht : t.History cfg) (hfree : CollisionFree cfg t.written)
    {r r' : WriteReceipt} (hr : r ∈ t.written) (hr' : r' ∈ t.written)
    (h : r.commitJson.commitId = r'.commitJson.commitId) : r.transactionId = r'.transactionId := by
  obtain ⟨hid, hkey⟩ := ht.documented r hr
  obtain ⟨hid', hkey'⟩ := ht.documented r' hr'
  rw [← hkey, ← hkey', hfree r hr r' hr' (by rw [← hid, ← hid', h])]

/-- A commit id that is pending is that of a completed store. -/
theorem Streams.mem_of_pending (h : t.Streams) (hp : t.service.pendingCommits.get? id = some p) :
    ∃ r ∈ t.written, r.commitJson.commitId = id := by
  have hmem : (id, p.event) ∈ t.service.pendingCommits.entries.map (fun q => (q.1, q.2.event)) :=
    mem_map.2 ⟨(id, p), mem_entries_iff.2 hp, rfl⟩
  rw [h.pending] at hmem
  obtain ⟨e, he, heq⟩ := mem_map.1 hmem
  obtain ⟨r, hr, hid⟩ := mem_issuedEvents (mem_of_mem_drop he)
  exact ⟨r, hr, hid.symm.trans (Prod.mk.inj heq).1⟩

/-- A store that completes appends its event. -/
theorem Streams.stored (h : t.Streams) {s₁ : MemoryService} {receipt : WriteReceipt}
    (hen : cfg.commitStreamEnabled = true) (hpending : s₁.pendingCommits = t.service.pendingCommits)
    (hseq : s₁.serviceCommitSequence = t.service.serviceCommitSequence)
    (hnew : t.service.pendingCommits.get? receipt.commitJson.commitId = none) :
    Streams ⟨published cfg s₁ receipt.transactionId receipt, t.written ++ [receipt], t.acked⟩ := by
  rw [published, if_pos hen]
  refine ⟨h.acked_le.trans (by simp), ?_, ?_⟩
  · rw [hseq, h.sequence, length_append, length_singleton]
  · rw [hpending, entries_set_of_get?_eq_none hnew, map_append, h.pending,
      issuedEvents_concat, drop_append_of_le_length (by simpa using h.acked_le),
      map_append, hseq, h.sequence]
    rfl

/-- An acknowledgement advances the acknowledged prefix. -/
theorem Streams.acknowledged (h : t.Streams) {s' : MemoryService} {ids : List String}
    (hids : ids = t.service.pendingCommits.keys.take ids.length)
    (hseq : s'.serviceCommitSequence = t.service.serviceCommitSequence)
    (hpending : s'.pendingCommits.entries = t.service.pendingCommits.entries.drop ids.length) :
    Streams ⟨s', t.written ++ [], t.acked + ids.length⟩ := by
  rw [append_nil]
  have hlen : t.service.pendingCommits.length = t.written.length - t.acked := by
    have hcount := congrArg List.length h.pending
    rwa [length_map, length_map, length_drop, length_issuedEvents] at hcount
  have hle : ids.length ≤ t.service.pendingCommits.length := by
    have htake := congrArg List.length hids
    rw [length_take, length_keys] at htake
    omega
  have hacked := h.acked_le
  refine ⟨?_, hseq.trans h.sequence, ?_⟩
  · dsimp only
    omega
  · rw [hpending, map_drop, h.pending, ← map_drop, drop_drop]

/-- **Every move keeps the stream**, as long as the digest tells the issued documents apart. -/
theorem Streams.move (h : t.Streams) (ht : t.History cfg) (hen : cfg.commitStreamEnabled = true)
    (hmove : Move cfg t.service c a s') (hfree : CollisionFree cfg (t.written ++ completes t.service c a)) :
    Streams ⟨s', t.written ++ completes t.service c a, t.acked + acknowledges c a⟩ := by
  have hsame : ∀ {s' : MemoryService}, s'.pendingCommits = t.service.pendingCommits →
      s'.serviceCommitSequence = t.service.serviceCommitSequence →
      Streams ⟨s', t.written ++ [], t.acked + 0⟩ := by
    intro s' hpending hseq
    rw [append_nil]
    refine ⟨h.acked_le, hseq.trans h.sequence, ?_⟩
    rw [hpending]
    exact h.pending
  have hwritten := (ht.move hmove 0)
  cases hmove with
  | @replayed c key payload r hc hentry =>
    have hnone : completes t.service c (.ok (.receipt r)) = [] ∧ acknowledges c (.ok (.receipt r)) = 0 := by
      cases c with
      | write key' address value width byteEnable =>
        cases Option.some.inj hc
        cases r with
        | snapshot snapshot => exact ⟨rfl, rfl⟩
        | written r => exact ⟨if_neg (by rw [hentry]; simp), rfl⟩
      | read => exact ⟨rfl, rfl⟩
      | _ => cases hc
    rw [hnone.1, hnone.2]
    exact hsame rfl rfl
  | @stored key address value width byteEnable region offset hfresh hfull hres hfits hroom hcount
      receipt hreceipt =>
    have hone : completes t.service (.write key address value width byteEnable)
        (.ok (.receipt (.written receipt))) = [receipt] := if_pos hfresh.absent
    rw [hone] at hfree hwritten ⊢
    have hkey : receipt.transactionId = key := by
      rw [hreceipt]
      rfl
    rw [← hkey] at hfresh ⊢
    refine h.stored hen rfl rfl ?_
    -- an id already pending would be that of an earlier store with the same key
    by_contra hsome
    obtain ⟨p, hp⟩ := Option.ne_none_iff_exists'.1 hsome
    obtain ⟨r, hr, hid⟩ := h.mem_of_pending hp
    have hsame := transactionId_eq_of_commitId hwritten hfree (mem_append_left _ hr)
      (mem_append_right _ (.head _)) hid
    obtain ⟨d, hd⟩ := ht.frozen r hr
    rw [hsame, hfresh.absent] at hd
    cases hd
  | @acknowledged ids hids pending issued hpending hissued => exact h.acknowledged hids rfl hpending
  | @refused c e =>
    have hnone : completes t.service c (.error e) = [] ∧ acknowledges c (.error e) = 0 := by
      cases c <;> exact ⟨rfl, rfl⟩
    rw [hnone.1, hnone.2]
    exact hsame rfl rfl
  | fetched | uncertain | accepted | memory | lookedUp | issued | drained => exact hsame rfl rfl

/-! ## Runs -/

/-- What was issued and acknowledged stays so. -/
def Extends (t t' : CommitTrace) : Prop :=
  (∃ more, t'.written = t.written ++ more) ∧ t.acked ≤ t'.acked

theorem extends_run (cfg : ServiceConfig) (cs : List ServiceCall) (t : CommitTrace) :
    Extends t (run (record cfg) t cs) := by
  refine run_rel (R := Extends) (fun t => ⟨⟨[], (append_nil _).symm⟩, le_refl _⟩) ?_ ?_ cs t
  · rintro t₁ t₂ t₃ ⟨⟨more, h⟩, hle⟩ ⟨⟨more', h'⟩, hle'⟩
    exact ⟨⟨more ++ more', by rw [h', h, append_assoc]⟩, hle.trans hle'⟩
  · exact fun t c => ⟨⟨_, rfl⟩, Nat.le_add_right _ _⟩

theorem streams_run (cfg : ServiceConfig) (hen : cfg.commitStreamEnabled = true)
    (cs : List ServiceCall) : (run (record cfg) (init cfg) cs).History cfg ∧
      (CollisionFree cfg (run (record cfg) (init cfg) cs).written →
        (run (record cfg) (init cfg) cs).Streams) :=
  run_invariant (P := fun t : CommitTrace => t.History cfg ∧ (CollisionFree cfg t.written → t.Streams))
    (fun _ c h => ⟨h.1.record c, fun hfree =>
      (h.2 (CollisionFree.left hfree)).move h.1 hen (move_call h.1.inv c) hfree⟩) cs
    ⟨history_init cfg, fun _ => streams_init cfg⟩

/-- An issued event stays issued, at its place. -/
theorem mem_take_of_extends {t t' : CommitTrace} (h : Extends t t')
    (he : e ∈ (issuedEvents t.written).take t.acked) :
    e ∈ (issuedEvents t'.written).take t'.acked := by
  obtain ⟨⟨more, hmore⟩, hle⟩ := h
  obtain ⟨rest, hrest⟩ : ∃ rest, issuedEvents (t.written ++ more) = issuedEvents t.written ++ rest :=
    ⟨_, mapIdx_append⟩
  rw [hmore, hrest]
  have hpre : (issuedEvents t.written).take t.acked <+: issuedEvents t.written ++ rest :=
    (List.take_prefix _ _).trans (prefix_append _ _)
  refine (prefix_take_iff.2 ⟨hpre, ?_⟩).subset he
  exact (length_take_le _ _).trans hle

/-- **Acknowledged events are not pending**: the commit ids of a stream are distinct. -/
theorem Streams.not_pending (h : t.Streams) (ht : t.History cfg)
    (hfree : CollisionFree cfg t.written) (he : e ∈ (issuedEvents t.written).take t.acked) :
    t.service.pendingCommits.get? e.commitId = none := by
  have hnodup : ((issuedEvents t.written).map commitId).Nodup := by
    have hmap : (issuedEvents t.written).map commitId
        = t.written.map fun r => r.commitJson.commitId :=
      ext_getElem (by simp) fun i _ _ => by simp [issuedEvents]
    rw [hmap]
    refine (List.Nodup.of_map _ ht.nodup).map_on fun r hr r' hr' hid => ?_
    exact inj_on_of_nodup_map ht.nodup hr hr'
      (transactionId_eq_of_commitId ht hfree hr hr' hid)
  have hdisj : ((issuedEvents t.written).take t.acked).map commitId ++
      ((issuedEvents t.written).drop t.acked).map commitId
        = (issuedEvents t.written).map commitId := by
    rw [← map_append, take_append_drop]
  rw [← hdisj, nodup_append] at hnodup
  by_contra hsome
  obtain ⟨p, hp⟩ := Option.ne_none_iff_exists'.1 hsome
  have hmem : (e.commitId, p.event) ∈
      t.service.pendingCommits.entries.map (fun q => (q.1, q.2.event)) :=
    mem_map.2 ⟨(e.commitId, p), mem_entries_iff.2 hp, rfl⟩
  rw [h.pending] at hmem
  obtain ⟨e', he', heq⟩ := mem_map.1 hmem
  exact hnodup.2.2 _ (mem_map_of_mem he) _ (mem_map_of_mem he') (Prod.mk.inj heq).1.symm

/-- The stream of a service against its history. -/
structure ExactStream (cfg : ServiceConfig) (t : CommitTrace) : Prop where
  /-- The completed stores are those of the ledger, each once. -/
  one_per_store : (∀ key r, (∃ d, t.service.ledger.entries.get? key
      = some ⟨d, .complete (.written r)⟩) ↔ r ∈ t.written ∧ r.transactionId = key) ∧
    (t.written.map WriteReceipt.transactionId).Nodup
  /-- Their events are numbered from one. -/
  numbered : (issuedEvents t.written).map CommitEvent.serviceCommitSequence
      = List.range' 1 t.written.length ∧
    (issuedEvents t.written).map CommitEvent.transaction
      = t.written.map WriteReceipt.transactionId
  /-- Pending is what was issued after the acknowledged prefix, in order. -/
  pending : t.service.pendingCommits.entries.map (fun q => (q.1, q.2.event))
    = ((issuedEvents t.written).drop t.acked).map fun e => (e.commitId, e)
  within_capacity : ∀ n ∈ cfg.commitStreamCapacity, t.service.pendingCommits.length ≤ n
  /-- A drain returns a prefix and removes nothing. -/
  drains : ∀ maxEvents : Option ℤ, (∀ n ∈ maxEvents, 1 ≤ n) →
    t.service.call cfg (.drainCommitEvents maxEvents) = (.ok (.drained
      (((issuedEvents t.written).drop t.acked).take (t.service.drainLimit maxEvents))), t.service)
  /-- An acknowledgement of the exact prefix removes exactly it. -/
  acknowledges : ∀ ids : List String,
    ids = (((issuedEvents t.written).drop t.acked).map CommitEvent.commitId).take ids.length →
    (t.service.call cfg (.ackCommitEvents ids)).1 = .ok .acknowledged ∧
    (t.service.call cfg (.ackCommitEvents ids)).2.pendingCommits.entries
      = t.service.pendingCommits.entries.drop ids.length
  /-- Any other acknowledgement changes nothing. -/
  refuses : ∀ ids : List String,
    ids ≠ (((issuedEvents t.written).drop t.acked).map CommitEvent.commitId).take ids.length →
    (∃ e, (t.service.call cfg (.ackCommitEvents ids)).1 = .error e) ∧
    (t.service.call cfg (.ackCommitEvents ids)).2 = t.service
  /-- A store refused for capacity changes nothing. -/
  capacity_refused : ∀ (key : TransactionKey) (address value width byteEnable : ℤ),
    (t.service.call cfg (.write key address value width byteEnable)).1 = .error capacityExceeded →
    (t.service.call cfg (.write key address value width byteEnable)).2 = t.service

theorem Streams.exact (h : t.Streams) (ht : t.History cfg) : t.ExactStream cfg := by
  have hevents : t.service.pendingCommits.entries.map (fun q => q.2.event)
      = (issuedEvents t.written).drop t.acked := by
    have := congrArg (List.map Prod.snd) h.pending
    rw [map_map, map_map] at this
    exact this.trans (map_id _)
  have hkeys : t.service.pendingCommits.keys
      = ((issuedEvents t.written).drop t.acked).map commitId := by
    have := congrArg (List.map Prod.fst) h.pending
    rwa [map_map, map_map] at this
  refine ⟨⟨fun key r => ⟨fun ⟨d, hd⟩ => ht.listed key d r hd, ?_⟩, ht.nodup⟩, ?_, h.pending,
    ht.inv.within_capacity, fun maxEvents hmax => ?_, fun ids hids => ?_, fun ids hids => ?_,
    fun key address value width byteEnable hraise => ?_⟩
  · rintro ⟨hr, rfl⟩
    exact ht.frozen r hr
  · exact ⟨ext_getElem (by simp) fun i _ _ => by simp [issuedEvents, Nat.add_comm],
      ext_getElem (by simp) fun i _ _ => by simp [issuedEvents]⟩
  · rw [MemoryService.call, drainCommitEvents_eq ht.inv hmax, hevents]
    rfl
  · rcases ackCommitEvents_cases ht.inv ids with ⟨-, hok, hdrop⟩ | ⟨hne, -⟩
    · exact ⟨by rw [MemoryService.call, Prod.map_fst, hok]; rfl, hdrop⟩
    · rw [hkeys] at hne
      exact absurd hids hne
  · rcases ackCommitEvents_cases ht.inv ids with ⟨heq, -⟩ | ⟨-, ⟨e, he⟩, hsame⟩
    · rw [hkeys] at heq
      exact absurd heq hids
    · exact ⟨⟨e, by rw [MemoryService.call, Prod.map_fst, he]; rfl⟩, hsame⟩
  · have hmove := move_call ht.inv (.write key address value width byteEnable)
    rw [hraise] at hmove
    generalize (t.service.call cfg (.write key address value width byteEnable)).2 = s' at hmove
    cases hmove with
    | refused => rfl
    | uncertain _ _ _ _ _ _ he => exact absurd rfl he

/-- **The commit stream loses and repeats nothing.** In every run with the stream enabled, whose digest
tells the issued documents apart, it is exact, and what was acknowledged is never pending again. -/
theorem commit_stream_exact (cfg : ServiceConfig) (hen : cfg.commitStreamEnabled = true)
    (cs : List ServiceCall) (hfree : CollisionFree cfg (run (record cfg) (init cfg) cs).written) :
    (run (record cfg) (init cfg) cs).ExactStream cfg ∧
    ∀ before after : List ServiceCall, cs = before ++ after →
      ∀ e ∈ (issuedEvents (run (record cfg) (init cfg) before).written).take
          (run (record cfg) (init cfg) before).acked,
        (run (record cfg) (init cfg) cs).service.pendingCommits.get? e.commitId = none := by
  obtain ⟨ht, h⟩ := streams_run cfg hen cs
  refine ⟨(h hfree).exact ht, fun before after hcs e he => ?_⟩
  have hext := extends_run cfg after (run (record cfg) (init cfg) before)
  rw [← run_append, ← hcs] at hext
  exact (h hfree).not_pending ht hfree (mem_take_of_extends hext he)

/-- A service whose stream holds two commits. -/
def exampleStreamService : ServiceConfig where
  memory := exampleConfig
  includeWriterKinds := false
  commitStreamCapacity := some 2
  printable _ := true
  digest
    | .write 0 1 1 1 => "1ddd40ccb75239c35929d432c157228575c55737b65202a97a883bf190f95a69"
    | .write 1 2 1 1 => "01d8a03756cd7b142cd1398556deea117054522490e952ca743043218c5cdd97"
    | _ => ""
  commitHash document := if document.fullkey.sourceSequence = 1
    then "22cc7f9ff37f04ed576372c23e6f0e9c7f2bfd8d27302e14d8e9a4594274b0e5"
    else "e7727beb9e83bc5c6be1d7ff90d7deac65fa85f302960b93171ef2d2e108dd16"
  capacity_pos n hn := by
    cases hn
    decide

/-- Two stores, the first sent twice, and the acknowledgement of the first. -/
def exampleStores : List ServiceCall :=
  [.write (LedgerSystem.exampleKey 1) 0 1 1 1, .write (LedgerSystem.exampleKey 1) 0 1 1 1,
    .write (LedgerSystem.exampleKey 2) 1 2 1 1,
    .ackCommitEvents ["22cc7f9ff37f04ed576372c23e6f0e9c7f2bfd8d27302e14d8e9a4594274b0e5"]]

/-- The stream of this run is exact: one event is acknowledged and one is pending. -/
theorem commit_stream_of_two_stores :
    (run (record exampleStreamService) (init exampleStreamService) exampleStores).ExactStream
        exampleStreamService ∧
      (run (record exampleStreamService) (init exampleStreamService) exampleStores).acked = 1 ∧
      (run (record exampleStreamService) (init exampleStreamService) exampleStores).written.length
        = 2 := by
  refine ⟨(commit_stream_exact exampleStreamService rfl exampleStores ?_).1, by decide +kernel,
    by decide +kernel⟩
  unfold CollisionFree
  decide +kernel

end CommitTrace

end MyFuzz
