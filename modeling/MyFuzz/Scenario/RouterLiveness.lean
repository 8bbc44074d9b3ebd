import MyFuzz.Scenario.RouterDelivery

/-!
# Scenario/RouterLiveness — a queue without a failed access always drains

Two rules could wait for each other: a device serves its oldest request, and a channel serves its
requests in sequence.

    device x :  A2 ── B1          A2 waits for A1, B2 for B1
    device y :  B2 ── A1

Both follow the order of acceptance, so the oldest request of the whole queue is the oldest of its
device and, unless something outside the router holds its channel, the next of its channel.  What
remains is the bound on ordinary confirmations: a full record refuses the access and keeps the
request (`drainOne_full`).
-/

namespace MyFuzz

open Run LedgerSystem TransactionLedger RouterCore List Except

variable {δ : Type}

variable {q : Request} {d : δ}

namespace RouterCore

open TransactionLedger

/-- On the channels of the queued requests, every key in the ledger was accepted by the router. -/
def EnqueueOnly (s : RouterCore δ) : Prop :=
  ∀ q ∈ s.queued, ∀ k, k.channel = q.key.channel → (s.entry (q.ledger, k)).isSome →
    (q.ledger, k) ∈ s.accepted.map Request.id

/-- On the channels of the queued requests, no target access has failed. -/
def NoFailure (s : RouterCore δ) : Prop :=
  ∀ q ∈ s.queued, ∀ k, k.channel = q.key.channel → ∀ d, s.entry (q.ledger, k) ≠ some ⟨d, .uncertainEffect⟩

variable {digest : MmioPayload → Except Exn δ} {s : RouterCore δ}

theorem not_blocked (henq : s.EnqueueOnly) (hfail : s.NoFailure) (l : ℕ) : ¬ s.Blocked l := by
  rintro ⟨x, hx, rfl, k, hc, -, ⟨d, st⟩, he, hu | hnot⟩
  · obtain rfl : st = .uncertainEffect := hu
    exact hfail x hx k hc d he
  · exact hnot (henq x hx k hc (by rw [he]; rfl))

/-- **Nothing stale is left in such a queue.** -/
theorem clean_of_enqueueOnly (hs : s.Inv digest) (henq : s.EnqueueOnly) (hfail : s.NoFailure) : s.Clean := by
  intro q hq
  obtain ⟨d, -, hp | hc⟩ := hs.pending_or_stale hq
  · exact ⟨d, hp⟩
  · exact absurd (hs.stale q hq d hc) (not_blocked henq hfail _)

/-- **The oldest request of the queue is the next of its channel.** -/
theorem head_at_target (hs : s.Inv digest) (henq : s.EnqueueOnly) (hfail : s.NoFailure)
    {h : Request} {rest : List Request} (hq : s.queued = h :: rest) :
    h.key.sourceSequence = s.target h.lane := by
  have hmem : h ∈ s.queued := by
    rw [hq]
    exact .head _
  obtain ⟨d, hd⟩ := clean_of_enqueueOnly hs henq hfail h hmem
  rw [entry_id] at hd
  have hge := mt ((hs.wf h.ledger).settled_iff hd).2 fun h : Status.Settled .targetPending => h
  rcases (not_lt.1 hge).lt_or_eq with hlt | heq
  · -- the next key of the channel waits before the head of the queue, or its effect is uncertain
    obtain ⟨k, e, hkc, hks, hke, hset⟩ := (hs.wf h.ledger).next_unsettled hd hlt
    obtain ⟨q, hqa, hid⟩ := mem_map.1 (henq h hmem k hkc (Option.isSome_of_eq_some hke))
    obtain ⟨hql, hqk⟩ := Prod.ext_iff.1 hid
    rcases hs.waiting_or_uncertain hqa (hid ▸ hke) hset with hwait | hunc
    · have hlane : q.lane = h.lane := lane_eq_iff.2 ⟨hql, (congrArg _ hqk).trans hkc⟩
      have hseq : q.key.sourceSequence = k.sourceSequence := congrArg _ hqk
      have hpre := hs.mem_before (show s.queued = [] ++ h :: rest from hq) hwait hlane
        (by rw [hseq, hks]; exact hlt)
      cases hpre
    · obtain ⟨d', st⟩ := e
      obtain rfl : st = .uncertainEffect := hunc
      exact absurd hke (hfail h hmem k hkc d')
  · exact heq.symm

/-- A delivery keeps what draining relies on. -/
theorem draining_reach (henq : s.EnqueueOnly) (hfail : s.NoFailure) {r : ℕ × ℕ}
    {L' : TransactionLedger δ (ℕ × ℕ)} (hres : (s.ledgers q.ledger).Resolves q.key d (.complete r) L') :
    let s' : RouterCore δ := ⟨s.queued.erase q, Function.update s.ledgers q.ledger L', s.accepted,
      s.accessed ++ [q]⟩
    s'.EnqueueOnly ∧ s'.NoFailure := by
  have hentry := get?_update (L := s.ledgers) hres.get?
  refine ⟨fun x hx k hc hk => ?_, fun x hx k hc d' hk => ?_⟩
  · refine henq x (mem_of_mem_erase hx) k hc ?_
    rw [entry, hentry] at hk
    by_cases hid : (x.ledger, k) = (q.ledger, q.key)
    · rw [hid, entry]
      exact Option.isSome_of_eq_some hres.pending
    · rwa [if_neg hid] at hk
  · rw [entry, hentry] at hk
    split_ifs at hk with hid
    · cases hk
    · exact hfail x (mem_of_mem_erase hx) k hc d' hk

end RouterCore

namespace RouterSystem

/-- The record of ordinary confirmations can take this request's. -/
def HasRoom (s : RouterSystem δ) (q : Request) : Prop :=
  q.window.kind = .ordinary → s.router.ordinaryDeliveryConfirmations.length < maxOrdinaryDeliveryConfirmations

/-- Ordinary confirmations kept, and those the queue may still add. -/
def ordinaryLoad (s : RouterSystem δ) : ℕ :=
  s.router.ordinaryDeliveryConfirmations.length + s.router.queued.countP fun q => q.window.kind = .ordinary

variable {s : RouterSystem δ} {device : String}

theorem mem_readyTargets :
    device ∈ s.readyTargets ↔ ∃ q, (s.router.queued.find? fun x => x.window.deviceId = device) = some q ∧
      (s.ledgers q.ledger).targetReady q.key = true := by
  rw [readyTargets, mem_mergeSort, mem_filter, mem_dedup, mem_map]
  constructor
  · rintro ⟨-, h⟩
    cases hf : s.router.queued.find? fun x => x.window.deviceId = device with
    | none =>
      rw [hf] at h
      cases h
    | some q =>
      rw [hf] at h
      exact ⟨q, rfl, h⟩
  · rintro ⟨q, hf, hr⟩
    refine ⟨⟨q, mem_of_find?_eq_some hf, by simpa using find?_some hf⟩, ?_⟩
    rw [hf]
    exact hr

section Draining

variable [DecidableEq δ] {digest : MmioPayload → Except Exn δ} {s : RouterSystem δ}

omit [DecidableEq δ] in
/-- **A ready device has a request that can be delivered**, where there is room for it. -/
theorem deliverable_of_ready (hs : s.core.Inv digest) (hdev : device ∈ s.readyTargets) :
    ∃ q d, q.window.deviceId = device ∧
      (s.router.queued.find? fun x => x.window.deviceId = q.window.deviceId) = some q ∧
      (s.ledgers q.ledger).targetReady q.key = true ∧ (s.HasRoom q → Deliverable digest s q d) := by
  obtain ⟨q, hf, hr⟩ := mem_readyTargets.1 hdev
  obtain rfl : q.window.deviceId = device := by simpa using find?_some hf
  have hq : q ∈ s.router.queued := mem_of_find?_eq_some hf
  obtain ⟨⟨d, hd⟩, hseq⟩ := targetReady_iff.1 hr
  obtain ⟨d', st, hdig, he, -⟩ := hs.placed q (hs.mem_accepted hq)
  have he : (s.ledgers q.ledger).entries.get? q.key = some ⟨d', st⟩ := he
  rw [hd] at he
  cases he
  exact ⟨q, d, rfl, hf, hr, fun hroom => ⟨hf, hd, hseq, hdig, hroom⟩⟩

/-- **Draining a deliverable request removes it and no other**, whatever the environment answers. -/
theorem Deliverable.queued_drainOne (hwf : (s.ledgers q.ledger).WF) (h : Deliverable digest s q d)
    (answer : TargetAnswer) :
    (s.drainOne digest q.window.deviceId answer).1.router.queued = s.router.queued.erase q := by
  cases hacc : answer.access with
  | error e =>
    obtain ⟨L', -, heq⟩ := h.drainOne_raised hwf hacc
    rw [heq]
    exact eraseP_eq_erase_of_find? h.found
  | ok access =>
    obtain ⟨L', -, heq⟩ := h.drainOne_returned hwf hacc
    rw [heq, callBack_queued]
    exact eraseP_eq_erase_of_find? h.found

omit [DecidableEq δ] in
/-- **The oldest request of a nonempty queue makes its device ready.** -/
theorem readyTargets_ne_nil (hs : s.core.Inv digest) (henq : s.core.EnqueueOnly)
    (hfail : s.core.NoFailure) (hq : s.router.queued ≠ []) : s.readyTargets ≠ [] := by
  obtain ⟨h, rest, hcons⟩ := exists_cons_of_ne_nil hq
  have hmem : h ∈ s.core.queued := by
    rw [show s.core.queued = h :: rest from hcons]
    exact .head _
  have hfind : (s.router.queued.find? fun x => x.window.deviceId = h.window.deviceId) = some h := by
    rw [hcons, find?_cons_of_pos (by simp)]
  have hready : (s.ledgers h.ledger).targetReady h.key = true :=
    targetReady_iff.2
      ⟨clean_of_enqueueOnly hs henq hfail h hmem, head_at_target hs henq hfail hcons⟩
  exact ne_nil_of_mem (mem_readyTargets.2 ⟨h, hfind, hready⟩)

/-! ## Draining to the end -/

omit [DecidableEq δ] in
/-- A callback confirms at most one ordinary delivery, that of an ordinary target. -/
theorem callBack_confirmations_le (s : RouterSystem δ) (answer : TargetAnswer) (q : Request)
    (row : DeliveryRow) :
    (s.callBack answer q (some row)).1.router.ordinaryDeliveryConfirmations.length ≤
      s.router.ordinaryDeliveryConfirmations.length + (if q.window.kind = .ordinary then 1 else 0) := by
  unfold callBack
  cases answer.callback with
  | error e => exact Nat.le_add_right _ _
  | ok u =>
    cases hk : q.window.kind with
    | plain | routed => simp [DataflowRouter.confirm, hk]
    | ordinary =>
      simp only [DataflowRouter.confirm, hk, if_true]
      rw [Dict.length_set]
      split <;> omega

/-- What a queue that drains relies on. -/
structure Draining (digest : MmioPayload → Except Exn δ) (s : RouterSystem δ) : Prop where
  inv : s.core.Inv digest
  enqueue_only : s.core.EnqueueOnly
  no_failure : s.core.NoFailure
  load_le : s.ordinaryLoad ≤ maxOrdinaryDeliveryConfirmations

/-- One drain of a device. -/
def drain (digest : MmioPayload → Except Exn δ) (s : RouterSystem δ) (a : String × TargetAnswer) :
    RouterSystem δ := (s.drainOne digest a.1 a.2).1

/-- The device is ready and its target access returns. -/
def ReadyAccess (s : RouterSystem δ) (a : String × TargetAnswer) : Prop :=
  a.1 ∈ s.readyTargets ∧ ∃ access, a.2.access = .ok access

omit [DecidableEq δ] in
theorem hasRoom_of_load (hload : s.ordinaryLoad ≤ maxOrdinaryDeliveryConfirmations)
    (hq : q ∈ s.router.queued) : s.HasRoom q := by
  intro hk
  have hpos : 0 < s.router.queued.countP fun q => q.window.kind = .ordinary :=
    countP_pos_iff.2 ⟨q, hq, by simpa using hk⟩
  unfold ordinaryLoad at hload
  omega

/-- **Draining a ready device keeps what draining relies on**, and the queue is one shorter. -/
theorem Draining.drain (hs : Draining digest s) {a : String × TargetAnswer} (ha : s.ReadyAccess a) :
    Draining digest (s.drain digest a) ∧
      (s.drain digest a).router.queued.length + 1 = s.router.queued.length := by
  obtain ⟨device, answer⟩ := a
  obtain ⟨hdev, access, hacc⟩ := ha
  obtain ⟨q, d, rfl, hfind, -, hdel⟩ := deliverable_of_ready hs.inv hdev
  have hq : q ∈ s.router.queued := mem_of_find?_eq_some hfind
  have hdel := hdel (hasRoom_of_load hs.load_le hq)
  have hwf := hs.inv.wf q.ledger
  obtain ⟨L', hres, heq⟩ := hdel.drainOne_returned hwf hacc
  have hmove := move_drainOne digest s hs.inv.wf q.window.deviceId answer
  have hqueue := hdel.queued_drainOne hwf answer
  have hdrain : s.drain digest (q.window.deviceId, answer)
    = (s.drainOne digest q.window.deviceId answer).1 := rfl
  obtain ⟨henq, hfail⟩ := draining_reach hs.enqueue_only hs.no_failure hres
  have hcore := core_delivered s hdel.found (Function.update s.ledgers q.ledger L') access answer
    (s.router.deliveryRow q access)
  rw [← heq] at hcore
  refine ⟨⟨hs.inv.step hmove.coreStep, ?_, ?_, ?_⟩, ?_⟩
  · rw [hdrain, hcore]
    exact henq
  · rw [hdrain, hcore]
    exact hfail
  · have hperm := (perm_cons_erase hq).countP_eq fun q => decide (q.window.kind = .ordinary)
    rw [countP_cons] at hperm
    have hconf := callBack_confirmations_le ⟨(s.router.delivered q access).pop q.window.deviceId,
      Function.update s.ledgers q.ledger L',
      s.trace ++ [.accessReturned q (s.router.deliveryRow q access)]⟩ answer q
      (s.router.deliveryRow q access)
    rw [← heq] at hconf
    have hload := hs.load_le
    unfold ordinaryLoad at hload ⊢
    rw [hdrain, hqueue]
    simp only [DataflowRouter.pop, DataflowRouter.delivered, decide_eq_true_eq] at hconf hperm
    omega
  · rw [hdrain, hqueue, length_erase_of_mem hq]
    have := length_pos_of_mem hq
    omega

/-- **A run of drains** shortens the queue by one each and stops only at the empty queue. -/
theorem Draining.run : ∀ (as : List (String × TargetAnswer)) {s : RouterSystem δ},
    Draining digest s → Guarded (RouterSystem.drain digest) ReadyAccess s as →
      Draining digest (run (RouterSystem.drain digest) s as) ∧
      (run (RouterSystem.drain digest) s as).router.queued.length + as.length
        = s.router.queued.length
  | [], _, hs, _ => ⟨hs, rfl⟩
  | a :: as, s, hs, hg => by
      obtain ⟨hs', hlen⟩ := hs.drain hg.1
      obtain ⟨hrun, hlen'⟩ := Draining.run as hs' hg.2
      refine ⟨hrun, ?_⟩
      rw [run_cons, length_cons, ← hlen, ← hlen']
      omega

theorem inv_run (digest : MmioPayload → Except Exn δ) {s : RouterSystem δ}
    (hs : s.core.Inv digest) (as : List RouterAction) : (run (step digest) s as).core.Inv digest :=
  run_invariant (P := fun s : RouterSystem δ => s.core.Inv digest)
    (fun s a h => h.step (move_step digest s h.wf a).coreStep) as hs

/-- A full record of confirmations refuses an ordinary access and changes nothing. -/
theorem drainOne_full (digest : MmioPayload → Except Exn δ)
    (hfind : (s.router.queued.find? fun x => x.window.deviceId = q.window.deviceId) = some q)
    (hready : (s.ledgers q.ledger).targetReady q.key = true) (hfull : ¬ s.HasRoom q)
    (answer : TargetAnswer) : s.drainOne digest q.window.deviceId answer
      = (s, .error (.valueError "ordinary APB source confirmation capacity exceeded")) := by
  have hfull : q.window.kind = .ordinary ∧
      maxOrdinaryDeliveryConfirmations ≤ s.router.ordinaryDeliveryConfirmations.length := by
    simpa [HasRoom] using hfull
  unfold drainOne
  simp only [hfind, hready, not_true_eq_false, if_false, hfull, and_self, if_true]

/-- **A queue without a failed access never deadlocks.** Where the router alone accepted on the queued
channels: a nonempty queue has a ready device; draining it removes exactly one request, unless the record of
confirmations is full, when it raises and changes nothing; and with room in the record, drains empty the
queue. -/
theorem router_never_deadlocks {π : Type} (digest : MmioPayload → Except Exn δ)
    (digest₀ : π → Except Exn δ) (histories : ℕ → List (LedgerAction π (ℕ × ℕ)))
    (windows : WindowMap) (as : List RouterAction) :
    let s := run (step digest) (start digest₀ histories windows) as
    s.core.EnqueueOnly → s.core.NoFailure → (s.router.queued ≠ [] → s.readyTargets ≠ []) ∧
      (∀ device ∈ s.readyTargets, ∃ q ∈ s.router.queued, q.window.deviceId = device ∧ ∀ answer,
          (s.HasRoom q → (s.drainOne digest device answer).1.router.queued
            = s.router.queued.erase q) ∧
          (¬ s.HasRoom q → s.drainOne digest device answer
            = (s, .error (.valueError "ordinary APB source confirmation capacity exceeded")))) ∧
      (s.ordinaryLoad ≤ maxOrdinaryDeliveryConfirmations → ∀ ds, Guarded (drain digest) ReadyAccess s ds →
          (run (drain digest) s ds).router.queued.length + ds.length = s.router.queued.length ∧
          ((run (drain digest) s ds).readyTargets = [] → (run (drain digest) s ds).router.queued = [])) := by
  intro s henq hfail
  have hs : s.core.Inv digest := inv_run digest (inv_start digest₀ histories windows) as
  refine ⟨readyTargets_ne_nil hs henq hfail, fun device hdev => ?_, fun hload ds hds => ?_⟩
  · obtain ⟨q, d, rfl, hfind, hready, hdel⟩ := deliverable_of_ready hs hdev
    exact ⟨q, List.mem_of_find?_eq_some hfind, rfl, fun answer =>
      ⟨fun hroom => (hdel hroom).queued_drainOne (hs.wf q.ledger) answer,
        fun hfull => drainOne_full digest hfind hready hfull answer⟩⟩
  · obtain ⟨hdr, hlen⟩ := Draining.run ds ⟨hs, henq, hfail, hload⟩ hds
    refine ⟨hlen, fun hnil => ?_⟩
    by_contra hne
    exact readyTargets_ne_nil hdr.inv hdr.enqueue_only hdr.no_failure hne hnil

end Draining

/-! ## Fresh ledgers -/

section Fresh

variable [DecidableEq δ] {digest : MmioPayload → Except Exn δ}

/-- Every key in a ledger was accepted by the router. -/
def AllEnqueued (s : RouterCore δ) : Prop :=
  ∀ i, (s.entry i).isSome → i ∈ s.accepted.map Request.id

theorem AllEnqueued.step {s s' : RouterCore δ} (hs : s.Inv digest) (h : AllEnqueued s)
    (hstep : RouterCore.Step digest s s') : AllEnqueued s' := by
  cases hstep with
  | same => exact h
  | @accept q d hd hn hseq =>
    intro i hi
    rw [entry, get?_update (get?_push _ _ · _)] at hi
    rw [map_append, mem_append]
    by_cases hid : i = (q.ledger, q.key)
    · exact .inr (by simp [hid, Request.id])
    · rw [if_neg hid] at hi
      exact .inl (h i hi)
  | @reach q d st L' hst hfind hres =>
    intro i hi
    refine h i ?_
    rw [entry, get?_update hres.get?] at hi
    by_cases hid : i = (q.ledger, q.key)
    · rw [hid, entry]
      exact Option.isSome_of_eq_some hres.pending
    · rwa [if_neg hid] at hi
  | @cancel l L' hrun =>
    intro i hi
    refine h i ?_
    rcases get?_update_cancelRun (hs.wf l) (fun q hq => by simpa using (mem_filter.1 hq).2)
      hrun i with ⟨-, he⟩ | ⟨q, -, -, d, -, he, -⟩
    · rw [← he]
      exact hi
    · exact Option.isSome_of_eq_some he
  | @cancelFailed l L' pre post x e hq hx hrun hfail =>
    intro i hi
    refine h i ?_
    rcases get?_update_cancelRun (hs.wf l) (fun q hq => by simpa using (mem_filter.1 hq).2)
      hrun i with ⟨-, he⟩ | ⟨q, -, -, d, -, he, -⟩
    · rw [← he]
      exact hi
    · exact Option.isSome_of_eq_some he

/-- **Over fresh ledgers the router is the only one to accept.** -/
theorem enqueueOnly_run (digest : MmioPayload → Except Exn δ) (windows : WindowMap) (as : List RouterAction) :
    (run (step digest) (start (π := MmioPayload) digest (fun _ => []) windows) as).core.EnqueueOnly := by
  have hstep : ∀ (s : RouterSystem δ) a, s.core.Inv digest ∧ AllEnqueued s.core →
      (s.step digest a).core.Inv digest ∧ AllEnqueued (s.step digest a).core := fun s a hs =>
    have hstep := (move_step digest s hs.1.wf a).coreStep
    ⟨hs.1.step hstep, hs.2.step hs.1 hstep⟩
  have h := run_invariant hstep as
    ⟨inv_start digest (fun _ => []) windows, fun i hi => by cases hi⟩
  exact fun q _ k _ hk => h.2 _ hk

omit [DecidableEq δ] in
/-- A ledger without uncertain keys has no failed access. -/
theorem noFailure_of_uncertainKeys
    (h : ∀ q ∈ s.router.queued, (s.ledgers q.ledger).uncertainKeys = []) : s.core.NoFailure := by
  intro q hq k _ d he
  have hmem : k ∈ (s.ledgers q.ledger).uncertainKeys :=
    mem_uncertainKeys.2 ⟨_, he, trivial⟩
  rw [h q hq] at hmem
  exact not_mem_nil hmem

end Fresh

/-! ## Two channels across two devices -/

/-- A second register window. -/
def otherWindow : DeviceWindow := ⟨"spi", 0x2000, 0x1000, .plain, by decide⟩

def crossedWindows : WindowMap := ⟨[exampleWindow, otherWindow], by decide⟩

/-- Two channels whose requests cross two devices. -/
def crossedRun : List RouterAction :=
  [.enqueue 0 (LedgerSystem.exampleKey 1) 0x1000 true 1 15 4, .enqueue 0 (otherKey 1) 0x2000 true 1 15 4,
    .enqueue 0 (LedgerSystem.exampleKey 2) 0x2000 true 1 15 4, .enqueue 0 (otherKey 2) 0x1000 true 1 15 4]

/-- The crossed queue drains. -/
theorem crossed_queue_drains :
    let s := run (step Except.ok) (start (π := MmioPayload) Except.ok (fun _ => []) crossedWindows) crossedRun
    s.router.queued.length = 4 ∧ s.readyTargets ≠ [] := by
  refine ⟨by decide, ?_⟩
  exact (router_never_deadlocks Except.ok Except.ok (fun _ => []) crossedWindows crossedRun
    (enqueueOnly_run Except.ok crossedWindows crossedRun)
    (noFailure_of_uncertainKeys (by decide))).1 (by decide)

/-! ## A full record of confirmations -/

/-- A window with an ordinary target. -/
def apbWindow : DeviceWindow := ⟨"apb", 0x1000, 0x1000, .ordinary, by decide⟩

def apbWindows : WindowMap := ⟨[apbWindow], List.pairwise_singleton _ _⟩

/-- The prepared form of `exampleWrite` at the ordinary window. -/
def apbRequest (n : ℕ) : Request :=
  ⟨0, LedgerSystem.exampleKey n, ⟨"apb", 0x1000, true, 1, 15, 4⟩, apbWindow, 15, 1, 0, true⟩

/-- A router that has confirmed `n` ordinary deliveries of one channel and queues nothing. -/
structure Confirmed (n : ℕ) (s : RouterSystem MmioPayload) : Prop where
  reached : ∃ as, s = run (step Except.ok)
    (start (π := MmioPayload) Except.ok (fun _ => []) apbWindows) as
  windows : s.router.windows = apbWindows
  queued : s.router.queued = []
  nextChannel : (s.ledgers 0).nextChannel (LedgerSystem.exampleKey 0).channel = n + 1
  nextTarget : (s.ledgers 0).nextTarget (LedgerSystem.exampleKey 0).channel = n + 1
  confirmations : s.router.ordinaryDeliveryConfirmations.length = n
  fresh : ∀ m, n < m → s.router.ordinaryDeliveryConfirmations.get? (LedgerSystem.exampleKey m) = none
  certain : ∀ k d, (s.ledgers 0).entries.get? k ≠ some ⟨d, .uncertainEffect⟩

namespace Confirmed

variable {n : ℕ} {s : RouterSystem MmioPayload}

theorem inv (h : Confirmed n s) : s.core.Inv ok := by
  obtain ⟨as, rfl⟩ := h.reached
  exact inv_run ok (inv_start ok (fun _ => []) apbWindows) as

theorem wf (h : Confirmed n s) (l : ℕ) : (s.ledgers l).WF := h.inv.wf l

/-- The next write is accepted. -/
theorem enqueue_eq (h : Confirmed n s) : s.step ok (exampleWrite (exampleKey (n + 1)))
    = ⟨s.router.accept (apbRequest (n + 1)), Function.update s.ledgers 0
      ((s.ledgers 0).push (exampleKey (n + 1))
        ⟨(apbRequest (n + 1)).payload, .targetPending⟩),
      s.trace ++ [.accepted (apbRequest (n + 1))]⟩ := by
  have hprep : s.router.prepare 0 (exampleKey (n + 1)) 0x1000 true 1 15 4
      = .ok (apbRequest (n + 1)) := by
    unfold DataflowRouter.prepare DataflowRouter.window?
    rw [h.windows]
    rfl
  have hnone : (s.ledgers 0).entries.get? (exampleKey (n + 1)) = none := by
    rw [← Option.not_isSome_iff_eq_none, (h.wf 0).accepted_iff]
    have := h.nextChannel
    change ¬ (1 ≤ n + 1 ∧ n + 1 < (s.ledgers 0).nextChannel (exampleKey 0).channel)
    omega
  have hacc : (s.ledgers 0).accept ok (exampleKey (n + 1))
      (apbRequest (n + 1)).payload = .ok (true, (s.ledgers 0).push
        (exampleKey (n + 1)) ⟨(apbRequest (n + 1)).payload, .targetPending⟩) := by
    have hseq : (exampleKey (n + 1)).sourceSequence
        = (s.ledgers 0).nextChannel (exampleKey (n + 1)).channel := h.nextChannel.symm
    simp [accept, hnone, Outcome.ensure_of hseq]
  simp only [step, exampleWrite, enqueue, hprep, hacc]

/-- The accepted write stands at the head of the queue and of its channel. -/
theorem next_pending (h : Confirmed n s) :
    let s₁ := s.step ok (exampleWrite (exampleKey (n + 1)))
    s₁.router.queued = [apbRequest (n + 1)] ∧ (s₁.ledgers 0).entries.get? (exampleKey (n + 1))
        = some ⟨(apbRequest (n + 1)).payload, .targetPending⟩ ∧
      (s₁.ledgers 0).nextTarget (exampleKey 0).channel = n + 1 := by
  intro s₁
  refine ⟨?_, ?_, ?_⟩
  · simp only [s₁, h.enqueue_eq, DataflowRouter.accept, h.queued, nil_append]
  · simp only [s₁, h.enqueue_eq, Function.update_self, get?_push, if_true]
  · simp only [s₁, h.enqueue_eq, Function.update_self, nextTarget_push]
    exact h.nextTarget

/-- **One more write is confirmed** while the record has room. -/
theorem succ (h : Confirmed n s) (hn : n < maxOrdinaryDeliveryConfirmations) :
    ∃ s', Confirmed (n + 1) s' := by
  obtain ⟨hq, hpend, htarget⟩ := h.next_pending
  obtain ⟨s₁, hs₁⟩ : ∃ s₁, s₁ = s.step ok (exampleWrite (exampleKey (n + 1))) := ⟨_, rfl⟩
  have hwf₁ : (s₁.ledgers 0).WF := hs₁ ▸ (h.inv.step (move_step ok s h.wf _).coreStep).wf 0
  rw [← hs₁] at hq hpend htarget
  rw [h.enqueue_eq] at hs₁
  have hdel : Deliverable ok s₁ (apbRequest (n + 1)) (apbRequest (n + 1)).payload := by
    refine ⟨?_, hpend, htarget.symm, rfl, fun _ => ?_⟩
    · rw [hq]
      simp
    · rw [hs₁]
      exact h.confirmations.trans_lt hn
  obtain ⟨L', hres, heq⟩ := hdel.drainOne_returned hwf₁ (show returningAnswer.access = .ok ⟨0, none⟩ from rfl)
  obtain ⟨s₂, hs₂⟩ : ∃ s₂, s₂ = s₁.step ok (.drainOne "apb" returningAnswer) := ⟨_, rfl⟩
  have hs₂' : s₂ = _ := hs₂.trans (congrArg Prod.fst heq)
  have hL : s₂.ledgers 0 = L' := by
    rw [hs₂', callBack_ledgers]
    exact Function.update_self (f := s₁.ledgers) 0 L'
  have hnone := h.fresh (n + 1) (Nat.lt_succ_self n)
  refine ⟨s₂, ?_, ?_, ?_, ?_, ?_, ?_, ?_, ?_⟩
  · obtain ⟨as, has⟩ := h.reached
    refine ⟨as ++ [exampleWrite (exampleKey (n + 1)), .drainOne "apb" returningAnswer], ?_⟩
    rw [run_append, ← has, hs₂, hs₁, ← h.enqueue_eq]
    rfl
  · rw [hs₂', hs₁]
    exact h.windows
  · rw [hs₂', callBack_queued]
    simp [DataflowRouter.pop, DataflowRouter.delivered, hq]
  · rw [hL, hres.nextChannel, hs₁]
    simp only [apbRequest, Function.update_self, nextChannel_push]
    rw [if_pos (show (exampleKey 0).channel = (exampleKey (n + 1)).channel
      from rfl), h.nextChannel]
  · rw [hL, hres.nextTarget, if_pos ⟨rfl, trivial⟩]
    exact congrArg (· + 1) htarget
  · rw [hs₂', hs₁]
    refine (Dict.length_set _ _ _).trans ?_
    change (if (s.router.ordinaryDeliveryConfirmations.get?
      (exampleKey (n + 1))).isSome then _ else _) = n + 1
    rw [hnone]
    exact congrArg (· + 1) h.confirmations
  · intro m hm
    rw [hs₂', hs₁]
    refine (Dict.get?_set_of_ne _ ?_ _).trans (h.fresh m (by omega))
    intro hk
    have : m = n + 1 := congrArg TransactionKey.sourceSequence hk
    omega
  · intro k d hk
    rw [hL, hres.get?] at hk
    split at hk
    · cases hk
    · rw [hs₁] at hk
      simp only [apbRequest, Function.update_self, get?_push] at hk
      split at hk
      · cases hk
      · exact h.certain k d hk

/-- **Any number of writes up to the bound can be confirmed.** -/
theorem exists_confirmed : ∀ n ≤ maxOrdinaryDeliveryConfirmations, ∃ s, Confirmed n s
  | 0, _ => ⟨start (π := MmioPayload) ok (fun _ => []) apbWindows, ⟨[], rfl⟩, rfl, rfl, rfl, rfl,
      rfl, fun _ _ => rfl, fun _ _ h => by cases h⟩
  | n + 1, hn => by
      obtain ⟨s, hs⟩ := exists_confirmed n (Nat.le_of_succ_le hn)
      exact hs.succ hn

/-- **With the record full the next write is ready and refused.** -/
theorem next_refused (h : Confirmed n s) (hn : maxOrdinaryDeliveryConfirmations ≤ n) (answer : TargetAnswer) :
    let s₁ := s.step ok (exampleWrite (exampleKey (n + 1)))
    s₁.core.NoFailure ∧ "apb" ∈ s₁.readyTargets ∧ (s₁.drainOne ok "apb" answer).1 = s₁ := by
  intro s₁
  obtain ⟨hq, hpend, htarget⟩ := h.next_pending
  have hfind : (s₁.router.queued.find? fun x => x.window.deviceId = "apb")
      = some (apbRequest (n + 1)) := by
    rw [hq]
    rfl
  have hready : (s₁.ledgers 0).targetReady (exampleKey (n + 1)) = true :=
    targetReady_iff.2 ⟨⟨_, hpend⟩, htarget.symm⟩
  refine ⟨?_, mem_readyTargets.2 ⟨_, hfind, hready⟩, ?_⟩
  · intro q hmem k _ d hk
    rw [show s₁.core.queued = [apbRequest (n + 1)] from hq] at hmem
    obtain rfl := mem_singleton.1 hmem
    have hk : (s₁.ledgers 0).entries.get? k = some ⟨d, .uncertainEffect⟩ := hk
    simp only [s₁, h.enqueue_eq, Function.update_self, get?_push] at hk
    split at hk
    · cases hk
    · exact h.certain k d hk
  · have hfull : ¬ s₁.HasRoom (apbRequest (n + 1)) := fun hroom => by
      have hlt := hroom rfl
      simp only [s₁, h.enqueue_eq, DataflowRouter.accept, h.confirmations] at hlt
      omega
    have hdrain := drainOne_full ok (q := apbRequest (n + 1)) hfind hready hfull answer
    rw [show "apb" = (apbRequest (n + 1)).window.deviceId from rfl, hdrain]

end Confirmed

/-- **A ready device is not always drained**: once the record of confirmations is full, the next
ordinary request is ready and stays queued. -/
theorem full_confirmations_keep_request :
    ¬ ∀ (windows : WindowMap) (as : List RouterAction) (device : String) (answer : TargetAnswer),
      let s := run (step Except.ok) (start (π := MmioPayload) Except.ok (fun _ => []) windows) as
      s.core.EnqueueOnly → s.core.NoFailure → device ∈ s.readyTargets →
        (s.drainOne Except.ok device answer).1.router.queued.length + 1 = s.router.queued.length := by
  intro h
  obtain ⟨s, hs⟩ := Confirmed.exists_confirmed _ (le_refl maxOrdinaryDeliveryConfirmations)
  obtain ⟨as, has⟩ := hs.reached
  obtain ⟨hfail, hready, hsame⟩ := hs.next_refused (le_refl _) returningAnswer
  have hrun : run (step Except.ok) (start (π := MmioPayload) Except.ok (fun _ => []) apbWindows)
      (as ++ [exampleWrite (LedgerSystem.exampleKey (maxOrdinaryDeliveryConfirmations + 1))])
      = s.step Except.ok
        (exampleWrite (LedgerSystem.exampleKey (maxOrdinaryDeliveryConfirmations + 1))) := by
    rw [run_concat, ← has]
  have henq := enqueueOnly_run Except.ok apbWindows
    (as ++ [exampleWrite (LedgerSystem.exampleKey (maxOrdinaryDeliveryConfirmations + 1))])
  have h := h apbWindows _ "apb" returningAnswer henq
  rw [hrun] at h
  have h := h hfail hready
  rw [hsame] at h
  omega

end RouterSystem

end MyFuzz
