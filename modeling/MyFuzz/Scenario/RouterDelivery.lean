import MyFuzz.Scenario.LedgerDelivery
import MyFuzz.Scenario.RouterInvariant

/-!
# Scenario/RouterDelivery — nothing lost, duplicated or reordered

A request leaves the queue in one of two ways, and the ledger records which:

    accepted ──▸ queued ──▸ at the target, once ──▸ callback, at most once
                       └──▸ cancelled

`cancel_for_ledger` cancels in the ledger one request at a time but replaces the queue at the end,
so a pass that raises half-way leaves requests that are both cancelled and queued.  `cancelSafe` is
the condition on the state before the call under which that cannot happen: the first request is
refused at once, or the oldest request of every channel is ready.  Along runs that meet it the queue
holds pending requests only (`Clean`) and every lane is served in acceptance order (`InOrder`).
-/

namespace MyFuzz

open Run DataflowRouter DeliveryRow List

variable {δ : Type}

/-- The requests whose callback was called, in order. -/
def callbacksOf (trace : List RouterEvent) : List Request :=
  trace.filterMap fun
    | .callbackCalled q => some q
    | _ => none

/-- The rows of the completed target accesses, in order of completion. -/
def rowsOf (trace : List RouterEvent) : List DeliveryRow :=
  trace.filterMap fun
    | .accessReturned _ row => some row
    | _ => none

@[simp] theorem callbacksOf_append (t t' : List RouterEvent) :
    callbacksOf (t ++ t') = callbacksOf t ++ callbacksOf t' := filterMap_append

@[simp] theorem rowsOf_append (t t' : List RouterEvent) :
    rowsOf (t ++ t') = rowsOf t ++ rowsOf t' := filterMap_append

namespace RouterSystem

/-- The ledger has cancelled the request. -/
def cancelled (s : RouterSystem δ) (q : Request) : Bool :=
  match (s.ledgers q.ledger).entries.get? q.key with
  | some ⟨_, .cancelled⟩ => true
  | _ => false

/-- A cancellation pass cannot stop half-way: the ledger's oldest queued request is not ready, or
the oldest queued request of each of its channels is. -/
def cancelSafe (s : RouterSystem δ) (ledger : ℕ) : Bool :=
  (match s.router.queued.find? fun q => q.ledger = ledger with
    | some q => !(s.ledgers ledger).targetReady q.key
    | none => true) ||
  (s.router.queued.filter fun q => q.ledger = ledger).all fun q =>
    match s.router.queued.find? fun x => x.lane = q.lane with
    | some f => (s.ledgers ledger).targetReady f.key
    | none => true

/-- The guard of a run: cancellation is asked for when it cannot stop half-way. -/
def Safe (s : RouterSystem δ) : RouterAction → Prop
  | .cancelForLedger ledger => s.cancelSafe ledger
  | _ => True

/-- What delivery promises of a reached state. -/
structure Delivers (s : RouterSystem δ) : Prop where
  /-- No identity is accepted twice. -/
  identified : ((acceptedOf s.trace).map Request.id).Nodup
  /-- An accepted request is queued once, or went to its target once, or is cancelled. -/
  exactly_one : ∀ q ∈ acceptedOf s.trace,
    s.router.queued.count q + (accessedOf s.trace).count q + (if s.cancelled q then 1 else 0) = 1
  /-- Nothing else is queued or reaches a target. -/
  only_accepted : ∀ q, q ∈ s.router.queued ∨ q ∈ accessedOf s.trace → q ∈ acceptedOf s.trace
  callback_once : ∀ q, (callbacksOf s.trace).count q ≤ 1
  callback_after_access : ∀ q pre post, s.trace = pre ++ .callbackCalled q :: post →
    ∃ row, .accessReturned q row ∈ pre
  /-- The requests of a source channel reach the target as they were accepted. -/
  channel_order : ∀ c, ((accessedOf s.trace).filter fun q => q.lane = c).Sublist
    ((acceptedOf s.trace).filter fun q => q.lane = c)
  /-- The requests of a device reach it as they were accepted. -/
  device_order : ∀ d, ((accessedOf s.trace).filter fun q => q.window.deviceId = d).Sublist
    ((acceptedOf s.trace).filter fun q => q.window.deviceId = d)
  /-- Completed accesses are numbered in order of completion, and published so. -/
  delivery_order : ((rowsOf s.trace).map DeliveryRow.deliveryOrder).Pairwise (· < ·) ∧
    (s.router.deliveries.map DeliveryRow.deliveryOrder).Pairwise (· < ·)

end RouterSystem

variable {digest : MmioPayload → Except Exn δ} {q x : Request} {l : ℕ}

/-! ## Served in order -/

namespace RouterCore

open TransactionLedger

/-- Every queued request is pending in its ledger. -/
def Clean (s : RouterCore δ) : Prop := ∀ q ∈ s.queued, ∃ d, s.entry q.id = some ⟨d, .targetPending⟩

/-- The requests of a kind that reached a target, and those still queued, are in acceptance
order. -/
def InOrder (s : RouterCore δ) (p : Request → Bool) : Prop :=
  (s.accessed.filter p ++ s.queued.filter p).Sublist (s.accepted.filter p)

variable {α : Type*} {p : α → Bool} {a : α} {s : RouterCore δ}

theorem filter_erase_of_find? [DecidableEq α] :
    ∀ {l : List α}, l.find? p = some a → l.filter p = a :: (l.erase a).filter p
  | [], h => by cases h
  | x :: xs, h => by
      by_cases hp : p x = true
      · obtain rfl : x = a := by simpa [find?_cons, hp] using h
        rw [erase_cons_head, filter_cons_of_pos hp]
      · have ha : x ≠ a := by
          rintro rfl
          exact hp (find?_some h)
        rw [find?_cons_of_neg hp] at h
        rw [filter_cons_of_neg hp, erase_cons_tail (by simpa using ha),
          filter_cons_of_neg hp, filter_erase_of_find? h]

theorem filter_erase_of_neg [DecidableEq α] (ha : p a = false) :
    ∀ l : List α, (l.erase a).filter p = l.filter p
  | [] => rfl
  | x :: xs => by
      by_cases hx : x = a
      · subst hx
        rw [erase_cons_head, filter_cons_of_neg (by simp [ha])]
      · rw [erase_cons_tail (by simpa using hx), filter_cons, filter_cons,
          filter_erase_of_neg ha xs]

/-- Accepting a request puts it last in every order. -/
theorem InOrder.accept {s : RouterCore δ} {p : Request → Bool} (h : s.InOrder p) (q : Request)
    (L : ℕ → TransactionLedger δ (ℕ × ℕ)) :
    InOrder ⟨s.queued ++ [q], L, s.accepted ++ [q], s.accessed⟩ p := by
  unfold InOrder at h ⊢
  simp only [filter_append, ← append_assoc]
  exact h.append_right _

/-- Taking the first request of a kind keeps the order of that kind. -/
theorem InOrder.reach {s : RouterCore δ} {p : Request → Bool} (h : s.InOrder p) {q : Request}
    (hfirst : p q = true → s.queued.find? p = some q) (L : ℕ → TransactionLedger δ (ℕ × ℕ)) :
    InOrder ⟨s.queued.erase q, L, s.accepted, s.accessed ++ [q]⟩ p := by
  unfold InOrder at h ⊢
  by_cases hp : p q = true
  · rw [filter_erase_of_find? (hfirst hp)] at h
    simpa [filter_append, hp] using h
  · rw [filter_erase_of_neg (by simpa using hp), filter_append, filter_cons_of_neg hp]
    simpa using h

/-- Requests may leave the queue without disturbing an order. -/
theorem InOrder.sublist {p : Request → Bool} (h : s.InOrder p) {queued : List Request}
    (hsub : queued.Sublist s.queued) (L : ℕ → TransactionLedger δ (ℕ × ℕ)) :
    InOrder ⟨queued, L, s.accepted, s.accessed⟩ p :=
  ((List.Sublist.refl _).append (hsub.filter p)).trans h

/-- **A request at its channel's counter is the first of its channel in the queue.** -/
theorem find?_lane (hs : s.Inv digest) (hclean : s.Clean) (hq : q ∈ s.queued)
    (hseq : q.key.sourceSequence = s.target q.lane) :
    (s.queued.find? fun x => x.lane = q.lane) = some q := by
  obtain ⟨f, hf⟩ : ∃ f, (s.queued.find? fun x => x.lane = q.lane) = some f := by
    rw [← Option.isSome_iff_exists, find?_isSome]
    exact ⟨q, hq, by simp⟩
  obtain ⟨hlane, pre, post, hsplit, hpre⟩ := find?_eq_some_iff_append.1 hf
  have hlane : f.lane = q.lane := by simpa using hlane
  have hfq : f ∈ s.queued := mem_of_find?_eq_some hf
  obtain ⟨d, hd⟩ := hclean f hfq
  obtain ⟨hl, hc⟩ := lane_eq_iff.1 hlane
  -- the first request of the channel is pending, so the counter has not passed it
  have hge : q.key.sourceSequence ≤ f.key.sourceSequence := by
    have h := mt ((hs.wf f.ledger).settled_iff hd).2 fun h : Status.Settled .targetPending => h
    rw [target_lane, ← hl, ← hc] at hseq
    change ¬ f.key.sourceSequence < (s.ledgers f.ledger).nextTarget f.key.channel at h
    omega
  rcases hge.lt_or_eq with hlt | heq
  · have hmem := hs.mem_before hsplit hq hlane.symm hlt
    exact absurd (hpre q hmem) (by simp)
  · rw [hf, hs.eq_of_id (hs.mem_accepted hfq) (hs.mem_accepted hq) (id_eq_of_lane hlane heq.symm)]

/-- What holds along guarded runs besides the invariant of every run. -/
structure Orderly (digest : MmioPayload → Except Exn δ) (s : RouterCore δ) : Prop extends
    Inv digest s where
  clean : s.Clean
  channel_order : ∀ c, s.InOrder fun q => q.lane = c
  device_order : ∀ d, s.InOrder fun q => q.window.deviceId = d

section Steps

variable [DecidableEq δ] {digest : MmioPayload → Except Exn δ} {s : RouterCore δ}

namespace Orderly

theorem accept (hs : s.Orderly digest) {q : Request} {d : δ} (hd : digest q.payload = .ok d)
    (hn : (s.ledgers q.ledger).entries.get? q.key = none)
    (hseq : q.key.sourceSequence = (s.ledgers q.ledger).nextChannel q.key.channel) :
    Orderly digest ⟨s.queued ++ [q],
      Function.update s.ledgers q.ledger ((s.ledgers q.ledger).push q.key ⟨d, .targetPending⟩),
      s.accepted ++ [q], s.accessed⟩ where
  toInv := hs.toInv.accept hd hn hseq
  clean x hx := by
    have hentry := get?_update (L := s.ledgers) (get?_push (s.ledgers q.ledger) q.key ·
      ⟨d, .targetPending⟩) x.id
    by_cases hid : x.id = q.id
    · exact ⟨d, hentry.trans (if_pos hid)⟩
    · rcases mem_append.1 hx with hx | hx
      · obtain ⟨d', hd'⟩ := hs.clean x hx
        exact ⟨d', (hentry.trans (if_neg hid)).trans hd'⟩
      · exact absurd (congrArg _ (mem_singleton.1 hx)) hid
  channel_order c := (hs.channel_order c).accept q _
  device_order d := (hs.device_order d).accept q _

theorem reach (hs : s.Orderly digest) {q : Request} {d : δ} {st : Status (ℕ × ℕ)}
    {L' : TransactionLedger δ (ℕ × ℕ)} (hst : st.Reached)
    (hfind : (s.queued.find? fun x => x.window.deviceId = q.window.deviceId) = some q)
    (hres : (s.ledgers q.ledger).Resolves q.key d st L') :
    Orderly digest ⟨s.queued.erase q, Function.update s.ledgers q.ledger L', s.accepted,
      s.accessed ++ [q]⟩ where
  toInv := hs.toInv.reach hst hfind hres
  clean x hx := by
    have hq : q ∈ s.queued := mem_of_find?_eq_some hfind
    have hxq : x ≠ q := by
      rintro rfl
      exact hs.queued_nodup.not_mem_erase hx
    have hx := mem_of_mem_erase hx
    have hid : x.id ≠ q.id := fun hid =>
      hxq (hs.eq_of_id (hs.mem_accepted hx) (hs.mem_accepted hq) hid)
    obtain ⟨d', hd'⟩ := hs.clean x hx
    exact ⟨d', ((get?_update hres.get? x.id).trans (if_neg hid)).trans hd'⟩
  channel_order c := by
    refine (hs.channel_order c).reach (fun hc => ?_) _
    obtain rfl : q.lane = c := by simpa using hc
    exact find?_lane hs.toInv hs.clean (mem_of_find?_eq_some hfind) hres.at_target
  device_order dev := by
    refine (hs.device_order dev).reach (fun hdev => ?_) _
    obtain rfl : q.window.deviceId = dev := by simpa using hdev
    exact hfind

theorem cancel (hs : s.Orderly digest) {l : ℕ} {L' : TransactionLedger δ (ℕ × ℕ)}
    (hrun : RouterSystem.CancelRun digest (s.ledgers l) (s.queued.filter fun q => q.ledger = l) L') :
    Orderly digest ⟨s.queued.filter fun q => q.ledger ≠ l, Function.update s.ledgers l L',
      s.accepted, s.accessed⟩ where
  toInv := hs.toInv.step (.cancel hrun)
  clean x hx := by
    obtain ⟨hx, hl⟩ := mem_filter.1 hx
    have hl : x.ledger ≠ l := by simpa using hl
    obtain ⟨d, hd⟩ := hs.clean x hx
    refine ⟨d, ?_⟩
    rw [entry_id]
    simp only [Function.update_of_ne hl]
    exact hd
  channel_order c := (hs.channel_order c).sublist filter_sublist _
  device_order d := (hs.device_order d).sublist filter_sublist _

/-- **A safe pass that raises has changed nothing.** -/
theorem cancelFailed_eq (hs : s.Orderly digest) {pre post : List Request}
    {e : Exn} {L' : TransactionLedger δ (ℕ × ℕ)} (hsplit : s.queued = pre ++ x :: post) (hx : x.ledger = l)
    (hrun : RouterSystem.CancelRun digest (s.ledgers l) (pre.filter fun q => q.ledger = l) L')
    (hfail : L'.cancelAccepted digest x.key x.payload = .error e)
    (hsafe : (∀ q, (s.queued.find? fun q => q.ledger = l) = some q →
        (s.ledgers l).targetReady q.key = false) ∨
      ∀ f, (s.queued.find? fun q => q.lane = x.lane) = some f → (s.ledgers l).targetReady f.key = true) :
    L' = s.ledgers l := by
  subst hx
  have hxq : x ∈ s.queued := by
    rw [hsplit]
    exact mem_append_right _ (.head _)
  rcases hsafe with hfirst | hlanes
  · -- the first request of the ledger is refused, so none was cancelled before `x`
    cases hpre : pre.filter fun q => q.ledger = x.ledger with
    | nil =>
      rw [hpre] at hrun
      cases hrun
      rfl
    | cons f rest =>
      have hfind : (s.queued.find? fun q => q.ledger = x.ledger) = some f := by
        rw [hsplit, find?_append, ← head?_filter, hpre]
        rfl
      rw [hpre] at hrun
      have hrun : RouterSystem.CancelRun digest (s.ledgers x.ledger) ([] ++ f :: rest) L' := hrun
      have hready := hrun.ready_of_first (hs.wf x.ledger) nofun
      rw [hfirst f hfind] at hready
      cases hready
  · -- the channel of `x` moves from its first queued request on, so `x` was not refused
    exfalso
    obtain ⟨f, hf⟩ : ∃ f, (s.queued.find? fun q => q.lane = x.lane) = some f := by
      rw [← Option.isSome_iff_exists, find?_isSome]
      exact ⟨x, hxq, by simp⟩
    have hstuck := not_ready_of_refused hs.toInv hsplit rfl hrun hfail hf
    rw [hlanes f hf] at hstuck
    cases hstuck

end Orderly

end Steps

end RouterCore

namespace RouterSystem

/-! ## Rows and callbacks -/

/-- What the event log and the published rows say of callbacks and delivery numbers, in every
run. -/
structure Logged (s : RouterSystem δ) : Prop where
  callback_le : ∀ q, (callbacksOf s.trace).count q ≤ (accessedOf s.trace).count q
  callback_after : ∀ q pre post, s.trace = pre ++ .callbackCalled q :: post →
    ∃ row, .accessReturned q row ∈ pre
  rows : (rowsOf s.trace).map DeliveryRow.deliveryOrder = List.range' 1 s.router.deliverySequence
  published : (s.router.deliveries.map DeliveryRow.deliveryOrder).Sublist
    ((rowsOf s.trace).map DeliveryRow.deliveryOrder)

/-- An event that is not a callback breaks no callback's order. -/
theorem callback_after_append {t t' : List RouterEvent}
    (h : ∀ q pre post, t = pre ++ .callbackCalled q :: post → ∃ row, .accessReturned q row ∈ pre)
    (h' : ∀ q pre post, t' = pre ++ .callbackCalled q :: post → ∃ row, .accessReturned q row ∈ t ++ pre) :
    ∀ q pre post, t ++ t' = pre ++ .callbackCalled q :: post → ∃ row, .accessReturned q row ∈ pre := by
  intro q pre post heq
  rcases append_eq_append_iff.1 heq with ⟨as, rfl, hr⟩ | ⟨bs, rfl, hr⟩
  · exact h' q as post hr
  · cases bs with
    | nil =>
      obtain ⟨row, hrow⟩ := h' q [] post (by simpa using hr.symm)
      exact ⟨row, by simpa using hrow⟩
    | cons b bs =>
      rw [cons_append, List.cons.injEq] at hr
      obtain ⟨rfl, -⟩ := hr
      exact h q pre bs rfl

/-- The delivery number and the published rows after a callback. -/
theorem callBack_published (s : RouterSystem δ) (answer : TargetAnswer) (q : Request) (row : DeliveryRow) :
    let s' := (s.callBack answer q (some row)).1
    s'.router.deliverySequence = s.router.deliverySequence ∧
      (s'.router.deliveries.map deliveryOrder
          = s.router.deliveries.map deliveryOrder ∨
        (q.window.kind ≠ .plain ∧ s'.router.deliveries.map deliveryOrder
          = s.router.deliveries.map deliveryOrder ++ [row.deliveryOrder])) := by
  unfold callBack
  cases answer.callback with
  | error e => exact ⟨rfl, .inl rfl⟩
  | ok u =>
    cases hk : q.window.kind with
    | plain | routed | ordinary => simp [confirm, hk]

/-- **A delivery takes the next number**, and publishes its row at most once. -/
theorem delivered_published (s : RouterSystem δ) (L : ℕ → TransactionLedger δ (ℕ × ℕ))
    (trace : List RouterEvent) (q : Request) (access : Access) (answer : TargetAnswer) :
    let s' := (callBack ⟨(s.router.delivered q access).pop q.window.deviceId, L, trace⟩ answer q
      (some (s.router.deliveryRow q access))).1
    s'.router.deliverySequence = s.router.deliverySequence + 1 ∧
      (s'.router.deliveries.map deliveryOrder).Sublist
        (s.router.deliveries.map deliveryOrder ++ [s.router.deliverySequence + 1]) := by
  intro s'
  obtain ⟨hseq, hrows | ⟨hk, hrows⟩⟩ := callBack_published
    ⟨(s.router.delivered q access).pop q.window.deviceId, L, trace⟩ answer q
    (s.router.deliveryRow q access)
  · refine ⟨hseq, ?_⟩
    rw [hrows]
    by_cases hk : q.window.kind = .plain
    · simp [pop, delivered, deliveryRow, hk]
    · simp [pop, delivered, hk]
  · refine ⟨hseq, ?_⟩
    rw [hrows]
    simp [pop, delivered, deliveryRow, hk]

theorem logged_init (windows : WindowMap) (L : ℕ → TransactionLedger δ (ℕ × ℕ)) :
    (init windows L).Logged where
  callback_le q := le_refl _
  callback_after q pre post h := by
    have h := congrArg List.length h
    simp [init] at h
  rows := rfl
  published := List.Sublist.refl _

variable {s' : RouterSystem δ} {a : RouterAction}

/-- **Every call keeps the log in order.** -/
theorem Move.logged [DecidableEq δ] {s : RouterSystem δ} (h : Move digest s a s') (hs : s.Logged) :
    s'.Logged := by
  cases h with
  | same => exact hs
  | @accepted a q d hd hn hseq =>
    refine ⟨fun x => ?_, callback_after_append hs.callback_after ?_, ?_, ?_⟩
    · simpa [callbacksOf, accessedOf] using hs.callback_le x
    · intro x pre post heq
      simp [cons_eq_append_iff] at heq
    · simpa [rowsOf, accept] using hs.rows
    · simpa [rowsOf, accept] using hs.published
  | @raised a q d L' hfind hres =>
    refine ⟨fun x => ?_, callback_after_append hs.callback_after ?_, ?_, ?_⟩
    · have := hs.callback_le x
      simp only [callbacksOf_append, accessedOf_append, count_append]
      simp only [callbacksOf, filterMap_cons, filterMap_nil, count_nil] at this ⊢
      omega
    · intro x pre post heq
      simp [cons_eq_append_iff] at heq
    · simpa [rowsOf, pop] using hs.rows
    · simpa [rowsOf, pop] using hs.published
  | @delivered a q d r L' hfind hres access answer =>
    obtain ⟨hseq, hpub⟩ := delivered_published s (Function.update s.ledgers q.ledger L')
      (s.trace ++ [.accessReturned q (s.router.deliveryRow q access)]) q access answer
    have htrace := callBack_trace ⟨(s.router.delivered q access).pop q.window.deviceId,
      Function.update s.ledgers q.ledger L',
      s.trace ++ [.accessReturned q (s.router.deliveryRow q access)]⟩ answer q
      (some (s.router.deliveryRow q access))
    rw [append_assoc, singleton_append] at htrace
    refine ⟨fun x => ?_, ?_, ?_, ?_⟩
    · have := hs.callback_le x
      rw [htrace]
      simp only [callbacksOf_append, accessedOf_append, count_append]
      simpa [callbacksOf, accessedOf] using this
    · rw [htrace]
      refine callback_after_append hs.callback_after fun x pre post heq => ?_
      rcases pre with _ | ⟨e, pre⟩
      · cases heq
      · rw [cons_append, List.cons.injEq] at heq
        obtain ⟨rfl, heq⟩ := heq
        rcases pre with _ | ⟨e, pre⟩
        · cases heq
          exact ⟨_, mem_append_right _ (.head _)⟩
        · cases pre <;> cases heq
    · rw [htrace, hseq, rowsOf_append, map_append, hs.rows, range'_concat]
      simp [rowsOf, deliveryRow, Nat.add_comm]
    · rw [htrace, rowsOf_append, map_append]
      refine hpub.trans ?_
      simpa [rowsOf, deliveryRow] using hs.published
  | cancelled hrun => exact ⟨hs.callback_le, hs.callback_after, hs.rows, hs.published⟩
  | cancelFailed hq hx hrun hfail =>
    exact ⟨hs.callback_le, hs.callback_after, hs.rows, hs.published⟩

/-! ## Delivery -/

section Delivery

variable {π : Type} [DecidableEq δ]

/-- A new router whose ledgers have each a history of calls of their own. -/
def start (digest : π → Except Exn δ) (histories : ℕ → List (LedgerAction π (ℕ × ℕ)))
    (windows : WindowMap) : RouterSystem δ :=
  init windows fun l => (run (LedgerSystem.step digest) LedgerSystem.init (histories l)).ledger

variable {digest : MmioPayload → Except Exn δ} {s : RouterSystem δ}

theorem inv_start (digest₀ : π → Except Exn δ) (histories : ℕ → List (LedgerAction π (ℕ × ℕ)))
    (windows : WindowMap) : (start digest₀ histories windows).core.Inv digest :=
  RouterCore.inv_init fun l => (LedgerSystem.valid_run _ (histories l) LedgerSystem.valid_init).wf

theorem orderly_start (digest₀ : π → Except Exn δ) (histories : ℕ → List (LedgerAction π (ℕ × ℕ)))
    (windows : WindowMap) : (start digest₀ histories windows).core.Orderly digest where
  toInv := inv_start digest₀ histories windows
  clean _ hq := nomatch hq
  channel_order _ := List.Sublist.refl _
  device_order _ := List.Sublist.refl _

omit [DecidableEq δ] in
/-- The guard, as the proof uses it. -/
theorem cancelSafe_cases (h : s.cancelSafe l = true) (hx : x ∈ s.router.queued) (hl : x.ledger = l) :
    (∀ q, (s.router.queued.find? fun q => q.ledger = l) = some q → (s.ledgers l).targetReady q.key = false) ∨
    ∀ f, (s.router.queued.find? fun q => q.lane = x.lane) = some f →
      (s.ledgers l).targetReady f.key = true := by
  rw [cancelSafe, Bool.or_eq_true] at h
  rcases h with h | h
  · refine .inl fun q hq => ?_
    simpa [hq] using h
  · refine .inr fun f hf => ?_
    have := all_eq_true.1 h x (mem_filter.2 ⟨hx, by simpa using hl⟩)
    simpa [hf] using this

/-- **A guarded call keeps the queue clean and in order.** -/
theorem Move.orderly (h : Move digest s a s') (hs : s.core.Orderly digest) (hsafe : s.Safe a) :
    s'.core.Orderly digest := by
  cases h with
  | same => exact hs
  | accepted hd hn hseq =>
    rw [core_accepted]
    exact hs.accept hd hn hseq
  | raised hfind hres =>
    rw [core_raised s hfind]
    exact hs.reach (show Status.Reached .uncertainEffect from trivial) hfind hres
  | @delivered a q d r L' hfind hres access answer =>
    rw [core_delivered s hfind]
    exact hs.reach (show Status.Reached (.complete r) from trivial) hfind hres
  | cancelled hrun => exact hs.cancel hrun
  | @cancelFailed l L' pre post x e hq hx hrun hfail =>
    have hxq : x ∈ s.router.queued := by
      rw [hq]
      exact mem_append_right _ (.head _)
    rw [hs.cancelFailed_eq hq hx hrun hfail (cancelSafe_cases hsafe hxq hx)]
    change RouterCore.Orderly digest
      (core { s with ledgers := Function.update s.ledgers l (s.ledgers l) })
    rw [update_ledgers_self]
    exact hs

omit [DecidableEq δ] in
/-- Exactly one of the three places of a request. -/
theorem exactly_one_of_orderly (hs : s.core.Orderly digest) (hq : q ∈ acceptedOf s.trace) :
    s.router.queued.count q + (accessedOf s.trace).count q + (if s.cancelled q then 1 else 0) = 1 := by
  obtain ⟨d, st, -, he, hp⟩ := hs.placed q hq
  have hnodup : s.router.queued.Nodup := hs.queued_nodup
  have hent : (s.ledgers q.ledger).entries.get? q.key = some ⟨d, st⟩ := he
  cases st with
  | targetPending =>
    have h1 : s.router.queued.count q = 1 := count_eq_one_of_mem hnodup hp.1
    have h2 : (accessedOf s.trace).count q = 0 := hp.2
    simp [cancelled, hent, h1, h2]
  | complete r | uncertainEffect =>
    have h1 : s.router.queued.count q = 0 := count_eq_zero.2 hp.1
    have h2 : (accessedOf s.trace).count q = 1 := hp.2
    simp [cancelled, hent, h1, h2]
  | cancelled =>
    have h1 : s.router.queued.count q = 0 := count_eq_zero.2 fun h => by
      obtain ⟨d', hd'⟩ := hs.clean q h
      rw [he] at hd'
      cases hd'
    have h2 : (accessedOf s.trace).count q = 0 := hp
    simp [cancelled, hent, h1, h2]
  | targetInflight => exact hp.elim

omit [DecidableEq δ] in
/-- A request reaches its target at most once, in every run. -/
theorem accessed_count_le (hs : s.core.Inv digest) (q : Request) : (accessedOf s.trace).count q ≤ 1 := by
  by_cases hq : q ∈ accessedOf s.trace
  · obtain ⟨d, st, -, -, hp⟩ := hs.placed q (hs.accessed_subset q hq)
    cases st with
    | targetPending => exact hp.2.le.trans zero_le_one
    | complete r | uncertainEffect => exact hp.2.le
    | cancelled => exact (show (accessedOf s.trace).count q = 0 from hp).le.trans zero_le_one
    | targetInflight => exact hp.elim
  · rw [count_eq_zero.2 hq]
    exact zero_le_one

omit [DecidableEq δ] in
theorem delivers_of_orderly (hs : s.core.Orderly digest) (hlog : s.Logged) : s.Delivers where
  identified := hs.nodup
  exactly_one _ hq := exactly_one_of_orderly hs hq
  only_accepted q hq := hq.elim (fun h => hs.mem_accepted h) (hs.accessed_subset q)
  callback_once q := (hlog.callback_le q).trans (accessed_count_le hs.toInv q)
  callback_after_access := hlog.callback_after
  channel_order c := (sublist_append_left _ _).trans (hs.channel_order c)
  device_order d := (sublist_append_left _ _).trans (hs.device_order d)
  delivery_order := by
    have h : ((rowsOf s.trace).map deliveryOrder).Pairwise (· < ·) := by
      rw [hlog.rows]
      exact pairwise_lt_range'
    exact ⟨h, h.sublist hlog.published⟩

/-- **The router loses, duplicates and reorders nothing** along every run in which a cancellation is asked
for only when it cannot stop half-way. -/
theorem router_delivers_without_loss (digest : MmioPayload → Except Exn δ)
    (digest₀ : π → Except Exn δ) (histories : ℕ → List (LedgerAction π (ℕ × ℕ)))
    (windows : WindowMap) (as : List RouterAction)
    (hsafe : Guarded (step digest) Safe (start digest₀ histories windows) as) :
    (run (step digest) (start digest₀ histories windows) as).Delivers := by
  have h : ∀ s : RouterSystem δ, ∀ a, s.core.Orderly digest ∧ s.Logged → s.Safe a →
      (s.step digest a).core.Orderly digest ∧ (s.step digest a).Logged := fun s a hs hg =>
    have hmove := move_step digest s hs.1.wf a
    ⟨hmove.orderly hs.1 hg, hmove.logged hs.2⟩
  obtain ⟨hs, hlog⟩ := run_invariant_of_guarded h as
    ⟨orderly_start digest₀ histories windows, logged_init windows _⟩ hsafe
  exact delivers_of_orderly hs hlog

end Delivery

/-! ## A pass that stops half-way -/

/-- The register window of the example runs. -/
def exampleWindow : DeviceWindow := ⟨"uart", 0x1000, 0x1000, .plain, by decide⟩

def exampleWindows : WindowMap := ⟨[exampleWindow], List.pairwise_singleton _ _⟩

/-- A key on a second channel beside that of `exampleKey`. -/
def otherKey (sequence : ℕ) : TransactionKey :=
  ⟨"execution", "case", "cpu", 0, "peripheral", sequence, by decide⟩

/-- A one-word register write. -/
def exampleWrite (key : TransactionKey) : RouterAction := .enqueue 0 key 0x1000 true 1 15 4

/-- A target access that raises. -/
def raisingAnswer : TargetAnswer := ⟨.error (.other "target failed"), .ok (), .ok ()⟩

/-- A target access that returns. -/
def returningAnswer : TargetAnswer := ⟨.ok ⟨0, none⟩, .ok (), .ok ()⟩

/-- Two channels of one ledger; the first one's first request reached a target that raised, so its
second one can neither be delivered nor cancelled. -/
def strandedRun : List RouterAction :=
  [exampleWrite (LedgerSystem.exampleKey 1), exampleWrite (otherKey 1),
    exampleWrite (LedgerSystem.exampleKey 2), .drainOne "uart" raisingAnswer, .cancelForLedger 0]

/-- A cancellation of two ready channels, after a delivery. -/
theorem router_delivers_two_channels :
    (run (step Except.ok) (start (π := MmioPayload) Except.ok (fun _ => []) exampleWindows)
      [exampleWrite (LedgerSystem.exampleKey 1), exampleWrite (otherKey 1),
        exampleWrite (LedgerSystem.exampleKey 2), .drainOne "uart" returningAnswer,
        .cancelForLedger 0]).Delivers :=
  router_delivers_without_loss Except.ok Except.ok (fun _ => []) exampleWindows _
    ⟨trivial, trivial, trivial, trivial, by unfold Safe; decide, trivial⟩

/-- **A cancellation pass that raises leaves a request queued and cancelled.** -/
theorem cancellation_pass_strands_request :
    ¬ ∀ (windows : WindowMap) (as : List RouterAction),
      (run (step Except.ok) (start (π := MmioPayload) Except.ok (fun _ => []) windows) as).Delivers := by
  intro h
  have hone := (h exampleWindows strandedRun).exactly_one
    ⟨0, otherKey 1, ⟨"uart", 0x1000, true, 1, 15, 4⟩, exampleWindow, 15, 1, 0, true⟩ (by decide)
  cases hone

end RouterSystem

end MyFuzz
