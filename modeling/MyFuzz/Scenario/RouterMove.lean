import MyFuzz.Scenario.Router

/-!
# Scenario/RouterMove — what one router call can do

A call is refused, queues a request, hands the oldest request of a device to its target, or cancels
along the queue.  The last is the only one with an intermediate state a caller can see: `CancelRun`
is the ledger after a list of requests was cancelled one by one, and a pass that raises stops after
such a run on a proper part of the queue (`Move.cancelFailed`).
-/

namespace MyFuzz

open Outcome TransactionLedger List

namespace RouterSystem

variable {δ : Type} [DecidableEq δ] {digest : MmioPayload → Except Exn δ}

/-! ## A run of cancellations -/

/-- The ledger after the listed requests were cancelled, in order. -/
inductive CancelRun (digest : MmioPayload → Except Exn δ) :
    TransactionLedger δ (ℕ × ℕ) → List Request → TransactionLedger δ (ℕ × ℕ) → Prop where
  | nil (L : TransactionLedger δ (ℕ × ℕ)) : CancelRun digest L [] L
  | cons {L L' L'' : TransactionLedger δ (ℕ × ℕ)} {q : Request} {qs : List Request}
      (hq : L.cancelAccepted digest q.key q.payload = .ok L') (hqs : CancelRun digest L' qs L'') :
      CancelRun digest L (q :: qs) L''

variable {q : Request}

namespace CancelRun

variable {L L' : TransactionLedger δ (ℕ × ℕ)} {qs : List Request}

section

variable (h : CancelRun digest L qs L') (hL : L.WF)

include h hL

theorem wf : L'.WF := by
  induction h with
  | nil L => exact hL
  | cons hq _ ih =>
    obtain ⟨_, -, hres⟩ := resolves_cancelled hL hq
    exact ih hres.wf

/-- Keys outside the run keep their entries. -/
theorem get?_of_notMem {k : TransactionKey}
    (hk : ∀ q ∈ qs, q.key ≠ k) : L'.entries.get? k = L.entries.get? k := by
  induction h with
  | nil L => rfl
  | @cons L L₁ L₂ q qs hq _ ih =>
    obtain ⟨_, -, hres⟩ := resolves_cancelled hL hq
    rw [ih hres.wf fun q' hq' => hk q' (mem_cons_of_mem q hq'),
      hres.get?_of_ne (hk q (.head _)).symm]

/-- Channels outside the run keep their target counter. -/
theorem nextTarget_of_notMem {c : Channel}
    (hc : ∀ q ∈ qs, q.key.channel ≠ c) : L'.nextTarget c = L.nextTarget c := by
  induction h with
  | nil L => rfl
  | @cons L L₁ L₂ q qs hq _ ih =>
    obtain ⟨_, -, hres⟩ := resolves_cancelled hL hq
    rw [ih hres.wf fun q' hq' => hc q' (mem_cons_of_mem q hq'),
      hres.nextTarget_of_ne (hc q (.head _)).symm]

/-- The target counters only move up. -/
theorem nextTarget_le (c : Channel) :
    L.nextTarget c ≤ L'.nextTarget c := by
  induction h with
  | nil L => exact le_refl _
  | cons hq _ ih =>
    obtain ⟨_, -, hres⟩ := resolves_cancelled hL hq
    exact (hres.nextTarget_le c).trans (ih hres.wf)

/-- **A request of the run ends cancelled**, under the digest it was accepted with. -/
theorem get?_of_mem (hq : q ∈ qs) :
    ∃ d, digest q.payload = .ok d ∧ L.entries.get? q.key = some ⟨d, .targetPending⟩ ∧
      L'.entries.get? q.key = some ⟨d, .cancelled⟩ := by
  induction h generalizing q with
  | nil L => cases hq
  | @cons L L₁ L₂ q₀ qs hq₀ hrun ih =>
    obtain ⟨d, hd, hres⟩ := resolves_cancelled hL hq₀
    have hnot : ∀ q' ∈ qs, q'.key ≠ q₀.key := by
      intro q' hq' hk
      obtain ⟨d', -, hpend, -⟩ := ih hres.wf hq'
      rw [hk, hres.get?_self] at hpend
      cases hpend
    rcases mem_cons.1 hq with rfl | hq
    · exact ⟨d, hd, hres.pending, by rw [hrun.get?_of_notMem hres.wf hnot, hres.get?_self]⟩
    · obtain ⟨d', hd', hpend, hcanc⟩ := ih hres.wf hq
      rw [hres.get?_of_ne (hnot q hq)] at hpend
      exact ⟨d', hd', hpend, hcanc⟩

end

theorem of_append : ∀ {qs qs' : List Request} {L₁ L₃ : TransactionLedger δ (ℕ × ℕ)},
    CancelRun digest L₁ (qs ++ qs') L₃ → ∃ L₂, CancelRun digest L₁ qs L₂ ∧ CancelRun digest L₂ qs' L₃
  | [], _, L₁, _, h => ⟨L₁, .nil L₁, h⟩
  | _ :: qs, _, _, _, .cons hq hqs => by
      obtain ⟨L₂, h, h'⟩ := of_append hqs
      exact ⟨L₂, .cons hq h, h'⟩

/-- **The first request of a channel was at its target counter when the run began.** -/
theorem ready_of_first {pre post : List Request} (h : CancelRun digest L (pre ++ q :: post) L')
    (hL : L.WF) (hpre : ∀ q' ∈ pre, q'.key.channel ≠ q.key.channel) :
    L.targetReady q.key = true := by
  obtain ⟨L₂, h1, h2⟩ := of_append h
  cases h2 with
  | cons hq _ =>
    obtain ⟨d, -, hres⟩ := resolves_cancelled (h1.wf hL) hq
    rw [targetReady_iff]
    refine ⟨⟨d, ?_⟩, ?_⟩
    · rw [← h1.get?_of_notMem hL fun q' hq' hk => hpre q' hq' (congrArg _ hk)]
      exact hres.pending
    · rw [← h1.nextTarget_of_notMem hL hpre]
      exact hres.at_target

end CancelRun

variable (digest) in
/-- **A cancellation pass** either cancels every queued request of the ledger, or stops at the first
one the ledger refuses, with those before it cancelled. -/
theorem cancelPass_cases (ledger : ℕ) : ∀ (qs : List Request) (L : TransactionLedger δ (ℕ × ℕ)),
    (∃ L', cancelPass digest ledger qs L
        = (.ok ((qs.filter fun q => q.ledger = ledger).map Request.key,
            qs.filter fun q => q.ledger ≠ ledger), L') ∧
        CancelRun digest L (qs.filter fun q => q.ledger = ledger) L') ∨
      ∃ pre q post e L', qs = pre ++ q :: post ∧ q.ledger = ledger ∧
        cancelPass digest ledger qs L = (.error e, L') ∧
        CancelRun digest L (pre.filter fun q => q.ledger = ledger) L' ∧
        L'.cancelAccepted digest q.key q.payload = .error e
  | [], L => .inl ⟨L, rfl, .nil L⟩
  | q :: qs, L => by
      by_cases hq : q.ledger = ledger
      · cases hc : L.cancelAccepted digest q.key q.payload with
        | error e =>
          exact .inr ⟨[], q, qs, e, L, rfl, hq, by simp [cancelPass, hq, hc], .nil L, hc⟩
        | ok L₁ =>
          rcases cancelPass_cases ledger qs L₁ with ⟨L', hp, hrun⟩ | ⟨pre, x, post, e, L', rfl, hx,
            hp, hrun, he⟩
          · refine .inl ⟨L', by simp [cancelPass, hq, hc, hp], ?_⟩
            simp only [filter_cons, hq, decide_true, if_true]
            exact .cons hc hrun
          · refine .inr ⟨q :: pre, x, post, e, L', rfl, hx, by simp [cancelPass, hq, hc, hp], ?_, he⟩
            simp only [filter_cons, hq, decide_true, if_true]
            exact .cons hc hrun
      · rcases cancelPass_cases ledger qs L with ⟨L', hp, hrun⟩ | ⟨pre, x, post, e, L', rfl, hx, hp, hrun, he⟩
        · refine .inl ⟨L', by simp [cancelPass, hq, hp], ?_⟩
          simpa [filter_cons, hq] using hrun
        · refine .inr ⟨q :: pre, x, post, e, L', rfl, hx, by simp [cancelPass, hq, hp], ?_, he⟩
          simpa [filter_cons, hq] using hrun

/-! ## The moves -/

/-- Everything a router call can do, with what it found before. -/
inductive Move (digest : MmioPayload → Except Exn δ) (s : RouterSystem δ) :
    RouterAction → RouterSystem δ → Prop where
  /-- The call is refused, or repeats an accepted one. -/
  | same {a : RouterAction} : Move digest s a s
  /-- A new request is accepted and queued last. -/
  | accepted {a : RouterAction} {q : Request} {d : δ} (hd : digest q.payload = .ok d)
      (hn : (s.ledgers q.ledger).entries.get? q.key = none)
      (hseq : q.key.sourceSequence = (s.ledgers q.ledger).nextChannel q.key.channel) :
      Move digest s a ⟨s.router.accept q,
        Function.update s.ledgers q.ledger ((s.ledgers q.ledger).push q.key ⟨d, .targetPending⟩),
        s.trace ++ [.accepted q]⟩
  /-- The oldest request of a device reached its target, which raised. -/
  | raised {a : RouterAction} {q : Request} {d : δ} {L' : TransactionLedger δ (ℕ × ℕ)}
      (hfind : (s.router.queued.find? fun x => x.window.deviceId = q.window.deviceId) = some q)
      (hres : (s.ledgers q.ledger).Resolves q.key d .uncertainEffect L') :
      Move digest s a ⟨s.router.pop q.window.deviceId, Function.update s.ledgers q.ledger L',
        s.trace ++ [.accessRaised q]⟩
  /-- The oldest request of a device reached its target, which returned; its callback is called. -/
  | delivered {a : RouterAction} {q : Request} {d : δ} {r : ℕ × ℕ}
      {L' : TransactionLedger δ (ℕ × ℕ)}
      (hfind : (s.router.queued.find? fun x => x.window.deviceId = q.window.deviceId) = some q)
      (hres : (s.ledgers q.ledger).Resolves q.key d (.complete r) L') (access : Access)
      (answer : TargetAnswer) :
      Move digest s a (callBack ⟨(s.router.delivered q access).pop q.window.deviceId,
        Function.update s.ledgers q.ledger L',
        s.trace ++ [.accessReturned q (s.router.deliveryRow q access)]⟩ answer q
        (some (s.router.deliveryRow q access))).1
  /-- Every queued request of a ledger is cancelled and removed. -/
  | cancelled {ledger : ℕ} {L' : TransactionLedger δ (ℕ × ℕ)}
      (hrun : CancelRun digest (s.ledgers ledger)
        (s.router.queued.filter fun q => q.ledger = ledger) L') :
      Move digest s (.cancelForLedger ledger) { s with
        router := { s.router with queued := s.router.queued.filter fun q => q.ledger ≠ ledger }
        ledgers := Function.update s.ledgers ledger L' }
  /-- A cancellation pass stopped at a request the ledger refused; nothing left the queue. -/
  | cancelFailed {ledger : ℕ} {L' : TransactionLedger δ (ℕ × ℕ)} {pre post : List Request}
      {x : Request} {e : Exn} (hq : s.router.queued = pre ++ x :: post) (hx : x.ledger = ledger)
      (hrun : CancelRun digest (s.ledgers ledger) (pre.filter fun q => q.ledger = ledger) L')
      (hfail : L'.cancelAccepted digest x.key x.payload = .error e) :
      Move digest s (.cancelForLedger ledger) { s with ledgers := Function.update s.ledgers ledger L' }

omit [DecidableEq δ] in
theorem update_ledgers_self (s : RouterSystem δ) (l : ℕ) :
    ({ s with ledgers := Function.update s.ledgers l (s.ledgers l) } : RouterSystem δ) = s := by
  rw [Function.update_eq_self]

theorem prepare_eq_ok {r : DataflowRouter} {ledger : ℕ} {key : TransactionKey} {address : ℕ}
    {write : Bool} {wdata : ℤ} {be beatBytes : ℕ}
    (h : r.prepare ledger key address write wdata be beatBytes = .ok q) :
    q.ledger = ledger ∧ q.key = key := by
  unfold DataflowRouter.prepare at h
  split at h
  · cases h
  · obtain ⟨-, -, -, h⟩ := ensure_ok₃ h
    cases h
    exact ⟨rfl, rfl⟩

variable (digest)

theorem move_enqueue (s : RouterSystem δ) (ledger : ℕ) (key : TransactionKey) (address : ℕ)
    (write : Bool) (wdata : ℤ) (be beatBytes : ℕ) :
    Move digest s (.enqueue ledger key address write wdata be beatBytes)
      (s.enqueue digest ledger key address write wdata be beatBytes).1 := by
  unfold enqueue
  cases hp : s.router.prepare ledger key address write wdata be beatBytes with
  | error e => exact .same
  | ok q =>
    obtain ⟨rfl, rfl⟩ := prepare_eq_ok hp
    cases ha : (s.ledgers q.ledger).accept digest q.key q.payload with
    | error e => simp only [ha]; exact .same
    | ok r =>
      obtain ⟨b, L⟩ := r
      obtain ⟨d, hd, ⟨rfl, rfl, -⟩ | ⟨rfl, hn, hseq, rfl⟩⟩ := accept_cases ha
      · simp only [ha]
        exact .same
      · simp only [ha]
        exact .accepted hd hn hseq

/-- The oldest request of a device may be handed to its target. -/
structure Deliverable (s : RouterSystem δ) (q : Request) (d : δ) : Prop where
  found : (s.router.queued.find? fun x => x.window.deviceId = q.window.deviceId) = some q
  pending : (s.ledgers q.ledger).entries.get? q.key = some ⟨d, .targetPending⟩
  at_target : q.key.sourceSequence = (s.ledgers q.ledger).nextTarget q.key.channel
  digested : digest q.payload = .ok d
  room : q.window.kind = .ordinary →
    s.router.ordinaryDeliveryConfirmations.length < maxOrdinaryDeliveryConfirmations

namespace Deliverable

variable {digest} {s : RouterSystem δ} {q : Request} {d : δ}

omit [DecidableEq δ] in
theorem ready (h : Deliverable digest s q d) : (s.ledgers q.ledger).targetReady q.key = true :=
  targetReady_iff.2 ⟨⟨d, h.pending⟩, h.at_target⟩

omit [DecidableEq δ] in
theorem not_full (h : Deliverable digest s q d) : ¬ (q.window.kind = .ordinary ∧
    maxOrdinaryDeliveryConfirmations ≤ s.router.ordinaryDeliveryConfirmations.length) :=
  fun hh => absurd (h.room hh.1) (not_lt.2 hh.2)

theorem begun (h : Deliverable digest s q d) :
    (s.ledgers q.ledger).completeBegin digest q.key q.payload = .ok (.started
      ((s.ledgers q.ledger).setStatus q.key .targetInflight)
      ⟨q.key, (s.ledgers q.ledger).nextTarget q.key.channel⟩) :=
  completeBegin_of_next h.digested h.pending h.at_target

variable {answer : TargetAnswer}

section

variable (hwf : (s.ledgers q.ledger).WF) (h : Deliverable digest s q d)

include hwf h

/-- **A target that returns**: the access is recorded, the request leaves the queue, and its callback
is called. -/
theorem drainOne_returned {access : Access} (hacc : answer.access = .ok access) :
    ∃ L', (s.ledgers q.ledger).Resolves q.key d (.complete (DataflowRouter.response q access)) L' ∧
      s.drainOne digest q.window.deviceId answer
        = callBack ⟨(s.router.delivered q access).pop q.window.deviceId,
          Function.update s.ledgers q.ledger L',
          s.trace ++ [.accessReturned q (s.router.deliveryRow q access)]⟩ answer q
          (some (s.router.deliveryRow q access)) := by
  refine ⟨_, resolves_returned hwf h.pending h.at_target _, ?_⟩
  unfold drainOne
  simp only [h.found, h.ready, not_true_eq_false, if_false, h.not_full, h.begun,
    runOperation, deliver, hacc]

/-- **A target that raises**: its effect is uncertain and the request leaves the queue. -/
theorem drainOne_raised {e : Exn}
    (hacc : answer.access = .error e) :
    ∃ L', (s.ledgers q.ledger).Resolves q.key d .uncertainEffect L' ∧
      s.drainOne digest q.window.deviceId answer = (⟨s.router.pop q.window.deviceId,
        Function.update s.ledgers q.ledger L', s.trace ++ [.accessRaised q]⟩, .error e) := by
  have hres := resolves_raised hwf h.pending h.at_target
  have hmem : q.key ∈ (((s.ledgers q.ledger).setStatus q.key .targetInflight).opRaised
      ⟨q.key, (s.ledgers q.ledger).nextTarget q.key.channel⟩).uncertainKeys :=
    mem_uncertainKeys.2 ⟨_, hres.get?_self, trivial⟩
  refine ⟨_, hres, ?_⟩
  unfold drainOne
  simp only [h.found, h.ready, not_true_eq_false, if_false, h.not_full, h.begun,
    runOperation, deliver, hacc, hmem, if_true]

/-- A deliverable request is delivered, or its target raises. -/
theorem move (answer : TargetAnswer) : Move digest s (.drainOne q.window.deviceId answer)
      (s.drainOne digest q.window.deviceId answer).1 := by
  cases hacc : answer.access with
  | error e =>
    obtain ⟨L', hres, heq⟩ := h.drainOne_raised hwf hacc
    rw [heq]
    exact .raised h.found hres
  | ok access =>
    obtain ⟨L', hres, heq⟩ := h.drainOne_returned hwf hacc
    rw [heq]
    exact .delivered h.found hres access answer

end

end Deliverable

theorem move_drainOne (s : RouterSystem δ) (hwf : ∀ l, (s.ledgers l).WF) (deviceId : String)
    (answer : TargetAnswer) :
    Move digest s (.drainOne deviceId answer) (s.drainOne digest deviceId answer).1 := by
  cases hf : s.router.queued.find? fun q => q.window.deviceId = deviceId with
  | none =>
    unfold drainOne
    rw [hf]
    exact .same
  | some q =>
    obtain rfl : q.window.deviceId = deviceId := by simpa using find?_some hf
    by_cases hready : (s.ledgers q.ledger).targetReady q.key = true
    swap
    · unfold drainOne
      simp only [hf, hready]
      exact .same
    obtain ⟨⟨d, hd⟩, hseq⟩ := targetReady_iff.1 hready
    by_cases hroom : q.window.kind = .ordinary ∧
        maxOrdinaryDeliveryConfirmations ≤ s.router.ordinaryDeliveryConfirmations.length
    · unfold drainOne
      simp only [hf, hready, not_true_eq_false, if_false, hroom, and_self, if_true]
      exact .same
    cases hb : (s.ledgers q.ledger).completeBegin digest q.key q.payload with
    | error e =>
      have hnot : q.key ∉ (s.ledgers q.ledger).uncertainKeys := fun h => by
        obtain ⟨e', he', hu⟩ := mem_uncertainKeys.1 h
        rw [hd] at he'
        cases he'
        exact hu
      unfold drainOne
      simp only [hf, hready, not_true_eq_false, if_false, hroom, hb, runOperation, hnot]
      rw [update_ledgers_self]
      exact .same
    | ok b =>
      obtain ⟨d', e', hd', he', hdig, -⟩ := completeBegin_cases hb
      rw [hd] at he'
      cases he'
      obtain rfl : d = d' := hdig
      exact Deliverable.move (hwf q.ledger) ⟨hf, hd, hseq, hd',
        fun hk => not_le.1 fun hle => hroom ⟨hk, hle⟩⟩ answer

theorem move_cancelForLedger (s : RouterSystem δ) (ledger : ℕ) :
    Move digest s (.cancelForLedger ledger) (s.cancelForLedger digest ledger).1 := by
  unfold cancelForLedger
  rcases cancelPass_cases digest ledger s.router.queued (s.ledgers ledger) with
    ⟨L', hp, hrun⟩ | ⟨pre, x, post, e, L', hq, hx, hp, hrun, he⟩
  · rw [hp]
    exact .cancelled hrun
  · rw [hp]
    exact .cancelFailed hq hx hrun he

/-- **Every call is a move.** -/
theorem move_step (s : RouterSystem δ) (hwf : ∀ l, (s.ledgers l).WF) (a : RouterAction) :
    Move digest s a (s.step digest a) := by
  cases a with
  | enqueue => exact move_enqueue digest s ..
  | drainOne => exact move_drainOne digest s hwf ..
  | cancelForLedger => exact move_cancelForLedger digest s _

end RouterSystem

end MyFuzz
