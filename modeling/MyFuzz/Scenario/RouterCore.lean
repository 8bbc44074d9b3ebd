import MyFuzz.Scenario.RouterMove

/-!
# Scenario/RouterCore — the queue and the ledgers hold the same fact twice

What happens to a request is decided by four lists and maps: the queue, the ledgers, the requests
accepted so far and the requests that reached a target so far.  `RouterCore` keeps these and forgets
published rows, counters and callbacks; `Move.coreStep` projects every router call onto one of five core
steps, and the invariant `Placed` of every run is proved on them:

    pending     ⟹  queued, never at a target
    complete    ⟹  not queued, once at a target
    uncertain   ⟹  not queued, once at a target
    cancelled   ⟹  never at a target

A cancelled request may still be queued (`Stale`), because a cancellation pass that raises replaces
nothing.  It then stays behind a request that is `Blocked` for good.
-/

namespace MyFuzz

open DataflowRouter List

variable {δ : Type}

/-- The identity of a request: its ledger and its key. -/
def Request.id (q : Request) : ℕ × TransactionKey := (q.ledger, q.key)

/-- The source channel of a request, in its ledger. -/
def Request.lane (q : Request) : ℕ × Channel := (q.ledger, q.key.channel)

/-- The requests an event log accepted, in order. -/
def acceptedOf (trace : List RouterEvent) : List Request :=
  trace.filterMap fun
    | .accepted q => some q
    | _ => none

/-- The requests of an event log that reached their target, in order. -/
def accessedOf (trace : List RouterEvent) : List Request :=
  trace.filterMap fun
    | .accessReturned q _ | .accessRaised q => some q
    | _ => none

/-- The queue, the ledgers, and the requests accepted and accessed so far. -/
structure RouterCore (δ : Type) where
  queued : List Request
  ledgers : ℕ → TransactionLedger δ (ℕ × ℕ)
  accepted : List Request
  accessed : List Request

/-- The core of a router. -/
def RouterSystem.core (s : RouterSystem δ) : RouterCore δ :=
  ⟨s.router.queued, s.ledgers, acceptedOf s.trace, accessedOf s.trace⟩

/-- The statuses a target access leaves. -/
def Status.Reached {ρ : Type} : Status ρ → Prop
  | .complete _ | .uncertainEffect => True
  | _ => False

namespace RouterCore

/-- What a router call does to the core. -/
inductive Step (digest : MmioPayload → Except Exn δ) [DecidableEq δ] (s : RouterCore δ) :
    RouterCore δ → Prop where
  | same : Step digest s s
  /-- A new request is accepted and queued last. -/
  | accept {q : Request} {d : δ} (hd : digest q.payload = .ok d)
      (hn : (s.ledgers q.ledger).entries.get? q.key = none)
      (hseq : q.key.sourceSequence = (s.ledgers q.ledger).nextChannel q.key.channel) :
      Step digest s ⟨s.queued ++ [q],
        Function.update s.ledgers q.ledger ((s.ledgers q.ledger).push q.key ⟨d, .targetPending⟩),
        s.accepted ++ [q], s.accessed⟩
  /-- The oldest request of a device reached its target. -/
  | reach {q : Request} {d : δ} {st : Status (ℕ × ℕ)} {L' : TransactionLedger δ (ℕ × ℕ)}
      (hst : st.Reached)
      (hfind : (s.queued.find? fun x => x.window.deviceId = q.window.deviceId) = some q)
      (hres : (s.ledgers q.ledger).Resolves q.key d st L') :
      Step digest s ⟨s.queued.erase q, Function.update s.ledgers q.ledger L', s.accepted, s.accessed ++ [q]⟩
  /-- Every queued request of a ledger is cancelled and removed. -/
  | cancel {ledger : ℕ} {L' : TransactionLedger δ (ℕ × ℕ)}
      (hrun : RouterSystem.CancelRun digest (s.ledgers ledger)
        (s.queued.filter fun q => q.ledger = ledger) L') :
      Step digest s ⟨s.queued.filter fun q => q.ledger ≠ ledger,
        Function.update s.ledgers ledger L', s.accepted, s.accessed⟩
  /-- A cancellation pass stopped at a request the ledger refused. -/
  | cancelFailed {ledger : ℕ} {L' : TransactionLedger δ (ℕ × ℕ)} {pre post : List Request}
      {x : Request} {e : Exn} (hq : s.queued = pre ++ x :: post) (hx : x.ledger = ledger)
      (hrun : RouterSystem.CancelRun digest (s.ledgers ledger)
        (pre.filter fun q => q.ledger = ledger) L')
      (hfail : L'.cancelAccepted digest x.key x.payload = .error e) :
      Step digest s { s with ledgers := Function.update s.ledgers ledger L' }

end RouterCore

/-! ## Calls project to core steps -/

theorem eraseP_eq_erase_of_find? {α : Type*} [DecidableEq α] {p : α → Bool} {a : α} :
    ∀ {l : List α}, l.find? p = some a → l.eraseP p = l.erase a
  | [], h => by cases h
  | x :: xs, h => by
      by_cases hp : p x = true
      · obtain rfl : x = a := by simpa [find?_cons, hp] using h
        rw [eraseP_cons_of_pos hp, erase_cons_head]
      · have ha : x ≠ a := by
          rintro rfl
          exact hp (find?_some h)
        rw [find?_cons_of_neg hp] at h
        rw [eraseP_cons_of_neg hp, erase_cons_tail (by simpa using ha), eraseP_eq_erase_of_find? h]

@[simp] theorem acceptedOf_append (t t' : List RouterEvent) :
    acceptedOf (t ++ t') = acceptedOf t ++ acceptedOf t' := filterMap_append

@[simp] theorem accessedOf_append (t t' : List RouterEvent) :
    accessedOf (t ++ t') = accessedOf t ++ accessedOf t' := filterMap_append

namespace RouterSystem

theorem callBack_ledgers (s : RouterSystem δ) (answer : TargetAnswer) (q : Request)
    (row : Option DeliveryRow) : (s.callBack answer q row).1.ledgers = s.ledgers := by
  unfold callBack
  split
  · rfl
  · split <;> rfl

theorem callBack_trace (s : RouterSystem δ) (answer : TargetAnswer) (q : Request) (row : Option DeliveryRow) :
    (s.callBack answer q row).1.trace = s.trace ++ [.callbackCalled q] := by
  unfold callBack
  split
  · rfl
  · split <;> rfl

theorem confirm_queued (r : DataflowRouter) (q : Request) (row : DeliveryRow) :
    (r.confirm q row).queued = r.queued := by
  unfold confirm
  split <;> rfl

theorem callBack_queued (s : RouterSystem δ) (answer : TargetAnswer) (q : Request)
    (row : Option DeliveryRow) :
    (s.callBack answer q row).1.router.queued = s.router.queued := by
  unfold callBack
  split
  · rfl
  · split
    · rfl
    · exact confirm_queued _ _ _

/-- A callback changes nothing of the core. -/
theorem core_callBack (s : RouterSystem δ) (answer : TargetAnswer) (q : Request)
    (row : Option DeliveryRow) : (s.callBack answer q row).1.core = s.core := by
  unfold core
  rw [callBack_ledgers, callBack_trace, callBack_queued, acceptedOf_append, accessedOf_append]
  simp [acceptedOf, accessedOf]

theorem core_accepted (s : RouterSystem δ) (q : Request) (L : ℕ → TransactionLedger δ (ℕ × ℕ)) :
    core ⟨s.router.accept q, L, s.trace ++ [.accepted q]⟩
      = ⟨s.core.queued ++ [q], L, s.core.accepted ++ [q], s.core.accessed⟩ := by
  simp [core, accept, acceptedOf, accessedOf]

variable {q : Request}

theorem core_raised (s : RouterSystem δ)
    (hfind : (s.router.queued.find? fun x => x.window.deviceId = q.window.deviceId) = some q)
    (L : ℕ → TransactionLedger δ (ℕ × ℕ)) :
    core ⟨s.router.pop q.window.deviceId, L, s.trace ++ [.accessRaised q]⟩
      = ⟨s.core.queued.erase q, L, s.core.accepted, s.core.accessed ++ [q]⟩ := by
  simp [core, pop, eraseP_eq_erase_of_find? hfind, acceptedOf, accessedOf]

theorem core_delivered (s : RouterSystem δ)
    (hfind : (s.router.queued.find? fun x => x.window.deviceId = q.window.deviceId) = some q)
    (L : ℕ → TransactionLedger δ (ℕ × ℕ)) (access : Access) (answer : TargetAnswer) (row : DeliveryRow) :
    (callBack ⟨(s.router.delivered q access).pop q.window.deviceId, L,
        s.trace ++ [.accessReturned q row]⟩ answer q (some row)).1.core
      = ⟨s.core.queued.erase q, L, s.core.accepted, s.core.accessed ++ [q]⟩ := by
  rw [core_callBack]
  simp [core, pop, delivered, eraseP_eq_erase_of_find? hfind,
    acceptedOf, accessedOf]

/-- **Every move projects to a core step.** -/
theorem Move.coreStep [DecidableEq δ] {digest : MmioPayload → Except Exn δ} {s s' : RouterSystem δ}
    {a : RouterAction} (h : Move digest s a s') : RouterCore.Step digest s.core s'.core := by
  cases h with
  | same => exact .same
  | accepted hd hn hseq =>
    rw [core_accepted]
    exact .accept hd hn hseq
  | raised hfind hres =>
    rw [core_raised s hfind]
    exact .reach (show Status.Reached .uncertainEffect from trivial) hfind hres
  | @delivered a q d r L' hfind hres access answer =>
    rw [core_delivered s hfind]
    exact .reach (show Status.Reached (.complete r) from trivial) hfind hres
  | cancelled hrun => exact .cancel hrun
  | cancelFailed hq hx hrun hfail => exact .cancelFailed hq hx hrun hfail

end RouterSystem

end MyFuzz
