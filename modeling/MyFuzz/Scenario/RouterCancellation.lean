import MyFuzz.Scenario.RouterDelivery

/-!
# Scenario/RouterCancellation — when a cancellation is all or nothing

`cancel_for_ledger` should cancel and remove every queued request of a ledger, or raise and change
nothing.  It settles the ledger request by request and replaces the queue at the end, so the pass has
a third outcome:

    every channel moves     ──▸ all cancelled, all removed
    first request refused   ──▸ raised, nothing changed
    a later one refused     ──▸ raised, those before it cancelled and still queued

Which one it is can be read off the state before the call (`CancelsWhole`), in every state a run of
calls reaches, also one in which an earlier pass has left cancelled requests in the queue.
-/

namespace MyFuzz

open Run RouterCore List

namespace RouterSystem

variable {δ : Type}

/-- A ledger has no queued request that it cancelled. -/
def NoneStale (s : RouterSystem δ) (ledger : ℕ) : Prop :=
  ∀ q ∈ s.router.queued, q.ledger = ledger → s.cancelled q = false

/-- The oldest queued request of each channel of the ledger is ready, or the ledger's oldest one is not and
none was left behind cancelled. -/
def CancelsWhole (s : RouterSystem δ) (ledger : ℕ) : Prop :=
  (∀ x ∈ s.router.queued, x.ledger = ledger → ∀ f, (s.router.queued.find? fun q => q.lane = x.lane) = some f →
      (s.ledgers ledger).targetReady f.key = true) ∨
  ((∀ q, (s.router.queued.find? fun q => q.ledger = ledger) = some q →
      (s.ledgers ledger).targetReady q.key = false) ∧ s.NoneStale ledger)

section Cancellation

variable [DecidableEq δ] {digest : MmioPayload → Except Exn δ} {s : RouterSystem δ}

/-- What a cancellation should do. -/
structure AllOrNothing (digest : MmioPayload → Except Exn δ) (s : RouterSystem δ) (ledger : ℕ) : Prop where
  /-- Every queued request of the ledger is cancelled and removed, or the call raises and leaves the
  router and all ledgers as they were. -/
  outcome :
    ((s.cancelForLedger digest ledger).2 = .ok
        ((s.router.queued.filter fun q => q.ledger = ledger).map Request.key) ∧
      (s.cancelForLedger digest ledger).1.router.queued
        = s.router.queued.filter (fun q => q.ledger ≠ ledger) ∧
      ∀ q ∈ s.router.queued, q.ledger = ledger → (s.cancelForLedger digest ledger).1.cancelled q = true) ∨
    ∃ e, (s.cancelForLedger digest ledger).2 = .error e ∧ (s.cancelForLedger digest ledger).1 = s
  /-- No request remains queued whose entry is cancelled. -/
  unqueued : (s.cancelForLedger digest ledger).1.NoneStale ledger

variable {l : ℕ} {L' : TransactionLedger δ (ℕ × ℕ)} {x : Request}

/-- A call that raises and changes nothing, where nothing was stale. -/
theorem allOrNothing_of_unchanged {e : Exn} (h : s.cancelForLedger digest l = (s, .error e)) :
    AllOrNothing digest s l ↔ s.NoneStale l := by
  constructor
  · intro hall
    have hstale := hall.unqueued
    rwa [h] at hstale
  · intro hstale
    exact ⟨.inr ⟨e, by rw [h], by rw [h]⟩, by rw [h]; exact hstale⟩

/-- A request that was pending and is cancelled in the ledger a pass leaves. -/
theorem cancelled_of_cancelRun (hs : s.core.Inv digest) {qs : List Request}
    (hrun : CancelRun digest (s.ledgers l) qs L') {q : Request} (hq : q ∈ qs) (hl : q.ledger = l)
    (queued : List Request) :
    s.cancelled q = false ∧ cancelled { s with
      router := { s.router with queued := queued }
      ledgers := Function.update s.ledgers l L' } q = true := by
  obtain ⟨d, -, hpend, hcanc⟩ := hrun.get?_of_mem (hs.wf l) hq
  constructor
  · rw [cancelled, hl, hpend]
  · rw [cancelled]
    simp only [hl, Function.update_self]
    rw [hcanc]

/-- The first request of a list of a ledger's requests is the first of its channel among them. -/
theorem find?_lane_of_first {queued : List Request} (hfirst : (queued.find? fun q => q.ledger = l) = some x) :
    (queued.find? fun q => q.lane = x.lane) = some x := by
  obtain ⟨hl, pre, post, rfl, hpre⟩ := find?_eq_some_iff_append.1 hfirst
  have hl : x.ledger = l := by simpa using hl
  refine find?_eq_some_iff_append.2 ⟨by simp, pre, post, rfl, fun q hq => ?_⟩
  have hne : q.ledger ≠ l := by simpa using hpre q hq
  have hlane : q.lane ≠ x.lane := fun h => hne ((lane_eq_iff.1 h).1.trans hl)
  simpa using hlane

/-- **A pass that cancels everything found every channel ready.** -/
theorem lanes_ready_of_cancelRun (hs : s.core.Inv digest)
    (hrun : CancelRun digest (s.ledgers l) (s.router.queued.filter fun q => q.ledger = l) L')
    (hl : x.ledger = l) {f : Request} (hf : (s.router.queued.find? fun q => q.lane = x.lane) = some f) :
    (s.ledgers l).targetReady f.key = true := by
  obtain ⟨hlane, pre, post, hqueue, hpre⟩ := find?_eq_some_iff_append.1 hf
  obtain ⟨hfl, hfc⟩ := lane_eq_iff.1 (by simpa using hlane : f.lane = x.lane)
  have hkeep : (f :: post).filter (fun q => q.ledger = l) = f :: post.filter fun q => q.ledger = l :=
    filter_cons_of_pos (by simpa using hfl.trans hl)
  rw [hqueue, filter_append, hkeep] at hrun
  refine hrun.ready_of_first (hs.wf l) fun q hq hc => ?_
  obtain ⟨hq, hql⟩ := mem_filter.1 hq
  have hnot := hpre q hq
  have hsame : q.lane = x.lane :=
    lane_eq_iff.2 ⟨(of_decide_eq_true hql).trans hl.symm, hc.trans hfc⟩
  simp [hsame] at hnot

/-- **All or nothing, exactly when the state before the call says so.** -/
theorem allOrNothing_iff (hs : s.core.Inv digest) (l : ℕ) : AllOrNothing digest s l ↔ s.CancelsWhole l := by
  rcases cancelPass_cases digest l s.router.queued (s.ledgers l) with
    ⟨L', hpass, hrun⟩ | ⟨pre, x, post, e, L', hsplit, hx, hpass, hrun, hfail⟩
  · -- the pass cancels every request of the ledger
    have hcall : s.cancelForLedger digest l = ({ s with
        router := { s.router with queued := s.router.queued.filter fun q => q.ledger ≠ l }
        ledgers := Function.update s.ledgers l L' },
        .ok ((s.router.queued.filter fun q => q.ledger = l).map Request.key)) := by
      rw [cancelForLedger, hpass]
    refine ⟨fun _ => .inl fun x _ hl f hf => lanes_ready_of_cancelRun hs hrun hl hf, fun _ => ?_⟩
    refine ⟨.inl ⟨by rw [hcall], by rw [hcall], fun q hq hl => ?_⟩, ?_⟩
    · rw [hcall]
      exact (cancelled_of_cancelRun hs hrun (mem_filter.2 ⟨hq, by simpa using hl⟩) hl _).2
    · rw [hcall]
      intro q hq hl
      have hne := (mem_filter.1 hq).2
      simp [hl] at hne
  · have hxq : x ∈ s.router.queued := by
      rw [hsplit]
      exact mem_append_right _ (.head _)
    have hcall : s.cancelForLedger digest l
        = ({ s with ledgers := Function.update s.ledgers l L' }, .error e) := by
      rw [cancelForLedger, hpass]
    obtain ⟨f, hf⟩ : ∃ f, (s.router.queued.find? fun q => q.lane = x.lane) = some f := by
      rw [← Option.isSome_iff_exists, find?_isSome]
      exact ⟨x, hxq, by simp⟩
    have hstuck : (s.ledgers l).targetReady f.key = false :=
      not_ready_of_refused hs hsplit hx hrun hfail hf
    -- so the first alternative of the condition fails, and what was before `x` decides
    have hnotall : ¬ ∀ x ∈ s.router.queued, x.ledger = l →
        ∀ f, (s.router.queued.find? fun q => q.lane = x.lane) = some f →
          (s.ledgers l).targetReady f.key = true := by
      intro hall
      rw [hall x hxq hx f hf] at hstuck
      cases hstuck
    rw [CancelsWhole, or_iff_right hnotall]
    cases hpre : pre.filter fun q => q.ledger = l with
    | nil =>
      rw [hpre] at hrun
      cases hrun
      have hfirst : (s.router.queued.find? fun q => q.ledger = l) = some x := by
        rw [hsplit, find?_append, ← head?_filter, hpre]
        simp [hx]
      rw [update_ledgers_self] at hcall
      rw [allOrNothing_of_unchanged hcall]
      refine ⟨fun hstale => ⟨fun q hq => ?_, hstale⟩, fun h => h.2⟩
      rw [hfirst] at hq
      rw [find?_lane_of_first hfirst] at hf
      rw [← Option.some.inj hq, Option.some.inj hf]
      exact hstuck
    | cons f rest =>
      rw [hpre] at hrun
      have hmem : f ∈ pre.filter fun q => q.ledger = l := by
        rw [hpre]
        exact .head _
      have hfl : f.ledger = l := of_decide_eq_true (mem_filter.1 hmem).2
      have hfq : f ∈ s.router.queued := by
        rw [hsplit]
        exact mem_append_left _ (mem_filter.1 hmem).1
      have hfirst : (s.router.queued.find? fun q => q.ledger = l) = some f := by
        rw [hsplit, find?_append, ← head?_filter, hpre]
        rfl
      obtain ⟨-, hcanc⟩ := cancelled_of_cancelRun hs hrun mem_cons_self hfl s.router.queued
      constructor
      · intro hall
        have hnot := hall.unqueued f (by rw [hcall]; exact hfq) hfl
        rw [hcall, show cancelled _ f = true from hcanc] at hnot
        cases hnot
      · rintro ⟨hrefused, -⟩
        have hrun' : CancelRun digest (s.ledgers l) ([] ++ f :: rest) L' := hrun
        have hready := hrun'.ready_of_first (hs.wf l) nofun
        rw [hrefused f hfirst] at hready
        cases hready

/-! ## Runs -/

/-- The guard of a run: cancellation is asked for when it is all or nothing. -/
def Whole (s : RouterSystem δ) : RouterAction → Prop
  | .cancelForLedger ledger => s.CancelsWhole ledger
  | _ => True

omit [DecidableEq δ] in
theorem safe_of_whole {a : RouterAction} (h : s.Whole a) : s.Safe a := by
  cases a with
  | enqueue | drainOne => trivial
  | cancelForLedger l =>
    change s.cancelSafe l = true
    rw [cancelSafe, Bool.or_eq_true]
    rcases h with hlanes | ⟨hfirst, -⟩
    · refine .inr (all_eq_true.2 fun x hx => ?_)
      obtain ⟨hxq, hl⟩ := mem_filter.1 hx
      cases hf : s.router.queued.find? fun q => q.lane = x.lane with
      | none => rfl
      | some f => exact hlanes x hxq (of_decide_eq_true hl) f hf
    · refine .inl ?_
      cases hq : s.router.queued.find? fun q => q.ledger = l with
      | none => rfl
      | some q =>
        dsimp only
        rw [hfirst q hq]
        rfl

variable {π : Type}

/-- **Cancellation in every state a run reaches**: a call is all or nothing exactly when the state says so,
and while all were, no queued request is a cancelled one. -/
theorem cancellation_all_or_nothing_iff (digest : MmioPayload → Except Exn δ)
    (digest₀ : π → Except Exn δ) (histories : ℕ → List (LedgerAction π (ℕ × ℕ)))
    (windows : WindowMap) (as : List RouterAction) :
    (∀ l, AllOrNothing digest (run (step digest) (start digest₀ histories windows) as) l ↔
      (run (step digest) (start digest₀ histories windows) as).CancelsWhole l) ∧
    (Guarded (step digest) Whole (start digest₀ histories windows) as →
      ∀ l, (run (step digest) (start digest₀ histories windows) as).NoneStale l) := by
  constructor
  · have hkeep : ∀ s : RouterSystem δ, ∀ a, s.core.Inv digest → (s.step digest a).core.Inv digest :=
      fun s a hs => hs.step (move_step digest s hs.wf a).coreStep
    exact allOrNothing_iff (run_invariant hkeep as (inv_start digest₀ histories windows))
  · intro hguard l q hq hl
    have hkeep : ∀ s : RouterSystem δ, ∀ a, s.core.Orderly digest → s.Whole a →
        (s.step digest a).core.Orderly digest :=
      fun s a hs hwhole => (move_step digest s hs.wf a).orderly hs (safe_of_whole hwhole)
    have hs := run_invariant_of_guarded hkeep as (orderly_start digest₀ histories windows) hguard
    obtain ⟨d, hd⟩ := hs.clean q hq
    have hentry : ((run (step digest) (start digest₀ histories windows) as).ledgers
        q.ledger).entries.get? q.key = some ⟨d, .targetPending⟩ := hd
    rw [cancelled, hentry]

end Cancellation

/-- A cancellation of two ready channels, after a delivery, leaves no cancelled request queued. -/
theorem cancellation_of_ready_channels :
    (run (step Except.ok) (start (π := MmioPayload) Except.ok (fun _ => []) exampleWindows)
      [exampleWrite (LedgerSystem.exampleKey 1), exampleWrite (otherKey 1),
        exampleWrite (LedgerSystem.exampleKey 2), .drainOne "uart" returningAnswer,
        .cancelForLedger 0]).NoneStale 0 := by
  refine (cancellation_all_or_nothing_iff Except.ok Except.ok (fun _ => []) exampleWindows _).2 ?_ 0
  refine ⟨trivial, trivial, trivial, trivial, .inl fun x _ _ f hf => ?_, trivial⟩
  replace hf := mem_of_find?_eq_some hf
  revert f
  decide

/-- The calls before the cancellation that strands a request: the first channel's first request
reached a target that raised. -/
def uncertainRun : List RouterAction :=
  [exampleWrite (LedgerSystem.exampleKey 1), exampleWrite (otherKey 1),
    exampleWrite (LedgerSystem.exampleKey 2), .drainOne "uart" raisingAnswer]

/-- **A cancellation that is neither**: it raises at the first channel's second request, after it
cancelled the other channel's first one. -/
theorem cancellation_stops_half_way :
    ¬ ∀ (windows : WindowMap) (as : List RouterAction) (l : ℕ), AllOrNothing Except.ok
      (run (step Except.ok) (start (π := MmioPayload) Except.ok (fun _ => []) windows) as) l := by
  intro h
  have hstale := (h exampleWindows uncertainRun 0).unqueued
    ⟨0, otherKey 1, ⟨"uart", 0x1000, true, 1, 15, 4⟩, exampleWindow, 15, 1, 0, true⟩ (by decide) rfl
  cases hstale

end RouterSystem

end MyFuzz
