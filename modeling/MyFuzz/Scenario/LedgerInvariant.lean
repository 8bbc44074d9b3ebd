import MyFuzz.Scenario.Ledger

/-!
# Scenario/LedgerInvariant — the two counters of a channel say how far each entry has come

Each call is inverted once (`accept_cases`, `completeBegin_cases`, `executeBegin_cases`,
`cancelAccepted_cases`), and each primitive update keeps the invariant `WF` once.  `WF` ties the
status of every entry to the two counters of its channel:

    accepted   ↔  1 ≤ sequence < next_channel
    settled    ↔  sequence < next_target
    uncertain  →  sequence = next_target
-/

namespace MyFuzz

namespace TransactionLedger

open Outcome Dict TransactionKey

variable {π δ ρ : Type}

/-! ## What the primitive updates do -/

@[simp] theorem get?_init (k : TransactionKey) : (init : TransactionLedger δ ρ).entries.get? k = none := rfl

@[simp] theorem nextChannel_init (c : Channel) : (init : TransactionLedger δ ρ).nextChannel c = 1 := rfl

theorem get?_push (L : TransactionLedger δ ρ) (key k : TransactionKey) (e : Entry δ ρ) :
    (L.push key e).entries.get? k = if k = key then some e else L.entries.get? k :=
  get?_set _ _ _ _

theorem nextChannel_push (L : TransactionLedger δ ρ) (key : TransactionKey) (e : Entry δ ρ)
    (c : Channel) : (L.push key e).nextChannel c
      = if c = key.channel then L.nextChannel c + 1 else L.nextChannel c := by
  by_cases h : c = key.channel
  · subst h
    rw [if_pos rfl]
    exact getD_set_self _ _ _ _
  · rw [if_neg h]
    exact getD_set_of_ne _ h _ _

@[simp] theorem nextTarget_push (L : TransactionLedger δ ρ) (key : TransactionKey) (e : Entry δ ρ)
    (c : Channel) : (L.push key e).nextTarget c = L.nextTarget c := rfl

variable {L L' : TransactionLedger δ ρ} {key : TransactionKey} {e : Entry δ ρ} {p : π} {d : δ} {st : Status ρ}

theorem setStatus_eq (h : L.entries.get? key = some e) (st : Status ρ) :
    L.setStatus key st = { L with entries := L.entries.set key { e with status := st } } := by
  simp [setStatus, h]

theorem get?_setStatus (h : L.entries.get? key = some e) (st : Status ρ) (k : TransactionKey) :
    (L.setStatus key st).entries.get? k
      = if k = key then some { e with status := st } else L.entries.get? k := by
  rw [setStatus_eq h]
  exact get?_set _ _ _ _

section

variable (L : TransactionLedger δ ρ)

@[simp] theorem nextChannel_setStatus (key : TransactionKey)
    (st : Status ρ) (c : Channel) : (L.setStatus key st).nextChannel c = L.nextChannel c := by
  unfold setStatus
  split <;> rfl

@[simp] theorem nextTarget_setStatus (key : TransactionKey)
    (st : Status ρ) (c : Channel) : (L.setStatus key st).nextTarget c = L.nextTarget c := by
  unfold setStatus
  split <;> rfl

@[simp] theorem entries_setTarget (c : Channel) (n : ℕ) :
    (L.setTarget c n).entries = L.entries := rfl

@[simp] theorem nextChannel_setTarget (c c' : Channel) (n : ℕ) :
    (L.setTarget c n).nextChannel c' = L.nextChannel c' := rfl

theorem nextTarget_setTarget (c c' : Channel) (n : ℕ) :
    (L.setTarget c n).nextTarget c' = if c' = c then n else L.nextTarget c' := by
  by_cases h : c' = c
  · subst h
    rw [if_pos rfl]
    exact getD_set_self _ _ _ _
  · rw [if_neg h]
    exact getD_set_of_ne _ h _ _

end

theorem targetReady_iff :
    L.targetReady key = true ↔ (∃ d, L.entries.get? key = some ⟨d, .targetPending⟩) ∧
      key.sourceSequence = L.nextTarget key.channel := by
  unfold targetReady
  split
  · next d h => simp [h]
  · next h =>
    simp only [Bool.false_eq_true, false_iff, not_and]
    rintro ⟨d, hd⟩
    exact absurd hd (h d)

theorem mem_uncertainKeys :
    key ∈ L.uncertainKeys ↔ ∃ e, L.entries.get? key = some e ∧ e.status.Uncertain := by
  constructor
  · intro h
    obtain ⟨⟨k, e⟩, hmem, rfl⟩ := List.mem_map.1 h
    rw [List.mem_filter, decide_eq_true_eq] at hmem
    exact ⟨e, mem_entries_iff.1 hmem.1, hmem.2⟩
  · rintro ⟨e, he, hu⟩
    exact List.mem_map.2 ⟨(key, e), List.mem_filter.2
      ⟨mem_entries_iff.2 he, decide_eq_true hu⟩, rfl⟩

/-! ## What a call can do -/

section Calls

variable [DecidableEq δ] {digest : π → Except Exn δ}

/-- **An acceptance that does not raise** is a retransmission, which changes nothing, or appends the
next key of its channel. -/
theorem accept_cases {b : Bool} (h : accept digest L key p = .ok (b, L')) :
    ∃ d, digest p = .ok d ∧ ((b = false ∧ L' = L ∧ ∃ e, L.entries.get? key = some e ∧ e.payloadDigest = d ∧
          (e.status = .targetPending ∨ ∃ r, e.status = .complete r)) ∨
        (b = true ∧ L.entries.get? key = none ∧
          key.sourceSequence = L.nextChannel key.channel ∧ L' = L.push key ⟨d, .targetPending⟩)) := by
  obtain ⟨d, hd, h⟩ := bind_ok.1 h
  refine ⟨d, hd, ?_⟩
  cases he : L.entries.get? key with
  | none =>
    simp only [he] at h
    obtain ⟨hs, h⟩ := ensure_ok.1 h
    cases h
    exact .inr ⟨rfl, rfl, hs, rfl⟩
  | some e =>
    simp only [he] at h
    obtain ⟨hdig, h⟩ := ensure_ok.1 h
    cases hst : e.status with
    | targetPending =>
      simp only [hst] at h
      cases h
      exact .inl ⟨rfl, rfl, e, rfl, hdig, .inl hst⟩
    | complete r =>
      simp only [hst] at h
      cases h
      exact .inl ⟨rfl, rfl, e, rfl, hdig, .inr ⟨r, hst⟩⟩
    | targetInflight | uncertainEffect | cancelled => simp only [hst] at h; cases h

variable {b : Begun δ ρ}

/-- **`complete_accepted` before its operation**: a frozen receipt, or the start of the channel's
next pending request. -/
theorem completeBegin_cases (h : completeBegin digest L key p = .ok b) :
    ∃ d e, digest p = .ok d ∧ L.entries.get? key = some e ∧ e.payloadDigest = d ∧
      ((∃ r, e.status = .complete r ∧ b = .cached r) ∨
        (e.status = .targetPending ∧ key.sourceSequence = L.nextTarget key.channel ∧
          b = .started (L.setStatus key .targetInflight) ⟨key, L.nextTarget key.channel⟩)) := by
  obtain ⟨d, hd, h⟩ := bind_ok.1 h
  cases he : L.entries.get? key with
  | none => simp only [he] at h; cases h
  | some e =>
    simp only [he] at h
    obtain ⟨hdig, h⟩ := ensure_ok.1 h
    refine ⟨d, e, hd, rfl, hdig, ?_⟩
    cases hst : e.status with
    | complete r =>
      simp only [hst] at h
      cases h
      exact .inl ⟨r, rfl, rfl⟩
    | targetPending =>
      simp only [hst] at h
      obtain ⟨hs, h⟩ := ensure_ok.1 h
      cases h
      exact .inr ⟨rfl, hs, rfl⟩
    | targetInflight | uncertainEffect | cancelled => simp only [hst] at h; cases h

/-- The operation of the channel's next pending request starts. -/
theorem completeBegin_of_next (hd : digest p = .ok d) (he : L.entries.get? key = some ⟨d, .targetPending⟩)
    (hseq : key.sourceSequence = L.nextTarget key.channel) : completeBegin digest L key p
      = .ok (.started (L.setStatus key .targetInflight) ⟨key, L.nextTarget key.channel⟩) := by
  simp [completeBegin, hd, he, hseq, ensure_of]

/-- **`execute_once` before its operation**: a frozen receipt, or the start of a new key where the
channel has nothing pending. -/
theorem executeBegin_cases (h : executeBegin digest L key p = .ok b) :
    ∃ d, digest p = .ok d ∧
      ((∃ e r, L.entries.get? key = some e ∧ e.payloadDigest = d ∧ e.status = .complete r ∧ b = .cached r) ∨
        (L.entries.get? key = none ∧ key.sourceSequence = L.nextChannel key.channel ∧
          key.sourceSequence = L.nextTarget key.channel ∧
          b = .started (L.push key ⟨d, .targetInflight⟩) ⟨key, L.nextTarget key.channel⟩)) := by
  obtain ⟨d, hd, h⟩ := bind_ok.1 h
  refine ⟨d, hd, ?_⟩
  cases he : L.entries.get? key with
  | none =>
    simp only [he] at h
    obtain ⟨hc, ht, h⟩ := ensure_ok₂ h
    cases h
    exact .inr ⟨rfl, hc, ht, rfl⟩
  | some e =>
    simp only [he] at h
    obtain ⟨hdig, h⟩ := ensure_ok.1 h
    cases hst : e.status with
    | complete r =>
      simp only [hst] at h
      cases h
      exact .inl ⟨e, r, rfl, hdig, hst, rfl⟩
    | targetPending | targetInflight | uncertainEffect | cancelled => simp only [hst] at h; cases h

/-- **A cancellation that does not raise** settles the channel's next pending request. -/
theorem cancelAccepted_cases (h : cancelAccepted digest L key p = .ok L') :
    ∃ d e, digest p = .ok d ∧ L.entries.get? key = some e ∧ e.payloadDigest = d ∧
      e.status = .targetPending ∧ key.sourceSequence = L.nextTarget key.channel ∧
      L' = (L.setStatus key .cancelled).setTarget key.channel (L.nextTarget key.channel + 1) := by
  obtain ⟨d, hd, h⟩ := bind_ok.1 h
  cases he : L.entries.get? key with
  | none => simp only [he] at h; cases h
  | some e =>
    simp only [he] at h
    obtain ⟨hdig, h⟩ := ensure_ok.1 h
    refine ⟨d, e, hd, rfl, hdig, ?_⟩
    cases hst : e.status with
    | targetPending =>
      simp only [hst] at h
      obtain ⟨hs, h⟩ := ensure_ok.1 h
      cases h
      exact ⟨rfl, hs, rfl⟩
    | complete r | targetInflight | uncertainEffect | cancelled => simp only [hst] at h; cases h

/-- The channel's next pending request can be cancelled. -/
theorem cancelAccepted_of_next (hd : digest p = .ok d) (he : L.entries.get? key = some ⟨d, .targetPending⟩)
    (hseq : key.sourceSequence = L.nextTarget key.channel) : cancelAccepted digest L key p
      = .ok ((L.setStatus key .cancelled).setTarget key.channel (L.nextTarget key.channel + 1)) := by
  simp [cancelAccepted, hd, he, hseq, ensure_of]

end Calls

/-! ## The invariant -/

/-- The counters of a channel say which of its keys are accepted, which are settled, and where an
uncertain one stands. -/
structure WF (L : TransactionLedger δ ρ) : Prop where
  accepted_iff : ∀ k, (L.entries.get? k).isSome ↔
    1 ≤ k.sourceSequence ∧ k.sourceSequence < L.nextChannel k.channel
  target_pos : ∀ c, 1 ≤ L.nextTarget c
  target_le : ∀ c, L.nextTarget c ≤ L.nextChannel c
  settled_iff : ∀ {k e}, L.entries.get? k = some e →
    (e.status.Settled ↔ k.sourceSequence < L.nextTarget k.channel)
  uncertain_eq : ∀ {k e}, L.entries.get? k = some e → e.status.Uncertain →
    k.sourceSequence = L.nextTarget k.channel

theorem wf_init : (init : TransactionLedger δ ρ).WF where
  accepted_iff k := by
    simp only [get?_init, Option.isSome_none, Bool.false_eq_true, nextChannel_init, false_iff]
    omega
  target_pos c := le_refl 1
  target_le c := le_refl 1
  settled_iff h := by cases h
  uncertain_eq h := by cases h

namespace WF

variable {L : TransactionLedger δ ρ}

/-- **The next key of a channel may be appended**, at rest or already running. -/
theorem push (hL : L.WF) (hseq : key.sourceSequence = L.nextChannel key.channel)
    (hset : ¬ st.Settled) (hunc : st.Uncertain → key.sourceSequence = L.nextTarget key.channel) :
    (L.push key ⟨d, st⟩).WF where
  accepted_iff k := by
    rw [get?_push, nextChannel_push]
    by_cases hk : k = key
    · subst hk
      have h1 := hL.target_pos k.channel
      have h2 := hL.target_le k.channel
      simp only [if_true, Option.isSome_some, true_iff]
      omega
    · rw [if_neg hk, hL.accepted_iff k]
      by_cases hc : k.channel = key.channel
      · have hne : k.sourceSequence ≠ L.nextChannel k.channel := fun h =>
          hk (ext_channel hc (h.trans (hc ▸ hseq.symm)))
        rw [if_pos hc]
        omega
      · rw [if_neg hc]
  target_pos c := hL.target_pos c
  target_le c := by
    have h := hL.target_le c
    rw [nextTarget_push, nextChannel_push]
    split <;> omega
  settled_iff {k e} h := by
    rw [get?_push] at h
    by_cases hk : k = key
    · subst hk
      rw [if_pos rfl] at h
      cases h
      have h2 := hL.target_le k.channel
      rw [nextTarget_push, iff_false_left hset]
      omega
    · rw [if_neg hk] at h
      exact hL.settled_iff h
  uncertain_eq {k e} h hu := by
    rw [get?_push] at h
    by_cases hk : k = key
    · subst hk
      rw [if_pos rfl] at h
      cases h
      exact hunc hu
    · rw [if_neg hk] at h
      exact hL.uncertain_eq h hu

section

variable (hL : L.WF) (he : L.entries.get? key = some e)

include hL he

/-- **The status of a stored entry may move** while it stays on the same side of settled. -/
theorem setStatus (hset : st.Settled ↔ e.status.Settled)
    (hunc : st.Uncertain → key.sourceSequence = L.nextTarget key.channel) :
    (L.setStatus key st).WF where
  accepted_iff k := by
    rw [get?_setStatus he, nextChannel_setStatus, ← hL.accepted_iff k]
    by_cases hk : k = key
    · subst hk
      simp [he]
    · rw [if_neg hk]
  target_pos c := by simpa using hL.target_pos c
  target_le c := by simpa using hL.target_le c
  settled_iff {k e'} h := by
    rw [get?_setStatus he] at h
    rw [nextTarget_setStatus]
    by_cases hk : k = key
    · subst hk
      rw [if_pos rfl] at h
      cases h
      exact hset.trans (hL.settled_iff he)
    · rw [if_neg hk] at h
      exact hL.settled_iff h
  uncertain_eq {k e'} h hu := by
    rw [get?_setStatus he] at h
    rw [nextTarget_setStatus]
    by_cases hk : k = key
    · subst hk
      rw [if_pos rfl] at h
      cases h
      exact hunc hu
    · rw [if_neg hk] at h
      exact hL.uncertain_eq h hu

/-- **The entry at the target counter may settle**, which moves the counter past it. -/
theorem settle
    (hseq : key.sourceSequence = L.nextTarget key.channel) (hset : st.Settled) (hunc : ¬ st.Uncertain) :
    ((L.setStatus key st).setTarget key.channel (L.nextTarget key.channel + 1)).WF where
  accepted_iff k := by
    rw [entries_setTarget, get?_setStatus he, nextChannel_setTarget, nextChannel_setStatus,
      ← hL.accepted_iff k]
    by_cases hk : k = key
    · subst hk
      simp [he]
    · rw [if_neg hk]
  target_pos c := by
    have h := hL.target_pos c
    rw [nextTarget_setTarget, nextTarget_setStatus]
    split <;> omega
  target_le c := by
    have hacc := (hL.accepted_iff key).1 (by simp [he])
    have h := hL.target_le c
    rw [nextTarget_setTarget, nextTarget_setStatus, nextChannel_setTarget, nextChannel_setStatus]
    split
    · next hc =>
      subst hc
      omega
    · exact h
  settled_iff {k e'} h := by
    rw [entries_setTarget, get?_setStatus he] at h
    rw [nextTarget_setTarget, nextTarget_setStatus]
    by_cases hk : k = key
    · subst hk
      rw [if_pos rfl] at h
      cases h
      rw [if_pos rfl, iff_true_left hset]
      omega
    · rw [if_neg hk] at h
      rw [hL.settled_iff h]
      by_cases hc : k.channel = key.channel
      · have hne : k.sourceSequence ≠ key.sourceSequence := fun hs =>
          hk (ext_channel hc hs)
        rw [if_pos hc, hc]
        omega
      · rw [if_neg hc]
  uncertain_eq {k e'} h hu := by
    rw [entries_setTarget, get?_setStatus he] at h
    rw [nextTarget_setTarget, nextTarget_setStatus]
    by_cases hk : k = key
    · subst hk
      rw [if_pos rfl] at h
      cases h
      exact absurd hu hunc
    · rw [if_neg hk] at h
      have hs := hL.uncertain_eq h hu
      have hc : k.channel ≠ key.channel := fun hc =>
        hk (ext_channel hc (hs.trans (hc ▸ hseq.symm)))
      rw [if_neg hc]
      exact hs

/-- **The key a channel delivers next**, when an accepted key lies beyond the target counter. -/
theorem next_unsettled (hlt : L.nextTarget key.channel < key.sourceSequence) :
    ∃ k e', k.channel = key.channel ∧ k.sourceSequence = L.nextTarget key.channel ∧
      L.entries.get? k = some e' ∧ ¬ e'.status.Settled := by
  let k : TransactionKey := { key with sourceSequence := L.nextTarget key.channel }
  have hkc : k.channel = key.channel := rfl
  have hks : k.sourceSequence = L.nextTarget key.channel := rfl
  obtain ⟨e', he'⟩ : ∃ e', L.entries.get? k = some e' := by
    rw [← Option.isSome_iff_exists, hL.accepted_iff, hkc, hks]
    have h1 := (hL.accepted_iff key).1 (by rw [he]; rfl)
    have h2 := hL.target_pos key.channel
    omega
  refine ⟨k, e', hkc, hks, he', fun h => ?_⟩
  have := (hL.settled_iff he').1 h
  rw [hkc, hks] at this
  omega

end

end WF

/-! ## What is never undone -/

/-- Entries are never dropped, digests never change, and a final status stays. -/
def Evolves (L L' : TransactionLedger δ ρ) : Prop :=
  ∀ k e, L.entries.get? k = some e → ∃ e', L'.entries.get? k = some e' ∧
    e'.payloadDigest = e.payloadDigest ∧ (e.status.Final → e'.status = e.status)

theorem Evolves.refl (L : TransactionLedger δ ρ) : Evolves L L := fun _ e h => ⟨e, h, rfl, fun _ => rfl⟩

theorem Evolves.trans {L₁ L₂ L₃ : TransactionLedger δ ρ} (h : Evolves L₁ L₂)
    (h' : Evolves L₂ L₃) : Evolves L₁ L₃ := by
  intro k e he
  obtain ⟨e₂, he₂, hd₂, hf₂⟩ := h k e he
  obtain ⟨e₃, he₃, hd₃, hf₃⟩ := h' k e₂ he₂
  refine ⟨e₃, he₃, hd₃.trans hd₂, fun hf => ?_⟩
  rw [hf₃ (hf₂ hf ▸ hf), hf₂ hf]

theorem evolves_push (e : Entry δ ρ) (hn : L.entries.get? key = none) : Evolves L (L.push key e) := by
  intro k e' he'
  have hk : k ≠ key := by
    rintro rfl
    rw [hn] at he'
    cases he'
  exact ⟨e', by rw [get?_push, if_neg hk, he'], rfl, fun _ => rfl⟩

theorem evolves_setStatus (he : L.entries.get? key = some e) (hf : ¬ e.status.Final) (st : Status ρ) :
    Evolves L (L.setStatus key st) := by
  intro k e' he'
  by_cases hk : k = key
  · subst hk
    obtain rfl : e = e' := Option.some.inj (he.symm.trans he')
    exact ⟨{ e with status := st }, by rw [get?_setStatus he, if_pos rfl], rfl, fun h => absurd h hf⟩
  · exact ⟨e', by rw [get?_setStatus he, if_neg hk, he'], rfl, fun _ => rfl⟩

/-! ## Resolving a pending key

The three ways the pending key at a channel's target counter ends — its operation returns, its
operation raises, it is cancelled — differ in the final status alone. -/

/-- `L'` is `L` after its pending key at the target counter took the final status `st`. -/
structure Resolves (L : TransactionLedger δ ρ) (key : TransactionKey) (d : δ) (st : Status ρ)
    (L' : TransactionLedger δ ρ) : Prop where
  pending : L.entries.get? key = some ⟨d, .targetPending⟩
  at_target : key.sourceSequence = L.nextTarget key.channel
  wf : L'.WF
  get? : ∀ k, L'.entries.get? k = if k = key then some ⟨d, st⟩ else L.entries.get? k
  nextChannel : ∀ c, L'.nextChannel c = L.nextChannel c
  nextTarget : ∀ c, L'.nextTarget c
    = if c = key.channel ∧ st.Settled then L.nextTarget c + 1 else L.nextTarget c

namespace Resolves

variable {L L' : TransactionLedger δ ρ} {key : TransactionKey} {d : δ} {st : Status ρ}

theorem get?_self (h : Resolves L key d st L') : L'.entries.get? key = some ⟨d, st⟩ := by
  rw [h.get?, if_pos rfl]

theorem get?_of_ne (h : Resolves L key d st L') {k : TransactionKey} (hk : k ≠ key) :
    L'.entries.get? k = L.entries.get? k := by
  rw [h.get?, if_neg hk]

theorem nextTarget_of_ne (h : Resolves L key d st L') {c : Channel} (hc : c ≠ key.channel) :
    L'.nextTarget c = L.nextTarget c := by
  rw [h.nextTarget, if_neg fun hh => hc hh.1]

theorem nextTarget_le (h : Resolves L key d st L') (c : Channel) : L.nextTarget c ≤ L'.nextTarget c := by
  rw [h.nextTarget]
  split <;> omega

end Resolves

/-- Settling the pending key at the target counter resolves it. -/
theorem resolves_settle (hL : L.WF) (he : L.entries.get? key = some ⟨d, .targetPending⟩)
    (hseq : key.sourceSequence = L.nextTarget key.channel) (hset : st.Settled)
    (hunc : ¬ st.Uncertain) : Resolves L key d st
      ((L.setStatus key st).setTarget key.channel (L.nextTarget key.channel + 1)) where
  pending := he
  at_target := hseq
  wf := hL.settle he hseq hset hunc
  get? k := by rw [entries_setTarget, get?_setStatus he]
  nextChannel c := by simp
  nextTarget c := by
    rw [nextTarget_setTarget, nextTarget_setStatus]
    by_cases hc : c = key.channel
    · simp [hc, hset]
    · simp [hc]

theorem setStatus_setStatus (he : L.entries.get? key = some e) (st st' : Status ρ) (k : TransactionKey) :
    ((L.setStatus key st).setStatus key st').entries.get? k
      = (L.setStatus key st').entries.get? k := by
  have h1 : (L.setStatus key st).entries.get? key = some { e with status := st } := by
    rw [get?_setStatus he, if_pos rfl]
  rw [get?_setStatus h1, get?_setStatus he, get?_setStatus he]
  split <;> rfl

/-- **A delivery that returns** resolves its key as complete. -/
theorem resolves_returned (hL : L.WF) (he : L.entries.get? key = some ⟨d, .targetPending⟩)
    (hseq : key.sourceSequence = L.nextTarget key.channel) (r : ρ) :
    Resolves L key d (.complete r)
      ((L.setStatus key .targetInflight).opReturned ⟨key, L.nextTarget key.channel⟩ r) where
  pending := he
  at_target := hseq
  wf := by
    have h1 : (L.setStatus key .targetInflight).entries.get? key = some ⟨d, .targetInflight⟩ := by
      rw [get?_setStatus he, if_pos rfl]
    have h0 : (L.setStatus key .targetInflight).WF := hL.setStatus he Iff.rfl fun _ => hseq
    have h2 := h0.settle h1
      (by rw [nextTarget_setStatus]; exact hseq) (show (Status.complete r).Settled from trivial) id
    rwa [nextTarget_setStatus] at h2
  get? k := by
    change ((L.setStatus key .targetInflight).setStatus key (.complete r)).entries.get? k = _
    rw [setStatus_setStatus he, get?_setStatus he]
  nextChannel c := by simp [opReturned]
  nextTarget c := by
    rw [opReturned, nextTarget_setTarget, nextTarget_setStatus, nextTarget_setStatus]
    by_cases hc : c = key.channel
    · simp [hc, Status.Settled]
    · simp [hc]

/-- **A delivery that raises** leaves its key uncertain, and the target counter on it. -/
theorem resolves_raised (hL : L.WF) (he : L.entries.get? key = some ⟨d, .targetPending⟩)
    (hseq : key.sourceSequence = L.nextTarget key.channel) :
    Resolves L key d .uncertainEffect
      ((L.setStatus key .targetInflight).opRaised ⟨key, L.nextTarget key.channel⟩) where
  pending := he
  at_target := hseq
  wf := by
    have h1 : (L.setStatus key .targetInflight).entries.get? key = some ⟨d, .targetInflight⟩ := by
      rw [get?_setStatus he, if_pos rfl]
    have h0 : (L.setStatus key .targetInflight).WF := hL.setStatus he Iff.rfl fun _ => hseq
    exact h0.setStatus h1 Iff.rfl fun _ => by rw [nextTarget_setStatus]; exact hseq
  get? k := by
    rw [opRaised, setStatus_setStatus he, get?_setStatus he]
  nextChannel c := by simp [opRaised]
  nextTarget c := by simp [opRaised, Status.Settled]

/-- **A cancellation** resolves its key as cancelled. -/
theorem resolves_cancelled [DecidableEq δ] {digest : π → Except Exn δ} (hL : L.WF)
    (h : cancelAccepted digest L key p = .ok L') :
    ∃ d, digest p = .ok d ∧ Resolves L key d .cancelled L' := by
  obtain ⟨d, ⟨d', st⟩, hd, he, rfl, rfl, hseq, rfl⟩ := cancelAccepted_cases h
  exact ⟨_, hd, resolves_settle hL he hseq trivial id⟩

end TransactionLedger

end MyFuzz
