import MyFuzz.Foundations.Run
import MyFuzz.Scenario.LedgerInvariant

/-!
# Scenario/LedgerDelivery — at most one operation per key, in channel order

An operation may call the ledger while it runs, so the calls on one ledger nest.  The system of
this file is the ledger with its stack of running operations; what the environment does next is
either a ledger call — from the top level or from the innermost operation — or the end of that
operation:

    accept ─ complete ┬───────────────────────────┬ return ─ …
                      └ execute ┬ accept ┬ raise ┘

Every nesting, and every operation that returns, raises or never ends, is a list of such actions.
The keys whose operation was started are kept in order, so what delivery promises is read off the
reached state: `startedInOrder`, `counted` and `frozen`.
-/

namespace MyFuzz

open Run Outcome TransactionLedger List

/-- A ledger, its running operations (innermost first) and every key started so far, in order. -/
structure LedgerSystem (δ ρ : Type) where
  ledger : TransactionLedger δ ρ
  frames : List Frame
  started : List TransactionKey
  deriving DecidableEq

/-- What the code around a ledger can do next. -/
inductive LedgerAction (π ρ : Type) where
  | accept (key : TransactionKey) (payload : π)
  | completeAccepted (key : TransactionKey) (payload : π)
  | cancelAccepted (key : TransactionKey) (payload : π)
  | executeOnce (key : TransactionKey) (payload : π)
  /-- The innermost running operation returns. -/
  | operationReturns (receipt : ρ)
  /-- The innermost running operation raises. -/
  | operationRaises (error : Exn)

/-- What the caller sees of an action. -/
inductive LedgerAnswer (ρ : Type) where
  | returnedBool (b : Bool)
  | returnedReceipt (receipt : ρ)
  | returnedNone
  | raised (error : Exn)
  /-- The operation of the call is running now. -/
  | running
  /-- There is no running operation to end. -/
  | refused
  deriving DecidableEq

namespace LedgerSystem

variable {π δ ρ : Type}

/-- A new ledger, with nothing running. -/
def init : LedgerSystem δ ρ := ⟨.init, [], []⟩

/-- The system after a call that takes an operation got as far as the operation. -/
def begin (s : LedgerSystem δ ρ) : Except Exn (Begun δ ρ) → LedgerSystem δ ρ × LedgerAnswer ρ
  | .error e => (s, .raised e)
  | .ok (.cached receipt) => (s, .returnedReceipt receipt)
  | .ok (.started ledger frame) =>
      (⟨ledger, frame :: s.frames, s.started ++ [frame.key]⟩, .running)

section Step

variable [DecidableEq δ] (digest : π → Except Exn δ)

/-- One action, with the caller's answer. -/
def act (s : LedgerSystem δ ρ) : LedgerAction π ρ → LedgerSystem δ ρ × LedgerAnswer ρ
  | .accept key payload =>
      match s.ledger.accept digest key payload with
      | .error e => (s, .raised e)
      | .ok (fresh, ledger) => ({ s with ledger }, .returnedBool fresh)
  | .completeAccepted key payload => s.begin (s.ledger.completeBegin digest key payload)
  | .executeOnce key payload => s.begin (s.ledger.executeBegin digest key payload)
  | .cancelAccepted key payload =>
      match s.ledger.cancelAccepted digest key payload with
      | .error e => (s, .raised e)
      | .ok ledger => ({ s with ledger }, .returnedNone)
  | .operationReturns receipt =>
      match s.frames with
      | [] => (s, .refused)
      | frame :: frames =>
          ({ s with ledger := s.ledger.opReturned frame receipt, frames }, .returnedReceipt receipt)
  | .operationRaises error =>
      match s.frames with
      | [] => (s, .refused)
      | frame :: frames =>
          ({ s with ledger := s.ledger.opRaised frame, frames }, .raised error)

/-- The next state alone. -/
def step (s : LedgerSystem δ ρ) (a : LedgerAction π ρ) : LedgerSystem δ ρ := (s.act digest a).1

end Step

/-! ## What an action can do -/

/-- Everything an action can do to the system, with what it found before. -/
inductive Move (s : LedgerSystem δ ρ) : LedgerSystem δ ρ → Prop where
  /-- A refused call, or the answer of a frozen receipt. -/
  | same : Move s s
  /-- A new key is accepted. -/
  | accepted {key : TransactionKey} {d : δ} (hn : s.ledger.entries.get? key = none)
      (hseq : key.sourceSequence = s.ledger.nextChannel key.channel) :
      Move s { s with ledger := s.ledger.push key ⟨d, .targetPending⟩ }
  /-- The operation of a pending key starts. -/
  | resumed {key : TransactionKey} {e : Entry δ ρ} (he : s.ledger.entries.get? key = some e)
      (hst : e.status = .targetPending)
      (hseq : key.sourceSequence = s.ledger.nextTarget key.channel) :
      Move s ⟨s.ledger.setStatus key .targetInflight,
        ⟨key, s.ledger.nextTarget key.channel⟩ :: s.frames, s.started ++ [key]⟩
  /-- A new key is accepted and its operation starts at once. -/
  | executed {key : TransactionKey} {d : δ} (hn : s.ledger.entries.get? key = none)
      (hc : key.sourceSequence = s.ledger.nextChannel key.channel)
      (ht : key.sourceSequence = s.ledger.nextTarget key.channel) :
      Move s ⟨s.ledger.push key ⟨d, .targetInflight⟩,
        ⟨key, s.ledger.nextTarget key.channel⟩ :: s.frames, s.started ++ [key]⟩
  /-- The innermost operation returns. -/
  | returned {f : Frame} {frames : List Frame} (hf : s.frames = f :: frames) (r : ρ) :
      Move s { s with ledger := s.ledger.opReturned f r, frames }
  /-- The innermost operation raises. -/
  | raised {f : Frame} {frames : List Frame} (hf : s.frames = f :: frames) :
      Move s { s with ledger := s.ledger.opRaised f, frames }
  /-- A pending key is cancelled. -/
  | cancelled {key : TransactionKey} {e : Entry δ ρ} (he : s.ledger.entries.get? key = some e)
      (hst : e.status = .targetPending)
      (hseq : key.sourceSequence = s.ledger.nextTarget key.channel) :
      Move s { s with ledger := ((s.ledger.setStatus key .cancelled).setTarget key.channel
        (s.ledger.nextTarget key.channel + 1)) }

/-- **Every action is a move.** -/
theorem move_step [DecidableEq δ] {digest : π → Except Exn δ} (s : LedgerSystem δ ρ)
    (a : LedgerAction π ρ) : Move s (s.step digest a) := by
  cases a with
  | accept key p =>
    simp only [step, act]
    cases h : s.ledger.accept digest key p with
    | error e => exact .same
    | ok r =>
      obtain ⟨b, L⟩ := r
      obtain ⟨d, -, ⟨-, rfl, -⟩ | ⟨-, hn, hseq, rfl⟩⟩ := accept_cases h
      · exact .same
      · exact .accepted hn hseq
  | completeAccepted key p =>
    simp only [step, act]
    cases h : s.ledger.completeBegin digest key p with
    | error e => exact .same
    | ok b =>
      obtain ⟨d, e, -, he, -, ⟨r, -, rfl⟩ | ⟨hst, hseq, rfl⟩⟩ := completeBegin_cases h
      · exact .same
      · exact .resumed he hst hseq
  | executeOnce key p =>
    simp only [step, act]
    cases h : s.ledger.executeBegin digest key p with
    | error e => exact .same
    | ok b =>
      obtain ⟨d, -, ⟨e, r, -, -, -, rfl⟩ | ⟨hn, hc, ht, rfl⟩⟩ := executeBegin_cases h
      · exact .same
      · exact .executed hn hc ht
  | cancelAccepted key p =>
    simp only [step, act]
    cases h : s.ledger.cancelAccepted digest key p with
    | error e => exact .same
    | ok L =>
      obtain ⟨d, e, -, he, -, hst, hseq, rfl⟩ := cancelAccepted_cases h
      exact .cancelled he hst hseq
  | operationReturns r =>
    simp only [step, act]
    split
    · exact .same
    · next f frames hf => exact .returned hf r
  | operationRaises e =>
    simp only [step, act]
    split
    · exact .same
    · next f frames hf => exact .raised hf

/-! ## The invariant of the system -/

/-- The running operations are those of distinct inflight entries, and the started keys are those past
`target_pending`, in channel order. -/
structure Valid (s : LedgerSystem δ ρ) : Prop where
  wf : s.ledger.WF
  frames_nodup : (s.frames.map Frame.key).Nodup
  frame_inflight : ∀ f ∈ s.frames, ∃ d, s.ledger.entries.get? f.key = some ⟨d, .targetInflight⟩
  frame_expected : ∀ f ∈ s.frames, f.expected = f.key.sourceSequence
  started_iff : ∀ k, k ∈ s.started ↔ ∃ e, s.ledger.entries.get? k = some e ∧ e.status.Started
  started_lt : s.started.Pairwise fun k k' =>
    k.channel = k'.channel → k.sourceSequence < k'.sourceSequence

theorem valid_init : (init : LedgerSystem δ ρ).Valid where
  wf := wf_init
  frames_nodup := nodup_nil
  frame_inflight f h := nomatch h
  frame_expected f h := nomatch h
  started_iff k := by simp [init]
  started_lt := List.Pairwise.nil

variable {k : TransactionKey} {d : δ} {s s' : LedgerSystem δ ρ}

namespace Valid

variable {s : LedgerSystem δ ρ}

/-- **A started key stands at or below the target counter**, and below it unless its effect is
still uncertain. -/
theorem started_le (hs : s.Valid) (hk : k ∈ s.started) :
    k.sourceSequence ≤ s.ledger.nextTarget k.channel := by
  obtain ⟨e, he, hst⟩ := (hs.started_iff k).1 hk
  cases hc : e.status with
  | targetPending | cancelled => rw [hc] at hst; exact hst.elim
  | targetInflight | uncertainEffect => exact le_of_eq (hs.wf.uncertain_eq he (hc ▸ trivial))
  | complete r => exact le_of_lt ((hs.wf.settled_iff he).1 (hc ▸ trivial))

variable {f : Frame} {key : TransactionKey} {L : TransactionLedger δ ρ}

/-- A running operation's key is stored. -/
theorem frame_ne (hs : s.Valid) (hf : f ∈ s.frames)
    (hkey : ∀ d, s.ledger.entries.get? key ≠ some ⟨d, .targetInflight⟩) : f.key ≠ key := by
  obtain ⟨d, hd⟩ := hs.frame_inflight f hf
  exact fun h => hkey d (h ▸ hd)

/-- **Appending a pending key** starts nothing. -/
theorem push (hs : s.Valid) (hn : s.ledger.entries.get? key = none)
    (hseq : key.sourceSequence = s.ledger.nextChannel key.channel) :
    ({ s with ledger := s.ledger.push key ⟨d, .targetPending⟩ } : LedgerSystem δ ρ).Valid where
  wf := hs.wf.push hseq id False.elim
  frames_nodup := hs.frames_nodup
  frame_inflight f hf := by
    obtain ⟨d', hd'⟩ := hs.frame_inflight f hf
    have hne : f.key ≠ key := hs.frame_ne hf fun d h => by rw [hn] at h; cases h
    exact ⟨d', by rw [get?_push, if_neg hne, hd']⟩
  frame_expected := hs.frame_expected
  started_iff k := by
    rw [hs.started_iff k]
    by_cases hk : k = key
    · subst hk
      simp [hn, get?_push, Status.Started]
    · simp [get?_push, hk]
  started_lt := hs.started_lt

/-- **Starting the operation at the target counter** keeps the channel's starts in order: a key
started before is settled, hence below the counter, or is this very key. -/
theorem start (hs : s.Valid) (hL : L.WF) (hget : ∀ k, L.entries.get? k
      = if k = key then some ⟨d, .targetInflight⟩ else s.ledger.entries.get? k)
    (hidle : ∀ e, s.ledger.entries.get? key = some e → ¬ e.status.Started)
    (hseq : key.sourceSequence = s.ledger.nextTarget key.channel) :
    (⟨L, ⟨key, s.ledger.nextTarget key.channel⟩ :: s.frames, s.started ++ [key]⟩ :
      LedgerSystem δ ρ).Valid := by
  have hframe : ∀ f ∈ s.frames, f.key ≠ key := fun f hf =>
    hs.frame_ne hf fun d h => hidle _ h trivial
  have hfresh : key ∉ s.started := fun h => by
    obtain ⟨e, he, hst⟩ := (hs.started_iff key).1 h
    exact hidle e he hst
  refine ⟨hL, ?_, ?_, ?_, ?_, ?_⟩
  · rw [map_cons, nodup_cons]
    refine ⟨fun hmem => ?_, hs.frames_nodup⟩
    obtain ⟨f, hf, hfk⟩ := mem_map.1 hmem
    exact hframe f hf hfk
  · intro f hf
    rcases mem_cons.1 hf with rfl | hf
    · exact ⟨d, by rw [hget, if_pos rfl]⟩
    · obtain ⟨d', hd'⟩ := hs.frame_inflight f hf
      exact ⟨d', by rw [hget, if_neg (hframe f hf), hd']⟩
  · intro f hf
    rcases mem_cons.1 hf with rfl | hf
    · exact hseq.symm
    · exact hs.frame_expected f hf
  · intro k
    rw [mem_append, mem_singleton, hget]
    by_cases hk : k = key
    · subst hk
      simp [Status.Started]
    · simp [hk, hs.started_iff k]
  · rw [pairwise_append]
    refine ⟨hs.started_lt, pairwise_singleton _ _, fun k hk k' hk' hc => ?_⟩
    obtain rfl : k' = key := mem_singleton.1 hk'
    have hle := hs.started_le hk
    have hne : k.sourceSequence ≠ k'.sourceSequence := fun h =>
      hfresh (TransactionKey.ext_channel hc h ▸ hk)
    rw [hc] at hle
    omega

/-- **Ending the innermost operation** moves its entry to a status past `target_pending`. -/
theorem finish (hs : s.Valid) {frames : List Frame}
    (hframes : s.frames = f :: frames) {st : Status ρ} (hst : st.Started) (hL : L.WF)
    (hget : ∀ k, L.entries.get? k
      = if k = f.key then some ⟨d, st⟩ else s.ledger.entries.get? k) :
    ({ s with ledger := L, frames } : LedgerSystem δ ρ).Valid := by
  have hnd := hs.frames_nodup
  rw [hframes, map_cons, nodup_cons] at hnd
  have hmem : ∀ g ∈ frames, g ∈ s.frames := fun g hg => hframes ▸ mem_cons_of_mem f hg
  obtain ⟨d₀, hd₀⟩ := hs.frame_inflight f (hframes ▸ (.head _))
  refine ⟨hL, hnd.2, fun g hg => ?_, fun g hg => hs.frame_expected g (hmem g hg), fun k => ?_, hs.started_lt⟩
  · obtain ⟨d', hd'⟩ := hs.frame_inflight g (hmem g hg)
    have hne : g.key ≠ f.key := fun h => hnd.1 (h ▸ mem_map_of_mem (f := Frame.key) hg)
    exact ⟨d', by rw [hget, if_neg hne, hd']⟩
  · rw [hs.started_iff k, hget]
    by_cases hk : k = f.key
    · subst hk
      simp only [hd₀, if_true, Option.some.injEq, exists_eq_left', hst, iff_true]
      trivial
    · simp [hk]

theorem returned (hs : s.Valid) {f : Frame} {frames : List Frame} (hframes : s.frames = f :: frames)
    (r : ρ) : ({ s with ledger := s.ledger.opReturned f r, frames } : LedgerSystem δ ρ).Valid := by
  have hf : f ∈ s.frames := hframes ▸ (.head _)
  obtain ⟨d, hd⟩ := hs.frame_inflight f hf
  have hexp := hs.frame_expected f hf
  have htgt : f.key.sourceSequence = s.ledger.nextTarget f.key.channel := hs.wf.uncertain_eq hd trivial
  have hwf := hs.wf.settle hd htgt (show (Status.complete r).Settled from trivial) id
  rw [← htgt, ← hexp] at hwf
  exact hs.finish hframes (show (Status.complete r).Started from trivial) hwf
    (get?_setStatus hd _)

theorem raised (hs : s.Valid) {f : Frame} {frames : List Frame} (hframes : s.frames = f :: frames) :
    ({ s with ledger := s.ledger.opRaised f, frames } : LedgerSystem δ ρ).Valid := by
  obtain ⟨d, hd⟩ := hs.frame_inflight f (hframes ▸ (.head _))
  exact hs.finish hframes (show (Status.uncertainEffect (ρ := ρ)).Started from trivial)
    (hs.wf.setStatus hd Iff.rfl fun _ => hs.wf.uncertain_eq hd trivial)
    (get?_setStatus hd _)

/-- **Cancelling the pending request at the target counter** starts nothing. -/
theorem cancel (hs : s.Valid) {key : TransactionKey} {e : Entry δ ρ}
    (he : s.ledger.entries.get? key = some e) (hst : e.status = .targetPending)
    (hseq : key.sourceSequence = s.ledger.nextTarget key.channel) :
    ({ s with ledger := ((s.ledger.setStatus key .cancelled).setTarget key.channel
        (s.ledger.nextTarget key.channel + 1)) } : LedgerSystem δ ρ).Valid where
  wf := hs.wf.settle he hseq trivial id
  frames_nodup := hs.frames_nodup
  frame_inflight f hf := by
    obtain ⟨d', hd'⟩ := hs.frame_inflight f hf
    have hne : f.key ≠ key := hs.frame_ne hf fun d h => by
      rw [he] at h
      cases h
      cases hst
    exact ⟨d', by
      rw [entries_setTarget, get?_setStatus he, if_neg hne, hd']⟩
  frame_expected := hs.frame_expected
  started_iff k := by
    rw [hs.started_iff k, entries_setTarget, get?_setStatus he]
    by_cases hk : k = key
    · subst hk
      simp [he, hst, Status.Started]
    · simp [hk]
  started_lt := hs.started_lt

end Valid

/-- **Every move keeps the system valid.** -/
theorem Move.valid (h : Move s s') (hs : s.Valid) : s'.Valid := by
  cases h with
  | same => exact hs
  | accepted hn hseq => exact hs.push hn hseq
  | @resumed key e he hst hseq =>
    refine hs.start (hs.wf.setStatus he (by rw [hst]; rfl) fun _ => hseq)
      (get?_setStatus he _) (fun e' he' => ?_) hseq
    obtain rfl : e = e' := Option.some.inj (he.symm.trans he')
    rw [hst]
    exact id
  | executed hn hc ht =>
    exact hs.start (hs.wf.push hc id fun _ => ht) (fun k => get?_push _ _ _ _)
      (fun e he => by rw [hn] at he; cases he) ht
  | returned hf r => exact hs.returned hf r
  | raised hf => exact hs.raised hf
  | cancelled he hst hseq => exact hs.cancel he hst hseq

/-- **No move drops an entry or changes a final one.** -/
theorem Move.evolves (h : Move s s') (hs : s.Valid) : TransactionLedger.Evolves s.ledger s'.ledger := by
  cases h with
  | same => exact .refl _
  | accepted hn hseq => exact evolves_push _ hn
  | resumed he hst hseq =>
    exact evolves_setStatus he (by rw [hst]; exact id) _
  | executed hn hc ht => exact evolves_push _ hn
  | @returned f frames hf r =>
    obtain ⟨d, hd⟩ := hs.frame_inflight f (hf ▸ (.head _))
    exact evolves_setStatus hd id _
  | @raised f frames hf =>
    obtain ⟨d, hd⟩ := hs.frame_inflight f (hf ▸ (.head _))
    exact evolves_setStatus hd id _
  | cancelled he hst hseq =>
    exact evolves_setStatus he (by rw [hst]; exact id) _

/-! ## What delivery promises

Sequence numbers of a channel are read through its stored entries: `At c q P` says that the key
`q` of the channel `c` is stored with a status satisfying `P`. -/

/-- The key `q` of the channel `c` is stored, with a status satisfying `P`. -/
def At (s : LedgerSystem δ ρ) (c : Channel) (q : ℕ) (P : Status ρ → Prop) : Prop :=
  ∃ k e, k.channel = c ∧ k.sourceSequence = q ∧ s.ledger.entries.get? k = some e ∧ P e.status

/-- At-most-once, in-order delivery, read off one state. -/
structure Delivers (s : LedgerSystem δ ρ) : Prop where
  /-- The operation of each key is started at most once… -/
  startedOnce : s.started.Nodup
  /-- …and those of a channel in strictly increasing order. -/
  startedInOrder : ∀ c, ((s.started.filter fun k => k.channel = c).map
    TransactionKey.sourceSequence).Pairwise (· < ·)
  /-- The accepted keys of a channel are `1..n`, the settled ones `1..m`, and an uncertain one is
  `m + 1`. -/
  counted : ∀ c, ∃ m n, m ≤ n ∧ (∀ q, s.At c q (fun _ => True) ↔ 1 ≤ q ∧ q ≤ n) ∧
    (∀ q, s.At c q Status.Settled ↔ 1 ≤ q ∧ q ≤ m) ∧ ∀ q, s.At c q Status.Uncertain → q = m + 1

/-- The accepted keys of a channel are consecutive from one. -/
theorem at_accepted_iff (hs : s.Valid) (k : TransactionKey) (q : ℕ) :
    s.At k.channel q (fun _ => True) ↔ 1 ≤ q ∧ q < s.ledger.nextChannel k.channel := by
  constructor
  · rintro ⟨k', e, hc, rfl, he, -⟩
    rw [← hc]
    exact (hs.wf.accepted_iff k').1 (by simp [he])
  · intro h
    obtain ⟨e, he⟩ := Option.isSome_iff_exists.1
      ((hs.wf.accepted_iff { k with sourceSequence := q }).2 h)
    exact ⟨{ k with sourceSequence := q }, e, rfl, rfl, he, trivial⟩

/-- The settled keys of a channel are consecutive from one. -/
theorem at_settled_iff (hs : s.Valid) (k : TransactionKey) (q : ℕ) :
    s.At k.channel q Status.Settled ↔ 1 ≤ q ∧ q < s.ledger.nextTarget k.channel := by
  have hle := hs.wf.target_le k.channel
  constructor
  · rintro ⟨k', e, hc, rfl, he, hset⟩
    have h1 := (hs.wf.accepted_iff k').1 (by simp [he])
    have h2 := (hs.wf.settled_iff he).1 hset
    rw [← hc]
    exact ⟨h1.1, h2⟩
  · rintro ⟨h1, h2⟩
    obtain ⟨k', e, hc, rfl, he, -⟩ := (at_accepted_iff hs k q).2 ⟨h1, by omega⟩
    exact ⟨k', e, hc, rfl, he, (hs.wf.settled_iff he).2 (hc ▸ h2)⟩

theorem not_at_of_no_key {c : Channel} (hc : ¬ ∃ k : TransactionKey, k.channel = c) (q : ℕ)
    (P : Status ρ → Prop) : ¬ s.At c q P :=
  fun ⟨k, _, hk, _⟩ => hc ⟨k, hk⟩

/-- **A valid system delivers.** -/
theorem Valid.delivers (hs : s.Valid) : s.Delivers where
  startedOnce := hs.started_lt.imp fun h hk => by
    subst hk
    exact lt_irrefl _ (h rfl)
  startedInOrder c := by
    rw [pairwise_map]
    refine (hs.started_lt.filter _).imp_of_mem fun hk hk' h => h ?_
    have h1 := of_decide_eq_true (mem_filter.1 hk).2
    have h2 := of_decide_eq_true (mem_filter.1 hk').2
    exact h1.trans h2.symm
  counted c := by
    by_cases hc : ∃ k : TransactionKey, k.channel = c
    · obtain ⟨k, rfl⟩ := hc
      have h1 := hs.wf.target_pos k.channel
      have h2 := hs.wf.target_le k.channel
      refine ⟨s.ledger.nextTarget k.channel - 1, s.ledger.nextChannel k.channel - 1, by omega,
        fun q => ?_, fun q => ?_, ?_⟩
      · rw [at_accepted_iff hs]
        omega
      · rw [at_settled_iff hs]
        omega
      · rintro q ⟨k', e, hk', rfl, he, hu⟩
        rw [hs.wf.uncertain_eq he hu, hk']
        omega
    · refine ⟨0, 0, le_refl 0, fun q => ?_, fun q => ?_, fun q h => absurd h (not_at_of_no_key hc q _)⟩
      · rw [iff_false_left (not_at_of_no_key hc q _)]
        omega
      · rw [iff_false_left (not_at_of_no_key hc q _)]
        omega

/-! ## Retransmission of a completed key -/

section Step

variable [DecidableEq δ] {digest : π → Except Exn δ}

theorem valid_run (s : LedgerSystem δ ρ) (as : List (LedgerAction π ρ)) (hs : s.Valid) :
    (run (step digest) s as).Valid :=
  run_invariant (fun s a hs => (move_step s a).valid hs) as hs

theorem evolves_run (as : List (LedgerAction π ρ)) : ∀ {s : LedgerSystem δ ρ}, s.Valid →
    TransactionLedger.Evolves s.ledger (run (step digest) s as).ledger := by
  induction as with
  | nil => exact fun _ => .refl _
  | cons a as ih =>
    intro s hs
    exact ((move_step s a).evolves hs).trans (ih ((move_step s a).valid hs))

variable {e : Entry δ ρ} {p : π} {a : LedgerAction π ρ}

/-- A final entry is the same in every later state. -/
theorem get?_run_of_final (hs : s.Valid) (as : List (LedgerAction π ρ))
    (he : s.ledger.entries.get? k = some e) (hf : e.status.Final) :
    (run (step digest) s as).ledger.entries.get? k = some e := by
  have hev : TransactionLedger.Evolves s.ledger (run (step digest) s as).ledger := evolves_run as hs
  obtain ⟨⟨d', st'⟩, he', hd', hst'⟩ := hev k e he
  obtain rfl : d' = e.payloadDigest := hd'
  obtain rfl : st' = e.status := hst' hf
  exact he'

/-- The four calls naming a key and a payload. -/
def calls (k : TransactionKey) (p : π) : List (LedgerAction π ρ) :=
  [.accept k p, .completeAccepted k p, .cancelAccepted k p, .executeOnce k p]

/-- **Answers for a completed key and its payload.** The two that take an operation return the frozen
receipt; `accept` reports a retransmission and `cancel_accepted` refuses. -/
def retransmitted (r : ρ) : LedgerAction π ρ → LedgerAnswer ρ
  | .accept _ _ => .returnedBool false
  | .cancelAccepted _ _ =>
      .raised (.runtimeError "only an undelivered target request can be cancelled")
  | _ => .returnedReceipt r

theorem act_of_complete {r : ρ} (he : s.ledger.entries.get? k = some ⟨d, .complete r⟩)
    (hp : digest p = .ok d) (ha : a ∈ calls k p) : s.act digest a = (s, retransmitted r a) := by
  simp only [calls, mem_cons, not_mem_nil, or_false] at ha
  rcases ha with rfl | rfl | rfl | rfl
  · simp [act, accept, hp, he, retransmitted]
  · simp [act, begin, completeBegin, hp, he, retransmitted]
  · simp [act, cancelAccepted, hp, he, retransmitted]
  · simp [act, begin, executeBegin, hp, he, retransmitted]

/-- **Another payload digest raises**, whatever the call, and changes nothing. -/
theorem act_of_other_digest (he : s.ledger.entries.get? k = some e)
    (hp : digest p ≠ .ok e.payloadDigest) (ha : a ∈ calls k p) :
    ∃ x, s.act digest a = (s, .raised x) := by
  simp only [calls, mem_cons, not_mem_nil, or_false] at ha
  cases hd : digest p with
  | error x =>
    refine ⟨x, ?_⟩
    rcases ha with rfl | rfl | rfl | rfl
    · simp [act, accept, hd]
    · simp [act, begin, completeBegin, hd]
    · simp [act, cancelAccepted, hd]
    · simp [act, begin, executeBegin, hd]
  | ok d =>
    have hne : e.payloadDigest ≠ d := fun h => hp (hd.trans (congrArg Except.ok h.symm))
    rcases ha with rfl | rfl | rfl | rfl
    · exact ⟨identityConflict,
        by simp [act, accept, hd, he, ensure_of_not hne]⟩
    · exact ⟨identityConflict,
        by simp [act, begin, completeBegin, hd, he, ensure_of_not hne]⟩
    · exact ⟨.valueError "transaction identity does not match accepted request",
        by simp [act, cancelAccepted, hd, he, ensure_of_not hne]⟩
    · exact ⟨identityConflict,
        by simp [act, begin, executeBegin, hd, he, ensure_of_not hne]⟩

/-- **At-most-once, in-order delivery.** Along every sequence of calls, nested in any way, every state
delivers; past an uncertain key of a channel nothing is started; and a completed key keeps its receipt. -/
theorem ledger_delivers_at_most_once_in_order (digest : π → Except Exn δ) (as bs : List (LedgerAction π ρ)) :
    let s := run (step digest) (init : LedgerSystem δ ρ) as
    let t := run (step digest) s bs
    s.Delivers ∧ (∀ k d, s.ledger.entries.get? k = some ⟨d, .uncertainEffect⟩ →
      ∀ k' ∈ t.started, k'.channel = k.channel → k'.sourceSequence ≤ k.sourceSequence) ∧
    (∀ k d r, s.ledger.entries.get? k = some ⟨d, .complete r⟩ →
      t.ledger.entries.get? k = some ⟨d, .complete r⟩ ∧ ∀ p, ∀ a ∈ calls k p,
        (digest p = .ok d → t.act digest a = (t, retransmitted r a)) ∧
        (digest p ≠ .ok d → ∃ x, t.act digest a = (t, .raised x))) := by
  intro s t
  have hs : s.Valid := valid_run _ as valid_init
  have ht : t.Valid := valid_run _ bs hs
  refine ⟨hs.delivers, fun k d he k' hk' hc => ?_, fun k d r he => ?_⟩
  · have hk : t.ledger.entries.get? k = some ⟨d, .uncertainEffect⟩ := get?_run_of_final hs bs he trivial
    rw [ht.wf.uncertain_eq hk trivial, ← hc]
    exact ht.started_le hk'
  · have hk : t.ledger.entries.get? k = some ⟨d, .complete r⟩ := get?_run_of_final hs bs he trivial
    exact ⟨hk, fun p a ha => ⟨fun hp => act_of_complete hk hp ha, fun hp => act_of_other_digest hk hp ha⟩⟩

end Step

/-- A key of a fixed channel, for the example runs. -/
def exampleKey (sequence : ℕ) : TransactionKey :=
  ⟨"execution", "case", "cpu", 0, "data", sequence, by decide⟩

/-- **A retransmission is not always answered with the receipt**: once a key is complete,
`accept` answers `False` and `cancel_accepted` raises. -/
theorem retransmission_not_always_receipt :
    ¬ ∀ (as : List (LedgerAction Unit ℕ)) (k : TransactionKey) (r : ℕ) (a : LedgerAction Unit ℕ),
      (run (step Except.ok) (init : LedgerSystem Unit ℕ) as).ledger.entries.get? k
        = some ⟨(), .complete r⟩ →
      a ∈ calls k () → (run (step Except.ok) (init : LedgerSystem Unit ℕ) as).act Except.ok a
        = (run (step Except.ok) init as, .returnedReceipt r) := by
  intro h
  have h' := h [.executeOnce (exampleKey 1) (), .operationReturns 7] (exampleKey 1) 7
    (.accept (exampleKey 1) ()) (by decide) (by simp [calls])
  exact absurd (congrArg Prod.snd h') (by decide)

end LedgerSystem

end MyFuzz
