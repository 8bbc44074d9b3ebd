import MyFuzz.Fuzz.CorpusStorage

/-!
# Fuzz/CorpusLaw — a corpus over a campaign

A campaign is any sequence of calls.  What one call does is said once (`Lawful`), and the invariants
of a whole campaign
follow by induction.  Two corpora that bind the same entries do the same from then on, in whatever
order they keep them:

    corpus  ──call──▸ corpus
      ≈                 ≈          with the same result, and the same entry given up
    loaded  ──call──▸ loaded
-/

namespace MyFuzz

open Outcome Ordered Dict CorpusEntry

namespace Corpus

variable {corpus other : Corpus} {entry : CorpusEntry}

/-! ## Corpora with the same entries -/

/-- **Two corpora bind the same entries**, with the same limit and as many given up. -/
structure Same (corpus other : Corpus) : Prop where
  maxEntries : corpus.maxEntries = other.maxEntries
  evicted : corpus.evicted = other.evicted
  bound : ∀ k, corpus.entries.get? k = other.entries.get? k

theorem Same.perm (h : Same corpus other) : corpus.values.Perm other.values := (perm_of_get?_eq h.bound).map _

theorem Same.length (h : Same corpus other) : corpus.entries.length = other.entries.length :=
  (perm_of_get?_eq h.bound).length_eq

/-- An order that ends with the name tells the entries apart. -/
theorem apart_of_key {κ : Type} {order : CorpusEntry → κ}
    (h : ∀ a b, order a = order b → a.key = b.key) (corpus : Corpus) :
    Apart order corpus.values := by
  intro a ha b hb hab
  have hkey := h a b hab
  have ha := corpus.mem_values_iff.1 ha
  rw [hkey, corpus.mem_values_iff.1 hb] at ha
  exact (Option.some.inj ha).symm

theorem apart_evictionOrder (corpus : Corpus) : Apart evictionOrder corpus.values :=
  apart_of_key (fun a b h => by
    have h := toLex.injective h
    have h := toLex.injective (Prod.mk.inj h).2
    exact toLex.injective (Prod.mk.inj h).2) corpus

theorem apart_choiceOrder (corpus : Corpus) : Apart choiceOrder corpus.values :=
  apart_of_key (fun a b h => by
    have h := toLex.injective h
    exact toLex.injective (Prod.mk.inj h).2) corpus

section

variable (h : Same corpus other)

include h

/-- **The entry to give up does not depend on the order in which the entries are kept.** -/
theorem Same.victim : corpus.victim = other.victim :=
  least_eq_of_perm corpus.apart_evictionOrder h.perm

theorem Same.store (hv : entry.Valid) : Same (corpus.store entry hv) (other.store entry hv) where
  maxEntries := h.maxEntries
  evicted := h.evicted
  bound k := by rw [Corpus.store, Corpus.store, get?_set, get?_set, h.bound]

theorem Same.evictOne : Same corpus.evictOne other.evictOne := by
  unfold Corpus.evictOne
  rw [h.victim]
  cases other.victim with
  | none => exact h
  | some victim =>
    refine ⟨h.maxEntries, congrArg (· + 1) h.evicted, fun k => ?_⟩
    rw [get?_erase, get?_erase, h.bound]

theorem Same.insert (hv : entry.Valid) : Same (corpus.insert entry hv) (other.insert entry hv) := by
  unfold Corpus.insert
  rw [h.length, h.maxEntries]
  split_ifs
  · exact h.evictOne.store hv
  · exact h.store hv

/-- **The entries that may be chosen do not depend on the order in which the entries are kept.** -/
theorem Same.candidates : corpus.candidates = other.candidates := by
  unfold Corpus.candidates
  rw [sortOn_eq_of_perm corpus.apart_choiceOrder h.perm]

theorem Same.choose : corpus.choose = other.choose := by
  unfold Corpus.choose
  rw [h.length, h.candidates]

end

/-! ## Calls -/

/-- A call of a campaign. -/
inductive Call where
  | seed (flow : String) (fields : List ℤ) (recordText : String)
  | add (flow : String) (fields : List ℤ) (recordText : String) (parent : Option String) (origin : String)
  | choose
  | markPicked (entry : CorpusEntry)
  | noteDiscovery (entry : CorpusEntry)

/-- The call adds a record. -/
def Call.adds : Call → Bool
  | .seed .. => true
  | .add .. => true
  | _ => false

/-- What a call returns, and the corpus after it: one that raises leaves the corpus as it was. -/
abbrev Answer := Except Exn (Option CorpusEntry) × Corpus

def answerAdded (corpus : Corpus) : Except Exn (CorpusEntry × Corpus) → Answer
  | .ok (entry, after) => (.ok (some entry), after)
  | .error e => (.error e, corpus)

def answerCounted (corpus : Corpus) : Except Exn Corpus → Answer
  | .ok after => (.ok none, after)
  | .error e => (.error e, corpus)

/-- Answer a call, with the draws that are left. -/
def answer (corpus : Corpus) (rng : Rng) : Call → Answer × Rng
  | .seed flow fields recordText => (answerAdded corpus (corpus.seed flow fields recordText), rng)
  | .add flow fields recordText parent origin =>
      (answerAdded corpus (corpus.add flow fields recordText parent origin), rng)
  | .choose =>
    match corpus.choose rng with
    | .ok (entry, rng) => ((.ok entry, corpus), rng)
    | .error e => ((.error e, corpus), rng)
  | .markPicked entry => (answerCounted corpus (corpus.markPicked entry), rng)
  | .noteDiscovery entry => (answerCounted corpus (corpus.noteDiscovery entry), rng)

/-- One call of a campaign, with the corpus before and after it. -/
structure Step where
  call : Call
  before : Corpus
  result : Except Exn (Option CorpusEntry)
  after : Corpus

/-- **A campaign**: the calls in turn, and the corpus at the end. -/
def play : List Call → Corpus → Rng → List Step × Corpus
  | [], corpus, _ => ([], corpus)
  | call :: calls, corpus, rng =>
    let ((result, after), rng) := answer corpus rng call
    let (steps, final) := play calls after rng
    (⟨call, corpus, result, after⟩ :: steps, final)

/-- The call stored a new entry. -/
def Step.stores (step : Step) : Bool :=
  match step.result with
  | .ok (some entry) => step.call.adds && !step.before.entries.contains entry.key
  | _ => false

/-- **What one call does**, in a corpus of capacity `m`. -/
structure Lawful (m : ℕ) (step : Step) : Prop where
  capacity : step.after.maxEntries = m
  distinct : (step.after.values.map CorpusEntry.key).Nodup
  bounded : step.after.entries.length ≤ m
  kept : step.call.adds → ∀ entry, step.result = .ok (some entry) → entry ∈ step.after.values
  victim : ∀ gone ∈ step.before.values, step.after.entries.get? gone.key = none →
    ∀ entry ∈ step.before.values, entry.picks ≤ gone.picks ∧
      (entry.picks = gone.picks → gone.discoveries ≤ entry.discoveries)
  counted : step.after.entries.length + step.after.evicted =
    step.before.entries.length + step.before.evicted + if step.stores then 1 else 0

/-- A call that leaves every name where it is. -/
theorem lawful_of_keys {m : ℕ} {step : Step} (hcapacity : step.before.maxEntries = m)
    (hbound : step.before.entries.length ≤ m)
    (hsame : step.after.maxEntries = step.before.maxEntries ∧ step.after.evicted = step.before.evicted ∧
      step.after.entries.keys = step.before.entries.keys)
    (hkept : step.call.adds → ∀ entry, step.result = .ok (some entry) → entry ∈ step.after.values)
    (hstores : step.stores = false) : Lawful m step := by
  obtain ⟨hmax, hevicted, hkeys⟩ := hsame
  have hlength : step.after.entries.length = step.before.entries.length := by
    rw [← length_keys, hkeys, length_keys]
  refine ⟨hmax.trans hcapacity, step.after.nodup_keys, hlength.trans_le hbound, hkept,
    fun gone hgone hnone => ?_, ?_⟩
  · have hmem : gone.key ∈ step.after.entries.keys := by
      rw [hkeys, ← map_key_values]
      exact List.mem_map_of_mem hgone
    rw [mem_keys_iff, hnone] at hmem
    cases hmem
  · rw [hlength, hevicted, hstores]
    rfl

theorem exists_victim (corpus : Corpus) (h : corpus.entries.length ≠ 0) :
    ∃ victim, corpus.victim = some victim ∧ victim ∈ corpus.values := by
  cases hvictim : corpus.victim with
  | none =>
    have hempty := least_eq_none.1 hvictim
    rw [← corpus.length_values, hempty] at h
    exact absurd rfl h
  | some victim => exact ⟨victim, rfl, least_mem hvictim⟩

/-- The order of eviction: most picks, then fewest discoveries. -/
theorem counts_of_evictionOrder_le {gone : CorpusEntry} (h : gone.evictionOrder ≤ entry.evictionOrder) :
    entry.picks ≤ gone.picks ∧ (entry.picks = gone.picks → gone.discoveries ≤ entry.discoveries) := by
  rcases Prod.Lex.le_iff.1 h with hlt | ⟨heq, hle⟩
  · have hlt : -(gone.picks : ℤ) < -(entry.picks : ℤ) := hlt
    exact ⟨by omega, fun heq => by omega⟩
  · have heq : -(gone.picks : ℤ) = -(entry.picks : ℤ) := heq
    refine ⟨by omega, fun _ => ?_⟩
    rcases Prod.Lex.le_iff.1 hle with hlt | ⟨heq, -⟩
    · exact le_of_lt hlt
    · exact le_of_eq heq

/-- **Storing a new entry**: what it does to the names, and to the numbers. -/
theorem insert_new (hv : entry.Valid) (hbound : corpus.entries.length ≤ corpus.maxEntries)
    (hnew : corpus.entries.get? entry.key = none) :
    (corpus.insert entry hv).maxEntries = corpus.maxEntries ∧
      (corpus.insert entry hv).entries.length ≤ corpus.maxEntries ∧
      (corpus.insert entry hv).entries.get? entry.key = some entry ∧
      (corpus.insert entry hv).entries.length + (corpus.insert entry hv).evicted =
        corpus.entries.length + corpus.evicted + 1 ∧
      ∀ gone ∈ corpus.values, (corpus.insert entry hv).entries.get? gone.key = none →
        corpus.victim = some gone := by
  have hlimit := corpus.limit
  unfold insert
  split_ifs with hfull
  · obtain ⟨victim, hvictim, hmem⟩ := exists_victim corpus (by omega)
    have herase : (corpus.entries.erase victim.key).length + 1 = corpus.entries.length := by
      have hset := length_set (corpus.entries.erase victim.key) victim.key victim
      have hsame : ∀ k, ((corpus.entries.erase victim.key).set victim.key victim).get? k =
        corpus.entries.get? k := by
        intro k
        rw [get?_set, get?_erase]
        split_ifs with hk
        · rw [hk, corpus.mem_values_iff.1 hmem]
        · rfl
      have hlength : ((corpus.entries.erase victim.key).set victim.key victim).length =
        corpus.entries.length :=
        (perm_of_get?_eq hsame).length_eq
      rw [get?_erase, if_pos rfl, hlength] at hset
      exact hset.symm
    have hget : ∀ k, (corpus.entries.erase victim.key).get? k =
      if k = victim.key then none else corpus.entries.get? k :=
      fun k => get?_erase _ _ _
    have hevict : corpus.evictOne.maxEntries = corpus.maxEntries ∧
      corpus.evictOne.evicted = corpus.evicted + 1 ∧
        corpus.evictOne.entries = corpus.entries.erase victim.key := by
      unfold evictOne
      rw [hvictim]
      exact ⟨rfl, rfl, rfl⟩
    obtain ⟨hmax, hevicted, hentries⟩ := hevict
    have hlength : (corpus.evictOne.store entry hv).entries.length = corpus.entries.length := by
      rw [store, length_set, hentries, hget, hnew, ite_self]
      exact herase
    refine ⟨hmax, hlength.trans_le hbound, get?_set_self _ _ _, ?_, fun gone hgone hnone => ?_⟩
    · rw [hlength]
      change corpus.entries.length + corpus.evictOne.evicted = _
      rw [hevicted]
      omega
    · rw [store, get?_set, hentries, hget] at hnone
      split_ifs at hnone with hentry hvic
      · have hgonekey := corpus.mem_values_iff.1 hgone
        rw [hvic] at hgonekey
        rw [corpus.mem_values_iff.1 hmem] at hgonekey
        rw [hvictim, Option.some.inj hgonekey]
      · rw [corpus.mem_values_iff.1 hgone] at hnone
        cases hnone
  · have hlength : (corpus.store entry hv).entries.length = corpus.entries.length + 1 := by
      rw [store, length_set, hnew]
      rfl
    refine ⟨rfl, by omega, get?_set_self _ _ _, ?_, fun gone hgone hnone => ?_⟩
    · rw [hlength]
      change corpus.entries.length + 1 + corpus.evicted = _
      omega
    · rw [store, get?_set] at hnone
      split_ifs at hnone with hentry
      rw [corpus.mem_values_iff.1 hgone] at hnone
      cases hnone

/-! ## One call -/

/-- **What adding a record does**: it fails, finds the record, or stores a new entry. -/
theorem add_cases (corpus : Corpus) (flow : String) (fields : List ℤ) (recordText : String)
    (parent : Option String)
    (origin : String) :
    (∃ e, corpus.add flow fields recordText parent origin = .error e) ∨
    (∃ existing, corpus.entries.get? existing.key = some existing ∧
      corpus.add flow fields recordText parent origin = .ok (existing, corpus)) ∨
    ∃ entry, ∃ hv : entry.Valid, corpus.entries.get? entry.key = none ∧
      corpus.add flow fields recordText parent origin = .ok (entry, corpus.insert entry hv) := by
  unfold add
  by_cases hflow : flow ≠ ""
  · by_cases htext : recordText ≠ ""
    · by_cases horigin : origin ∈ origins
      · rw [dif_pos hflow, dif_pos htext, dif_pos horigin]
        cases hget : corpus.entries.get? (flow, recordText) with
        | some existing =>
          have hkey : (flow, recordText) = existing.key := corpus.keyed _ (mem_entries_iff.2 hget)
          exact .inr (.inl ⟨existing, hkey ▸ hget, rfl⟩)
        | none => exact .inr (.inr ⟨⟨flow, fields, recordText, origin, parent, 0, 0⟩,
            ⟨hflow, htext, horigin⟩, hget, rfl⟩)
      · rw [dif_pos hflow, dif_pos htext, dif_neg horigin]
        exact .inl ⟨_, rfl⟩
    · rw [dif_pos hflow, dif_neg htext]
      exact .inl ⟨_, rfl⟩
  · rw [dif_neg hflow]
    exact .inl ⟨_, rfl⟩

theorem stored_of_some {found : CorpusEntry} (h : corpus.entries.get? entry.key = some found)
    (hv : found.Valid) :
    corpus.stored entry = .ok ⟨found, hv⟩ := by
  unfold Corpus.stored
  split
  · rename_i other hother
    cases hother.symm.trans h
    rfl
  · rename_i hnone
    rw [hnone] at h
    cases h

theorem stored_of_none (h : corpus.entries.get? entry.key = none) : corpus.stored entry =
    .error (.valueError ("corpus entry is not in this corpus: " ++ entry.flow ++ " " ++
      entry.recordText)) := by
  unfold Corpus.stored
  split
  · rename_i found hfound
    rw [h] at hfound
    cases hfound
  · rfl

/-- **What counting does**: it fails, or replaces the stored entry. -/
theorem count_cases (corpus : Corpus) (entry : CorpusEntry) (picks discoveries : ℕ) :
    (∃ e, corpus.count entry picks discoveries = .error e) ∨
    ∃ stored : CorpusEntry, ∃ hv : stored.Valid, corpus.entries.contains stored.key ∧
      corpus.count entry picks discoveries = .ok (corpus.store stored hv) := by
  unfold count
  cases hget : corpus.entries.get? entry.key with
  | none =>
    rw [stored_of_none hget]
    exact .inl ⟨_, rfl⟩
  | some stored =>
    have hv := corpus.valid _ (mem_entries_iff.2 hget)
    have hkey : entry.key = stored.key := corpus.keyed _ (mem_entries_iff.2 hget)
    rw [stored_of_some hget hv]
    refine .inr ⟨{ stored with picks := stored.picks + picks, discoveries :=
      stored.discoveries + discoveries },
      ⟨hv.flow, hv.recordText, hv.origin⟩, ?_, rfl⟩
    change (corpus.entries.get? stored.key).isSome = true
    rw [← hkey, hget]
    rfl

theorem keys_store (hv : entry.Valid) (h : corpus.entries.contains entry.key) :
    (corpus.store entry hv).entries.keys = corpus.entries.keys := by
  rw [store, keys_set, if_pos (mem_keys_iff.2 h)]

variable {m : ℕ}

variable {call : Call} {result : Answer}

section

variable (hm : corpus.maxEntries = m) (hbound : corpus.entries.length ≤ m)

include hm hbound

/-- A call that changes nothing. -/
theorem lawful_of_unchanged {result : Except Exn (Option CorpusEntry)}
    (hresult : ∀ entry, result = .ok (some entry) → corpus.entries.get? entry.key = some entry) :
    Lawful m ⟨call, corpus, result, corpus⟩ := by
  refine lawful_of_keys hm hbound ⟨rfl, rfl, rfl⟩ (fun _ e he => corpus.mem_values_iff.2 (hresult e he)) ?_
  cases result with
  | error e => rfl
  | ok found =>
    cases found with
    | none => rfl
    | some e =>
      change (call.adds && !(corpus.entries.get? e.key).isSome) = false
      rw [hresult e rfl]
      exact Bool.and_false _

theorem lawful_added (hcall : call.adds) (flow : String) (fields : List ℤ) (recordText : String)
    (parent : Option String) (origin : String)
    (hresult : result = answerAdded corpus (corpus.add flow fields recordText parent origin)) :
    Lawful m ⟨call, corpus, result.1, result.2⟩ := by
  rcases corpus.add_cases flow fields recordText parent origin with ⟨e, he⟩ | ⟨existing, hget,
    hadd⟩ | ⟨entry, hv, hnew, hadd⟩
  · rw [hresult, he]
    exact lawful_of_unchanged hm hbound fun entry h => by cases h
  · rw [hresult, hadd]
    refine lawful_of_unchanged hm hbound fun entry h => ?_
    cases Except.ok.inj h
    exact hget
  · rw [hresult, hadd]
    obtain ⟨hmax, hlength, hstored, hcounted, hvictim⟩ := insert_new hv (hm.symm ▸ hbound) hnew
    have hstores : Step.stores ⟨call, corpus, .ok (some entry), corpus.insert entry hv⟩ = true := by
      change (call.adds && !(corpus.entries.get? entry.key).isSome) = true
      rw [hcall, hnew]
      rfl
    refine ⟨hmax.trans hm, nodup_keys _, hm ▸ hlength, fun _ e he => ?_, fun gone hgone hnone e he => ?_, ?_⟩
    · cases Except.ok.inj he
      exact (mem_values_iff _).2 hstored
    · exact counts_of_evictionOrder_le (least_le (hvictim gone hgone hnone) he)
    · rw [answerAdded, if_pos hstores]
      exact hcounted

theorem lawful_counted (entry : CorpusEntry) (picks discoveries : ℕ)
    (hresult : result = answerCounted corpus (corpus.count entry picks discoveries)) :
    Lawful m ⟨call, corpus, result.1, result.2⟩ := by
  rcases corpus.count_cases entry picks discoveries with ⟨e, he⟩ | ⟨stored, hv, hcontains, hcount⟩
  · rw [hresult, he]
    exact lawful_of_unchanged hm hbound fun entry h => by cases h
  · rw [hresult, hcount]
    exact lawful_of_keys hm hbound ⟨rfl, rfl, keys_store hv hcontains⟩ (fun _ e he => by cases he) rfl

end

theorem choose_stored {rng rng' : Rng} {chosen : Option CorpusEntry}
    (h : corpus.choose rng = .ok (chosen, rng')) :
    ∀ entry, chosen = some entry → corpus.entries.get? entry.key = some entry := by
  unfold choose at h
  rintro entry rfl
  split_ifs at h with hempty
  · cases h
  · obtain ⟨⟨i, rng''⟩, -, h⟩ := bind_ok.1 h
    dsimp only at h
    cases hi : corpus.candidates[i.toNat]? with
    | none =>
      rw [hi] at h
      cases h
    | some found =>
      rw [hi] at h
      obtain rfl := Option.some.inj (Prod.mk.inj (Except.ok.inj h)).1
      have hmem := List.mem_of_getElem? hi
      unfold candidates at hmem
      dsimp only at hmem
      split at hmem
      · cases hmem
      · exact corpus.mem_values_iff.1 (mem_sortOn.1 (List.mem_of_mem_filter hmem))

/-- **Every call is lawful.** -/
theorem lawful_answer (hm : corpus.maxEntries = m) (hbound : corpus.entries.length ≤ m) (rng : Rng)
    (call : Call) :
    Lawful m ⟨call, corpus, (answer corpus rng call).1.1, (answer corpus rng call).1.2⟩ := by
  cases call with
  | seed flow fields recordText => exact lawful_added hm hbound rfl flow fields recordText none "seed" rfl
  | add flow fields recordText parent origin =>
      exact lawful_added hm hbound rfl flow fields recordText parent origin rfl
  | choose =>
    unfold answer
    cases hchoose : corpus.choose rng with
    | ok chosen =>
      obtain ⟨chosen, rng'⟩ := chosen
      exact lawful_of_unchanged hm hbound fun entry h => choose_stored hchoose entry (Except.ok.inj h)
    | error e => exact lawful_of_unchanged hm hbound fun entry h => by cases h
  | markPicked entry => exact lawful_counted hm hbound entry 1 0 rfl
  | noteDiscovery entry => exact lawful_counted hm hbound entry 0 1 rfl

/-! ## A campaign -/

theorem play_cons (call : Call) (calls : List Call) (corpus : Corpus) (rng : Rng) :
    play (call :: calls) corpus rng =
      (⟨call, corpus, (answer corpus rng call).1.1, (answer corpus rng call).1.2⟩ ::
        (play calls (answer corpus rng call).1.2 (answer corpus rng call).2).1,
        (play calls (answer corpus rng call).1.2 (answer corpus rng call).2).2) := rfl

/-- **A campaign is lawful**, and its entries and those given up are the records it stored. -/
theorem lawful_play : ∀ (calls : List Call) (corpus : Corpus) (rng : Rng), corpus.maxEntries = m →
    corpus.entries.length ≤ m → (∀ step ∈ (play calls corpus rng).1, Lawful m step) ∧
      (play calls corpus rng).2.maxEntries = m ∧
      (play calls corpus rng).2.entries.length + (play calls corpus rng).2.evicted =
        corpus.entries.length + corpus.evicted + ((play calls corpus rng).1.filter Step.stores).length
  | [], corpus, rng, hm, _ => ⟨nofun, hm, rfl⟩
  | call :: calls, corpus, rng, hm, hbound => by
      have hstep := lawful_answer hm hbound rng call
      obtain ⟨hsteps, hmax, hcount⟩ :=
        lawful_play calls _ (answer corpus rng call).2 hstep.capacity hstep.bounded
      rw [play_cons]
      refine ⟨List.forall_mem_cons.2 ⟨hstep, hsteps⟩, hmax, ?_⟩
      have hcounted := hstep.counted
      dsimp only at hcounted hcount ⊢
      rw [hcount, hcounted, List.filter_cons]
      split_ifs with hstores
      · rw [List.length_cons]
        omega
      · omega

/-! ## After a reload -/

/-- Two calls that do the same, in corpora that may keep their entries in different orders. -/
structure SameStep (step step' : Step) : Prop where
  call : step.call = step'.call
  result : step.result = step'.result
  before : step.before.values.Perm step'.before.values
  after : step.after.values.Perm step'.after.values
  evicted : step.after.evicted = step'.after.evicted

theorem Same.added (h : Same corpus other) (flow : String) (fields : List ℤ) (recordText : String)
    (parent : Option String) (origin : String) :
    (answerAdded corpus (corpus.add flow fields recordText parent origin)).1 =
        (answerAdded other (other.add flow fields recordText parent origin)).1 ∧
      Same (answerAdded corpus (corpus.add flow fields recordText parent origin)).2
        (answerAdded other (other.add flow fields recordText parent origin)).2 := by
  unfold add
  rw [h.bound]
  by_cases hflow : flow ≠ ""
  · by_cases htext : recordText ≠ ""
    · by_cases horigin : origin ∈ origins
      · rw [dif_pos hflow, dif_pos htext, dif_pos horigin, dif_pos hflow, dif_pos htext, dif_pos horigin]
        cases other.entries.get? (flow, recordText) with
        | some existing => exact ⟨rfl, h⟩
        | none => exact ⟨rfl, h.insert ⟨hflow, htext, horigin⟩⟩
      · rw [dif_pos hflow, dif_pos htext, dif_neg horigin, dif_pos hflow, dif_pos htext, dif_neg horigin]
        exact ⟨rfl, h⟩
    · rw [dif_pos hflow, dif_neg htext, dif_pos hflow, dif_neg htext]
      exact ⟨rfl, h⟩
  · rw [dif_neg hflow, dif_neg hflow]
    exact ⟨rfl, h⟩

theorem Same.stored (h : Same corpus other) : corpus.stored entry = other.stored entry := by
  cases hget : other.entries.get? entry.key with
  | some found =>
    have hv := other.valid _ (mem_entries_iff.2 hget)
    rw [stored_of_some hget hv, stored_of_some ((h.bound _).trans hget) hv]
  | none => rw [stored_of_none hget, stored_of_none ((h.bound _).trans hget)]

theorem Same.counted (h : Same corpus other) (entry : CorpusEntry) (picks discoveries : ℕ) :
    (answerCounted corpus (corpus.count entry picks discoveries)).1 =
        (answerCounted other (other.count entry picks discoveries)).1 ∧
      Same (answerCounted corpus (corpus.count entry picks discoveries)).2
        (answerCounted other (other.count entry picks discoveries)).2 := by
  unfold count
  rw [h.stored]
  cases other.stored entry with
  | error e => exact ⟨rfl, h⟩
  | ok found =>
    obtain ⟨found, hv⟩ := found
    have hcounts : CorpusEntry.Valid { found with picks := found.picks + picks, discoveries :=
      found.discoveries + discoveries } :=
      ⟨hv.flow, hv.recordText, hv.origin⟩
    exact ⟨rfl, h.store hcounts⟩

/-- **Corpora that bind the same entries answer every call alike**, and bind the same entries after it. -/
theorem Same.answer (h : Same corpus other) (rng : Rng) (call : Call) :
    (corpus.answer rng call).1.1 = (other.answer rng call).1.1 ∧
    (corpus.answer rng call).2 = (other.answer rng call).2 ∧
      Same (corpus.answer rng call).1.2 (other.answer rng call).1.2 := by
  cases call with
  | seed flow fields recordText =>
    obtain ⟨hresult, hafter⟩ := h.added flow fields recordText none "seed"
    exact ⟨hresult, rfl, hafter⟩
  | add flow fields recordText parent origin =>
    obtain ⟨hresult, hafter⟩ := h.added flow fields recordText parent origin
    exact ⟨hresult, rfl, hafter⟩
  | choose =>
    unfold Corpus.answer
    rw [h.choose]
    cases other.choose rng with
    | ok chosen | error e => exact ⟨rfl, rfl, h⟩
  | markPicked entry =>
    obtain ⟨hresult, hafter⟩ := h.counted entry 1 0
    exact ⟨hresult, rfl, hafter⟩
  | noteDiscovery entry =>
    obtain ⟨hresult, hafter⟩ := h.counted entry 0 1
    exact ⟨hresult, rfl, hafter⟩

/-- **Corpora that bind the same entries do the same in every campaign.** -/
theorem Same.play : ∀ (calls : List Call) {corpus other : Corpus} (rng : Rng), Same corpus other →
    List.Forall₂ SameStep (corpus.play calls rng).1 (other.play calls rng).1
  | [], _, _, _, _ => .nil
  | call :: calls, corpus, other, rng, h => by
      obtain ⟨hresult, hrng, hafter⟩ := h.answer rng call
      rw [play_cons, play_cons]
      refine .cons ⟨rfl, hresult, h.perm, hafter.perm, hafter.evicted⟩ ?_
      rw [hrng]
      exact Same.play calls _ hafter

/-- **The corpus keeps its invariants and survives persistence over any campaign.** -/
theorem corpus_keeps_invariants (codec : JsonCodec JsonScalar) (m : ℤ) (corpus : Corpus)
    (hmake : make m = .ok corpus)
    (calls : List Call) (rng : Rng) :
    (∀ step ∈ (play calls corpus rng).1, Lawful m.toNat step) ∧
      (play calls corpus rng).2.entries.length + (play calls corpus rng).2.evicted =
        ((play calls corpus rng).1.filter Step.stores).length ∧
      ∀ size : ℤ, 1 ≤ size → size ≤ 4096 → ((play calls corpus rng).2.entries.length : ℤ) ≤ size →
        ∃ loaded, load codec ((play calls corpus rng).2.save codec) size = .ok loaded ∧
          loaded.values.Perm (play calls corpus rng).2.values ∧
            loaded.evicted = (play calls corpus rng).2.evicted ∧
          (size = m → ∀ later rng', List.Forall₂ SameStep (play later (play calls corpus rng).2 rng').1
            (play later loaded rng').1) := by
  unfold make at hmake
  split_ifs at hmake with hlimit
  cases hmake
  obtain ⟨hsteps, hmax, hcount⟩ := lawful_play calls (m := m.toNat)
    ⟨m.toNat, .empty, 0, by omega, keyed_empty, valid_empty⟩ rng rfl (Nat.zero_le _)
  refine ⟨hsteps, hcount.trans (Nat.zero_add _), fun size hlow hhigh hroom => ?_⟩
  obtain ⟨loaded, hload, hlimit, hevicted, hbound⟩ := load_save codec _ ⟨hlow, hhigh⟩ hroom
  refine ⟨loaded, hload, (Dict.perm_of_get?_eq hbound).map _, hevicted, fun hsize later rng' => ?_⟩
  refine Same.play later rng' ⟨?_, hevicted.symm, fun k => (hbound k).symm⟩
  rw [hmax, hlimit, hsize]

/-- An empty corpus for one entry. -/
def single : Corpus :=
  ⟨1, .empty, 0, by decide, keyed_empty, valid_empty⟩

/-- Two records in a corpus for one: the first is given up, and the corpus is read back with the second. -/
theorem corpus_keeps_invariants_single :
    (∀ step ∈ (play [.seed "f" [1] "a", .add "f" [2] "b" (some "a") "mutation"] single fun _ =>
      0).1, Lawful 1 step) ∧
      ∃ loaded, load Json.codec
        ((play [.seed "f" [1] "a", .add "f" [2] "b" (some "a") "mutation"] single fun _ => 0).2.save
          Json.codec) 1 =
          .ok loaded ∧ loaded.values.Perm [⟨"f", [2], "b", "mutation", some "a", 0, 0⟩] ∧ loaded.evicted = 1 ∧
        List.Forall₂ SameStep (play [.choose]
          (play [.seed "f" [1] "a", .add "f" [2] "b" (some "a") "mutation"] single
          fun _ => 0).2 fun _ => 0).1 (play [.choose] loaded fun _ => 0).1 := by
  obtain ⟨hsteps, -, hload⟩ := corpus_keeps_invariants Json.codec 1 single rfl
    [.seed "f" [1] "a", .add "f" [2] "b" (some "a") "mutation"] fun _ => 0
  obtain ⟨loaded, hloaded, hperm, hevicted, hsame⟩ := hload 1 (by decide) (by decide) (by decide)
  have hvalues : (play [.seed "f" [1] "a", .add "f" [2] "b" (some "a") "mutation"] single fun _ =>
    0).2.values =
      [⟨"f", [2], "b", "mutation", some "a", 0, 0⟩] := by decide
  have hgone : (play [.seed "f" [1] "a", .add "f" [2] "b" (some "a") "mutation"] single fun _ =>
    0).2.evicted = 1 := by
    decide
  exact ⟨hsteps, loaded, hloaded, hvalues ▸ hperm, hevicted.trans hgone, hsame rfl [.choose] fun _ => 0⟩

end Corpus

end MyFuzz
