import MyFuzz.Foundations.Run
import MyFuzz.Scenario.MemoryChange

/-!
# Scenario/MemoryInvariant — versions, images and the byte budget

The representation invariant of the memory, kept by every call.  Versions are handed out in
lexicographic order: a commit advances the sequence of its memory, and a cold reset zeroes the
sequences but advances the generation.

    (0,1) < (0,2) < … < (0,n) < (1,1) < (1,2) < …
                      cold reset ┘

A version with a positive sequence is taken by one commit, so the cells that share it were written
together; sequence zero is the initial images', and several preloads share it.
-/

namespace MyFuzz

open Run Outcome Dict

open List hiding lookup getD

/-- Lexicographic order of versions. -/
def Version.Before (v w : Version) : Prop := v.1 < w.1 ∨ (v.1 = w.1 ∧ v.2 < w.2)

namespace PersistentMemory

/-- The representation invariant. -/
structure Inv (cfg : MemoryConfig) (m : PersistentMemory) : Prop where
  within_budget : m.bytes.length ≤ cfg.maxInitializedBytes
  images_determined : ∀ k, (m.initialImages.get? k).isSome → (m.bytes.get? k).isSome
  images_outside_slots : ∀ k, (m.initialImages.get? k).isSome → k ∉ m.instructionSlots
  images_bytes : ∀ k v, m.initialImages.get? k = some v → v < 256
  versioned : ∀ k c, m.bytes.get? k = some c →
    c.version.1 = m.generation ∧ c.version.2 ≤ m.commitSequence k.1 ∧ c.value < 256
  handed_bounded : ∀ p ∈ m.handedOut, p.2.1 < m.generation ∨
    (p.2.1 = m.generation ∧ p.2.2 ≤ m.commitSequence p.1)
  handed_increasing : m.handedOut.Pairwise fun p q => p.1 = q.1 → Version.Before p.2 q.2

/-! ## The invariant is kept -/

section Kept

variable {cfg : MemoryConfig} {m : PersistentMemory}

theorem commitSequence_zero (cfg : MemoryConfig) (m : PersistentMemory) (id : String)
    (h : m.commitSequences = update .empty (cfg.regions.map fun r => (r.memoryId, 0))) :
    m.commitSequence id = 0 := by
  have hnd : ((cfg.regions.map fun r => (r.memoryId, 0)).map Prod.fst).Nodup := by
    rw [List.map_map]
    exact cfg.ids_nodup
  rw [commitSequence, h, getD, get?_update hnd]
  cases hl : lookup id (cfg.regions.map fun r => (r.memoryId, 0)) with
  | none => rfl
  | some v =>
    obtain ⟨r, -, hr⟩ := List.mem_map.1 (mem_of_lookup_eq_some hl)
    rw [Option.some_or, Option.getD_some]
    exact (Prod.mk.inj hr).2.symm

theorem inv_init (cfg : MemoryConfig) : (init cfg).Inv cfg where
  within_budget := Nat.zero_le _
  images_determined k h := by cases h
  images_outside_slots k h := by cases h
  images_bytes k v h := by cases h
  versioned k c h := by cases h
  handed_bounded p hp := nomatch hp
  handed_increasing := List.Pairwise.nil

variable {memoryId sourceEventId : String} {cells : List (ByteKey × ℕ)} {kind : WriterKind}
  {event : ByteKey → String} {offset : ℕ} {data : List UInt8} {c : MemoryCall} {a : MemoryAnswer}
  {m' : PersistentMemory} {β : Type} {e : Exn} {address width : ℤ} {r : InstructionAcceptance}
  {k : ByteKey} {cell : ByteCell}

namespace Inv

/-- The acceptances still valid play no part. -/
theorem withIssued (hm : m.Inv cfg) (issued : List InstructionAcceptance) : Inv cfg { m with issued } :=
  ⟨hm.within_budget, hm.images_determined, hm.images_outside_slots, hm.images_bytes, hm.versioned,
    hm.handed_bounded, hm.handed_increasing⟩

/-- **A commit within the budget keeps the invariant.** -/
theorem commit (hm : m.Inv cfg) (hnd : (cells.map Prod.fst).Nodup)
    (hid : ∀ p ∈ cells, p.1.1 = memoryId) (hval : ∀ p ∈ cells, p.2 < 256)
    (hroom : m.bytes.length + (m.missing (cells.map Prod.fst)).length ≤ cfg.maxInitializedBytes) :
    (m.commit memoryId cells kind event).Inv cfg where
  within_budget := by
    rw [length_commit m memoryId hnd]
    exact hroom
  images_determined k hk := by
    rw [get?_commit m memoryId hnd]
    cases lookup k cells with
    | none => exact hm.images_determined k hk
    | some v => rfl
  images_outside_slots := hm.images_outside_slots
  images_bytes := hm.images_bytes
  versioned k c hc := by
    rw [get?_commit m memoryId hnd] at hc
    rw [commitSequence_commit]
    cases hl : lookup k cells with
    | none =>
      rw [hl] at hc
      obtain ⟨h1, h2, h3⟩ := hm.versioned k c hc
      refine ⟨h1, ?_, h3⟩
      split_ifs with hk
      · rw [hk] at h2
        omega
      · exact h2
    | some v =>
      rw [hl] at hc
      cases hc
      have hmem := mem_of_lookup_eq_some hl
      rw [if_pos (hid _ hmem)]
      exact ⟨rfl, le_refl _, hval _ hmem⟩
  handed_bounded p hp := by
    rw [commitSequence_commit]
    rcases mem_append.1 hp with hp | hp
    · rcases hm.handed_bounded p hp with h | ⟨h1, h2⟩
      · exact .inl h
      · refine .inr ⟨h1, ?_⟩
        split_ifs with hk
        · rw [hk] at h2
          omega
        · exact h2
    · rw [mem_singleton.1 hp, if_pos rfl]
      exact .inr ⟨rfl, le_refl _⟩
  handed_increasing := by
    rw [handedOut_commit, pairwise_append]
    refine ⟨hm.handed_increasing, pairwise_singleton _ _, fun p hp q hq hpq => ?_⟩
    rw [mem_singleton.1 hq] at hpq ⊢
    rcases hm.handed_bounded p hp with h | ⟨h1, h2⟩
    · exact .inl h
    · rw [hpq] at h2
      exact .inr ⟨h1, Nat.lt_succ_of_le h2⟩

theorem preload (hm : m.Inv cfg) (hfree : ∀ k ∈ span memoryId offset data.length,
      m.bytes.get? k = none ∧ k ∉ m.instructionSlots)
    (hroom : m.bytes.length + data.length ≤ cfg.maxInitializedBytes) :
    ({ m with initialImages := m.initialImages.update (spanValues memoryId offset data) }.setCells
      (spanValues memoryId offset data) (m.generation, 0) .initialImage
      fun _ => "initial-image").Inv cfg := by
  have hnd := nodup_spanValues memoryId offset data
  have hlookup : ∀ k v, lookup k (spanValues memoryId offset data) = some v →
      k ∈ span memoryId offset data.length ∧ v < 256 := fun k v hl =>
    have hmem := mem_of_lookup_eq_some hl
    ⟨by rw [← map_fst_spanValues]; exact mem_map_of_mem hmem, spanValues_lt hmem⟩
  refine ⟨?_, fun k hk => ?_, fun k hk => ?_, fun k v hv => ?_, fun k c hc => ?_, hm.handed_bounded,
    hm.handed_increasing⟩
  · rw [length_setCells _ hnd, map_fst_spanValues]
    have := length_filter_le (fun k => (m.bytes.get? k).isNone)
      (span memoryId offset data.length)
    rw [length_span] at this
    exact (Nat.add_le_add_left this _).trans hroom
  · rw [get?_setCells _ hnd]
    replace hk : ((m.initialImages.update (spanValues memoryId offset data)).get? k).isSome := hk
    rw [get?_update hnd] at hk
    cases hl : lookup k (spanValues memoryId offset data) with
    | none =>
      rw [hl] at hk
      exact hm.images_determined k hk
    | some v => rfl
  · replace hk : ((m.initialImages.update (spanValues memoryId offset data)).get? k).isSome := hk
    rw [get?_update hnd] at hk
    cases hl : lookup k (spanValues memoryId offset data) with
    | none =>
      rw [hl] at hk
      exact hm.images_outside_slots k hk
    | some v => exact (hfree k (hlookup k v hl).1).2
  · replace hv : (m.initialImages.update (spanValues memoryId offset data)).get? k = some v := hv
    rw [get?_update hnd] at hv
    cases hl : lookup k (spanValues memoryId offset data) with
    | none =>
      rw [hl] at hv
      exact hm.images_bytes k v hv
    | some w =>
      rw [hl] at hv
      cases hv
      exact (hlookup k v hl).2
  · rw [get?_setCells _ hnd] at hc
    cases hl : lookup k (spanValues memoryId offset data) with
    | none =>
      rw [hl] at hc
      exact hm.versioned k c hc
    | some v =>
      rw [hl] at hc
      cases hc
      exact ⟨rfl, Nat.zero_le _, (hlookup k v hl).2⟩

theorem cold (hm : m.Inv cfg) : (m.coldReset cfg).Inv cfg := by
  have hbytes : ∀ k, (m.coldReset cfg).bytes.get? k = (m.initialImages.get? k).map fun v =>
      ⟨v, (m.generation + 1, 0), .initialImage, "initial-image"⟩ := fun k => get?_mapVal _ _ k
  refine ⟨?_, fun k hk => ?_, hm.images_outside_slots, hm.images_bytes, fun k c hc => ?_,
    fun p hp => ?_, hm.handed_increasing⟩
  · have hlen : (m.coldReset cfg).bytes.length = m.initialImages.length := length_mapVal _ _
    rw [hlen]
    exact (length_le_of_keys hm.images_determined).trans hm.within_budget
  · rw [hbytes, Option.isSome_map]
    exact hk
  · rw [hbytes] at hc
    obtain ⟨v, hv, rfl⟩ := Option.map_eq_some_iff.1 hc
    exact ⟨rfl, Nat.zero_le _, hm.images_bytes k v hv⟩
  · left
    rcases hm.handed_bounded p hp with h | ⟨h, -⟩
    · exact Nat.lt_succ_of_lt h
    · exact Nat.lt_succ_of_le h.le

/-- First reads determine the bytes that had no cell. -/
theorem materialize (hm : m.Inv cfg) {keys : List ByteKey} (hnd : keys.Nodup)
    (hid : ∀ k ∈ keys, k.1 = memoryId)
    (hroom : m.bytes.length + (m.missing keys).length ≤ cfg.maxInitializedBytes) :
    (m.materialize cfg memoryId keys).Inv cfg := by
  unfold PersistentMemory.materialize
  split_ifs with hnone
  · exact hm
  · have hfst : ((m.missing keys).map fun k => (k, m.initialByte cfg k)).map Prod.fst
        = m.missing keys := by
      rw [map_map]
      exact map_id _
    have hmiss : m.missing (m.missing keys) = m.missing keys := by
      simp [missing]
    refine hm.commit (by rw [hfst]; exact hnd.filter _) (fun p hp => ?_) (fun p hp => ?_)
      (by rw [hfst, hmiss]; exact hroom)
    · obtain ⟨k, hk, rfl⟩ := mem_map.1 hp
      exact hid k (mem_filter.1 hk).1
    · obtain ⟨k, -, rfl⟩ := mem_map.1 hp
      exact UInt8.toNat_lt _

/-- **Every change keeps the invariant.** -/
theorem change (hm : m.Inv cfg) (h : Change cfg m c a m') : m'.Inv cfg := by
  cases h with
  | preloaded hplace hne hfree hroom => exact hm.preload hfree hroom
  | @reinstalled address data eventId region offset hplace hne hevent himages =>
    refine hm.commit (nodup_spanValues ..) (fun p hp => spanValues_fst hp)
      (fun p hp => spanValues_lt hp) ?_
    have hnone : m.missing (span region.memoryId offset data.length) = [] := by
      refine filter_eq_nil_iff.2 fun k hk => ?_
      have := hm.images_determined k (himages k hk)
      simpa using Option.isSome_iff_ne_none.1 this
    rw [map_fst_spanValues, hnone]
    exact hm.within_budget
  | declared hpos hplace hfree =>
    refine ⟨hm.within_budget, hm.images_determined, fun k hk hmem => ?_, hm.images_bytes,
      hm.versioned, hm.handed_bounded, hm.handed_increasing⟩
    rcases Finset.mem_union.1 hmem with hmem | hmem
    · exact hm.images_outside_slots k hk hmem
    · have hdet := hm.images_determined k hk
      rw [hfree k (mem_toFinset.1 hmem)] at hdet
      cases hdet
  | @accepted address data sourceEventId region offset hplace hdata hsource hslots hroom m' hm' =>
    subst hm'
    refine Inv.withIssued (hm.commit (nodup_spanValues ..) (fun p hp => spanValues_fst hp)
      (fun p hp => spanValues_lt hp) ?_) _
    have hle := length_filter_le (fun k => (m.bytes.get? k).isNone)
      (span region.memoryId offset data.length)
    rw [length_span] at hle
    rw [map_fst_spanValues]
    exact (Nat.add_le_add_left hle _).trans hroom
  | fetched hplace hready hwritable hroom hm' =>
    subst hm'
    exact hm.materialize (nodup_span ..) (fun k hk => (mem_span.1 hk).1) hroom
  | storedNothing hplace hnone => exact hm
  | stored hplace hsome hroom =>
    refine hm.commit (nodup_storeCells ..) (fun p hp => ?_) (fun p hp => storeCells_lt hp)
      (by rw [map_fst_storeCells]; exact hroom)
    obtain ⟨i, -, rfl⟩ := mem_map.1 hp
    rfl
  | warm => exact hm.withIssued []
  | cold => exact hm.cold

end Inv

/-! ## A call that raises changes nothing -/

theorem checked_eq_error {α : Type} {m : PersistentMemory} {checks : Except Exn α}
    {effect : α → Except Exn β × PersistentMemory} (h : m.checked checks effect = (.error e, m')) :
    m' = m ∨ ∃ a, checks = .ok a ∧ effect a = (.error e, m') := by
  cases checks with
  | error e' =>
    cases h
    exact .inl rfl
  | ok a => exact .inr ⟨a, rfl, h⟩

/-- The receipt of an admission passes its own registration. -/
theorem wellFormed_acceptanceOf (m : PersistentMemory) {region : MemoryRegion}
    (hres : cfg.resolve address 4 false = .ok (region, offset))
    (hdata : data ≠ [] ∧ data.length % 4 = 0) (hsource : sourceEventId ≠ "") :
    (acceptanceOf (m.commit region.memoryId (spanValues region.memoryId offset data)
      .instructionSource fun _ => sourceEventId) address region offset data sourceEventId).WellFormed := by
  obtain ⟨-, ⟨base, -, haddr⟩, -⟩ := MemoryConfig.resolve_spec hres
  have hlen : ((span region.memoryId offset data.length).filterMap
      (m.commit region.memoryId (spanValues region.memoryId offset data) .instructionSource
        fun _ => sourceEventId).bytes.get?).length = data.length := by
    rw [length_filterMap_of_isSome fun k hk => ?_, length_span]
    rw [get?_commit m _ (nodup_spanValues ..)]
    rw [← map_fst_spanValues] at hk
    obtain ⟨v, hv⟩ := Option.ne_none_iff_exists'.1 fun h => lookup_eq_none_iff.1 h hk
    rw [hv]
    rfl
  refine ⟨region.valid.1, hsource, ?_, hdata.1, hdata.2, ?_, ?_, ?_⟩
  · change 0 ≤ address
    omega
  all_goals exact (length_map _).trans hlen

theorem register_of_wellFormed (m : PersistentMemory) (hr : r.WellFormed) :
    m.register r = (.ok r, { m with issued := m.issued ++ [r] }) := by
  rw [register, ensure_of hr]
  rfl

/-- The bytes of determined cells fit. -/
theorem toBytes_cells (hm : m.Inv cfg) (keys : List ByteKey) :
    toBytes ((keys.filterMap m.bytes.get?).map ByteCell.value)
      = .ok (((keys.filterMap m.bytes.get?).map ByteCell.value).map UInt8.ofNat) := by
  unfold toBytes
  rw [ensure_of, ok_bind]
  intro v hv
  obtain ⟨c, hc, rfl⟩ := mem_map.1 hv
  obtain ⟨k, -, hk⟩ := mem_filterMap.1 hc
  exact (hm.versioned k c hk).2.2

theorem acceptInstructions_error (hm : m.Inv cfg)
    (h : m.acceptInstructions cfg address data sourceEventId = (.error e, m')) : m' = m := by
  rcases checked_eq_error h with rfl | ⟨⟨region, offset⟩, hc, heff⟩
  · rfl
  · obtain ⟨_, hval, hc⟩ := bind_ok.1 hc
    obtain ⟨hdata, -⟩ := ensure_ok.1 hval
    obtain ⟨hsource, hc⟩ := ensure_ok.1 hc
    obtain ⟨⟨r, o⟩, hres, hc⟩ := bind_ok.1 hc
    obtain ⟨-, -, hc⟩ := ensure_ok₂ hc
    obtain ⟨-, -, hc⟩ := ensure_ok₂ hc
    cases hc
    have hreg := register_of_wellFormed (m.commit region.memoryId
      (spanValues region.memoryId offset data) .instructionSource fun _ => sourceEventId)
      (wellFormed_acceptanceOf m hres hdata hsource)
    cases hreg.symm.trans heff

theorem read_error (hm : m.Inv cfg) {transactionId : String}
    (h : m.read cfg address width transactionId = (.error e, m')) : m' = m := by
  rcases checked_eq_error h with rfl | ⟨⟨region, offset⟩, hc, heff⟩
  · rfl
  · obtain ⟨-, hc⟩ := ensure_ok.1 hc
    obtain ⟨⟨r, o⟩, -, hc⟩ := bind_ok.1 hc
    obtain ⟨-, -, hroom, hc⟩ := ensure_ok₃ hc
    cases hc
    have hm' : (m.materialize cfg region.memoryId (span region.memoryId offset width.toNat)).Inv cfg :=
      hm.materialize (nodup_span ..) (fun k hk => (mem_span.1 hk).1) hroom
    simp only [toBytes_cells hm'] at heff
    cases heff

theorem write_error {value byteEnable : ℤ} {writerEventId : String}
    (h : m.write cfg address value width byteEnable writerEventId = (.error e, m')) : m' = m := by
  rcases checked_eq_error h with rfl | ⟨⟨region, offset, v, be⟩, -, heff⟩
  · rfl
  · simp only [] at heff
    split_ifs at heff <;> cases heff

theorem raised_eq {x : Except Exn β × PersistentMemory} {f : β → MemoryAnswer}
    (h : (x.map (·.map f) id).1 = .error e) : x = (.error e, (x.map (·.map f) id).2) := by
  obtain ⟨r, m₁⟩ := x
  cases r with
  | error e' =>
    cases h
    rfl
  | ok b => cases h

/-- **A call that raises changes nothing.** -/
theorem call_error (hm : m.Inv cfg) (h : (m.call cfg c).1 = .error e) : (m.call cfg c).2 = m := by
  cases c with
  | preload address data | reinstallImage address data eventId
  | declareInstructionSlots address count =>
    rcases checked_eq_error (raised_eq h) with hsame | ⟨a, -, heff⟩
    · exact hsame
    · cases heff
  | acceptInstructions address data sourceEventId => exact acceptInstructions_error hm (raised_eq h)
  | read address width transactionId => exact read_error hm (raised_eq h)
  | write address value width byteEnable writerEventId => exact write_error (raised_eq h)
  | warmReset | coldReset => cases h

/-- **Every call keeps the invariant.** -/
theorem Inv.call (hm : m.Inv cfg) (c : MemoryCall) : (m.call cfg c).2.Inv cfg := by
  cases h : (m.call cfg c).1 with
  | error e =>
    rw [call_error hm h]
    exact hm
  | ok a => exact hm.change (change_call (Prod.ext h rfl))

theorem inv_run (cfg : MemoryConfig) (cs : List MemoryCall) : (run (step cfg) (init cfg) cs).Inv cfg :=
  run_invariant (fun _ c h => h.call c) cs (inv_init cfg)

/-! ## One commit for one version -/

/-- **A cell that a change leaves** was there before, is an initial image, or carries the version its
memory hands out next. -/
theorem cell_of_change (h : Change cfg m c a m') (hc : m'.bytes.get? k = some cell) :
    m.bytes.get? k = some cell ∨ cell.version.2 = 0 ∨
      cell.version = (m.generation, m.commitSequence k.1 + 1) := by
  have hcommit : ∀ {memoryId : String} {cells : List (ByteKey × ℕ)} {kind : WriterKind}
      {event : ByteKey → String}, (cells.map Prod.fst).Nodup → (∀ p ∈ cells, p.1.1 = memoryId) →
      (m.commit memoryId cells kind event).bytes.get? k = some cell →
      m.bytes.get? k = some cell ∨ cell.version.2 = 0 ∨
        cell.version = (m.generation, m.commitSequence k.1 + 1) := by
    intro memoryId cells kind event hnd hid hc
    rw [get?_commit m memoryId hnd] at hc
    cases hl : lookup k cells with
    | none =>
      rw [hl] at hc
      exact .inl hc
    | some v =>
      rw [hl] at hc
      cases hc
      rw [← hid _ (mem_of_lookup_eq_some hl)]
      exact .inr (.inr rfl)
  cases h with
  | preloaded hplace hne hfree hroom =>
    rw [get?_setCells _ (nodup_spanValues ..)] at hc
    cases hl : lookup k (spanValues _ _ _) with
    | none =>
      rw [hl] at hc
      exact .inl hc
    | some v =>
      rw [hl] at hc
      cases hc
      exact .inr (.inl rfl)
  | reinstalled => exact hcommit (nodup_spanValues ..) (fun p hp => spanValues_fst hp) hc
  | declared => exact .inl hc
  | @accepted address data sourceEventId region offset _ _ _ _ _ m' hm' =>
    replace hc : m'.bytes.get? k = some cell := hc
    rw [hm'] at hc
    exact hcommit (nodup_spanValues ..) (fun p hp => spanValues_fst hp) hc
  | @fetched address width transactionId region offset _ _ _ _ m' hm' =>
    subst hm'
    rw [get?_materialize cfg m _ (nodup_span ..)] at hc
    split_ifs at hc with hk
    · cases hc
      have hk := (mem_span.1 (mem_missing.1 hk).1).1
      rw [hk]
      exact .inr (.inr rfl)
    · exact .inl hc
  | storedNothing => exact .inl hc
  | stored =>
    refine hcommit (nodup_storeCells ..) (fun p hp => ?_) hc
    obtain ⟨i, -, rfl⟩ := mem_map.1 hp
    rfl
  | warm => exact .inl hc
  | cold =>
    have hbytes : (m.coldReset cfg).bytes.get? k = (m.initialImages.get? k).map fun v =>
      ⟨v, (m.generation + 1, 0), .initialImage, "initial-image"⟩ := get?_mapVal _ _ k
    rw [hbytes] at hc
    obtain ⟨v, -, rfl⟩ := Option.map_eq_some_iff.1 hc
    exact .inr (.inl rfl)

/-- A cell with a positive sequence that a call leaves was there before, or is newer than every cell
of its memory. -/
theorem cell_of_call (hm : m.Inv cfg) {k' : ByteKey} {cell' : ByteCell}
    (hc : (m.call cfg c).2.bytes.get? k = some cell) (hpos : 1 ≤ cell.version.2)
    (hc' : m.bytes.get? k' = some cell') (hid : k.1 = k'.1) (hv : cell.version = cell'.version) :
    m.bytes.get? k = some cell := by
  cases h : (m.call cfg c).1 with
  | error e =>
    rw [call_error hm h] at hc
    exact hc
  | ok a =>
    rcases cell_of_change (change_call (Prod.ext h rfl)) hc with hold | hzero | hnew
    · exact hold
    · omega
    · have hle := (hm.versioned k' cell' hc').2.1
      rw [← hv, hnew, hid] at hle
      exact absurd hle (Nat.not_succ_le_self _)

/-- The call after `pre` wrote the cell. -/
def Writes (cfg : MemoryConfig) (pre : List MemoryCall) (c : MemoryCall) (k : ByteKey)
    (cell : ByteCell) : Prop :=
  (run (step cfg) (init cfg) pre).bytes.get? k ≠ some cell ∧
    (run (step cfg) (init cfg) (pre ++ [c])).bytes.get? k = some cell

/-- **Cells that share a version of a memory, beyond the initial images, were written together.** -/
theorem written_together (cfg : MemoryConfig) (cs : List MemoryCall) {k₁ k₂ : ByteKey}
    {c₁ c₂ : ByteCell} (h₁ : (run (step cfg) (init cfg) cs).bytes.get? k₁ = some c₁)
    (h₂ : (run (step cfg) (init cfg) cs).bytes.get? k₂ = some c₂) (hid : k₁.1 = k₂.1)
    (hv : c₁.version = c₂.version) (hpos : 1 ≤ c₁.version.2) :
    ∃ pre c post, cs = pre ++ c :: post ∧ Writes cfg pre c k₁ c₁ ∧ Writes cfg pre c k₂ c₂ := by
  induction cs using List.reverseRecOn with
  | nil => cases h₁
  | append_singleton cs c ih =>
    have hm := inv_run cfg cs
    rw [run_concat] at h₁ h₂
    by_cases hold : (run (step cfg) (init cfg) cs).bytes.get? k₁ = some c₁ ∧
        (run (step cfg) (init cfg) cs).bytes.get? k₂ = some c₂
    · obtain ⟨pre, c', post, rfl, hw⟩ := ih hold.1 hold.2
      exact ⟨pre, c', post ++ [c], by simp, hw⟩
    · refine ⟨cs, c, [], rfl, ⟨fun h => hold ⟨h, ?_⟩, ?_⟩, ⟨fun h => hold ⟨?_, h⟩, ?_⟩⟩
      · exact cell_of_call hm h₂ (hv ▸ hpos) h hid.symm hv.symm
      · rw [run_concat]
        exact h₁
      · exact cell_of_call hm h₁ hpos h hid hv
      · rw [run_concat]
        exact h₂

/-! ## One acceptance for one byte -/

/-- The generation moved on, or nothing determined was lost. -/
def Continues (m m' : PersistentMemory) : Prop :=
  m.generation < m'.generation ∨ (m.generation = m'.generation ∧
    ∀ k, (m.bytes.get? k).isSome → (m'.bytes.get? k).isSome)

theorem Continues.refl (m : PersistentMemory) : m.Continues m := .inr ⟨rfl, fun _ h => h⟩

theorem Continues.trans {m₁ m₂ m₃ : PersistentMemory} (h : m₁.Continues m₂)
    (h' : m₂.Continues m₃) : m₁.Continues m₃ := by
  rcases h with h | ⟨hg, hk⟩ <;> rcases h' with h' | ⟨hg', hk'⟩
  · exact .inl (h.trans h')
  · exact .inl (hg' ▸ h)
  · exact .inl (hg ▸ h')
  · exact .inr ⟨hg.trans hg', fun k hs => hk' k (hk k hs)⟩

theorem continues_commit (m : PersistentMemory) (hnd : (cells.map Prod.fst).Nodup) :
    m.Continues (m.commit memoryId cells kind event) := by
  refine .inr ⟨rfl, fun k hk => ?_⟩
  rw [get?_commit m memoryId hnd]
  cases lookup k cells with
  | none => exact hk
  | some v => rfl

theorem continues_change (h : Change cfg m c a m') : m.Continues m' := by
  cases h with
  | @preloaded address data region offset hplace hne hfree hroom =>
    refine .inr ⟨rfl, fun k hk => ?_⟩
    rw [get?_setCells _ (nodup_spanValues ..)]
    cases lookup k (spanValues region.memoryId offset data) with
    | none => exact hk
    | some v => rfl
  | reinstalled => exact continues_commit m (nodup_spanValues ..)
  | declared => exact .refl m
  | @accepted address data sourceEventId region offset _ _ _ _ _ m' hm' =>
    have hcont : m.Continues m' := by
      rw [hm']
      exact continues_commit m (nodup_spanValues ..)
    exact hcont
  | @fetched address width transactionId region offset _ _ _ _ m' hm' =>
    subst hm'
    unfold materialize
    split_ifs
    · exact .refl m
    · refine continues_commit m ?_
      rw [map_map]
      exact ((nodup_span region.memoryId offset width.toNat).filter _).map fun _ _ h => h
  | storedNothing => exact .refl m
  | stored => exact continues_commit m (nodup_storeCells ..)
  | warm => exact .refl m
  | cold => exact .inl (Nat.lt_succ_self _)

theorem continues_call (hm : m.Inv cfg) (c : MemoryCall) : m.Continues (m.call cfg c).2 := by
  cases h : (m.call cfg c).1 with
  | error e =>
    rw [call_error hm h]
    exact .refl m
  | ok a => exact continues_change (change_call (Prod.ext h rfl))

theorem continues_run (hm : m.Inv cfg) (cs : List MemoryCall) : m.Continues (run (step cfg) m cs) := by
  induction cs generalizing m with
  | nil => exact .refl m
  | cons c cs ih => exact (continues_call hm c).trans (ih (hm.call c))

/-- What an acceptance found and left at its bytes. -/
theorem acceptance_spec (h : m.call cfg c = (.ok (.acceptance r), m')) :
    r.generation = m.generation ∧
      m'.generation = m.generation ∧ ∀ k ∈ span r.memoryId r.byteOffset r.data.length,
        m.bytes.get? k = none ∧ (m'.bytes.get? k).isSome := by
  cases change_call h with
  | @accepted address data sourceEventId region offset hplace _ _ hslots _ m' hm' =>
    subst hm'
    refine ⟨rfl, rfl, fun k hk => ⟨(hslots k hk).2, ?_⟩⟩
    replace hk : k ∈ (spanValues region.memoryId offset data).map Prod.fst := by
      rw [map_fst_spanValues]
      exact hk
    change ((m.commit region.memoryId (spanValues region.memoryId offset data) .instructionSource
      fun _ => sourceEventId).bytes.get? k).isSome
    rw [get?_commit m _ (nodup_spanValues ..)]
    obtain ⟨v, hv⟩ := Option.ne_none_iff_exists'.1 fun h => lookup_eq_none_iff.1 h hk
    rw [hv]
    rfl

/-- **Two acceptances of one generation share no byte.** -/
theorem acceptances_disjoint (hm : m.Inv cfg) {c' : MemoryCall} {r' : InstructionAcceptance}
    (cs : List MemoryCall) (h : (m.call cfg c).1 = .ok (.acceptance r))
    (h' : ((run (step cfg) m (c :: cs)).call cfg c').1 = .ok (.acceptance r'))
    (hid : r.memoryId = r'.memoryId) (hgen : r.generation = r'.generation) (o : ℕ) :
    ¬ (r.byteOffset ≤ o ∧ o < r.byteOffset + r.data.length ∧
      r'.byteOffset ≤ o ∧ o < r'.byteOffset + r'.data.length) := by
  rintro ⟨h1, h2, h3, h4⟩
  obtain ⟨hg, hg', hdet⟩ := acceptance_spec (Prod.ext h rfl)
  obtain ⟨hg'', -, hfree⟩ := acceptance_spec (Prod.ext h' rfl)
  have hkeep := (hdet (r.memoryId, o) (mem_span.2 ⟨rfl, h1, h2⟩)).2
  rcases continues_run (hm.call c) cs with hlt | ⟨-, hk⟩
  · rw [hg', ← hg, hgen, hg''] at hlt
    exact absurd hlt (lt_irrefl _)
  · have hnone := (hfree (r.memoryId, o) (mem_span.2 ⟨hid, h3, h4⟩)).1
    have hsome := hk _ hkeep
    rw [run_cons] at hnone
    rw [show run (step cfg) (m.call cfg c).2 cs = run (step cfg) (m.step cfg c) cs from rfl, hnone] at hsome
    cases hsome

end Kept

/-- **The memory keeps its representation** after every sequence of calls: a call that raises changes
nothing; the invariant holds; cells that share a version were written by one call; and two acceptances of
one generation share no byte. -/
theorem memory_keeps_representation (cfg : MemoryConfig) (cs : List MemoryCall) :
    let m := run (step cfg) (init cfg) cs
    (∀ c e, (m.call cfg c).1 = .error e → (m.call cfg c).2 = m) ∧ m.Inv cfg ∧
    (∀ k₁ k₂ c₁ c₂, m.bytes.get? k₁ = some c₁ → m.bytes.get? k₂ = some c₂ → k₁.1 = k₂.1 →
      c₁.version = c₂.version → 1 ≤ c₁.version.2 →
      ∃ pre c post, cs = pre ++ c :: post ∧ Writes cfg pre c k₁ c₁ ∧ Writes cfg pre c k₂ c₂) ∧
    (∀ c c' r r' mid, (m.call cfg c).1 = .ok (.acceptance r) →
      ((run (step cfg) m (c :: mid)).call cfg c').1 = .ok (.acceptance r') →
      r.memoryId = r'.memoryId → r.generation = r'.generation → ∀ o,
        ¬ (r.byteOffset ≤ o ∧ o < r.byteOffset + r.data.length ∧
          r'.byteOffset ≤ o ∧ o < r'.byteOffset + r'.data.length)) := by
  intro m
  have hm : m.Inv cfg := inv_run cfg cs
  exact ⟨fun c e h => call_error hm h, hm,
    fun k₁ k₂ c₁ c₂ h₁ h₂ hid hv hpos => written_together cfg cs h₁ h₂ hid hv hpos,
    fun c c' r r' mid h h' hid hgen => acceptances_disjoint hm mid h h' hid hgen⟩

/-- A memory of sixteen bytes, for the example runs. -/
def exampleRegion : MemoryRegion := ⟨"ram", 0, 16, [], true, true, by decide⟩

def exampleConfig : MemoryConfig where
  regions := [exampleRegion]
  initializationSeed := 0
  maxInitializedBytes := 16
  initialByte _ _ _ _ := 0
  checkWords _ := .ok ()
  regions_ne_nil := by decide
  ids_nodup := by decide
  disjoint := by decide

/-- **Several preloads share the version of the initial images.** -/
theorem preloads_share_a_version :
    ¬ ∀ (cfg : MemoryConfig) (cs : List MemoryCall) (k₁ k₂ : ByteKey) (c₁ c₂ : ByteCell),
      (run (step cfg) (init cfg) cs).bytes.get? k₁ = some c₁ →
      (run (step cfg) (init cfg) cs).bytes.get? k₂ = some c₂ → k₁.1 = k₂.1 → c₁.version = c₂.version →
      ∃ pre c post, cs = pre ++ c :: post ∧ Writes cfg pre c k₁ c₁ ∧ Writes cfg pre c k₂ c₂ := by
  intro h
  obtain ⟨pre, c, post, hcs, ⟨hold₁, -⟩, -, hnew₂⟩ :=
    h exampleConfig [.preload 0 [1], .preload 1 [2]] ("ram", 0) ("ram", 1)
      ⟨1, (0, 0), .initialImage, "initial-image"⟩ ⟨2, (0, 0), .initialImage, "initial-image"⟩
      (by decide) (by decide) rfl rfl
  rcases pre with _ | ⟨c₁, _ | ⟨c₂, pre⟩⟩
  · cases hcs
    cases hnew₂
  · cases hcs
    exact hold₁ (by decide)
  · have := congrArg List.length hcs
    simp at this

end PersistentMemory

end MyFuzz
