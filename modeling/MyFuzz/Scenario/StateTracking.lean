import MyFuzz.Scenario.ServiceAdmission
import MyFuzz.Scenario.StateDependency

/-!
# Scenario/StateTracking — a tracker follows the memory of its service

The tracker sees reads and writes only.  First reads, instruction admissions, preloads and image
installs change the memory behind its back, yet what it keeps of a byte is what the memory holds:

    tracker view of a byte = nothing yet   ∨   (writer, version) of its cell, and
                                               the reads of that version in the events

`Agrees` states this.  Changes the tracker is not told about touch bytes it has not seen, so they
keep it (`Agrees.quiet`); a read adds itself to the readers (`Agrees.fetched`); a store or an image
starts a version nobody has read (`Agrees.overwritten`); a cold reset forgets the generation.
-/

namespace MyFuzz

open Outcome PersistentMemory ServiceCore StateDependencyTracker List

/-! ## Readers of a version -/

namespace MemoryEvent

/-- The access an event is ingested as. -/
def access? (printable : Char → Bool) : MemoryEvent → Option (AccessKind × String)
  | .read transaction .. => some (.memoryRead, transaction.str printable)
  | .write transaction .. => some (.memoryWrite, transaction.str printable)
  | _ => none

/-- The identity of a read that saw this version of the byte. -/
def readerAt (printable : Char → Bool) (key : StateKey) (version : Version) : MemoryEvent → Option String
  | .read transaction _ _ memoryId generation base _ _ versions _ _ =>
      if key.1 = memoryId ∧ key.2.1 = generation ∧ base ≤ key.2.2 ∧
          versions[key.2.2 - base]? = some version then some (transaction.str printable)
      else none
  | _ => none

end MemoryEvent

/-- The reads of a version of a byte, in order. -/
def readersOf (printable : Char → Bool) (events : List MemoryEvent) (key : StateKey)
    (version : Version) : List String :=
  events.filterMap (MemoryEvent.readerAt printable key version)

/-- An event that is not ingested. -/
def MemoryEvent.Quiet (e : MemoryEvent) : Prop := ∀ printable, e.access? printable = none

theorem MemoryEvent.Quiet.readerAt {e : MemoryEvent} (h : e.Quiet) (printable : Char → Bool)
    (key : StateKey) (version : Version) : e.readerAt printable key version = none := by
  cases e with
  | read => cases h printable
  | _ => rfl

theorem readersOf_append (printable : Char → Bool) (events events' : List MemoryEvent)
    (key : StateKey) (version : Version) : readersOf printable (events ++ events') key version
      = readersOf printable events key version ++ readersOf printable events' key version :=
  filterMap_append

theorem readersOf_quiet {printable : Char → Bool} {events : List MemoryEvent}
    (h : ∀ e ∈ events, e.Quiet) (key : StateKey) (version : Version) :
    readersOf printable events key version = [] :=
  filterMap_eq_nil_iff.2 fun e he => (h e he).readerAt printable key version

variable {memoryId : String} {offset width : ℕ} {key : StateKey} {byteEnable address : ℤ}
  {m : PersistentMemory} {region : MemoryRegion} {cells : List (ByteKey × ℕ)} {cfg : ServiceConfig}
  {lanes : List StateKey}

/-! ## Lanes -/

namespace StateDependencyTracker

variable {generation : ℕ}

theorem mem_imageLanes {size : ℕ} :
    key ∈ imageLanes memoryId generation offset size ↔
      key.1 = memoryId ∧ key.2.1 = generation ∧ offset ≤ key.2.2 ∧ key.2.2 < offset + size := by
  obtain ⟨m, g, o⟩ := key
  simp only [imageLanes, mem_map, mem_range, Prod.mk.injEq]
  constructor
  · rintro ⟨i, hi, rfl, rfl, rfl⟩
    exact ⟨rfl, rfl, by omega, by omega⟩
  · rintro ⟨rfl, rfl, hle, hlt⟩
    exact ⟨o - offset, by omega, rfl, rfl, by omega⟩

theorem nodup_imageLanes (memoryId : String) (generation offset size : ℕ) :
    (imageLanes memoryId generation offset size).Nodup := by
  refine nodup_range.map fun i j h => ?_
  have := (Prod.mk.inj (Prod.mk.inj h).2).2
  omega

theorem nodup_writeLanes (memoryId : String) (generation base : ℕ) (width byteEnable : ℤ) :
    (writeLanes memoryId generation base width byteEnable).Nodup :=
  (filter_sublist.map _).nodup (nodup_imageLanes memoryId generation base width.toNat)

theorem testBit_of_nonneg {n : ℤ} (h : 0 ≤ n) (i : ℕ) : n.testBit i = n.toNat.testBit i := by
  obtain ⟨k, rfl⟩ := Int.eq_ofNat_of_zero_le h
  rfl

/-- The bytes of a write, as the memory lists them. -/
theorem mem_writeLanes {base : ℕ} {width : ℤ} (h : 0 ≤ byteEnable) :
    key ∈ writeLanes memoryId generation base width byteEnable ↔ key.2.1 = generation ∧
      (key.1, key.2.2) ∈ storeKeys memoryId base width.toNat byteEnable.toNat := by
  obtain ⟨m, g, o⟩ := key
  simp only [writeLanes, storeKeys, enabledLanes, testBit_of_nonneg h, mem_map, Prod.mk.injEq]
  constructor
  · rintro ⟨i, hi, rfl, rfl, rfl⟩
    exact ⟨rfl, i, hi, rfl, rfl⟩
  · rintro ⟨rfl, i, hi, rfl, rfl⟩
    exact ⟨i, hi, rfl, rfl, rfl⟩

/-- The lanes of a read of these bytes. -/
def cellLanes (m : PersistentMemory) (memoryId : String) (offset width : ℕ) : List ReadLane :=
  readLanes memoryId m.generation offset
    (((span memoryId offset width).filterMap m.bytes.get?).map ByteCell.writerEventId)
    (((span memoryId offset width).filterMap m.bytes.get?).map ByteCell.version)

section

variable (hdet : ∀ k ∈ span memoryId offset width, (m.bytes.get? k).isSome)

include hdet

/-- **The lanes of a read are the cells it saw.** -/
theorem mem_cellLanes {lane : ReadLane} :
    lane ∈ cellLanes m memoryId offset width ↔ lane.1 ∈ imageLanes memoryId m.generation offset width ∧
        ∃ cell, m.bytes.get? (lane.1.1, lane.1.2.2) = some cell ∧
          lane.2 = (cell.writerEventId, cell.version) := by
  obtain ⟨⟨mid, g, o⟩, p⟩ := lane
  rw [cellLanes, readLanes, zip_map', mem_iff_getElem?, mem_imageLanes]
  simp only [getElem?_mapIdx, getElem?_map, getElem?_cells hdet]
  constructor
  · rintro ⟨i, hi⟩
    split_ifs at hi with hlt
    · cases hcell : m.bytes.get? (memoryId, offset + i) with
      | none =>
        rw [hcell] at hi
        cases hi
      | some cell =>
        rw [hcell] at hi
        cases hi
        exact ⟨⟨rfl, rfl, by omega, by omega⟩, cell, hcell, rfl⟩
    · cases hi
  · rintro ⟨⟨rfl, rfl, hle, hlt⟩, cell, hcell, rfl⟩
    refine ⟨o - offset, ?_⟩
    rw [if_pos (by omega), Nat.add_sub_cancel' hle, hcell]
    rfl

theorem map_fst_cellLanes :
    (cellLanes m memoryId offset width).map Prod.fst
      = imageLanes memoryId m.generation offset width := by
  have hlen := length_filterMap_of_isSome hdet
  rw [length_span] at hlen
  refine ext_getElem (by simp [cellLanes, readLanes, imageLanes, hlen]) fun i _ _ => ?_
  simp [cellLanes, readLanes, imageLanes]

theorem nodup_cellLanes :
    ((cellLanes m memoryId offset width).map Prod.fst).Nodup := by
  rw [map_fst_cellLanes hdet]
  exact nodup_imageLanes ..

end

/-- The reader a read event is of a byte. -/
theorem readersOf_readEvent (cfg : ServiceConfig) (key : TransactionKey) (address width : ℤ)
    {m' : PersistentMemory} {n : ℕ}
    (hdet : ∀ k ∈ span region.memoryId offset n, (m'.bytes.get? k).isSome) (transactionId : String)
    (k : StateKey) (version : Version) :
    readersOf cfg.printable [readEvent cfg key address width
        (snapshotOf m m' region offset n transactionId)] k version
      = if k ∈ imageLanes region.memoryId m'.generation offset n ∧
          (m'.bytes.get? (k.1, k.2.2)).map ByteCell.version = some version
        then [cfg.str key] else [] := by
  have hiff : (k.1 = region.memoryId ∧ k.2.1 = m'.generation ∧ offset ≤ k.2.2 ∧
      (((span region.memoryId offset n).filterMap m'.bytes.get?).map
        ByteCell.version)[k.2.2 - offset]? = some version) ↔
      k ∈ imageLanes region.memoryId m'.generation offset n ∧
        (m'.bytes.get? (k.1, k.2.2)).map ByteCell.version = some version := by
    rw [mem_imageLanes, getElem?_map, getElem?_cells hdet]
    constructor
    · rintro ⟨hid, hgen, hle, hv⟩
      split_ifs at hv with hlt
      · rw [Nat.add_sub_cancel' hle] at hv
        rw [hid]
        exact ⟨⟨rfl, hgen, hle, by omega⟩, hv⟩
      · cases hv
    · rintro ⟨⟨hid, hgen, hle, hlt⟩, hv⟩
      rw [if_pos (by omega), Nat.add_sub_cancel' hle, ← hid]
      exact ⟨rfl, hgen, hle, hv⟩
  simp only [readersOf, filterMap_cons, filterMap_nil, readEvent, MemoryEvent.readerAt,
    snapshotOf, hiff]
  split_ifs
  · rfl
  · rfl

end StateDependencyTracker

/-! ## Cells that stay -/

namespace PersistentMemory

theorem commitSequence_le_commit (m : PersistentMemory) (memoryId : String)
    (cells : List (ByteKey × ℕ)) (kind : WriterKind) (event : ByteKey → String) (id : String) :
    m.commitSequence id ≤ (m.commit memoryId cells kind event).commitSequence id := by
  rw [commitSequence_commit]
  split_ifs with h
  · rw [h]
    exact Nat.le_succ _
  · exact le_refl _

theorem commitSequence_le_materialize (cfg : MemoryConfig) (m : PersistentMemory)
    (memoryId : String) (keys : List ByteKey) (id : String) :
    m.commitSequence id ≤ (m.materialize cfg memoryId keys).commitSequence id := by
  unfold materialize
  split_ifs with h
  · exact le_refl _
  · exact commitSequence_le_commit m memoryId _ _ _ id

variable {k : ByteKey} {cell : ByteCell}

/-- A first read determines only bytes that were not. -/
theorem get?_materialize_of_some (cfg : MemoryConfig) (memoryId : String) {keys : List ByteKey}
    (hnd : keys.Nodup) (h : m.bytes.get? k = some cell) :
    (m.materialize cfg memoryId keys).bytes.get? k = some cell := by
  rw [get?_materialize cfg m memoryId hnd, if_neg, h]
  intro hk
  rw [(mem_missing.1 hk).2] at h
  cases h

/-- Setting undetermined bytes keeps the determined ones. -/
theorem get?_setCells_of_some (hnd : (cells.map Prod.fst).Nodup)
    (hfree : ∀ k ∈ cells.map Prod.fst, m.bytes.get? k = none) (version : Version)
    (kind : WriterKind) (event : ByteKey → String) (h : m.bytes.get? k = some cell) :
    (m.setCells cells version kind event).bytes.get? k = some cell := by
  have hk : k ∉ cells.map Prod.fst := by
    intro hk
    rw [hfree k hk] at h
    cases h
  rw [get?_setCells m hnd, Dict.lookup_eq_none_iff.2 hk, h]
  rfl

end PersistentMemory

/-! ## The tracker against the memory -/

/-- What is kept of a byte: nothing, or its cell and the reads of its version. -/
def Follows (cfg : ServiceConfig) (m : PersistentMemory) (events : List MemoryEvent) (key : StateKey)
    (view : Option (String × Version) × List String) : Prop :=
  view = (none, []) ∨ ∃ cell, key.2.1 = m.generation ∧
    (∃ region ∈ cfg.memory.regions, region.memoryId = key.1) ∧ m.bytes.get? (key.1, key.2.2) = some cell ∧
    view = (some (cell.writerEventId, cell.version), readersOf cfg.printable events key cell.version)

/-- **The tracker agrees with the memory**: it follows every byte, and has seen the bytes of this
generation that the events read. -/
structure Agrees (cfg : ServiceConfig) (m : PersistentMemory) (events : List MemoryEvent)
    (tr : StateDependencyTracker) : Prop where
  follows : ∀ key, Follows cfg m events key (tr.view key)
  observed : ∀ key version, readersOf cfg.printable events key version ≠ [] → key.2.1 ≤ m.generation ∧
      (key.2.1 = m.generation → (tr.view key).1.isSome ∧ version.2 ≤ m.commitSequence key.1)

namespace Agrees

variable {cfg : ServiceConfig} {m m' : PersistentMemory} {events events' : List MemoryEvent}
  {tr tr' : StateDependencyTracker}

theorem init (cfg : ServiceConfig) : Agrees cfg (.init cfg.memory) [] .init where
  follows _ := .inl rfl
  observed _ _ h := absurd rfl h

section

variable (h : Agrees cfg m events tr)

include h

/-- A byte that was not seen has no reader in this generation. -/
theorem readersOf_eq_nil (hgen : key.2.1 = m.generation)
    (hnone : (tr.view key).1 = none) (version : Version) :
    readersOf cfg.printable events key version = [] := by
  by_contra hne
  have := ((h.observed key version hne).2 hgen).1
  rw [hnone] at this
  cases this

/-- A byte that was not seen keeps nothing. -/
theorem view_eq_of_none (hnone : (tr.view key).1 = none) :
    tr.view key = (none, []) := by
  rcases h.follows key with hview | ⟨cell, -, -, -, hview⟩
  · exact hview
  · rw [hview] at hnone
    cases hnone

/-- A read of cells that stay agrees with what was seen of them. -/
theorem agree_cellLanes (hkeep : ∀ k cell, m.bytes.get? k = some cell → m'.bytes.get? k = some cell)
    (hdet : ∀ k ∈ span memoryId offset width, (m'.bytes.get? k).isSome) :
    ∀ lane ∈ cellLanes m' memoryId offset width,
      ∀ observed ∈ tr.current.get? lane.1, observed = lane.2 := by
  intro lane hlane observed hobs
  obtain ⟨-, cell, hcell, hpair⟩ := (mem_cellLanes hdet).1 hlane
  have hcur : (tr.view lane.1).1 = some observed := hobs
  rcases h.follows lane.1 with hnone | ⟨cell', -, -, hcell', hview⟩
  · rw [hnone] at hcur
    cases hcur
  · have hsame := (hkeep _ _ hcell').symm.trans hcell
    cases hsame
    rw [hview] at hcur
    rw [hpair]
    exact (Option.some.inj hcur).symm

/-- **What the tracker is not told about** keeps the cells it has seen. -/
theorem quiet (hgen : m'.generation = m.generation)
    (hkeep : ∀ k cell, m.bytes.get? k = some cell → m'.bytes.get? k = some cell)
    (hseq : ∀ id, m.commitSequence id ≤ m'.commitSequence id)
    (hreaders : ∀ key version, readersOf cfg.printable events' key version
      = readersOf cfg.printable events key version)
    (hview : ∀ key, tr'.view key = tr.view key) : Agrees cfg m' events' tr' where
  follows key := by
    rw [hview]
    rcases h.follows key with hnone | ⟨cell, hk, hregion, hcell, heq⟩
    · exact .inl hnone
    · refine .inr ⟨cell, hk.trans hgen.symm, hregion, hkeep _ _ hcell, ?_⟩
      rw [hreaders]
      exact heq
  observed key version hne := by
    rw [hreaders] at hne
    obtain ⟨hle, hcur⟩ := h.observed key version hne
    rw [hview, hgen]
    refine ⟨hle, fun hk => ⟨(hcur hk).1, ?_⟩⟩
    exact (hcur hk).2.trans (hseq _)

/-- **A read joins the readers of what it saw.** -/
theorem fetched (memoryId : String) (offset width : ℕ)
    (identity : String) (hgen : m'.generation = m.generation)
    (hregion : ∃ region ∈ cfg.memory.regions, region.memoryId = memoryId)
    (hkeep : ∀ k cell, m.bytes.get? k = some cell → m'.bytes.get? k = some cell)
    (hbound : ∀ k cell, m'.bytes.get? k = some cell → cell.version.2 ≤ m'.commitSequence k.1)
    (hseq : ∀ id, m.commitSequence id ≤ m'.commitSequence id)
    (hdet : ∀ k ∈ span memoryId offset width, (m'.bytes.get? k).isSome)
    (hreaders : ∀ key version, readersOf cfg.printable events' key version
      = readersOf cfg.printable events key version ++
        if key ∈ imageLanes memoryId m.generation offset width ∧
          (m'.bytes.get? (key.1, key.2.2)).map ByteCell.version = some version
        then [identity] else [])
    (hlane : ∀ key ∈ imageLanes memoryId m.generation offset width,
      ∀ cell, m'.bytes.get? (key.1, key.2.2) = some cell →
        tr'.view key = (some (cell.writerEventId, cell.version), (tr.view key).2 ++ [identity]))
    (hother : ∀ key, key ∉ imageLanes memoryId m.generation offset width →
      tr'.view key = tr.view key) : Agrees cfg m' events' tr' := by
  have hcell : ∀ key ∈ imageLanes memoryId m.generation offset width,
      key.2.1 = m.generation ∧ key.1 = memoryId ∧ ∃ cell, m'.bytes.get? (key.1, key.2.2) = some cell := by
    intro key hkey
    obtain ⟨hid, hk, hle, hlt⟩ := mem_imageLanes.1 hkey
    exact ⟨hk, hid, Option.isSome_iff_exists.1 (hdet _ (mem_span.2 ⟨hid, hle, hlt⟩))⟩
  refine ⟨fun key => ?_, fun key version hne => ?_⟩
  · by_cases hkey : key ∈ imageLanes memoryId m.generation offset width
    · obtain ⟨hk, hid, cell, hc⟩ := hcell key hkey
      obtain ⟨region, hmem, hrid⟩ := hregion
      refine .inr ⟨cell, hk.trans hgen.symm, ⟨region, hmem, hrid.trans hid.symm⟩, hc, ?_⟩
      rw [hlane key hkey cell hc, hreaders, if_pos ⟨hkey, by rw [hc]; rfl⟩]
      -- the readers so far are those of the version the read saw
      have hsofar : (tr.view key).2 = readersOf cfg.printable events key cell.version := by
        rcases h.follows key with hnone | ⟨cell', -, -, hc', hview⟩
        · rw [hnone, h.readersOf_eq_nil hk (by rw [hnone])]
        · have heq := (hkeep _ _ hc').symm.trans hc
          cases heq
          rw [hview]
      rw [hsofar]
    · have hreaders' : ∀ version, readersOf cfg.printable events' key version
          = readersOf cfg.printable events key version := by
        intro version
        rw [hreaders, if_neg fun hlane => hkey hlane.1, append_nil]
      rw [hother key hkey]
      rcases h.follows key with hnone | ⟨cell, hk, hreg, hc, heq⟩
      · exact .inl hnone
      · refine .inr ⟨cell, hk.trans hgen.symm, hreg, hkeep _ _ hc, ?_⟩
        rw [hreaders']
        exact heq
  · rw [hreaders] at hne
    by_cases hkey : key ∈ imageLanes memoryId m.generation offset width ∧
        (m'.bytes.get? (key.1, key.2.2)).map ByteCell.version = some version
    · obtain ⟨hk, -, cell, hc⟩ := hcell key hkey.1
      have hv : cell.version = version := by
        have := hkey.2
        rw [hc] at this
        exact Option.some.inj this
      rw [hgen, hlane key hkey.1 cell hc, ← hv]
      exact ⟨hk.le, fun _ => ⟨rfl, hbound _ _ hc⟩⟩
    · rw [if_neg hkey, append_nil] at hne
      obtain ⟨hle, hcur⟩ := h.observed key version hne
      rw [hgen]
      refine ⟨hle, fun hk => ⟨?_, (hcur hk).2.trans (hseq _)⟩⟩
      by_cases hlanes : key ∈ imageLanes memoryId m.generation offset width
      · obtain ⟨-, -, cell, hc⟩ := hcell key hlanes
        rw [hlane key hlanes cell hc]
        rfl
      · rw [hother key hlanes]
        exact (hcur hk).1

end

end Agrees

/-- Bytes of one memory that take a new version together. -/
structure Overwrites (cfg : ServiceConfig) (m m' : PersistentMemory) (identity : String)
    (version : Version) (lanes : List StateKey) : Prop where
  nodup : lanes.Nodup
  generation : m'.generation = m.generation
  lanes_generation : ∀ key ∈ lanes, key.2.1 = m.generation
  lanes_region : ∀ key ∈ lanes, (∃ region ∈ cfg.memory.regions, region.memoryId = key.1) ∧
    version = (m.generation, m.commitSequence key.1 + 1)
  cell : ∀ key ∈ lanes, ∃ value kind, m'.bytes.get? (key.1, key.2.2) = some ⟨value, version, kind, identity⟩
  other : ∀ key : StateKey, key.2.1 = m.generation → key ∉ lanes →
    m'.bytes.get? (key.1, key.2.2) = m.bytes.get? (key.1, key.2.2)
  sequence : ∀ id, m.commitSequence id ≤ m'.commitSequence id

/-- **A commit gives its lanes the next version.** -/
theorem overwrites_commit 
    (hregion : region ∈ cfg.memory.regions) (hnd : lanes.Nodup) (hid : ∀ key ∈ lanes, key.1 = region.memoryId)
    (hcells : (cells.map Prod.fst).Nodup) (hkeys : ∀ key, key ∈ lanes ↔
      key.2.1 = m.generation ∧ (key.1, key.2.2) ∈ cells.map Prod.fst)
    (kind : WriterKind) (identity : String) :
    Overwrites cfg m (m.commit region.memoryId cells kind fun _ => identity) identity
      (m.generation, m.commitSequence region.memoryId + 1) lanes where
  nodup := hnd
  generation := rfl
  lanes_generation key hkey := ((hkeys key).1 hkey).1
  lanes_region key hkey := ⟨⟨region, hregion, (hid key hkey).symm⟩, by rw [hid key hkey]⟩
  cell key hkey := by
    obtain ⟨⟨k, v⟩, hmem, hk⟩ := mem_map.1 ((hkeys key).1 hkey).2
    cases hk
    exact ⟨v, kind, get?_commit_of_mem m region.memoryId hcells kind _ hmem⟩
  other key hgen hkey := get?_commit_of_notMem m region.memoryId hcells kind _
    fun hmem => hkey ((hkeys key).2 ⟨hgen, hmem⟩)
  sequence := commitSequence_le_commit m region.memoryId _ _ _

theorem overwrites_store {value width : ℤ}
    (hres : cfg.memory.resolve address width true = .ok (region, offset))
    (hfits : Fits value width byteEnable) (hsome : byteEnable ≠ 0) (identity : String) :
    Overwrites cfg m (m.storeMemory region.memoryId offset value width byteEnable identity) identity
      (m.generation, m.commitSequence region.memoryId + 1)
      (writeLanes region.memoryId m.generation offset width byteEnable) := by
  rw [storeMemory, if_neg hsome]
  refine overwrites_commit (MemoryConfig.resolve_spec hres).1
    (nodup_writeLanes ..) (fun key hkey => ?_) (nodup_storeCells ..)
    (fun key => ?_) .store identity
  · obtain ⟨i, -, hi⟩ := mem_map.1 ((mem_writeLanes
      hfits.enable_nonneg).1 hkey).2
    exact (Prod.mk.inj hi).1.symm
  · rw [mem_writeLanes hfits.enable_nonneg, map_fst_storeCells]
    rfl

theorem overwrites_image {data : List UInt8}
    (hplace : Placed cfg.memory address 1 false data.length region offset) (identity : String) :
    Overwrites cfg m (m.commit region.memoryId (spanValues region.memoryId offset data) .resetImage
        fun _ => identity) identity (m.generation, m.commitSequence region.memoryId + 1)
      (imageLanes region.memoryId m.generation offset data.length) := by
  refine overwrites_commit (MemoryConfig.resolve_spec hplace.resolved).1
    (nodup_imageLanes ..)
    (fun key hkey => (mem_imageLanes.1 hkey).1) (nodup_spanValues ..)
    (fun key => ?_) .resetImage identity
  rw [mem_imageLanes, map_fst_spanValues, mem_span]
  tauto

namespace Agrees

variable {cfg : ServiceConfig} {m m' : PersistentMemory} {events events' : List MemoryEvent}
  {tr tr' : StateDependencyTracker}

/-- **A new version starts without readers.** -/
theorem overwritten (h : Agrees cfg m events tr) {identity : String} {version : Version}
    (hover : Overwrites cfg m m' identity version lanes)
    (hreaders : ∀ key version, readersOf cfg.printable events' key version
      = readersOf cfg.printable events key version)
    (hlane : ∀ key ∈ lanes, tr'.view key = (some (identity, version), []) ∨
      ((tr.view key).1 = none ∧ tr'.view key = tr.view key))
    (hother : ∀ key, key ∉ lanes → tr'.view key = tr.view key) : Agrees cfg m' events' tr' := by
  refine ⟨fun key => ?_, fun key v hne => ?_⟩
  · by_cases hkey : key ∈ lanes
    · rcases hlane key hkey with hview | ⟨hnone, hview⟩
      · obtain ⟨value, kind, hc⟩ := hover.cell key hkey
        have hk := hover.lanes_generation key hkey
        obtain ⟨hregion, hversion⟩ := hover.lanes_region key hkey
        refine .inr ⟨_, hk.trans hover.generation.symm, hregion, hc, ?_⟩
        have hnew : readersOf cfg.printable events key version = [] := by
          by_contra hne
          have hle := ((h.observed key version hne).2 hk).2
          rw [hversion] at hle
          exact absurd hle (Nat.not_succ_le_self _)
        rw [hview, hreaders, hnew]
      · rw [hview, h.view_eq_of_none hnone]
        exact .inl rfl
    · rw [hother key hkey]
      rcases h.follows key with hnone | ⟨cell, hk, hregion, hc, heq⟩
      · exact .inl hnone
      · refine .inr ⟨cell, hk.trans hover.generation.symm, hregion, ?_, ?_⟩
        · rw [hover.other key hk hkey]
          exact hc
        · rw [hreaders]
          exact heq
  · rw [hreaders] at hne
    obtain ⟨hle, hcur⟩ := h.observed key v hne
    rw [hover.generation]
    refine ⟨hle, fun hk => ⟨?_, (hcur hk).2.trans (hover.sequence _)⟩⟩
    by_cases hkey : key ∈ lanes
    · rcases hlane key hkey with hview | ⟨-, hview⟩
      · rw [hview]
        rfl
      · rw [hview]
        exact (hcur hk).1
    · rw [hother key hkey]
      exact (hcur hk).1

/-- **A new generation is not seen yet.** -/
theorem cold (h : Agrees cfg m events tr) (hgen : m.generation < m'.generation)
    (hview : ∀ key, tr'.view key = (none, [])) : Agrees cfg m' events tr' where
  follows key := .inl (hview key)
  observed key version hne := by
    have hle := (h.observed key version hne).1
    exact ⟨hle.trans hgen.le, fun hk => absurd hk (by omega)⟩

end Agrees

end MyFuzz
