import MyFuzz.Scenario.Memory

/-!
# Scenario/MemoryChange — what one memory call can do

A call that raises in its checks changes nothing; one that returns made the change its arguments
name.  `Change` lists these changes with everything the checks established, and `change_call` sends
every answered call to one of them.  Four of them set cells under a fresh version of one memory
(`commit`), so what a commit does to cells, versions and the byte count is said once.
-/

namespace MyFuzz

open Outcome Dict

open List hiding lookup

/-! ## Spans of bytes -/

@[simp] theorem length_span (memoryId : String) (offset n : ℕ) : (span memoryId offset n).length = n := by
  simp [span]

variable {memoryId : String} {n offset : ℕ} {k : ByteKey} {data : List UInt8} {p : ByteKey × ℕ}
  {address width : ℤ}

theorem mem_span : k ∈ span memoryId offset n ↔ k.1 = memoryId ∧ offset ≤ k.2 ∧ k.2 < offset + n := by
  obtain ⟨m, o⟩ := k
  simp only [span, mem_map, mem_range, Prod.mk.injEq]
  constructor
  · rintro ⟨i, hi, rfl, rfl⟩
    exact ⟨rfl, by omega, by omega⟩
  · rintro ⟨rfl, hle, hlt⟩
    exact ⟨o - offset, by omega, rfl, by omega⟩

theorem nodup_span (memoryId : String) (offset n : ℕ) : (span memoryId offset n).Nodup := by
  refine nodup_range.map fun i j h => ?_
  have := (Prod.mk.inj h).2
  omega

@[simp] theorem map_fst_spanValues (memoryId : String) (offset : ℕ) (data : List UInt8) :
    (spanValues memoryId offset data).map Prod.fst = span memoryId offset data.length := by
  rw [spanValues, map_fst_zip]
  simp

theorem nodup_spanValues (memoryId : String) (offset : ℕ) (data : List UInt8) :
    ((spanValues memoryId offset data).map Prod.fst).Nodup := by
  rw [map_fst_spanValues]
  exact nodup_span memoryId offset data.length

theorem spanValues_lt (hp : p ∈ spanValues memoryId offset data) : p.2 < 256 := by
  obtain ⟨b, -, hb⟩ := mem_map.1 (of_mem_zip hp).2
  rw [← hb]
  exact b.toNat_lt

theorem spanValues_fst (hp : p ∈ spanValues memoryId offset data) : p.1.1 = memoryId := by
  have hmem : p.1 ∈ span memoryId offset data.length := by
    rw [← map_fst_spanValues]
    exact mem_map_of_mem hp
  exact (mem_span.1 hmem).1

/-- The byte a span of data gives a key. -/
def byteAt (memoryId : String) (offset : ℕ) (data : List UInt8) (k : ByteKey) : Option ℕ :=
  if k.1 = memoryId ∧ offset ≤ k.2 then (data[k.2 - offset]?).map UInt8.toNat else none

theorem lookup_spanValues (memoryId : String) (offset : ℕ) (data : List UInt8) (k : ByteKey) :
    lookup k (spanValues memoryId offset data) = byteAt memoryId offset data k := by
  by_cases hk : k ∈ span memoryId offset data.length
  · obtain ⟨hm, hle, hlt⟩ := mem_span.1 hk
    have hi : k.2 - offset < data.length := by omega
    have hmem : (k, data[k.2 - offset].toNat) ∈ spanValues memoryId offset data := by
      rw [spanValues, mem_iff_getElem]
      refine ⟨k.2 - offset, by simpa using hi, ?_⟩
      simp only [getElem_zip, span, getElem_map, getElem_range, Prod.mk.injEq, and_true]
      exact Prod.ext hm.symm (by simp only []; omega)
    rw [lookup_eq_some_of_mem (nodup_spanValues memoryId offset data) hmem, byteAt,
      if_pos ⟨hm, hle⟩, getElem?_eq_getElem hi]
    rfl
  · rw [lookup_eq_none_iff.2 (by rwa [map_fst_spanValues]), byteAt]
    rw [mem_span, not_and, not_and] at hk
    split_ifs with h
    · rw [getElem?_eq_none (by have := hk h.1 h.2; omega)]
      rfl
    · rfl

/-- The cells a store writes. -/
def storeCells (memoryId : String) (offset width value byteEnable : ℕ) : List (ByteKey × ℕ) :=
  (PersistentMemory.enabledLanes width byteEnable).map fun i =>
    ((memoryId, offset + i), value >>> (8 * i) &&& 0xFF)

theorem map_fst_storeCells (memoryId : String) (offset width value byteEnable : ℕ) :
    (storeCells memoryId offset width value byteEnable).map Prod.fst
      = (PersistentMemory.enabledLanes width byteEnable).map fun i => (memoryId, offset + i) := by
  simp [storeCells]

theorem nodup_storeCells (memoryId : String) (offset width value byteEnable : ℕ) :
    ((storeCells memoryId offset width value byteEnable).map Prod.fst).Nodup := by
  rw [map_fst_storeCells]
  refine (nodup_range.filter _).map fun i j h => ?_
  have := (Prod.mk.inj h).2
  omega

theorem storeCells_lt {width value byteEnable : ℕ}
    (hp : p ∈ storeCells memoryId offset width value byteEnable) : p.2 < 256 := by
  obtain ⟨i, -, rfl⟩ := mem_map.1 hp
  exact Nat.lt_succ_of_le Nat.and_le_right

/-- The byte a store gives a key. -/
def storedAt (memoryId : String) (offset width value byteEnable : ℕ) (k : ByteKey) : Option ℕ :=
  if k.1 = memoryId ∧ offset ≤ k.2 ∧ k.2 < offset + width ∧ byteEnable.testBit (k.2 - offset) then
    some (value >>> (8 * (k.2 - offset)) &&& 0xFF)
  else none

theorem lookup_storeCells (memoryId : String) (offset width value byteEnable : ℕ) (k : ByteKey) :
    lookup k (storeCells memoryId offset width value byteEnable)
      = storedAt memoryId offset width value byteEnable k := by
  unfold storedAt
  split_ifs with h
  · obtain ⟨hm, hle, hlt, hbit⟩ := h
    refine lookup_eq_some_of_mem (nodup_storeCells ..) ?_
    refine mem_map.2 ⟨k.2 - offset, mem_filter.2 ⟨by simp; omega, hbit⟩, ?_⟩
    exact Prod.ext (Prod.ext hm.symm (by simp only []; omega)) rfl
  · refine lookup_eq_none_iff.2 fun hk => h ?_
    rw [map_fst_storeCells] at hk
    obtain ⟨i, hi, rfl⟩ := mem_map.1 hk
    obtain ⟨hlt, hbit⟩ := mem_filter.1 hi
    rw [mem_range] at hlt
    refine ⟨rfl, by simp, by simpa using hlt, by simpa using hbit⟩

/-! ## Resolving an address -/

/-- **An access that resolves** lies in one window of a region, at an offset that fits. -/
theorem MemoryConfig.resolve_spec {cfg : MemoryConfig} {write : Bool} {region : MemoryRegion}
    (h : cfg.resolve address width write = .ok (region, offset)) :
    region ∈ cfg.regions ∧ (∃ base ∈ region.base :: region.aliases, address = base + offset) ∧
      offset + width.toNat ≤ region.size ∧ (width = 1 ∨ width = 2 ∨ width = 4 ∨ width = 8) ∧
      (write = true → region.writable = true) ∧ (write = false → region.readable = true) := by
  obtain ⟨a, ha, h⟩ := bind_ok.1 h
  obtain ⟨hpos, ha⟩ := ensure_ok.1 ha
  cases ha
  obtain ⟨-, hwidth, h⟩ := ensure_ok₂ h
  obtain ⟨-, -, h⟩ := ensure_ok₂ h
  cases hw : cfg.window? address.toNat with
  | none =>
    rw [hw] at h
    cases h
  | some w =>
    simp only [hw] at h
    obtain ⟨hstop, hwr, hrd, h⟩ := ensure_ok₃ h
    cases h
    have hin : w.base ≤ address.toNat ∧ address.toNat < w.stop := by
      simpa using find?_some hw
    obtain ⟨r, hr, hwr'⟩ := mem_flatMap.1 (mem_of_find?_eq_some hw)
    obtain ⟨base, hbase, rfl⟩ := mem_map.1 hwr'
    refine ⟨hr, ⟨base, hbase, ?_⟩, ?_, hwidth, ?_, ?_⟩
    · dsimp only at hin ⊢
      omega
    · dsimp only at hin hstop ⊢
      omega
    · intro hwt
      simpa [hwt] using hwr
    · intro hwf
      simpa [hwf] using hrd

namespace PersistentMemory

/-! ## Setting cells -/

section Cells

variable (m : PersistentMemory) {cells : List (ByteKey × ℕ)}

theorem get?_setCells (hnd : (cells.map Prod.fst).Nodup) (version : Version) (kind : WriterKind)
    (event : ByteKey → String) (k : ByteKey) :
    (m.setCells cells version kind event).bytes.get? k
      = ((lookup k cells).map fun v => ⟨v, version, kind, event k⟩).or (m.bytes.get? k) := by
  unfold setCells
  rw [get?_update (by rwa [map_map]),
    lookup_map (fun k v => (⟨v, version, kind, event k⟩ : ByteCell))]

theorem length_setCells (hnd : (cells.map Prod.fst).Nodup) (version : Version) (kind : WriterKind)
    (event : ByteKey → String) : (m.setCells cells version kind event).bytes.length
      = m.bytes.length + (m.missing (cells.map Prod.fst)).length := by
  unfold setCells missing
  rw [length_update (by rwa [map_map]), filter_map, filter_map, length_map,
    length_map]
  rfl

/-- Take a version of a memory and set cells under it. -/
def commit (memoryId : String) (cells : List (ByteKey × ℕ)) (kind : WriterKind)
    (event : ByteKey → String) : PersistentMemory :=
  (m.nextVersion memoryId).2.setCells cells (m.nextVersion memoryId).1 kind event

section

variable (memoryId : String) (hnd : (cells.map Prod.fst).Nodup) (kind : WriterKind)
  (event : ByteKey → String)

include hnd

theorem get?_commit (k : ByteKey) : (m.commit memoryId cells kind event).bytes.get? k
      = ((lookup k cells).map fun v =>
        ⟨v, (m.generation, m.commitSequence memoryId + 1), kind, event k⟩).or (m.bytes.get? k) :=
  get?_setCells (m.nextVersion memoryId).2 hnd _ kind event k

theorem get?_commit_of_notMem (hk : k ∉ cells.map Prod.fst) :
    (m.commit memoryId cells kind event).bytes.get? k = m.bytes.get? k := by
  rw [get?_commit m memoryId hnd, lookup_eq_none_iff.2 hk]
  rfl

theorem get?_commit_of_mem {v : ℕ} (hk : (k, v) ∈ cells) :
    (m.commit memoryId cells kind event).bytes.get? k
      = some ⟨v, (m.generation, m.commitSequence memoryId + 1), kind, event k⟩ := by
  rw [get?_commit m memoryId hnd, lookup_eq_some_of_mem hnd hk]
  rfl

theorem length_commit : (m.commit memoryId cells kind event).bytes.length
      = m.bytes.length + (m.missing (cells.map Prod.fst)).length :=
  length_setCells (m.nextVersion memoryId).2 hnd _ kind event

end

theorem commitSequence_commit (memoryId : String) (cells : List (ByteKey × ℕ)) (kind : WriterKind)
    (event : ByteKey → String) (id : String) :
    (m.commit memoryId cells kind event).commitSequence id
      = if id = memoryId then m.commitSequence memoryId + 1 else m.commitSequence id := by
  by_cases h : id = memoryId
  · subst h
    rw [if_pos rfl]
    exact getD_set_self _ _ _ _
  · rw [if_neg h]
    exact getD_set_of_ne _ h _ _

@[simp] theorem handedOut_commit (memoryId : String) (cells : List (ByteKey × ℕ)) (kind : WriterKind)
    (event : ByteKey → String) : (m.commit memoryId cells kind event).handedOut
      = m.handedOut ++ [(memoryId, m.generation, m.commitSequence memoryId + 1)] := rfl

end Cells

/-! ## The changes -/

/-- Bytes of data to be placed at an address: its region and offset, and that they fit. -/
structure Placed (cfg : MemoryConfig) (address width : ℤ) (write : Bool) (length : ℕ)
    (region : MemoryRegion) (offset : ℕ) : Prop where
  resolved : cfg.resolve address width write = .ok (region, offset)
  fits : offset + length ≤ region.size

/-- The snapshot of a read, over the memory it left. -/
def snapshotOf (m m' : PersistentMemory) (region : MemoryRegion) (offset width : ℕ)
    (transactionId : String) : ReadSnapshot :=
  let cells := (span region.memoryId offset width).filterMap m'.bytes.get?
  { transactionId
    memoryId := region.memoryId
    generation := m'.generation
    byteOffset := offset
    data := (cells.map ByteCell.value).map UInt8.ofNat
    versions := cells.map ByteCell.version
    writerEventIds := cells.map ByteCell.writerEventId
    materializedOffsets := (m.missing (span region.memoryId offset width)).map Prod.snd
    writerKinds := cells.map ByteCell.writerKind }

/-- The receipt of an admission, over the memory it left. -/
def acceptanceOf (m' : PersistentMemory) (address : ℤ) (region : MemoryRegion) (offset : ℕ)
    (data : List UInt8) (sourceEventId : String) : InstructionAcceptance :=
  let cells := (span region.memoryId offset data.length).filterMap m'.bytes.get?
  { memoryId := region.memoryId
    address, data, sourceEventId
    byteOffset := offset
    generation := m'.generation
    versions := cells.map ByteCell.version
    writerEventIds := cells.map ByteCell.writerEventId
    writerKinds := cells.map ByteCell.writerKind }

/-- Everything a call that returns can have done, with what its checks established. -/
inductive Change (cfg : MemoryConfig) (m : PersistentMemory) :
    MemoryCall → MemoryAnswer → PersistentMemory → Prop where
  | preloaded {address : ℤ} {data : List UInt8} {region : MemoryRegion} {offset : ℕ}
      (hplace : Placed cfg address 1 false data.length region offset) (hne : data ≠ [])
      (hfree : ∀ k ∈ span region.memoryId offset data.length, m.bytes.get? k = none ∧ k ∉ m.instructionSlots)
      (hroom : m.bytes.length + data.length ≤ cfg.maxInitializedBytes) :
      Change cfg m (.preload address data) .done
        ({ m with
            initialImages := m.initialImages.update (spanValues region.memoryId offset data)
          }.setCells
          (spanValues region.memoryId offset data) (m.generation, 0) .initialImage
          fun _ => "initial-image")
  | reinstalled {address : ℤ} {data : List UInt8} {eventId : String} {region : MemoryRegion}
      {offset : ℕ} (hplace : Placed cfg address 1 false data.length region offset)
      (hne : data ≠ []) (hevent : eventId ≠ "")
      (himages : ∀ k ∈ span region.memoryId offset data.length, (m.initialImages.get? k).isSome) :
      Change cfg m (.reinstallImage address data eventId)
        (.image region.memoryId offset (m.generation, m.commitSequence region.memoryId + 1))
        (m.commit region.memoryId (spanValues region.memoryId offset data) .resetImage
          fun _ => eventId)
  | declared {address count : ℤ} {region : MemoryRegion} {offset : ℕ} (hpos : 0 < count)
      (hplace : Placed cfg address 4 false (count.toNat * 4) region offset)
      (hfree : ∀ k ∈ span region.memoryId offset (count.toNat * 4), m.bytes.get? k = none) :
      Change cfg m (.declareInstructionSlots address count) .done
        { m with
          instructionSlots := m.instructionSlots ∪
            (span region.memoryId offset (count.toNat * 4)).toFinset }
  | accepted {address : ℤ} {data : List UInt8} {sourceEventId : String} {region : MemoryRegion}
      {offset : ℕ} (hplace : Placed cfg address 4 false data.length region offset)
      (hdata : data ≠ [] ∧ data.length % 4 = 0) (hsource : sourceEventId ≠ "")
      (hslots : ∀ k ∈ span region.memoryId offset data.length, k ∈ m.instructionSlots ∧ m.bytes.get? k = none)
      (hroom : m.bytes.length + data.length ≤ cfg.maxInitializedBytes) {m' : PersistentMemory}
      (hm' : m' = m.commit region.memoryId (spanValues region.memoryId offset data)
        .instructionSource fun _ => sourceEventId) :
      Change cfg m (.acceptInstructions address data sourceEventId)
        (.acceptance (acceptanceOf m' address region offset data sourceEventId))
        { m' with issued := m.issued ++ [acceptanceOf m' address region offset data sourceEventId] }
  | fetched {address width : ℤ} {transactionId : String} {region : MemoryRegion} {offset : ℕ}
      (hplace : Placed cfg address width false width.toNat region offset)
      (hready : ∀ k ∈ span region.memoryId offset width.toNat, m.awaited k = false)
      (hwritable : m.missing (span region.memoryId offset width.toNat) ≠ [] → region.writable = true)
      (hroom : m.bytes.length + (m.missing (span region.memoryId offset width.toNat)).length
        ≤ cfg.maxInitializedBytes) {m' : PersistentMemory}
      (hm' : m' = m.materialize cfg region.memoryId (span region.memoryId offset width.toNat)) :
      Change cfg m (.read address width transactionId)
        (.snapshot (snapshotOf m m' region offset width.toNat transactionId)) m'
  | storedNothing {address value width byteEnable : ℤ} {writerEventId : String}
      {region : MemoryRegion} {offset : ℕ}
      (hplace : Placed cfg address width true width.toNat region offset)
      (hnone : enabledLanes width.toNat byteEnable.toNat = []) :
      Change cfg m (.write address value width byteEnable writerEventId) (.stored none) m
  | stored {address value width byteEnable : ℤ} {writerEventId : String} {region : MemoryRegion}
      {offset : ℕ} (hplace : Placed cfg address width true width.toNat region offset)
      (hsome : enabledLanes width.toNat byteEnable.toNat ≠ [])
      (hroom : m.bytes.length + (m.missing ((enabledLanes width.toNat byteEnable.toNat).map
        fun i => (region.memoryId, offset + i))).length ≤ cfg.maxInitializedBytes) :
      Change cfg m (.write address value width byteEnable writerEventId)
        (.stored (some (m.generation, m.commitSequence region.memoryId + 1)))
        (m.commit region.memoryId
          (storeCells region.memoryId offset width.toNat value.toNat byteEnable.toNat) .store
          fun _ => writerEventId)
  | warm : Change cfg m .warmReset .done m.warmReset
  | cold : Change cfg m .coldReset .done (m.coldReset cfg)

variable {m' : PersistentMemory} {a : MemoryAnswer}

theorem checked_eq_ok {α β : Type} {m : PersistentMemory} {checks : Except Exn α}
    {effect : α → Except Exn β × PersistentMemory} {b : β} :
    m.checked checks effect = (.ok b, m') ↔ ∃ a, checks = .ok a ∧ effect a = (.ok b, m') := by
  unfold checked
  cases checks with
  | error e | ok a => simp

theorem natural_eq_ok {v : ℤ} {name : String} : natural v name = .ok n ↔ 0 ≤ v ∧ n = v.toNat := by
  unfold natural
  rw [ensure_ok]
  simp [eq_comm]

theorem answered_eq {β : Type} {x : Except Exn β × PersistentMemory} {f : β → MemoryAnswer}
    (h : x.map (·.map f) id = (.ok a, m')) : ∃ b, x = (.ok b, m') ∧ a = f b := by
  obtain ⟨r, m₁⟩ := x
  cases r with
  | error e => cases h
  | ok b =>
    cases h
    exact ⟨b, rfl, rfl⟩

section Inversion

variable {cfg : MemoryConfig} {m m' : PersistentMemory}

variable {u : Unit} {α β : Type*} {g : α → Option β} {keys : List ByteKey}

theorem change_preload (h : m.preload cfg address data = (.ok u, m')) :
    Change cfg m (.preload address data) .done m' := by
  obtain ⟨⟨region, offset⟩, hc, heff⟩ := checked_eq_ok.1 h
  obtain ⟨hne, hc⟩ := ensure_ok.1 hc
  obtain ⟨⟨r, o⟩, hres, hc⟩ := bind_ok.1 hc
  obtain ⟨hfit, hfree, hroom, hc⟩ := ensure_ok₃ hc
  cases hc
  cases heff
  refine .preloaded ⟨hres, hfit⟩ hne (fun k hk => ?_) hroom
  have hk' := not_or.1 fun hor => hfree ⟨k, hk, hor⟩
  exact ⟨by simpa using hk'.1, hk'.2⟩

theorem change_reinstallImage {eventId : String} {r : String × ℕ × Version}
    (h : m.reinstallImage cfg address data eventId = (.ok r, m')) :
    Change cfg m (.reinstallImage address data eventId) (.image r.1 r.2.1 r.2.2) m' := by
  obtain ⟨⟨region, offset⟩, hc, heff⟩ := checked_eq_ok.1 h
  obtain ⟨hne, hc⟩ := ensure_ok.1 hc
  obtain ⟨⟨r, o⟩, hres, hc⟩ := bind_ok.1 hc
  obtain ⟨hfit, himages, hc⟩ := ensure_ok₂ hc
  cases hc
  cases heff
  exact .reinstalled ⟨hres, hfit⟩ hne.1 hne.2 himages

theorem change_declareInstructionSlots {count : ℤ}
    (h : m.declareInstructionSlots cfg address count = (.ok u, m')) :
    Change cfg m (.declareInstructionSlots address count) .done m' := by
  obtain ⟨keys, hc, heff⟩ := checked_eq_ok.1 h
  obtain ⟨n, hn, hc⟩ := bind_ok.1 hc
  obtain ⟨-, rfl⟩ := natural_eq_ok.1 hn
  obtain ⟨hne, hc⟩ := ensure_ok.1 hc
  obtain ⟨⟨r, o⟩, hres, hc⟩ := bind_ok.1 hc
  obtain ⟨hfit, hfree, hc⟩ := ensure_ok₂ hc
  cases hc
  cases heff
  refine .declared (by omega) ⟨hres, hfit⟩ fun k hk => ?_
  have hk' := fun hk' => hfree ⟨k, hk, hk'⟩
  simpa using hk'

theorem change_acceptInstructions {sourceEventId : String} {r : InstructionAcceptance}
    (h : m.acceptInstructions cfg address data sourceEventId = (.ok r, m')) :
    Change cfg m (.acceptInstructions address data sourceEventId) (.acceptance r) m' := by
  obtain ⟨⟨region, offset⟩, hc, heff⟩ := checked_eq_ok.1 h
  obtain ⟨_, hval, hc⟩ := bind_ok.1 hc
  obtain ⟨hdata, -⟩ := ensure_ok.1 hval
  obtain ⟨hsource, hc⟩ := ensure_ok.1 hc
  obtain ⟨⟨r, o⟩, hres, hc⟩ := bind_ok.1 hc
  obtain ⟨hfit, hslots, hc⟩ := ensure_ok₂ hc
  obtain ⟨hfree, hroom, hc⟩ := ensure_ok₂ hc
  cases hc
  obtain ⟨-, -, heff⟩ := checked_eq_ok.1 heff
  cases heff
  refine .accepted ⟨hres, hfit⟩ hdata hsource (fun k hk => ⟨hslots k hk, ?_⟩)
    (by simpa using hroom) rfl
  have hk' := fun hk' => hfree ⟨k, hk, hk'⟩
  simpa using hk'

theorem change_read {transactionId : String} {r : ReadSnapshot}
    (h : m.read cfg address width transactionId = (.ok r, m')) :
    Change cfg m (.read address width transactionId) (.snapshot r) m' := by
  obtain ⟨⟨region, offset⟩, hc, heff⟩ := checked_eq_ok.1 h
  obtain ⟨-, hc⟩ := ensure_ok.1 hc
  obtain ⟨⟨r, o⟩, hres, hc⟩ := bind_ok.1 hc
  obtain ⟨hready, hwr, hroom, hc⟩ := ensure_ok₃ hc
  cases hc
  obtain ⟨data, hdata, heff⟩ := checked_eq_ok.1 heff
  obtain ⟨-, hdata⟩ := ensure_ok.1 hdata
  cases hdata
  cases heff
  refine .fetched ⟨hres, (MemoryConfig.resolve_spec hres).2.2.1⟩ (fun k hk => ?_) (fun hne => ?_)
    hroom rfl
  · have hk' := fun hk' => hready ⟨k, hk, hk'⟩
    simpa using hk'
  · by_contra hw
    exact hwr ⟨hne, hw⟩

theorem change_write {value byteEnable : ℤ} {writerEventId : String} {r : Option Version}
    (h : m.write cfg address value width byteEnable writerEventId = (.ok r, m')) :
    Change cfg m (.write address value width byteEnable writerEventId) (.stored r) m' := by
  obtain ⟨⟨region, offset, v, be⟩, hc, heff⟩ := checked_eq_ok.1 h
  obtain ⟨-, hc⟩ := ensure_ok.1 hc
  obtain ⟨⟨r, o⟩, hres, hc⟩ := bind_ok.1 hc
  obtain ⟨v, hv, hc⟩ := bind_ok.1 hc
  obtain ⟨-, rfl⟩ := natural_eq_ok.1 hv
  obtain ⟨-, hc⟩ := ensure_ok.1 hc
  obtain ⟨be, hbe, hc⟩ := bind_ok.1 hc
  obtain ⟨-, rfl⟩ := natural_eq_ok.1 hbe
  obtain ⟨-, hroom, hc⟩ := ensure_ok₂ hc
  cases hc
  have hplace : Placed cfg address width true width.toNat region offset :=
    ⟨hres, (MemoryConfig.resolve_spec hres).2.2.1⟩
  simp only [] at heff
  split_ifs at heff with hnone
  · cases heff
    exact .storedNothing hplace hnone
  · cases heff
    exact .stored hplace hnone hroom

/-- **Every call that returns made one of the changes.** -/
theorem change_call {c : MemoryCall} (h : m.call cfg c = (.ok a, m')) : Change cfg m c a m' := by
  cases c with
  | preload address data =>
    obtain ⟨b, hb, rfl⟩ := answered_eq h
    exact change_preload hb
  | reinstallImage address data eventId =>
    obtain ⟨b, hb, rfl⟩ := answered_eq h
    exact change_reinstallImage hb
  | declareInstructionSlots address count =>
    obtain ⟨b, hb, rfl⟩ := answered_eq h
    exact change_declareInstructionSlots hb
  | acceptInstructions address data sourceEventId =>
    obtain ⟨b, hb, rfl⟩ := answered_eq h
    exact change_acceptInstructions hb
  | read address width transactionId =>
    obtain ⟨b, hb, rfl⟩ := answered_eq h
    exact change_read hb
  | write address value width byteEnable writerEventId =>
    obtain ⟨b, hb, rfl⟩ := answered_eq h
    exact change_write hb
  | warmReset =>
    cases h
    exact .warm
  | coldReset =>
    cases h
    exact .cold

/-! ## Cells read back -/

/-- Cells of determined bytes are read back lane by lane. -/
theorem getElem?_filterMap_of_isSome :
    ∀ {l : List α}, (∀ a ∈ l, (g a).isSome) → ∀ i : ℕ, (l.filterMap g)[i]? = (l[i]?).bind g
  | [], _, i => by simp
  | a :: l, h, i => by
      obtain ⟨b, hb⟩ := Option.isSome_iff_exists.1 (h a (.head _))
      rw [filterMap_cons_some hb]
      cases i with
      | zero => simpa using hb.symm
      | succ i =>
        simpa using getElem?_filterMap_of_isSome (fun a ha => h a (.tail _ ha)) i

theorem length_filterMap_of_isSome :
    ∀ {l : List α}, (∀ a ∈ l, (g a).isSome) → (l.filterMap g).length = l.length
  | [], _ => rfl
  | a :: l, h => by
      obtain ⟨b, hb⟩ := Option.isSome_iff_exists.1 (h a (.head _))
      rw [filterMap_cons_some hb, length_cons, length_cons,
        length_filterMap_of_isSome fun a ha => h a (.tail _ ha)]

theorem getElem?_span (memoryId : String) (offset n i : ℕ) :
    (span memoryId offset n)[i]? = if i < n then some (memoryId, offset + i) else none := by
  rw [span, getElem?_map]
  split_ifs with h
  · rw [getElem?_range h]
    rfl
  · rw [getElem?_eq_none (by simpa using h)]
    rfl

/-- **Lane `i` of determined bytes.** -/
theorem getElem?_cells {m : PersistentMemory}
    (hdet : ∀ k ∈ span memoryId offset n, (m.bytes.get? k).isSome) (i : ℕ) :
    ((span memoryId offset n).filterMap m.bytes.get?)[i]?
      = if i < n then m.bytes.get? (memoryId, offset + i) else none := by
  rw [getElem?_filterMap_of_isSome hdet, getElem?_span]
  split_ifs with h
  · rfl
  · rfl

section

variable (cfg : MemoryConfig) (m : PersistentMemory) (memoryId : String)

/-- Bytes that had a cell keep it through first reads; the others get theirs. -/
theorem get?_materialize (hnd : keys.Nodup) (k : ByteKey) :
    (m.materialize cfg memoryId keys).bytes.get? k = if k ∈ m.missing keys then
      some ⟨m.initialByte cfg k, (m.generation, m.commitSequence memoryId + 1), .firstRead, firstReadEvent k⟩
    else m.bytes.get? k := by
  unfold materialize
  split_ifs with hnone hk hk
  · rw [hnone] at hk
    cases hk
  · rfl
  all_goals
    have hfst : ((m.missing keys).map fun k => (k, m.initialByte cfg k)).map Prod.fst
        = m.missing keys := by
      rw [map_map]
      exact map_id _
    have hnd' : (((m.missing keys).map fun k => (k, m.initialByte cfg k)).map Prod.fst).Nodup := by
      rw [hfst]
      exact hnd.filter _
  · exact get?_commit_of_mem m memoryId hnd' .firstRead firstReadEvent
      (mem_map_of_mem hk)
  · exact get?_commit_of_notMem m memoryId hnd' .firstRead firstReadEvent (by rwa [hfst])

@[simp] theorem generation_materialize
    (keys : List ByteKey) : (m.materialize cfg memoryId keys).generation = m.generation := by
  unfold materialize
  split_ifs <;> rfl

@[simp] theorem initialImages_materialize (keys : List ByteKey) :
    (m.materialize cfg memoryId keys).initialImages = m.initialImages := by
  unfold materialize
  split_ifs <;> rfl

end

theorem mem_missing {m : PersistentMemory} : k ∈ m.missing keys ↔ k ∈ keys ∧ m.bytes.get? k = none := by
  simp [missing]

theorem isSome_materialize (cfg : MemoryConfig) (m : PersistentMemory) (memoryId : String)
    (hnd : keys.Nodup) (hk : k ∈ keys) :
    ((m.materialize cfg memoryId keys).bytes.get? k).isSome := by
  rw [get?_materialize cfg m memoryId hnd]
  split_ifs with h
  · rfl
  · rw [mem_missing, not_and] at h
    exact Option.isSome_iff_ne_none.2 (h hk)

end Inversion

end PersistentMemory

end MyFuzz
