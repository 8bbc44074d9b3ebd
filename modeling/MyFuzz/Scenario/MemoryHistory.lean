import MyFuzz.Scenario.MemoryInvariant

/-!
# Scenario/MemoryHistory — a read returns the most recent write

The reference semantics of the memory is its history: the log of calls and answers, newest first.
A byte has the value of the most recent event since the last cold reset that wrote it — a store whose
lane is enabled, an instruction acceptance, a reset image, a first read — and otherwise its declared
initial image, and otherwise the seeded value.

    log :   c₀ ◂─ c₁ ◂─ cold reset ◂─ c₃ ◂─ c₄
                                      └ recent ┘
            └────────── declared ──────────────┘

`Agrees` is the simulation between the sparse dictionary and this reading of the log.
-/

namespace MyFuzz

open Run Outcome MemoryConfig MemoryCall Dict Option

/-- The log of a memory, newest call first. -/
abbrev MemoryLog : Type := List (MemoryCall × Except Exn MemoryAnswer)

/-- A memory with its log. -/
structure MemoryTrace where
  memory : PersistentMemory
  log : MemoryLog

/-- The memory and byte offset of a mapped address. -/
def MemoryConfig.locate (cfg : MemoryConfig) (address : ℤ) : Option (String × ℕ) :=
  (cfg.window? address.toNat).map fun w => (w.region.memoryId, address.toNat - w.base)

/-- The value an answered call wrote to a byte. -/
def MemoryCall.written (cfg : MemoryConfig) (k : ByteKey) : MemoryCall → MemoryAnswer → Option ℕ
  | .write address value width byteEnable _, _ =>
      (cfg.locate address).bind fun p =>
        storedAt p.1 p.2 width.toNat value.toNat byteEnable.toNat k
  | .acceptInstructions address data _, _ => (cfg.locate address).bind fun p => byteAt p.1 p.2 data k
  | .reinstallImage address data _, _ => (cfg.locate address).bind fun p => byteAt p.1 p.2 data k
  | .read _ _ _, .snapshot s =>
      if k.1 = s.memoryId ∧ k.2 ∈ s.materializedOffsets then byteAt s.memoryId s.byteOffset s.data k
      else none
  | _, _ => none

/-- The address a call names. -/
def MemoryCall.address? : MemoryCall → Option ℤ
  | .preload address _ => some address
  | .reinstallImage address _ _ => some address
  | .declareInstructionSlots address _ => some address
  | .acceptInstructions address _ _ => some address
  | .read address _ _ => some address
  | .write address _ _ _ _ => some address
  | .warmReset => none
  | .coldReset => none

/-- The lanes a call can set, counted from its address. -/
def MemoryCall.Covers (i : ℕ) : MemoryCall → Prop
  | .preload _ data => i < data.length
  | .reinstallImage _ data _ => i < data.length
  | .acceptInstructions _ data _ => i < data.length
  | .read _ width _ => i < width.toNat
  | .write _ _ width byteEnable _ => i < width.toNat ∧ byteEnable.toNat.testBit i
  | _ => False

namespace MemoryLog

/-- The most recent value written to a byte since the last cold reset. -/
def recent (cfg : MemoryConfig) (k : ByteKey) : MemoryLog → Option ℕ
  | [] => none
  | (.coldReset, _) :: _ => none
  | (c, .ok a) :: log => (c.written cfg k a).or (recent cfg k log)
  | (_, .error _) :: log => recent cfg k log

/-- The initial image declared for a byte. -/
def declared (cfg : MemoryConfig) (k : ByteKey) : MemoryLog → Option ℕ
  | [] => none
  | (.preload address data, .ok _) :: log =>
      ((cfg.locate address).bind fun p => byteAt p.1 p.2 data k).or (declared cfg k log)
  | _ :: log => declared cfg k log

/-- The number of cold resets. -/
def generation : MemoryLog → ℕ
  | [] => 0
  | (.coldReset, _) :: log => generation log + 1
  | _ :: log => generation log

/-- The value of a byte by its history. -/
def expected (cfg : MemoryConfig) (log : MemoryLog) (k : ByteKey) : ℕ :=
  ((recent cfg k log).or (declared cfg k log)).getD
    (cfg.initialByte cfg.initializationSeed k.1 (generation log) k.2).toNat

end MemoryLog

namespace MemoryTrace

/-- A new memory with an empty log. -/
def init (cfg : MemoryConfig) : MemoryTrace := ⟨.init cfg, []⟩

/-- One call, logged. -/
def record (cfg : MemoryConfig) (t : MemoryTrace) (c : MemoryCall) : MemoryTrace :=
  ⟨(t.memory.call cfg c).2, (c, (t.memory.call cfg c).1) :: t.log⟩

/-- The call starts a new generation or writes the byte. -/
def Touches (cfg : MemoryConfig) (k : ByteKey) (t : MemoryTrace) (c : MemoryCall) : Prop :=
  c = .coldReset ∨ ∃ a, (t.memory.call cfg c).1 = .ok a ∧ (c.written cfg k a).isSome

/-- The dictionary holds what the log says. -/
structure Agrees (cfg : MemoryConfig) (t : MemoryTrace) : Prop where
  inv : t.memory.Inv cfg
  generation : t.memory.generation = MemoryLog.generation t.log
  images : ∀ k, t.memory.initialImages.get? k = MemoryLog.declared cfg k t.log
  cells : ∀ k, (t.memory.bytes.get? k).map ByteCell.value
    = (MemoryLog.recent cfg k t.log).or (MemoryLog.declared cfg k t.log)

end MemoryTrace

/-! ## Addresses and lanes -/

variable {address width : ℤ} {region : MemoryRegion} {offset : ℕ} {m' : PersistentMemory}

theorem MemoryConfig.locate_of_resolve {cfg : MemoryConfig} {write : Bool}
    (h : cfg.resolve address width write = .ok (region, offset)) :
    cfg.locate address = some (region.memoryId, offset) := by
  obtain ⟨a, ha, h⟩ := bind_ok.1 h
  obtain ⟨-, ha⟩ := ensure_ok.1 ha
  cases ha
  obtain ⟨-, -, h⟩ := ensure_ok₂ h
  obtain ⟨-, -, h⟩ := ensure_ok₂ h
  cases hw : cfg.window? address.toNat with
  | none =>
    rw [hw] at h
    cases h
  | some w =>
    simp only [hw] at h
    obtain ⟨-, -, -, h⟩ := ensure_ok₃ h
    cases h
    rw [locate, hw]
    rfl

/-- **Every window of a region leads to the same bytes**: the windows do not overlap. -/
theorem MemoryConfig.locate_window (cfg : MemoryConfig) (hr : region ∈ cfg.regions) {base : ℕ}
    (hb : base ∈ region.base :: region.aliases) (ho : offset < region.size) :
    cfg.locate ((base : ℤ) + offset) = some (region.memoryId, offset) := by
  have hmem : (⟨base, base + region.size, region⟩ : MemoryWindow) ∈ cfg.windows :=
    List.mem_flatMap.2 ⟨region, hr, List.mem_map.2 ⟨base, hb, rfl⟩⟩
  have haddr : ((base : ℤ) + offset).toNat = base + offset := by omega
  cases hw : cfg.window? (base + offset) with
  | none =>
    have hnone := List.find?_eq_none.1 hw _ hmem
    simp only [decide_eq_true_eq] at hnone
    omega
  | some w =>
    have hin : w.base ≤ base + offset ∧ base + offset < w.stop := by
      simpa using List.find?_some hw
    have heq : w = ⟨base, base + region.size, region⟩ := by
      by_contra hne
      have : Std.Symm fun w w' : MemoryWindow => ¬ (w'.base < w.stop ∧ w.base < w'.stop) :=
        ⟨fun _ _ h h' => h h'.symm⟩
      have hdis := cfg.disjoint.forall (List.mem_of_find?_eq_some hw) hmem hne
      simp only [] at hdis
      omega
    rw [locate, haddr, hw, heq]
    simp

namespace PersistentMemory

variable {cfg : MemoryConfig} {m : PersistentMemory}

/-- **Lane `i` of a snapshot** is the cell at that offset. -/
theorem getElem?_snapshotOf_data {width : ℕ}
    (hdet : ∀ k ∈ span region.memoryId offset width, (m'.bytes.get? k).isSome)
    (transactionId : String) (i : ℕ) :
    (snapshotOf m m' region offset width transactionId).data[i]?
      = if i < width then (m'.bytes.get? (region.memoryId, offset + i)).map fun c =>
          UInt8.ofNat c.value
        else none := by
  simp only [snapshotOf, List.getElem?_map, getElem?_cells hdet]
  split_ifs with h
  · rw [map_map]
    rfl
  · rfl

theorem length_snapshotOf_data {width : ℕ}
    (hdet : ∀ k ∈ span region.memoryId offset width, (m'.bytes.get? k).isSome) (transactionId : String) :
    (snapshotOf m m' region offset width transactionId).data.length = width := by
  simp only [snapshotOf, List.length_map, length_filterMap_of_isSome hdet, length_span]

/-- A read's log entry writes the cells of the bytes it materialised. -/
theorem written_read {w : ℕ} (hm' : m'.Inv cfg)
    (hdet : ∀ k ∈ span region.memoryId offset w, (m'.bytes.get? k).isSome) (address width : ℤ)
    (transactionId : String) (k : ByteKey) :
    written cfg k (.read address width transactionId)
        (.snapshot (snapshotOf m m' region offset w transactionId))
      = if k ∈ m.missing (span region.memoryId offset w) then (m'.bytes.get? k).map ByteCell.value
        else none := by
  have hiff : (k.1 = region.memoryId ∧ k.2 ∈ (m.missing (span region.memoryId offset w)).map Prod.snd)
      ↔ k ∈ m.missing (span region.memoryId offset w) := by
    constructor
    · rintro ⟨hid, hoff⟩
      obtain ⟨k', hk', heq⟩ := List.mem_map.1 hoff
      have hid' := (mem_span.1 (mem_missing.1 hk').1).1
      rwa [show k = k' from Prod.ext (hid.trans hid'.symm) heq.symm]
    · intro hk
      exact ⟨(mem_span.1 (mem_missing.1 hk).1).1, List.mem_map_of_mem hk⟩
  change (if k.1 = region.memoryId ∧ k.2 ∈ (m.missing (span region.memoryId offset w)).map Prod.snd then
    byteAt region.memoryId offset (snapshotOf m m' region offset w transactionId).data k else none) = _
  rw [if_congr hiff rfl rfl]
  refine if_ctx_congr Iff.rfl (fun hk => ?_) fun _ => rfl
  obtain ⟨hid, hle, hlt⟩ := mem_span.1 (mem_missing.1 hk).1
  obtain ⟨c, hc⟩ := isSome_iff_exists.1 (hdet k (mem_missing.1 hk).1)
  have hkey : (region.memoryId, offset + (k.2 - offset)) = k := Prod.ext hid.symm (Nat.add_sub_cancel' hle)
  rw [byteAt, if_pos ⟨hid, hle⟩, getElem?_snapshotOf_data hdet, if_pos (by omega), hkey, hc,
    map_some, map_some, map_some, UInt8.toNat_ofNat_of_lt' (hm'.versioned k c hc).2.2]

end PersistentMemory

/-! ## The dictionary follows the log -/

namespace MemoryTrace

open PersistentMemory

variable {cfg : MemoryConfig} {t : MemoryTrace}

theorem agrees_init (cfg : MemoryConfig) : Agrees cfg (init cfg) :=
  ⟨inv_init cfg, rfl, fun _ => rfl, fun _ => rfl⟩

variable {c : MemoryCall} {a : MemoryAnswer} {k : ByteKey}

namespace Agrees

section

variable (ht : Agrees cfg t)

include ht

/-- **A change within a generation** that writes what the log says it writes. -/
theorem written
    (hc : c ≠ .coldReset) (hp : ∀ address data, c ≠ .preload address data) (hinv : m'.Inv cfg)
    (hgen : m'.generation = t.memory.generation) (himages : m'.initialImages = t.memory.initialImages)
    (hbytes : ∀ k, (m'.bytes.get? k).map ByteCell.value
      = (c.written cfg k a).or ((t.memory.bytes.get? k).map ByteCell.value)) :
    Agrees cfg ⟨m', (c, .ok a) :: t.log⟩ := by
  have hlog : MemoryLog.generation ((c, .ok a) :: t.log) = MemoryLog.generation t.log := by
    cases c <;> first | rfl | exact absurd rfl hc
  have hdeclared : ∀ k, MemoryLog.declared cfg k ((c, .ok a) :: t.log)
      = MemoryLog.declared cfg k t.log := by
    intro k
    cases c <;> first | rfl | exact absurd rfl (hp _ _)
  have hrecent : ∀ k, MemoryLog.recent cfg k ((c, .ok a) :: t.log)
      = (c.written cfg k a).or (MemoryLog.recent cfg k t.log) := by
    intro k
    cases c <;> first | rfl | exact absurd rfl hc
  refine ⟨hinv, ?_, fun k => ?_, fun k => ?_⟩
  · rw [hgen, ht.generation, hlog]
  · rw [himages, ht.images, hdeclared]
  · rw [hbytes, ht.cells, hrecent, hdeclared, Option.or_assoc]

/-- The acceptances still valid play no part. -/
theorem withIssued (issued : List InstructionAcceptance) :
    Agrees cfg ⟨{ t.memory with issued }, t.log⟩ :=
  ⟨ht.inv.withIssued issued, ht.generation, ht.images, ht.cells⟩

/-- A commit of cells the log says it writes. -/
theorem commit {memoryId : String} {cells : List (ByteKey × ℕ)}
    {kind : WriterKind} {event : ByteKey → String} (hc : c ≠ .coldReset)
    (hp : ∀ address data, c ≠ .preload address data) (hnd : (cells.map Prod.fst).Nodup)
    (hinv : (t.memory.commit memoryId cells kind event).Inv cfg)
    (hcells : ∀ k, c.written cfg k a = lookup k cells) :
    Agrees cfg ⟨t.memory.commit memoryId cells kind event, (c, .ok a) :: t.log⟩ := by
  refine ht.written hc hp hinv rfl rfl fun k => ?_
  rw [hcells k, get?_commit _ memoryId hnd]
  cases lookup k cells with
  | none | some v => rfl

/-- A preload declares bytes that nothing has determined. -/
theorem preload {data : List UInt8}
    (hplace : Placed cfg address 1 false data.length region offset)
    (hfree : ∀ k ∈ span region.memoryId offset data.length,
      t.memory.bytes.get? k = none ∧ k ∉ t.memory.instructionSlots)
    (hroom : t.memory.bytes.length + data.length ≤ cfg.maxInitializedBytes) :
    Agrees cfg ⟨{ t.memory with
        initialImages := t.memory.initialImages.update (spanValues region.memoryId offset data)
      }.setCells (spanValues region.memoryId offset data) (t.memory.generation, 0) .initialImage
        fun _ => "initial-image", (.preload address data, .ok .done) :: t.log⟩ := by
  have hnd := nodup_spanValues region.memoryId offset data
  have hdeclared : ∀ k, MemoryLog.declared cfg k ((.preload address data, .ok .done) :: t.log)
      = (lookup k (spanValues region.memoryId offset data)).or
        (MemoryLog.declared cfg k t.log) := by
    intro k
    rw [MemoryLog.declared, locate_of_resolve hplace.resolved, lookup_spanValues]
    rfl
  refine ⟨ht.inv.preload hfree hroom, ht.generation, fun k => ?_, fun k => ?_⟩
  · rw [hdeclared, ← ht.images k]
    exact get?_update hnd _ k
  · rw [hdeclared, get?_setCells _ hnd, map_or]
    change _ = (MemoryLog.recent cfg k t.log).or _
    cases hl : lookup k (spanValues region.memoryId offset data) with
    | none => exact ht.cells k
    | some v =>
      -- a byte the preload determines had no cell, so the log has no recent value for it
      have hk : k ∈ span region.memoryId offset data.length := by
        rw [← map_fst_spanValues]
        exact List.mem_map_of_mem (mem_of_lookup_eq_some hl)
      have hnone := ht.cells k
      rw [(hfree k hk).1] at hnone
      rw [(or_eq_none_iff.1 hnone.symm).1]
      rfl

/-- A cold reset starts the next generation from the declared images. -/
theorem cold : Agrees cfg ⟨t.memory.coldReset cfg, (.coldReset, .ok .done) :: t.log⟩ := by
  refine ⟨ht.inv.cold, congrArg (· + 1) ht.generation, ht.images, fun k => ?_⟩
  change ((t.memory.initialImages.mapVal _).get? k).map ByteCell.value = MemoryLog.declared cfg k t.log
  rw [get?_mapVal, ← ht.images k, map_map]
  exact congrFun map_id _

/-- A read writes the bytes it is the first to see. -/
theorem fetched {address width : ℤ} {transactionId : String}
    {region : MemoryRegion} {offset : ℕ} (hroom : t.memory.bytes.length +
      (t.memory.missing (span region.memoryId offset width.toNat)).length ≤ cfg.maxInitializedBytes)
    {m' : PersistentMemory} (hm' : m' = t.memory.materialize cfg region.memoryId
      (span region.memoryId offset width.toNat)) :
    Agrees cfg ⟨m', (.read address width transactionId,
      .ok (.snapshot (snapshotOf t.memory m' region offset width.toNat transactionId))) :: t.log⟩ := by
  have hnd := nodup_span region.memoryId offset width.toNat
  have hinv : m'.Inv cfg := by
    rw [hm']
    exact ht.inv.materialize hnd (fun k hk => (mem_span.1 hk).1) hroom
  have hdet : ∀ k ∈ span region.memoryId offset width.toNat, (m'.bytes.get? k).isSome := by
    intro k hk
    rw [hm']
    exact isSome_materialize cfg t.memory region.memoryId hnd hk
  refine ht.written (by simp) (by simp) hinv (by rw [hm', generation_materialize])
    (by rw [hm', initialImages_materialize]) fun k => ?_
  rw [written_read hinv hdet, hm', get?_materialize cfg t.memory region.memoryId hnd]
  split_ifs with hk
  · rfl
  · rfl

/-- **Every change follows the log.** -/
theorem change (h : Change cfg t.memory c a m') :
    Agrees cfg ⟨m', (c, .ok a) :: t.log⟩ := by
  have hinv := ht.inv.change h
  cases h with
  | preloaded hplace hne hfree hroom => exact ht.preload hplace hfree hroom
  | reinstalled hplace hne hevent himages =>
    refine ht.commit (by simp) (by simp) (nodup_spanValues ..) hinv fun k => ?_
    rw [lookup_spanValues, MemoryCall.written, locate_of_resolve hplace.resolved]
    rfl
  | declared hpos hplace hfree => exact ht.written (by simp) (by simp) hinv rfl rfl fun k => rfl
  | accepted hplace hdata hsource hslots hroom hm' =>
    subst hm'
    refine withIssued (t := ⟨_, _⟩) (ht.commit (by simp) (by simp) (nodup_spanValues ..)
      (hinv.withIssued _) fun k => ?_) _
    rw [lookup_spanValues, MemoryCall.written, locate_of_resolve hplace.resolved]
    rfl
  | fetched hplace hready hwritable hroom hm' => exact ht.fetched hroom hm'
  | @storedNothing address value width byteEnable writerEventId region offset hplace hnone =>
    refine ht.written (by simp) (by simp) hinv rfl rfl fun k => ?_
    have hcells := lookup_storeCells region.memoryId offset width.toNat value.toNat byteEnable.toNat k
    rw [storeCells, hnone] at hcells
    rw [MemoryCall.written, locate_of_resolve hplace.resolved, bind_some, ← hcells]
    rfl
  | stored hplace hsome hroom =>
    refine ht.commit (by simp) (by simp) (nodup_storeCells ..) hinv fun k => ?_
    rw [lookup_storeCells, MemoryCall.written, locate_of_resolve hplace.resolved]
    rfl
  | warm => exact ht.written (by simp) (by simp) hinv rfl rfl fun k => rfl
  | cold => exact ht.cold

/-- **The dictionary follows the log through every call.** -/
theorem record (c : MemoryCall) : Agrees cfg (t.record cfg c) := by
  cases h : (t.memory.call cfg c).1 with
  | ok a =>
    have hrecord : t.record cfg c = ⟨(t.memory.call cfg c).2, (c, .ok a) :: t.log⟩ := by
      rw [MemoryTrace.record, h]
    rw [hrecord]
    exact ht.change (change_call (Prod.ext h rfl))
  | error e =>
    have hc : c ≠ .coldReset := by
      rintro rfl
      cases h
    have hrecord : t.record cfg c = ⟨t.memory, (c, .error e) :: t.log⟩ := by
      rw [MemoryTrace.record, call_error ht.inv h, h]
    have hgen : MemoryLog.generation ((c, .error e) :: t.log) = MemoryLog.generation t.log := by
      cases c <;> first | rfl | exact absurd rfl hc
    have hdeclared : ∀ k, MemoryLog.declared cfg k ((c, .error e) :: t.log)
        = MemoryLog.declared cfg k t.log := by
      intro k
      cases c <;> rfl
    have hrecent : ∀ k, MemoryLog.recent cfg k ((c, .error e) :: t.log)
        = MemoryLog.recent cfg k t.log := by
      intro k
      cases c <;> first | rfl | exact absurd rfl hc
    rw [hrecord]
    refine ⟨ht.inv, ?_, fun k => ?_, fun k => ?_⟩
    · rw [hgen, ht.generation]
    · rw [hdeclared, ht.images]
    · rw [hrecent, hdeclared, ht.cells]

end

end Agrees

/-! ## What a call leaves alone -/

/-- **A byte that changes** was covered by a lane of the call, at some alias of its memory. -/
theorem covers_of_change {m : PersistentMemory} (h : Change cfg m c a m')
    (hk : m'.bytes.get? k ≠ m.bytes.get? k) :
    c = .coldReset ∨ ∃ address, c.address? = some address ∧ ∃ region ∈ cfg.regions,
      ∃ base ∈ region.base :: region.aliases, ∃ offset i : ℕ, address = base + offset ∧
        k = (region.memoryId, offset + i) ∧ c.Covers i := by
  have hplaced : ∀ {address width : ℤ} {write : Bool} {n : ℕ} {region : MemoryRegion} {offset i : ℕ},
      Placed cfg address width write n region offset → c.address? = some address →
      k = (region.memoryId, offset + i) → c.Covers i →
      ∃ address, c.address? = some address ∧ ∃ region ∈ cfg.regions,
        ∃ base ∈ region.base :: region.aliases, ∃ offset i : ℕ, address = base + offset ∧
          k = (region.memoryId, offset + i) ∧ c.Covers i := by
    intro address width write n region offset i hp ha hk hi
    obtain ⟨hr, ⟨base, hb, haddr⟩, -⟩ := resolve_spec hp.resolved
    exact ⟨address, ha, region, hr, base, hb, offset, i, haddr, hk, hi⟩
  have hspan : ∀ {memoryId : String} {offset n : ℕ}, k ∈ span memoryId offset n →
      ∃ i < n, k = (memoryId, offset + i) := by
    intro memoryId offset n hmem
    obtain ⟨i, hi, heq⟩ := List.mem_map.1 hmem
    exact ⟨i, List.mem_range.1 hi, heq.symm⟩
  cases h with
  | preloaded hplace hne hfree hroom =>
    obtain ⟨i, hi, heq⟩ := hspan (by
      by_contra hmem
      refine hk ?_
      rw [get?_setCells _ (nodup_spanValues ..), lookup_eq_none_iff.2 (by rwa [map_fst_spanValues])]
      rfl)
    exact .inr (hplaced hplace rfl heq hi)
  | reinstalled hplace hne hevent himages =>
    obtain ⟨i, hi, heq⟩ := hspan (by
      by_contra hmem
      exact hk (get?_commit_of_notMem _ _ (nodup_spanValues ..) _ _ (by rwa [map_fst_spanValues])))
    exact .inr (hplaced hplace rfl heq hi)
  | declared hpos hplace hfree => exact absurd rfl hk
  | accepted hplace hdata hsource hslots hroom hm' =>
    subst hm'
    dsimp only at hk
    obtain ⟨i, hi, heq⟩ := hspan (by
      by_contra hmem
      exact hk (get?_commit_of_notMem _ _ (nodup_spanValues ..) _ _ (by rwa [map_fst_spanValues])))
    exact .inr (hplaced hplace rfl heq hi)
  | fetched hplace hready hwritable hroom hm' =>
    subst hm'
    rw [get?_materialize _ _ _ (nodup_span ..)] at hk
    split_ifs at hk with hmem
    · obtain ⟨i, hi, heq⟩ := hspan (mem_missing.1 hmem).1
      exact .inr (hplaced hplace rfl heq hi)
    · exact absurd rfl hk
  | storedNothing hplace hnone => exact absurd rfl hk
  | @stored address value width byteEnable writerEventId region offset hplace hsome hroom =>
    have hmem : k ∈ (storeCells region.memoryId offset width.toNat value.toNat
        byteEnable.toNat).map Prod.fst := by
      by_contra hmem
      exact hk (get?_commit_of_notMem _ _ (nodup_storeCells ..) _ _ hmem)
    rw [map_fst_storeCells] at hmem
    obtain ⟨i, hi, heq⟩ := List.mem_map.1 hmem
    obtain ⟨hi, hbit⟩ := List.mem_filter.1 hi
    exact .inr (hplaced hplace rfl heq.symm ⟨List.mem_range.1 hi, hbit⟩)
  | warm => exact absurd rfl hk
  | cold => exact .inl rfl

/-- A call that does not touch a determined byte leaves its cell alone. -/
theorem get?_record_of_not_touches (ht : Agrees cfg t) {cell : ByteCell}
    (hk : t.memory.bytes.get? k = some cell) (hc : ¬ Touches cfg k t c) :
    (t.record cfg c).memory.bytes.get? k = some cell := by
  obtain ⟨hcold, hwritten⟩ := not_or.1 hc
  cases h : (t.memory.call cfg c).1 with
  | error e => rw [MemoryTrace.record, call_error ht.inv h, hk]
  | ok a =>
    have hnone : c.written cfg k a = none := by
      by_contra hsome
      exact hwritten ⟨a, h, isSome_iff_ne_none.2 hsome⟩
    have hchange : Change cfg t.memory c a (t.record cfg c).memory := change_call (Prod.ext h rfl)
    generalize (t.record cfg c).memory = m' at hchange
    cases hchange with
    | preloaded hplace hne hfree hroom =>
      rw [get?_setCells _ (nodup_spanValues ..), lookup_eq_none_iff.2, map_none, none_or]
      · exact hk
      · intro hmem
        rw [map_fst_spanValues] at hmem
        rw [(hfree k hmem).1] at hk
        cases hk
    | reinstalled hplace hne hevent himages =>
      rw [written, locate_of_resolve hplace.resolved, bind_some,
        ← lookup_spanValues] at hnone
      rw [get?_commit _ _ (nodup_spanValues ..), hnone, hk]
      rfl
    | declared hpos hplace hfree => exact hk
    | accepted hplace hdata hsource hslots hroom hm' =>
      subst hm'
      rw [written, locate_of_resolve hplace.resolved, bind_some,
        ← lookup_spanValues] at hnone
      rw [get?_commit _ _ (nodup_spanValues ..), hnone, hk]
      rfl
    | fetched hplace hready hwritable hroom hm' =>
      subst hm'
      rw [get?_materialize _ _ _ (nodup_span ..), if_neg, hk]
      intro hmem
      rw [(mem_missing.1 hmem).2] at hk
      cases hk
    | storedNothing hplace hnone => exact hk
    | stored hplace hsome hroom =>
      rw [written, locate_of_resolve hplace.resolved, bind_some,
        ← lookup_storeCells] at hnone
      rw [get?_commit _ _ (nodup_storeCells ..), hnone, hk]
      rfl
    | warm => exact hk
    | cold => exact absurd rfl hcold

/-! ## A correct byte store -/

theorem agrees_run (cfg : MemoryConfig) (cs : List MemoryCall) :
    Agrees cfg (run (record cfg) (init cfg) cs) :=
  run_invariant (fun _ c h => h.record c) cs (agrees_init cfg)

/-- **A snapshot reads the log.** -/
theorem getElem?_data_of_read (ht : Agrees cfg t) {transactionId : String}
    {s : ReadSnapshot} (h : (t.memory.call cfg (.read address width transactionId)).1
      = .ok (.snapshot s)) :
    ∃ region ∈ cfg.regions, ∃ base ∈ region.base :: region.aliases, ∃ offset : ℕ,
      address = base + offset ∧ offset + width.toNat ≤ region.size ∧
      s.memoryId = region.memoryId ∧ s.byteOffset = offset ∧ s.data.length = width.toNat ∧
      ∀ i < width.toNat, (s.data[i]?).map UInt8.toNat
        = some (MemoryLog.expected cfg t.log (region.memoryId, offset + i)) := by
  obtain ⟨m', hcall⟩ : ∃ m', t.memory.call cfg (.read address width transactionId)
      = (.ok (.snapshot s), m') := ⟨_, Prod.ext h rfl⟩
  have hinv := ht.inv.change (change_call hcall)
  cases change_call hcall with
  | @fetched _ _ _ region offset hplace hready hwritable hroom _ hm' =>
    obtain ⟨hr, ⟨base, hb, haddr⟩, hfit, -⟩ := resolve_spec hplace.resolved
    have hnd := nodup_span region.memoryId offset width.toNat
    have hdet : ∀ k ∈ span region.memoryId offset width.toNat, (m'.bytes.get? k).isSome := by
      intro k hk
      rw [hm']
      exact isSome_materialize cfg t.memory region.memoryId hnd hk
    refine ⟨region, hr, base, hb, offset, haddr, hfit, rfl, rfl, length_snapshotOf_data hdet _,
      fun i hi => ?_⟩
    have hmem : (region.memoryId, offset + i) ∈ span region.memoryId offset width.toNat :=
      mem_span.2 ⟨rfl, by omega, by omega⟩
    obtain ⟨cell, hcell⟩ := isSome_iff_exists.1 (hdet _ hmem)
    rw [getElem?_snapshotOf_data hdet, if_pos hi, hcell, map_some, map_some,
      UInt8.toNat_ofNat_of_lt' (hinv.versioned _ _ hcell).2.2, MemoryLog.expected, ← ht.cells,
      ← ht.generation]
    rw [hm', get?_materialize cfg t.memory region.memoryId hnd] at hcell
    split_ifs at hcell with hmiss
    · cases hcell
      rw [(mem_missing.1 hmiss).2]
      rfl
    · rw [hcell]
      rfl

/-- **The memory is a byte store through every alias.** A read returns, for each lane, the most recent value
since the last cold reset, else the declared image, else the seeded value. A determined byte keeps its cell
until a call touches it. -/
theorem memory_is_byte_store (cfg : MemoryConfig) (cs : List MemoryCall) :
    (∀ region ∈ cfg.regions, ∀ base ∈ region.base :: region.aliases, ∀ offset < region.size,
      cfg.locate ((base : ℤ) + (offset : ℕ)) = some (region.memoryId, offset)) ∧
    (∀ (address width : ℤ) (transactionId : String) (s : ReadSnapshot),
      ((run (record cfg) (init cfg) cs).memory.call cfg (.read address width transactionId)).1
        = .ok (.snapshot s) →
      ∃ region ∈ cfg.regions, ∃ base ∈ region.base :: region.aliases, ∃ offset : ℕ,
        address = base + offset ∧ offset + width.toNat ≤ region.size ∧
        s.memoryId = region.memoryId ∧ s.byteOffset = offset ∧ s.data.length = width.toNat ∧
        ∀ i < width.toNat, (s.data[i]?).map UInt8.toNat
          = some (MemoryLog.expected cfg (run (record cfg) (init cfg) cs).log
            (region.memoryId, offset + i))) ∧
    (∀ (k : ByteKey) (cell : ByteCell) (later : List MemoryCall),
      (run (record cfg) (init cfg) cs).memory.bytes.get? k = some cell →
      Guarded (record cfg) (fun t c => ¬ Touches cfg k t c) (run (record cfg) (init cfg) cs) later →
      (run (record cfg) (run (record cfg) (init cfg) cs) later).memory.bytes.get? k = some cell) ∧
    ∀ (c : MemoryCall) (k : ByteKey), (run (record cfg) (init cfg) (cs ++ [c])).memory.bytes.get? k
        ≠ (run (record cfg) (init cfg) cs).memory.bytes.get? k →
      c = .coldReset ∨ ∃ address, c.address? = some address ∧ ∃ region ∈ cfg.regions,
        ∃ base ∈ region.base :: region.aliases, ∃ offset i : ℕ, address = base + offset ∧
          k = (region.memoryId, offset + i) ∧ c.Covers i := by
  have ht := agrees_run cfg cs
  refine ⟨fun region hr base hb offset ho => cfg.locate_window hr hb ho,
    fun address width transactionId s h => getElem?_data_of_read ht h,
    fun k cell later hk hlater => ?_, fun c k hk => ?_⟩
  · refine (run_invariant_of_guarded (P := fun t => Agrees cfg t ∧ t.memory.bytes.get? k = some cell)
      (fun t c h hc => ⟨h.1.record c, get?_record_of_not_touches h.1 h.2 hc⟩) later ⟨ht, hk⟩
      hlater).2
  · rw [run_concat] at hk
    cases h : ((run (record cfg) (init cfg) cs).memory.call cfg c).1 with
    | error e =>
      rw [MemoryTrace.record, call_error ht.inv h] at hk
      exact absurd rfl hk
    | ok a => exact covers_of_change (change_call (Prod.ext h rfl)) hk

end MemoryTrace

end MyFuzz
