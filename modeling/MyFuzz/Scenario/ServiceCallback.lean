import MyFuzz.Scenario.MemoryService
import MyFuzz.Scenario.MemoryInvariant

/-!
# Scenario/ServiceCallback — what the callbacks of a service do

The checks a service makes before the ledger are those the memory makes again inside the callback, so
a callback that starts gets through the memory.  What is left are the checks a store makes on the
memory it has just written: they fail exactly when the generation or the new version does not fit
in 64 bits (`Countable`).

    Readable ─▸ read returns its snapshot      Storable ─▸ write returns its version
                                                         └▸ Countable ─▸ receipt
-/

namespace MyFuzz

open Outcome Repr Effect List

variable {address width byteEnable value : ℤ} {region : MemoryRegion} {offset : ℕ}

namespace PersistentMemory

variable {cfg : MemoryConfig} {m : PersistentMemory}

/-! ## Accesses the memory admits -/

/-- The memory lets an access be read: nothing awaited, nothing undetermined that is read-only, and
room for what is undetermined. -/
structure Readable (cfg : MemoryConfig) (m : PersistentMemory) (region : MemoryRegion)
    (offset width : ℕ) : Prop where
  ready : ∀ k ∈ span region.memoryId offset width, m.awaited k = false
  writable : m.missing (span region.memoryId offset width) ≠ [] → region.writable = true
  room : m.bytes.length + (m.missing (span region.memoryId offset width)).length
    ≤ cfg.maxInitializedBytes

variable {u : Unit} {writerEventId : String}

theorem validateRead_eq_ok :
    m.validateRead cfg address width = .ok u ↔ ∃ region offset,
      cfg.resolve address width false = .ok (region, offset) ∧ Readable cfg m region offset width.toNat := by
  constructor
  · intro h
    obtain ⟨⟨region, offset⟩, hres, h⟩ := bind_ok.1 h
    obtain ⟨hready, hwr, h⟩ := ensure_ok₂ h
    have hroom := ensure_eq_ok.1 h
    refine ⟨region, offset, hres, fun k hk => ?_, fun hne => ?_, hroom⟩
    · have hk' := fun hk' => hready ⟨k, hk, hk'⟩
      simpa using hk'
    · by_contra hw
      exact hwr ⟨hne, hw⟩
  · rintro ⟨region, offset, hres, hr⟩
    refine bind_ok.2 ⟨_, hres, ensure_ok.2 ⟨?_, ensure_ok.2 ⟨?_, ?_⟩⟩⟩
    · rintro ⟨k, hk, hk'⟩
      rw [hr.ready k hk] at hk'
      cases hk'
    · rintro ⟨hne, hw⟩
      exact hw (hr.writable hne)
    · exact ensure_of hr.room _

/-- **A read that validates returns its snapshot.** -/
theorem read_of_readable (hm : m.Inv cfg) {transactionId : String} (ht : transactionId ≠ "")
    (hres : cfg.resolve address width false = .ok (region, offset))
    (hr : Readable cfg m region offset width.toNat) :
    m.read cfg address width transactionId
      = (.ok (snapshotOf m (m.materialize cfg region.memoryId
          (span region.memoryId offset width.toNat)) region offset width.toNat transactionId),
        m.materialize cfg region.memoryId (span region.memoryId offset width.toNat)) := by
  have hm' := hm.materialize (nodup_span region.memoryId offset width.toNat)
    (fun k hk => (mem_span.1 hk).1) hr.room
  refine checked_eq_ok.2 ⟨(region, offset), ensure_ok.2 ⟨ht, bind_ok.2 ⟨_, hres,
    ensure_ok.2 ⟨?_, ensure_ok.2 ⟨?_, ensure_ok.2 ⟨hr.room, rfl⟩⟩⟩⟩⟩,
    checked_eq_ok.2 ⟨_, toBytes_cells hm' _, rfl⟩⟩
  · rintro ⟨k, hk, hk'⟩
    rw [hr.ready k hk] at hk'
    cases hk'
  · rintro ⟨hne, hw⟩
    exact hw (hr.writable hne)

/-- A store of this shape fits its access. -/
structure Fits (value width byteEnable : ℤ) : Prop where
  value_nonneg : 0 ≤ value
  value_lt : value.toNat < 1 <<< (8 * width.toNat)
  enable_nonneg : 0 ≤ byteEnable
  enable_lt : byteEnable.toNat < 1 <<< width.toNat

/-- The bytes a store writes. -/
def storeKeys (memoryId : String) (offset width byteEnable : ℕ) : List ByteKey :=
  (enabledLanes width byteEnable).map fun i => (memoryId, offset + i)

/-- The memory has room for the bytes of a store. -/
def Storable (cfg : MemoryConfig) (m : PersistentMemory) (region : MemoryRegion)
    (offset width byteEnable : ℕ) : Prop :=
  m.bytes.length + (m.missing (storeKeys region.memoryId offset width byteEnable)).length
    ≤ cfg.maxInitializedBytes

theorem validateWrite_eq_ok :
    m.validateWrite cfg address value width byteEnable = .ok u ↔ ∃ region offset,
      cfg.resolve address width true = .ok (region, offset) ∧ Fits value width byteEnable ∧
        Storable cfg m region offset width.toNat byteEnable.toNat := by
  constructor
  · intro h
    obtain ⟨⟨region, offset⟩, hres, v, hv, h⟩ := bind_ok₂ h
    obtain ⟨hv0, rfl⟩ := natural_eq_ok.1 hv
    obtain ⟨hvlt, h⟩ := ensure_ok.1 h
    obtain ⟨be, hbe, h⟩ := bind_ok.1 h
    obtain ⟨hbe0, rfl⟩ := natural_eq_ok.1 hbe
    obtain ⟨hbelt, h⟩ := ensure_ok.1 h
    have hroom := ensure_eq_ok.1 h
    exact ⟨region, offset, hres, ⟨hv0, hvlt, hbe0, hbelt⟩, hroom⟩
  · rintro ⟨region, offset, hres, hfits, hroom⟩
    refine bind_ok.2 ⟨_, hres, bind_ok.2 ⟨_, natural_eq_ok.2 ⟨hfits.value_nonneg, rfl⟩,
      ensure_ok.2 ⟨hfits.value_lt, bind_ok.2 ⟨_, natural_eq_ok.2 ⟨hfits.enable_nonneg, rfl⟩,
        ensure_ok.2 ⟨hfits.enable_lt, ?_⟩⟩⟩⟩⟩
    exact if_pos hroom

/-- A store enables no lane exactly when its mask is zero. -/
theorem Fits.enabledLanes_eq_nil (h : Fits value width byteEnable) :
    enabledLanes width.toNat byteEnable.toNat = [] ↔ byteEnable = 0 := by
  constructor
  · intro hnil
    have hzero : byteEnable.toNat = 0 := by
      refine Nat.eq_of_testBit_eq fun i => ?_
      rw [Nat.zero_testBit]
      by_cases hi : i < width.toNat
      · have := filter_eq_nil_iff.1 hnil i (mem_range.2 hi)
        simpa using this
      · refine Nat.testBit_lt_two_pow (h.enable_lt.trans_le ?_)
        rw [Nat.one_shiftLeft]
        exact Nat.pow_le_pow_right (by norm_num) (not_lt.1 hi)
    have := h.enable_nonneg
    omega
  · rintro rfl
    simp [enabledLanes]

/-- The version a store takes. -/
def storeVersion (m : PersistentMemory) (memoryId : String) (byteEnable : ℤ) : Option Version :=
  if byteEnable = 0 then none else some (m.generation, m.commitSequence memoryId + 1)

/-- The memory a store leaves. -/
def storeMemory (m : PersistentMemory) (memoryId : String) (offset : ℕ)
    (value width byteEnable : ℤ) (writerEventId : String) : PersistentMemory :=
  if byteEnable = 0 then m
  else m.commit memoryId (storeCells memoryId offset width.toNat value.toNat byteEnable.toNat) .store
    fun _ => writerEventId

/-- **A store that validates returns its version.** -/
theorem write_of_storable (hw : writerEventId ≠ "")
    (hres : cfg.resolve address width true = .ok (region, offset)) (hfits : Fits value width byteEnable)
    (hroom : Storable cfg m region offset width.toNat byteEnable.toNat) :
    m.write cfg address value width byteEnable writerEventId
      = (.ok (m.storeVersion region.memoryId byteEnable),
        m.storeMemory region.memoryId offset value width byteEnable writerEventId) := by
  refine checked_eq_ok.2 ⟨(region, offset, value.toNat, byteEnable.toNat),
    ensure_ok.2 ⟨hw, bind_ok.2 ⟨_, hres, bind_ok.2 ⟨_,
      natural_eq_ok.2 ⟨hfits.value_nonneg, rfl⟩, ensure_ok.2 ⟨hfits.value_lt,
        bind_ok.2 ⟨_, natural_eq_ok.2 ⟨hfits.enable_nonneg, rfl⟩,
          ensure_ok.2 ⟨hfits.enable_lt, ensure_ok.2 ⟨hroom, rfl⟩⟩⟩⟩⟩⟩⟩, ?_⟩
  simp only [storeVersion, storeMemory, hfits.enabledLanes_eq_nil]
  split_ifs with h <;> rfl

/-- A store that returns would have validated. -/
theorem validateWrite_of_write {v : Option Version}
    (h : (m.write cfg address value width byteEnable writerEventId).1 = .ok v) :
    m.validateWrite cfg address value width byteEnable = .ok () := by
  obtain ⟨⟨region, offset, _, _⟩, hc, -⟩ := checked_eq_ok.1 (Prod.ext h rfl)
  obtain ⟨-, hc⟩ := ensure_ok.1 hc
  obtain ⟨⟨region, offset⟩, hres, v, hv, hc⟩ := bind_ok₂ hc
  obtain ⟨hv0, rfl⟩ := natural_eq_ok.1 hv
  obtain ⟨hvlt, hc⟩ := ensure_ok.1 hc
  obtain ⟨be, hbe, hc⟩ := bind_ok.1 hc
  obtain ⟨hbe0, rfl⟩ := natural_eq_ok.1 hbe
  obtain ⟨hbelt, hroom, -⟩ := ensure_ok₂ hc
  exact validateWrite_eq_ok.2 ⟨region, offset, hres, ⟨hv0, hvlt, hbe0, hbelt⟩, hroom⟩

theorem change_storeMemory (hw : writerEventId ≠ "")
    (hres : cfg.resolve address width true = .ok (region, offset)) (hfits : Fits value width byteEnable)
    (hroom : Storable cfg m region offset width.toNat byteEnable.toNat) :
    Change cfg m (.write address value width byteEnable writerEventId)
      (.stored (m.storeVersion region.memoryId byteEnable))
      (m.storeMemory region.memoryId offset value width byteEnable writerEventId) :=
  change_write (write_of_storable hw hres hfits hroom)

end PersistentMemory

open PersistentMemory

theorem ServiceConfig.str_ne (cfg : ServiceConfig) (key : TransactionKey) : cfg.str key ≠ "" := by
  have hlast : ∀ text : String, text ++ ")" ≠ "" := by
    intro text h
    have hlist : text.toList ++ [')'] = [] := by
      simpa using congrArg String.toList h
    exact absurd (append_eq_nil_iff.1 hlist).2 (cons_ne_nil _ _)
  exact hlast _

/-- Quoted fields and numbers between fixed texts are read back, when no digit follows a number. -/
theorem fields_inj (printable : Char → Bool) {l₁ l₂ l₃ l₄ l₅ l₆ l₇ : String} {q₅ q₇ : Char}
    {r₅ r₇ : List Char} (h₅ : l₅.toList = q₅ :: r₅) (hq₅ : q₅.isDigit = false)
    (h₇ : l₇.toList = q₇ :: r₇) (hq₇ : q₇.isDigit = false) {a b c d a' b' c' d' : String} {m n m' n' : ℕ}
    (h : l₁ ++ reprText printable a ++ l₂ ++ reprText printable b ++ l₃ ++ reprText printable c ++
        l₄ ++ m.repr ++ l₅ ++ reprText printable d ++ l₆ ++ n.repr ++ l₇
      = l₁ ++ reprText printable a' ++ l₂ ++ reprText printable b' ++ l₃ ++ reprText printable c' ++
        l₄ ++ m'.repr ++ l₅ ++ reprText printable d' ++ l₆ ++ n'.repr ++ l₇) :
    (a, b, c, m, d) = (a', b', c', m', d') ∧ n = n' := by
  have hlist := congrArg String.toList h
  simp only [String.toList_append, append_assoc, reprText, String.toList_ofList, h₅, h₇,
    cons_append] at hlist
  obtain ⟨ha, hlist⟩ := isCode_reprChars printable (append_cancel_left hlist)
  obtain ⟨hb, hlist⟩ := isCode_reprChars printable (append_cancel_left hlist)
  obtain ⟨hc, hlist⟩ := isCode_reprChars printable (append_cancel_left hlist)
  obtain ⟨hm, hlist⟩ := digits_append_inj hq₅ (append_cancel_left hlist)
  obtain ⟨hd, hlist⟩ := isCode_reprChars printable (append_cancel_left hlist)
  obtain ⟨hn, -⟩ := digits_append_inj hq₇ (append_cancel_left hlist)
  rw [String.toList_inj] at ha hb hc hd
  exact ⟨by rw [ha, hb, hc, hm, hd], hn⟩

/-- **The text of a key determines it.** -/
theorem TransactionKey.str_injective (printable : Char → Bool) :
    Function.Injective (TransactionKey.str printable) := by
  intro k k' h
  obtain ⟨hchannel, hsequence⟩ := fields_inj printable (by simp; exact ⟨rfl, rfl⟩) (by decide)
    (by simp; exact ⟨rfl, rfl⟩) (by decide) h
  exact ext_channel hchannel hsequence

namespace ServiceCore

variable {cfg : ServiceConfig} {core : ServiceCore}

/-! ## The callback of a read -/

theorem each_record {α : Type} {f : α → Except Exn MemoryEvent} {as : List α}
    {events : List MemoryEvent} (h : as.mapM f = .ok events) (core : ServiceCore) :
    each (fun a => do
      let event ← lift (f a)
      record event) as core = (.ok (), { core with events := core.events ++ events }) := by
  rw [mapM_eq_ok] at h
  induction h generalizing core with
  | nil => rw [append_nil]; rfl
  | @cons a event as events ha _ ih =>
    have hfirst : (do
        let event ← lift (f a)
        record event : Effect ServiceCore Unit) core
          = (.ok (), { core with events := core.events ++ [event] }) := by
      rw [bind_of_ok (by rw [lift_apply, ha])]
      rfl
    rw [each, bind_of_ok hfirst, ih]
    simp

variable {m m' : PersistentMemory} {memoryId writer : String}

/-- The bytes a read materialised have their lanes in the snapshot. -/
theorem initializationEvent_eq_ok {width : ℕ}
    (hdet : ∀ k ∈ span region.memoryId offset width, (m'.bytes.get? k).isSome)
    (key : TransactionKey) (transactionId : String) {byteOffset : ℕ}
    (h : byteOffset ∈ (snapshotOf m m' region offset width transactionId).materializedOffsets) :
    ∃ value version writer, initializationEvent key
      (snapshotOf m m' region offset width transactionId) byteOffset
        = .ok (.initialization key region.memoryId m'.generation byteOffset value version writer) := by
  obtain ⟨k, hk, rfl⟩ := mem_map.1 h
  have hspan := (mem_missing.1 hk).1
  obtain ⟨hid, hle, hlt⟩ := mem_span.1 hspan
  obtain ⟨cell, hcell⟩ := Option.isSome_iff_exists.1 (hdet k hspan)
  have hkey : (region.memoryId, offset + (k.2 - offset)) = k := Prod.ext hid.symm (Nat.add_sub_cancel' hle)
  have hlane : ((span region.memoryId offset width).filterMap m'.bytes.get?)[k.2 - offset]?
      = some cell := by
    rw [getElem?_cells hdet, if_pos (by omega), hkey, hcell]
  refine ⟨UInt8.ofNat cell.value, cell.version, cell.writerEventId, ?_⟩
  simp only [initializationEvent, snapshotOf, getElem?_map, hlane, Option.map_some]

/-- **The callback of an admitted read** freezes its snapshot and records its events. -/
theorem readCommit_of_readable (hm : core.memory.Inv cfg.memory) (key : TransactionKey)
    
    (hres : cfg.memory.resolve address width false = .ok (region, offset))
    (hr : Readable cfg.memory core.memory region offset width.toNat)
    (hm' : m' = core.memory.materialize cfg.memory region.memoryId
      (span region.memoryId offset width.toNat)) {snapshot : ReadSnapshot}
    (hs : snapshot = snapshotOf core.memory m' region offset width.toNat (cfg.str key)) :
    ∃ events, snapshot.materializedOffsets.mapM (initializationEvent key snapshot) = .ok events ∧
      readCommit cfg key address width core = (.ok (.snapshot snapshot), { core with
        memory := m'
        events := core.events ++ events ++ [readEvent cfg key address width snapshot] }) := by
  have hdet : ∀ k ∈ span region.memoryId offset width.toNat, (m'.bytes.get? k).isSome := by
    intro k hk
    rw [hm']
    exact isSome_materialize cfg.memory core.memory region.memoryId (nodup_span ..) hk
  have hinit : ∀ byteOffset ∈ snapshot.materializedOffsets,
      ∃ event, initializationEvent key snapshot byteOffset = .ok event := by
    intro byteOffset hb
    rw [hs] at hb ⊢
    obtain ⟨value, version, writer, h⟩ := initializationEvent_eq_ok hdet key _ hb
    exact ⟨_, h⟩
  obtain ⟨events, hevents⟩ := exists_mapM_eq_ok hinit
  refine ⟨events, hevents, ?_⟩
  have hread : onMemory (fun m => m.read cfg.memory address width (cfg.str key)) core
      = (.ok snapshot, { core with memory := m' }) := by
    refine zoom_of_eq ?_
    rw [read_of_readable hm (cfg.str_ne key) hres hr, ← hm', ← hs]
  rw [readCommit, bind_of_ok hread, bind_of_ok (each_record hevents _)]
  rfl

/-! ## The callback of a store -/

/-- The places a store takes in the commit stream while its callback runs. -/
def places (cfg : ServiceConfig) : ℕ := if cfg.commitStreamEnabled then 1 else 0

theorem reserve_of_not_full (hfull : core.streamFull cfg = false) :
    reserve cfg (core, ⟨none, false⟩)
      = (.ok (), { core with commitReserved := core.commitReserved + places cfg },
        ⟨none, cfg.commitStreamEnabled⟩) := by
  have hok : lift (ensure (core.streamFull cfg = false) capacityExceeded)
      (core, (⟨none, false⟩ : WriteLocals)) = (.ok (), core, ⟨none, false⟩) := by
    rw [lift_apply, ensure_of hfull]
  rw [reserve, bind_of_ok (get_apply _), bind_of_ok hok]
  cases h : cfg.commitStreamEnabled with
  | false | true => simp [places, h]

theorem reserve_of_full (hfull : core.streamFull cfg = true) (locals : WriteLocals) :
    reserve cfg (core, locals) = (.error capacityExceeded, core, locals) := by
  rw [reserve, bind_of_ok (get_apply _)]
  refine bind_of_error ?_
  rw [lift_apply, ensure_of_not (by simp [hfull])]

/-- The generation and the next version fit in 64 bits. -/
def Countable (m : PersistentMemory) (memoryId : String) (byteEnable : ℤ) : Prop :=
  m.generation < 2 ^ 64 ∧ (byteEnable ≠ 0 → m.commitSequence memoryId + 1 < 2 ^ 64)

/-- The bytes a store writes, as its document lists them. -/
def storedCells (m : PersistentMemory) (memoryId : String) (offset : ℕ)
    (value width byteEnable : ℤ) (writer : String) : List CommitCell :=
  (enabledLanes width.toNat byteEnable.toNat).map fun lane =>
    ⟨offset + lane, value.toNat >>> (8 * lane) &&& 0xFF,
      (m.generation, m.commitSequence memoryId + 1), .store, writer⟩

/-- The frozen document of a store. -/
def storeRecord (cfg : ServiceConfig) (m : PersistentMemory) (key : TransactionKey)
    (memoryId : String) (offset : ℕ) (address value width byteEnable : ℤ) : CommitRecord :=
  let document := commitDocument cfg key memoryId m.generation offset address value width byteEnable
    (m.storeVersion memoryId byteEnable)
    (storedCells m memoryId offset value width byteEnable (cfg.str key))
  ⟨document, cfg.commitHash document⟩

/-- The receipt of a store. -/
def storeReceipt (cfg : ServiceConfig) (core : ServiceCore) (key : TransactionKey)
    (memoryId : String) (offset : ℕ) (address value width byteEnable : ℤ) : WriteReceipt where
  ident := core.allocated
  transactionId := key
  version := core.memory.storeVersion memoryId byteEnable
  byteEnable := byteEnable
  commitJson := storeRecord cfg core.memory key memoryId offset address value width byteEnable

/-- The event of a store. -/
def storeEvent (m : PersistentMemory) (key : TransactionKey) (memoryId : String) (offset : ℕ)
    (address value width byteEnable : ℤ) : MemoryEvent :=
  .write key address width memoryId m.generation offset value byteEnable
    (m.storeVersion memoryId byteEnable)

/-- **The stored bytes read back** as the store wrote them. -/
theorem mapM_committedCell (hfits : Fits value width byteEnable) (hcount : Countable m memoryId byteEnable) :
    (enabledLanes width.toNat byteEnable.toNat).mapM (committedCell
      (m.storeMemory memoryId offset value width byteEnable writer) memoryId offset value.toNat
      (m.storeVersion memoryId byteEnable) writer)
      = .ok (storedCells m memoryId offset value width byteEnable writer) := by
  refine mapM_of_ok fun lane hlane => ?_
  have hbe : byteEnable ≠ 0 := by
    intro h
    rw [hfits.enabledLanes_eq_nil.2 h] at hlane
    cases hlane
  have hmem : ((memoryId, offset + lane), value.toNat >>> (8 * lane) &&& 0xFF)
      ∈ storeCells memoryId offset width.toNat value.toNat byteEnable.toNat :=
    mem_map_of_mem hlane
  rw [committedCell, storeMemory, if_neg hbe, get?_commit_of_mem m memoryId (nodup_storeCells ..) _ _
    hmem, storeVersion, if_neg hbe]
  exact ensure_ok.2 ⟨⟨⟨hcount.1, hcount.2 hbe⟩, rfl, storeCells_lt hmem, rfl, rfl, rfl⟩, rfl⟩

/-- The version of a store agrees with the memory it leaves, if it fits. -/
theorem versionAgrees_iff (hgen : m.generation < 2 ^ 64) :
    VersionAgrees byteEnable m.generation
        ((m.storeMemory memoryId offset value width byteEnable writer).commitSequence memoryId)
        (m.storeVersion memoryId byteEnable)
      ↔ Countable m memoryId byteEnable := by
  by_cases hbe : byteEnable = 0
  · rw [storeVersion, if_pos hbe]
    exact ⟨fun _ => ⟨hgen, fun h => absurd hbe h⟩, fun _ => hbe⟩
  · rw [storeVersion, if_neg hbe, storeMemory, if_neg hbe, commitSequence_commit, if_pos rfl]
    constructor
    · rintro ⟨-, htyped, -⟩
      exact ⟨hgen, fun _ => htyped.2⟩
    · intro hcount
      exact ⟨hbe, ⟨hgen, hcount.2 hbe⟩, rfl, rfl, Nat.succ_ne_zero _⟩

theorem generation_storeMemory (m : PersistentMemory) (memoryId : String) (offset : ℕ)
    (value width byteEnable : ℤ) (writer : String) :
    (m.storeMemory memoryId offset value width byteEnable writer).generation = m.generation := by
  unfold storeMemory
  split_ifs <;> rfl

section Store

variable (key : TransactionKey) {address value width byteEnable : ℤ} {region : MemoryRegion}
  {offset : ℕ} (hfull : core.streamFull cfg = false)
  (hres : cfg.memory.resolve address width true = .ok (region, offset)) (hfits : Fits value width byteEnable)
  (hroom : Storable cfg.memory core.memory region offset width.toNat byteEnable.toNat)

include hfull hres hfits hroom

/-- The memory has stored when its outcome is compared. -/
theorem writeCommit_eq : writeCommit cfg key address value width byteEnable (core, ⟨none, false⟩)
    = confirmStore cfg key address value width byteEnable region.memoryId core.memory.generation
      offset (core.memory.storeVersion region.memoryId byteEnable) ({ core with
          memory := core.memory.storeMemory region.memoryId offset value width byteEnable (cfg.str key)
          commitReserved := core.commitReserved + places cfg },
        ⟨none, cfg.commitStreamEnabled⟩) := by
  have hwrite : onCore (onMemory fun m =>
        m.write cfg.memory address value width byteEnable (cfg.str key))
      ({ core with commitReserved := core.commitReserved + places cfg },
        (⟨none, cfg.commitStreamEnabled⟩ : WriteLocals)) = _ :=
    zoom_of_eq (zoom_of_eq
      (write_of_storable (m := core.memory) (cfg.str_ne key) hres hfits hroom))
  rw [writeCommit, bind_of_ok (reserve_of_not_full hfull),
    bind_of_ok (get_apply _), bind_of_ok (by rw [lift_apply, hres])]
  exact bind_of_ok hwrite

omit hfull hfits hroom in
/-- An offset fits in 64 bits. -/
theorem offset_lt : offset < 2 ^ 64 := by
  obtain ⟨-, -, hfit, hwidth, -⟩ := MemoryConfig.resolve_spec hres
  have hvalid := region.valid.2.2.1
  unfold addressSpan at hvalid
  rcases hwidth with rfl | rfl | rfl | rfl <;> simp only [Int.reduceToNat] at hfit <;> omega

/-- **The callback of an admitted store** returns its receipt, when the versions fit. -/
theorem writeCommit_of_countable (hcount : Countable core.memory region.memoryId byteEnable) :
    writeCommit cfg key address value width byteEnable (core, ⟨none, false⟩)
      = (.ok (.written (storeReceipt cfg core key region.memoryId offset address value width
          byteEnable)),
        { core with
          memory := core.memory.storeMemory region.memoryId offset value width byteEnable
            (cfg.str key)
          events := core.events ++ [storeEvent core.memory key region.memoryId offset address value
            width byteEnable]
          commitReserved := core.commitReserved + places cfg
          allocated := core.allocated + 1 },
        ⟨some (storeReceipt cfg core key region.memoryId offset address value width byteEnable,
          storeRecord cfg core.memory key region.memoryId offset address value width byteEnable),
          cfg.commitStreamEnabled⟩) := by
  rw [writeCommit_eq key hfull hres hfits hroom, confirmStore,
    bind_of_ok (by rw [lift_apply, hres])]
  dsimp only
  rw [bind_of_ok (get_apply _), bind_of_ok (by
      rw [lift_apply, ensure_of ⟨region.valid.1, hcount.1, offset_lt hres, rfl, rfl,
        (generation_storeMemory ..).symm⟩]),
    bind_of_ok (by rw [lift_apply, ensure_of ((versionAgrees_iff hcount.1).2 hcount)]),
    bind_of_ok (by rw [lift_apply, mapM_committedCell hfits hcount])]
  rfl

/-- **The callback of an admitted store raises** after its effect, when the versions do not fit. -/
theorem writeCommit_of_not_countable
    (hcount : ¬ Countable core.memory region.memoryId byteEnable) :
    ∃ e ≠ capacityExceeded, writeCommit cfg key address value width byteEnable (core, ⟨none, false⟩)
      = (.error e, { core with
          memory := core.memory.storeMemory region.memoryId offset value width byteEnable
            (cfg.str key)
          commitReserved := core.commitReserved + places cfg },
        ⟨none, cfg.commitStreamEnabled⟩) := by
  rw [writeCommit_eq key hfull hres hfits hroom, confirmStore,
    bind_of_ok (by rw [lift_apply, hres])]
  dsimp only
  rw [bind_of_ok (get_apply _)]
  by_cases hgen : core.memory.generation < 2 ^ 64
  · refine ⟨outcomeConflict, by decide, ?_⟩
    rw [bind_of_ok (by
        rw [lift_apply, ensure_of ⟨region.valid.1, hgen, offset_lt hres, rfl, rfl,
          (generation_storeMemory ..).symm⟩]),
      bind_of_error (by
        rw [lift_apply, ensure_of_not fun h => hcount ((versionAgrees_iff hgen).1 h)])]
  · refine ⟨.runtimeError "host memory span identity conflicts with commit", by decide, ?_⟩
    exact bind_of_error (by rw [lift_apply, ensure_of_not fun h => hgen h.2.1])

end Store

end ServiceCore

end MyFuzz
