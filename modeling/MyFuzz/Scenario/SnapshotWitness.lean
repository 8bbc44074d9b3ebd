import MyFuzz.Scenario.CpuRecords
import MyFuzz.Scenario.MemoryInvariant

/-!
# Scenario/SnapshotWitness — which words of the memory are instruction witnesses

A snapshot of the memory is frozen into an instruction response, and the retirement matcher checks it
again before it accepts the response:

    PersistentMemory.read ──▸ ReadSnapshot ──freezeSnapshot──▸ dictionary ──▸ validFrozenInstruction

The matcher keeps its own list of writer kinds, and asks more of a writer's name than the memory does.
A word passes exactly when each of its four bytes does, by the cell it has before the read.
-/

namespace MyFuzz

open CpuEvents List

/-! ## Freezing -/

/-- The value of a snapshot. -/
def ReadSnapshot.value (s : ReadSnapshot) : ℕ := Bytes.readLe s.data

/-- A natural number in an event. -/
def natValue (n : ℕ) : Value EventScalar := .scalar (.int n)

/-- The entries of a frozen snapshot: those of the snapshot without its data, its value and the text
of its data. -/
def frozenFields (s : ReadSnapshot) : EventFields :=
  [("transaction_id", .str s.transactionId), ("memory_id", .str s.memoryId),
    ("generation", natValue s.generation), ("byte_offset", natValue s.byteOffset),
    ("versions", .tuple (s.versions.map fun v => .tuple [natValue v.1, natValue v.2])),
    ("writer_event_ids", .tuple (s.writerEventIds.map .str)),
    ("materialized_offsets", .tuple (s.materializedOffsets.map natValue)),
    ("writer_kinds", .tuple (s.writerKinds.map fun kind => .str kind.text)), ("value", natValue s.value),
    ("data_hex", .str (String.ofList (toHex (s.data.map UInt8.toNat))))]

/-- A snapshot as an instruction response carries it. -/
def freezeSnapshot (s : ReadSnapshot) : Value EventScalar := .dict (frozenFields s)

/-! ## The check -/

/-- A text of white space only. -/
def isBlank (s : String) : Bool := s.toList.all isStripped

theorem uint?_natValue (bits n : ℕ) :
    uint? bits (some (natValue n)) = if n < 2 ^ bits then some n else none := by
  unfold uint? natValue
  dsimp only
  have hcast : ((n : ℤ) < 2 ^ bits) ↔ n < 2 ^ bits := by exact_mod_cast Iff.rfl
  by_cases h : n < 2 ^ bits
  · rw [if_pos ⟨Int.natCast_nonneg n, hcast.2 h⟩, if_pos h, Int.toNat_natCast]
  · rw [if_neg fun hbad => h (hcast.1 hbad.2), if_neg h]

/-- Two parts of 64 bits. -/
def Version.Fits (v : Version) : Prop := v.1 < 2 ^ 64 ∧ v.2 < 2 ^ 64

theorem isSome_parts (bits a b : ℕ) :
    ((uint? bits (some (natValue a))).bind fun generation =>
      (uint? bits (some (natValue b))).bind fun sequence => some (generation, sequence)).isSome ↔
      a < 2 ^ bits ∧ b < 2 ^ bits := by
  rw [uint?_natValue, uint?_natValue]
  by_cases ha : a < 2 ^ bits
  · by_cases hb : b < 2 ^ bits
    · simp [ha, hb]
    · simp [ha, hb]
  · simp [ha]

theorem version?_pair (a b : Value EventScalar) : version? (.tuple [a, b]) =
    (uint? 64 (some a)).bind fun generation =>
      (uint? 64 (some b)).bind fun sequence => some (generation, sequence) := rfl

theorem isSome_version? (v : Version) : (version? (.tuple [natValue v.1, natValue v.2])).isSome ↔ v.Fits := by
  rw [version?_pair, isSome_parts, Version.Fits]

theorem isSome_named? (s : String) : (named? (some (.str s))).isSome ↔ isBlank s = false := by
  unfold named? isBlank
  dsimp only
  by_cases h : s.toList.all isStripped = true
  · simp [h]
  · simp [h]

/-- The matcher knows every kind but that of a reset image. -/
theorem isSome_writerKind? (kind : WriterKind) :
    (writerKind? (.str kind.text)).isSome ↔ kind ≠ .resetImage := by
  cases kind <;> decide

variable {α β : Type} {s : ReadSnapshot} {memoryId : String}

theorem isSome_mapM (f : α → Option β) : ∀ l : List α, (l.mapM f).isSome ↔ ∀ a ∈ l, (f a).isSome
  | [] => by simp
  | a :: l => by
      have ih := isSome_mapM f l
      rw [mapM_cons, forall_mem_cons, ← ih]
      cases f a with
      | none => simp
      | some b => cases l.mapM f <;> simp

theorem isSome_fourOf (f : Value EventScalar → Option α) (g : β → Value EventScalar) {l : List β}
    (h : l.length = 4) :
    (fourOf f (some (.tuple (l.map g)))).isSome ↔ ∀ b ∈ l, (f (g b)).isSome := by
  unfold fourOf
  simp only [items?, Option.bind_eq_bind, Option.bind_some, length_map, h, guard_true, Option.pure_def]
  rw [isSome_mapM, forall_mem_map]

/-- The bytes of a frozen snapshot. -/
theorem snapshotBytes?_frozenFields (h : s.data.length = 4) :
    snapshotBytes? (frozenFields s) = some s.data := by
  have hbytes : ∀ b ∈ s.data.map UInt8.toNat, b < 256 := by
    intro b hb
    obtain ⟨c, -, rfl⟩ := mem_map.1 hb
    exact c.toNat_lt
  have hback : (s.data.map UInt8.toNat).map UInt8.ofNat = s.data := by
    rw [map_map]
    conv_rhs => rw [← map_id s.data]
    exact map_congr_left fun c _ => UInt8.ofNat_toNat
  have hdata : snapshotData? (frozenFields s) = some none := rfl
  have hhex : snapshotHex? (frozenFields s) = some (some s.data) := by
    have hget : get (frozenFields s) "data_hex" =
      some (.str (String.ofList (toHex (s.data.map UInt8.toNat)))) := rfl
    unfold snapshotHex?
    rw [hget]
    dsimp only
    rw [String.toList_ofList, length_toHex, length_map, h, if_pos rfl, fromHex_toHex hbytes,
      Option.map_some, hback]
  unfold snapshotBytes?
  rw [hdata, hhex]
  rfl

/-- **A frozen word passes when its kinds, writers and versions do.** -/
theorem isSome_validFrozenInstruction (hdata : s.data.length = 4)
    (hkinds : s.writerKinds.length = 4) (hwriters : s.writerEventIds.length = 4)
    (hversions : s.versions.length = 4) (address : ℕ) :
    (validFrozenInstruction address s.value (some (freezeSnapshot s))).isSome ↔
      (∀ kind ∈ s.writerKinds, kind ≠ .resetImage) ∧
        (∀ writer ∈ s.writerEventIds, isBlank writer = false) ∧ ∀ v ∈ s.versions, v.Fits := by
  have hvalue : uint? 32 (get (frozenFields s) "value") = some s.value := by
    change uint? 32 (some (natValue s.value)) = _
    rw [uint?_natValue, if_pos]
    have hlt := Bytes.readLe_lt s.data
    rw [hdata] at hlt
    exact hlt
  have haddress : has (frozenFields s) "address" = false := rfl
  have hgetKinds : get (frozenFields s) "writer_kinds" =
    some (.tuple (s.writerKinds.map fun kind => .str kind.text)) := rfl
  have hgetWriters : get (frozenFields s) "writer_event_ids" =
    some (.tuple (s.writerEventIds.map .str)) := rfl
  have hgetVersions : get (frozenFields s) "versions" =
    some (.tuple (s.versions.map fun v => .tuple [natValue v.1, natValue v.2])) := rfl
  have hkind := isSome_fourOf writerKind? (fun kind : WriterKind => .str kind.text) hkinds
  have hwriter := isSome_fourOf (named? ∘ some) Value.str hwriters
  have hversion := isSome_fourOf version? (fun v : Version => .tuple [natValue v.1, natValue v.2])
    hversions
  simp only [isSome_writerKind?] at hkind
  simp only [Function.comp_apply, isSome_named?] at hwriter
  simp only [isSome_version?] at hversion
  unfold validFrozenInstruction freezeSnapshot
  simp only [hvalue, snapshotBytes?_frozenFields hdata, haddress, hgetKinds, hgetWriters,
    hgetVersions, hdata, Option.bind_eq_bind, Option.bind_some, guard_true, Option.pure_def,
    ReadSnapshot.value, and_self, Bool.false_eq_true, false_implies]
  rw [← hkind, ← hwriter, ← hversion]
  cases fourOf writerKind? (some (.tuple (s.writerKinds.map fun kind => .str kind.text))) with
  | none => simp
  | some kinds =>
    cases fourOf (named? ∘ some) (some (.tuple (s.writerEventIds.map .str))) with
    | none => simp
    | some writers =>
      cases fourOf version?
        (some (.tuple (s.versions.map fun v => .tuple [natValue v.1, natValue v.2]))) with
      | none | some versions => simp

/-! ## The words of the memory -/

/-- The cell of a byte passes the matcher: it was not written by a reset image, its writer has a name
that is not blank, and its version fits. -/
def ByteCell.Passes (cell : ByteCell) : Prop :=
  cell.writerKind ≠ .resetImage ∧ isBlank cell.writerEventId = false ∧ cell.version.Fits

/-- A byte may be part of an instruction witness; one that is still to be read first gets the next
version of its memory. -/
def PersistentMemory.Witnessable (m : PersistentMemory) (k : ByteKey) : Prop :=
  match m.bytes.get? k with
  | some cell => cell.Passes
  | none => Version.Fits (m.generation, m.commitSequence k.1 + 1)

/-- A first read has a name. -/
theorem isBlank_firstReadEvent (k : ByteKey) : isBlank (PersistentMemory.firstReadEvent k) = false := by
  unfold isBlank PersistentMemory.firstReadEvent
  rw [String.toList_append, String.toList_append, String.toList_append, all_append,
    all_append, all_append]
  have hinit : "init:".toList.all isStripped = false := by decide
  rw [hinit]
  rfl

namespace PersistentMemory

variable {cfg : MemoryConfig} {m : PersistentMemory}

/-- The cell a byte has after the read passes when the byte was witnessable before it. -/
theorem passes_materialize {keys : List ByteKey} (hnd : keys.Nodup) {k : ByteKey}
    (hid : k.1 = memoryId) {cell : ByteCell}
    (hcell : (m.materialize cfg memoryId keys).bytes.get? k = some cell) :
    cell.Passes ↔ m.Witnessable k := by
  subst hid
  rw [get?_materialize cfg m k.1 hnd] at hcell
  unfold Witnessable
  split_ifs at hcell with hmissing
  · rw [(mem_missing.1 hmissing).2]
    cases hcell
    exact ⟨fun h => h.2.2, fun h => ⟨by simp, isBlank_firstReadEvent k, h⟩⟩
  · rw [hcell]

/-- **A word that is read passes the matcher when its four bytes are witnessable.** -/
theorem passes_iff_witnessable {address : ℤ} {transactionId : String}
    (h : (m.call cfg (.read address 4 transactionId)).1 = .ok (.snapshot s)) {region : MemoryRegion}
    {offset : ℕ} (hplace : cfg.resolve address 4 false = .ok (region, offset)) (fetched : ℕ) :
    (validFrozenInstruction fetched s.value (some (freezeSnapshot s))).isSome ↔
      ∀ i < 4, m.Witnessable (region.memoryId, offset + i) := by
  obtain ⟨m', hcall⟩ : ∃ m', m.call cfg (.read address 4 transactionId) = (.ok (.snapshot s), m') :=
    ⟨_, Prod.ext h rfl⟩
  cases change_call hcall with
  | @fetched _ _ _ region' offset' hplaced hready hwritable hroom _ hm' =>
    obtain ⟨rfl, rfl⟩ : region' = region ∧ offset' = offset := by
      have heq := hplaced.resolved.symm.trans hplace
      cases heq
      exact ⟨rfl, rfl⟩
    have hwidth : Int.toNat 4 = 4 := rfl
    rw [hwidth] at hm' ⊢
    set keys := span region'.memoryId offset' 4 with hkeys
    have hnd : keys.Nodup := nodup_span region'.memoryId offset' 4
    have hdet : ∀ k ∈ keys, (m'.bytes.get? k).isSome := by
      intro k hk
      rw [hm']
      exact isSome_materialize cfg m region'.memoryId hnd hk
    have hlength : (keys.filterMap m'.bytes.get?).length = 4 := by
      rw [length_filterMap_of_isSome hdet, hkeys, length_span]
    have hcells : ∀ P : ByteCell → Prop, (∀ c ∈ keys.filterMap m'.bytes.get?, P c) ↔
        ∀ k ∈ keys, ∀ c, m'.bytes.get? k = some c → P c := by
      intro P
      constructor
      · exact fun hP k hk c hc => hP c (mem_filterMap.2 ⟨k, hk, hc⟩)
      · intro hP c hc
        obtain ⟨k, hk, hkc⟩ := mem_filterMap.1 hc
        exact hP k hk c hkc
    rw [isSome_validFrozenInstruction]
    · simp only [snapshotOf, ← hkeys, forall_mem_map]
      have hjoin : ((∀ c ∈ keys.filterMap m'.bytes.get?, c.writerKind ≠ .resetImage) ∧
          (∀ c ∈ keys.filterMap m'.bytes.get?, isBlank c.writerEventId = false) ∧
          ∀ c ∈ keys.filterMap m'.bytes.get?, c.version.Fits) ↔
          ∀ c ∈ keys.filterMap m'.bytes.get?, c.Passes :=
        ⟨fun h c hc => ⟨h.1 c hc, h.2.1 c hc, h.2.2 c hc⟩,
          fun h => ⟨fun c hc => (h c hc).1, fun c hc => (h c hc).2.1, fun c hc => (h c hc).2.2⟩⟩
      rw [hjoin, hcells]
      constructor
      · intro hall i hi
        have hk : (region'.memoryId, offset' + i) ∈ keys := mem_span.2 ⟨rfl, by omega, by omega⟩
        obtain ⟨cell, hcell⟩ := Option.isSome_iff_exists.1 (hdet _ hk)
        exact (passes_materialize hnd rfl (hm' ▸ hcell)).1 (hall _ hk cell hcell)
      · intro hall k hk cell hcell
        obtain ⟨hid, hlow, hhigh⟩ := mem_span.1 hk
        obtain ⟨id, o⟩ := k
        obtain rfl : id = region'.memoryId := hid
        refine (passes_materialize hnd rfl (hm' ▸ hcell)).2 ?_
        have hi := hall (o - offset') (by omega)
        rwa [show offset' + (o - offset') = o by omega] at hi
    · exact (length_map _).trans ((length_map _).trans hlength)
    · exact (length_map _).trans hlength
    · exact (length_map _).trans hlength
    · exact (length_map _).trans hlength

end PersistentMemory

/-! ## Whole runs -/

/-- The call installs no reset image, and names the writer of what it stores. -/
def MemoryCall.NamesWriter : MemoryCall → Prop
  | .reinstallImage _ _ _ => False
  | .acceptInstructions _ _ sourceEventId => isBlank sourceEventId = false
  | .write _ _ _ _ writerEventId => isBlank writerEventId = false
  | _ => True

namespace PersistentMemory

variable {cfg : MemoryConfig} {m m' : PersistentMemory} {n : ℕ}

/-- The versions of a memory are those of at most `n` calls, and its cells have named writers. -/
structure Named (n : ℕ) (m : PersistentMemory) : Prop where
  generation : m.generation ≤ n
  sequences : ∀ id, m.commitSequence id ≤ n
  cells : ∀ k cell, m.bytes.get? k = some cell →
    cell.writerKind ≠ .resetImage ∧ isBlank cell.writerEventId = false

/-- Cells of one version and a named writer. -/
theorem named_commit (h : m.Named n) {cells : List (ByteKey × ℕ)} (hnd : (cells.map Prod.fst).Nodup)
    {kind : WriterKind} (hkind : kind ≠ .resetImage) {event : ByteKey → String}
    (hevent : ∀ k, isBlank (event k) = false) :
    (m.commit memoryId cells kind event).Named (n + 1) := by
  refine ⟨h.generation.trans (Nat.le_succ n), fun id => ?_, fun k cell hcell => ?_⟩
  · rw [commitSequence_commit]
    split
    · exact Nat.succ_le_succ (h.sequences memoryId)
    · exact (h.sequences id).trans (Nat.le_succ n)
  · rw [get?_commit m memoryId hnd] at hcell
    cases hl : Dict.lookup k cells with
    | none =>
      rw [hl] at hcell
      exact h.cells k cell hcell
    | some v =>
      rw [hl] at hcell
      cases hcell
      exact ⟨hkind, hevent k⟩

theorem Named.mono (h : m.Named n) : m.Named (n + 1) :=
  ⟨h.generation.trans (Nat.le_succ n), fun id => (h.sequences id).trans (Nat.le_succ n), h.cells⟩

/-- **A call that names its writer leaves named cells.** -/
theorem named_change (hm : m.Named n) {c : MemoryCall} {a : MemoryAnswer} (h : Change cfg m c a m')
    (hc : c.NamesWriter) : m'.Named (n + 1) := by
  have himage : isBlank "initial-image" = false := by decide
  cases h with
  | preloaded hplace hne hfree hroom =>
    refine ⟨hm.mono.generation, hm.mono.sequences, fun k cell hcell => ?_⟩
    rw [get?_setCells _ (nodup_spanValues ..)] at hcell
    cases hl : Dict.lookup k (spanValues _ _ _) with
    | none =>
      rw [hl] at hcell
      exact hm.cells k cell hcell
    | some v =>
      rw [hl] at hcell
      cases hcell
      exact ⟨by simp, himage⟩
  | reinstalled => exact hc.elim
  | declared => exact ⟨hm.mono.generation, hm.mono.sequences, hm.cells⟩
  | @accepted address data sourceEventId region offset _ _ _ _ _ m' hm' =>
    have hnamed : m'.Named (n + 1) := by
      rw [hm']
      exact named_commit hm (nodup_spanValues ..) (by simp) fun _ => hc
    exact ⟨hnamed.generation, hnamed.sequences, hnamed.cells⟩
  | @fetched address width transactionId region offset _ _ _ _ _ hm' =>
    subst hm'
    unfold materialize
    split
    · exact hm.mono
    · refine named_commit hm ?_ (by simp) isBlank_firstReadEvent
      rw [map_map]
      change (List.map id (m.missing (span region.memoryId offset width.toNat))).Nodup
      rw [map_id]
      exact (nodup_span region.memoryId offset width.toNat).filter _
  | storedNothing => exact hm.mono
  | stored => exact named_commit hm (nodup_storeCells ..) (by simp) fun _ => hc
  | warm => exact ⟨hm.mono.generation, hm.mono.sequences, hm.cells⟩
  | cold =>
    refine ⟨Nat.succ_le_succ hm.generation, fun id => ?_, fun k cell hcell => ?_⟩
    · rw [commitSequence_zero cfg (m.coldReset cfg) id rfl]
      exact Nat.zero_le _
    · have hbytes : (m.coldReset cfg).bytes.get? k = (m.initialImages.get? k).map fun v =>
        ⟨v, (m.generation + 1, 0), .initialImage, "initial-image"⟩ := Dict.get?_mapVal _ _ k
      rw [hbytes] at hcell
      obtain ⟨v, -, rfl⟩ := Option.map_eq_some_iff.1 hcell
      exact ⟨by simp, himage⟩

/-- Calls that name their writers leave named cells. -/
theorem named_run : ∀ {cs : List MemoryCall} {m : PersistentMemory} {n : ℕ}, m.Inv cfg →
    m.Named n → (∀ c ∈ cs, c.NamesWriter) → (Run.run (step cfg) m cs).Named (n + cs.length)
  | [], _, _, _, hn, _ => hn
  | c :: cs, m, n, hm, hn, hc => by
      have hstep : (m.step cfg c).Named (n + 1) := by
        unfold step
        cases h : (m.call cfg c).1 with
        | error e =>
          rw [call_error hm h]
          exact hn.mono
        | ok a => exact named_change hn (change_call (Prod.ext h rfl)) (hc c (.head _))
      have hrun := named_run (hm.call c) hstep fun d hd => hc d (mem_cons_of_mem c hd)
      rw [Run.run_cons, length_cons, Nat.add_comm cs.length, ← Nat.add_assoc]
      exact hrun

/-- **In a run without reset images and blank writers every byte is witnessable**, for the first
`2 ^ 64 - 1` calls. -/
theorem witnessable_run {cs : List MemoryCall} (hc : ∀ c ∈ cs, c.NamesWriter)
    (hlength : cs.length + 1 < 2 ^ 64) (k : ByteKey) :
    (Run.run (step cfg) (init cfg) cs).Witnessable k := by
  have hinit : (init cfg).Named 0 := by
    refine ⟨le_rfl, fun id => ?_, fun k cell hcell => (nomatch hcell)⟩
    rw [commitSequence_zero cfg (init cfg) id rfl]
  have hnamed := named_run (inv_init cfg) hinit hc
  rw [Nat.zero_add] at hnamed
  have hinv := inv_run cfg cs
  have hgeneration := hnamed.generation
  have hsequence := hnamed.sequences k.1
  unfold Witnessable
  split
  · rename_i cell hcell
    obtain ⟨hkind, hwriter⟩ := hnamed.cells k cell hcell
    obtain ⟨hfirst, hsecond, -⟩ := hinv.versioned k cell hcell
    exact ⟨hkind, hwriter, by omega, by omega⟩
  · exact ⟨by omega, by omega⟩

end PersistentMemory

open PersistentMemory in
/-- **A word of the memory is an instruction witness exactly when its four bytes are witnessable**, in
every state the memory reaches, and in a run without reset images and blank writers every word is. -/
theorem fetched_word_is_witness_iff (cfg : MemoryConfig) (cs : List MemoryCall) (address : ℤ)
    (transactionId : String) (s : ReadSnapshot) (region : MemoryRegion) (offset : ℕ)
    (hread : ((Run.run (step cfg) (init cfg) cs).call cfg (.read address 4 transactionId)).1 =
      .ok (.snapshot s)) (hplace : cfg.resolve address 4 false = .ok (region, offset)) (fetched : ℕ) :
    ((validFrozenInstruction fetched s.value (some (freezeSnapshot s))).isSome ↔
      ∀ i < 4, (Run.run (step cfg) (init cfg) cs).Witnessable (region.memoryId, offset + i)) ∧
    ((∀ c ∈ cs, c.NamesWriter) → cs.length + 1 < 2 ^ 64 →
      (validFrozenInstruction fetched s.value (some (freezeSnapshot s))).isSome) := by
  have hiff := passes_iff_witnessable hread hplace fetched
  exact ⟨hiff, fun hc hlength => hiff.mpr fun i _ => witnessable_run hc hlength _⟩

namespace Sample

/-- What a read of the first word returns after an image of four bytes. -/
def imageSnapshot : ReadSnapshot :=
  ⟨"t", "ram", 0, 0, [0x13, 0, 0, 0], List.replicate 4 (0, 0), List.replicate 4 "initial-image", [],
    List.replicate 4 .initialImage⟩

/-- What it returns after the image has been installed again. -/
def resetSnapshot : ReadSnapshot :=
  ⟨"t", "ram", 0, 0, [0x13, 0, 0, 0], List.replicate 4 (0, 1), List.replicate 4 "reset", [],
    List.replicate 4 .resetImage⟩

end Sample

open PersistentMemory in
/-- **A reset image is no witness**: the word is read back, and the matcher refuses it. -/
theorem reset_image_is_no_witness :
    ((Run.run (step exampleConfig) (init exampleConfig)
      [.preload 0 [0x13, 0, 0, 0], .reinstallImage 0 [0x13, 0, 0, 0] "reset"]).call exampleConfig
        (.read 0 4 "t")).1 = .ok (.snapshot Sample.resetSnapshot) ∧
    validFrozenInstruction 0 Sample.resetSnapshot.value
      (some (freezeSnapshot Sample.resetSnapshot)) = none := by
  refine ⟨by decide, ?_⟩
  rw [← Option.not_isSome_iff_eq_none, isSome_validFrozenInstruction rfl rfl rfl rfl]
  exact fun h => h.1 .resetImage (by decide) rfl

open PersistentMemory in
/-- The word of an initial image is a witness. -/
theorem initial_image_is_witness :
    (validFrozenInstruction 0 Sample.imageSnapshot.value
      (some (freezeSnapshot Sample.imageSnapshot))).isSome := by
  refine (fetched_word_is_witness_iff exampleConfig [.preload 0 [0x13, 0, 0, 0]] 0 "t"
    Sample.imageSnapshot exampleRegion 0 (by decide) (by decide) 0).2 ?_ (by decide)
  intro c hc
  rw [List.mem_singleton.mp hc]
  trivial

end MyFuzz
