import MyFuzz.Composition.RuntimeInvariant

/-!
# Composition/ImageLoading — the memory a test begins with

A test begins with an empty memory, and the beats of the images are written into it.  The last beat of an
image may be partial: its write enables only the bytes that there are.

    image ──imageBeats──▸ beats ──loadBeats──▸ exactly the bytes of the images

A byte that lies in a loaded memory beyond its image has no value yet; it reads as zero.
-/

namespace MyFuzz

namespace Contract

open Outcome List

variable {plan : ContractTransducerPlan} {s : ContractRuntime}

/-! ## Bytes of a span -/

theorem get?_fill (bytes : Bytes) (domain : String) (address value : ℕ) (lanes : List ℕ) (b : String × ℕ) :
    (fill bytes domain address value lanes).get? b =
      if b.1 = domain ∧ address ≤ b.2 ∧ b.2 - address ∈ lanes then some (byteAt value (b.2 - address))
      else bytes.get? b := by
  unfold fill
  induction lanes generalizing bytes with
  | nil => rw [foldl_nil, if_neg fun h => not_mem_nil h.2.2]
  | cons lane lanes ih =>
    rw [foldl_cons, ih, Dict.get?_set]
    by_cases hlane : b = (domain, address + lane)
    · subst hlane
      rw [if_pos rfl, Nat.add_sub_cancel_left, ite_self, if_pos ⟨rfl, Nat.le_add_right _ _,
        (.head _)⟩]
    · rw [if_neg hlane]
      refine if_congr (and_congr_right fun hdomain => and_congr_right fun hle => ?_) rfl rfl
      rw [mem_cons]
      refine ⟨.inr, fun h => h.resolve_left fun heq => hlane (Prod.ext hdomain ?_)⟩
      omega

variable {b : String × ℕ} {lane n byteCount k : ℕ} {bytes : List ℕ} {image : String × List ℕ}
  {beat : ImageBeat} {beats : List ImageBeat} {header : TestHeader}

/-- A byte that has a value keeps one. -/
theorem isSome_get?_fill {bytes : Bytes} {domain : String} {address value : ℕ} {lanes : List ℕ}
    (h : (bytes.get? b).isSome) : ((fill bytes domain address value lanes).get? b).isSome := by
  rw [get?_fill]
  split_ifs
  · rfl
  · exact h

theorem mem_enabledLanes {byteEnable widthBytes : ℕ} :
    lane ∈ enabledLanes byteEnable widthBytes ↔ lane < widthBytes ∧ byteEnable >>> lane &&& 1 ≠ 0 := by
  unfold enabledLanes
  rw [mem_filter, mem_range, decide_eq_true_iff]

/-- A mask of the low lanes. -/
theorem mask_lane : (2 ^ n - 1) >>> lane &&& 1 ≠ 0 ↔ lane < n := by
  have htest := Nat.testBit_two_pow_sub_one n lane
  unfold Nat.testBit at htest
  rw [Nat.and_comm]
  by_cases hlt : lane < n
  · rw [decide_eq_true hlt, bne_iff_ne] at htest
    exact iff_of_true htest hlt
  · rw [decide_eq_false hlt] at htest
    exact iff_of_false (not_not.2 (bne_eq_false_iff_eq.1 htest)) hlt

theorem byteAt_eq (value index : ℕ) : byteAt value index = value / 2 ^ (8 * index) % 256 := by
  unfold byteAt
  rw [Nat.shiftRight_eq_div_pow]
  exact Nat.and_two_pow_sub_one_eq_mod _ 8

theorem byteAt_lt (value index : ℕ) : byteAt value index < 256 := by
  rw [byteAt_eq]
  exact Nat.mod_lt _ (by decide)

theorem littleEndian_lt (h : ∀ byte ∈ bytes, byte < 256) : littleEndian bytes < 256 ^ bytes.length := by
  induction bytes with
  | nil => exact Nat.one_pos
  | cons byte bytes ih =>
    obtain ⟨hbyte, hrest⟩ := forall_mem_cons.1 h
    have hlt := ih hrest
    unfold littleEndian
    rw [length_cons, pow_succ]
    omega

/-- **The bytes of a number are those it was made of.** -/
theorem byteAt_littleEndian (h : ∀ byte ∈ bytes, byte < 256) (index : ℕ) :
    byteAt (littleEndian bytes) index = bytes.getD index 0 := by
  rw [byteAt_eq]
  induction bytes generalizing index with
  | nil => rw [littleEndian, Nat.zero_div, getD_nil]
  | cons byte bytes ih =>
    obtain ⟨hbyte, hrest⟩ := forall_mem_cons.1 h
    unfold littleEndian
    cases index with
    | zero =>
      rw [getD_cons_zero, Nat.mul_zero, pow_zero, Nat.div_one, Nat.add_mul_mod_self_left]
      exact Nat.mod_eq_of_lt hbyte
    | succ index =>
      rw [getD_cons_succ, ← ih hrest index, show 8 * (index + 1) = 8 + 8 * index by ring, pow_add,
        ← Nat.div_div_eq_div_mul, show (2 : ℕ) ^ 8 = 256 from rfl,
        Nat.add_mul_div_left _ _ (by decide), Nat.div_eq_of_lt hbyte, Nat.zero_add]

/-! ## Beats of an image -/

/-- **The byte that an image gives**: zero beyond its end, and none where nothing is loaded. -/
def imageByte (plan : ContractTransducerPlan) (b : String × ℕ) : Option ℕ :=
  if ∃ w ∈ plan.memoryWindows, w.physicalMemoryId = b.1 ∧ w.initializationPolicy.loaded = true then
    some (((Dict.lookup b.1 plan.memoryImages).getD []).getD b.2 0)
  else none

/-- A beat that can be written, with the bytes of an image. -/
structure BeatOk (plan : ContractTransducerPlan) (beat : ImageBeat) : Prop where
  span : beat.offset + plan.byteCount ≤ 2 ^ 64
  value : beat.value < 2 ^ (8 * plan.byteCount)
  enable : beat.byteEnable < 2 ^ plan.byteCount
  byte : ∀ lane < plan.byteCount,
    imageByte plan (beat.physicalMemoryId, beat.offset + lane) = some (byteAt beat.value lane)

theorem imageByte_of_mem (hplan : WellFormed plan) (himage : image ∈ plan.memoryImages) (offset : ℕ) :
    imageByte plan (image.1, offset) = some (image.2.getD offset 0) := by
  obtain ⟨w, hw, hid, hloaded, -, -⟩ := hplan.images.each image himage
  unfold imageByte
  rw [if_pos ⟨w, hw, hid, hloaded⟩, Dict.lookup_eq_some_of_mem hplan.images.nodup himage]
  rfl

/-- A beat that an image reaches starts inside it. -/
theorem lt_populatedBeats_iff (hpos : 0 < byteCount) {image : List ℕ} :
    k < populatedBeats byteCount image ↔ k * byteCount < image.length := by
  unfold populatedBeats
  rw [← Nat.succ_le_iff, Nat.le_div_iff_mul_le hpos, Nat.succ_mul]
  omega

theorem getD_chunk {image : List ℕ} (hlane : lane < byteCount) :
    ((image.drop (k * byteCount)).take byteCount).getD lane 0 = image.getD (k * byteCount + lane) 0 := by
  rw [getD_eq_getElem?_getD, getD_eq_getElem?_getD, getElem?_take_of_lt hlane,
    getElem?_drop]

theorem beatOk_of_mem (hplan : WellFormed plan) (hbeat : beat ∈ planMemoryImageBeats plan) :
    BeatOk plan beat := by
  have hbytes := hplan.byteCount_eq
  have hpos : 0 < plan.byteCount := by omega
  obtain ⟨image, himage, hbeat⟩ := mem_flatMap.1 hbeat
  obtain ⟨k, hk, rfl⟩ := mem_map.1 hbeat
  rw [mem_range, lt_populatedBeats_iff hpos] at hk
  obtain ⟨w, hw, -, -, hlength, hbyte⟩ := hplan.images.each image himage
  set chunk := (image.2.drop (k * plan.byteCount)).take plan.byteCount with hchunk
  have hsmall : ∀ byte ∈ chunk, byte < 256 := fun byte hmem =>
    hbyte byte (mem_of_mem_drop (mem_of_mem_take hmem))
  have hle : chunk.length ≤ plan.byteCount := by
    rw [hchunk, length_take]
    exact min_le_left _ _
  refine ⟨?_, ?_, ?_, fun lane hlane => ?_⟩
  · -- The beat starts inside the image, so inside a window of whole beats.
    obtain ⟨-, hsize, -, hinside⟩ := hplan.windows.each w hw
    obtain ⟨beats, hbeats⟩ := hsize
    have hlimit : 2 ^ plan.addressWidth ≤ 2 ^ 64 := Nat.pow_le_pow_right (by decide) hplan.addressWidth_le
    have hlt : k < beats := by
      refine Nat.lt_of_mul_lt_mul_left (a := plan.byteCount) ?_
      rw [← hbeats, Nat.mul_comm]
      omega
    have hnext : plan.byteCount * (k + 1) ≤ plan.byteCount * beats := Nat.mul_le_mul_left _ hlt
    rw [Nat.mul_add, Nat.mul_one, ← hbeats, Nat.mul_comm plan.byteCount k] at hnext
    dsimp only
    omega
  · rw [pow_mul]
    exact (littleEndian_lt hsmall).trans_le (Nat.pow_le_pow_right (by decide) hle)
  · have hpow : 2 ^ chunk.length ≤ 2 ^ plan.byteCount := Nat.pow_le_pow_right (by decide) hle
    have hone := Nat.two_pow_pos chunk.length
    dsimp only
    omega
  · rw [imageByte_of_mem hplan himage]
    rw [byteAt_littleEndian hsmall, hchunk, getD_chunk hlane]

/-- Every byte of an image lies in an enabled lane of a beat. -/
theorem exists_beat (hplan : WellFormed plan) (himage : image ∈ plan.memoryImages) {offset : ℕ}
    (hoffset : offset < image.2.length) :
    ∃ beat ∈ planMemoryImageBeats plan, beat.physicalMemoryId = image.1 ∧ beat.offset ≤ offset ∧
      offset - beat.offset ∈ enabledLanes beat.byteEnable plan.byteCount := by
  have hbytes := hplan.byteCount_eq
  have hpos : 0 < plan.byteCount := by omega
  have hsplit := Nat.div_add_mod' offset plan.byteCount
  have hmod := Nat.mod_lt offset hpos
  refine ⟨⟨image.1, offset / plan.byteCount * plan.byteCount, _, _⟩,
    mem_flatMap.2 ⟨image, himage, mem_map.2 ⟨offset / plan.byteCount, ?_, rfl⟩⟩, rfl,
    Nat.div_mul_le_self _ _, ?_⟩
  · rw [mem_range, lt_populatedBeats_iff hpos]
    omega
  · dsimp only
    rw [mem_enabledLanes, mask_lane, length_take, length_drop]
    omega

theorem length_planMemoryImageBeats (plan : ContractTransducerPlan) :
    (planMemoryImageBeats plan).length =
      (plan.memoryImages.map fun e => populatedBeats plan.byteCount e.2).sum := by
  unfold planMemoryImageBeats
  rw [length_flatMap]
  congr 1
  refine map_congr_left fun image _ => ?_
  rw [imageBeats, length_map, length_range]

/-! ## Loading -/

/-- What a beat that can be written leaves. -/
def loadedWith (plan : ContractTransducerPlan) (s : ContractRuntime) (beat : ImageBeat) : ContractRuntime :=
  { s with
    memory := fill s.memory beat.physicalMemoryId beat.offset beat.value
      (enabledLanes beat.byteEnable plan.byteCount)
    allocatedEntries := Sequence.addNew s.allocatedEntries (beat.physicalMemoryId, beat.offset)
    memoryProvenance := s.memoryProvenance.set (beat.physicalMemoryId, beat.offset) .preloaded }

theorem loadBeats_eq (hpos : 0 < plan.byteCount) (h : ∀ beat ∈ beats, BeatOk plan beat)
    (s : ContractRuntime) : loadBeats plan beats s = (.ok (), beats.foldl (loadedWith plan) s) := by
  induction beats generalizing s with
  | nil => rfl
  | cons beat beats ih =>
    obtain ⟨hbeat, hrest⟩ := forall_mem_cons.1 h
    have hload : loadBeat plan s beat = .ok (loadedWith plan s beat) := by
      unfold loadBeat
      rw [writeSpan_ok hpos hbeat.span hbeat.value hbeat.enable]
      rfl
    unfold loadBeats
    rw [hload]
    exact ih hrest _

/-- **A test that has begun**, with some beats loaded. -/
structure Loading (plan : ContractTransducerPlan) (header : TestHeader) (beats : ℕ)
    (s : ContractRuntime) : Prop where
  protocol : s.protocol = {}
  header : s.header = some header
  entropy : s.acceptedEntropy = none
  faults : s.faultCounts = Dict.empty
  entries : ∀ key, key ∈ s.allocatedEntries ↔ (s.memoryProvenance.get? key).isSome
  nodup : s.allocatedEntries.Nodup
  length : s.allocatedEntries.length ≤ beats
  byte : ∀ b v, s.memory.get? b = some v → imageByte plan b = some v
  small : ∀ b v, s.memory.get? b = some v → v < 256

theorem length_addNew_le {α : Type} [DecidableEq α] (l : List α) (a : α) :
    (Sequence.addNew l a).length ≤ l.length + 1 := by
  unfold Sequence.addNew
  split_ifs
  · exact Nat.le_succ _
  · rw [length_append, length_singleton]

theorem loading_loadedWith {beats : ℕ} (hs : Loading plan header beats s) (hbeat : BeatOk plan beat) :
    Loading plan header (beats + 1) (loadedWith plan s beat) where
  protocol := hs.protocol
  header := hs.header
  entropy := hs.entropy
  faults := hs.faults
  entries := fun key => by
    unfold loadedWith
    rw [Sequence.mem_addNew, hs.entries key]
    exact isSome_get?_set.symm
  nodup := Sequence.nodup_addNew hs.nodup _
  length := (length_addNew_le _ _).trans (Nat.succ_le_succ hs.length)
  byte := fun b v hget => by
    unfold loadedWith at hget
    rw [get?_fill] at hget
    split_ifs at hget with hlane
    · obtain ⟨hdomain, hle, hmem⟩ := hlane
      have hbyte := hbeat.byte _ (mem_enabledLanes.1 hmem).1
      rw [Nat.add_sub_cancel' hle, ← hdomain] at hbyte
      exact hbyte.trans hget
    · exact hs.byte b v hget
  small := fun b v hget => by
    unfold loadedWith at hget
    rw [get?_fill] at hget
    split_ifs at hget
    · exact Option.some.inj hget ▸ byteAt_lt _ _
    · exact hs.small b v hget

theorem loading_foldl (hbeats : ∀ beat ∈ beats, BeatOk plan beat) (hs : Loading plan header n s) :
    Loading plan header (n + beats.length) (beats.foldl (loadedWith plan) s) := by
  induction beats generalizing s n with
  | nil => exact hs
  | cons beat beats ih =>
    obtain ⟨hbeat, hrest⟩ := forall_mem_cons.1 hbeats
    have hload := ih hrest (loading_loadedWith hs hbeat)
    rwa [length_cons, Nat.add_comm beats.length 1, ← Nat.add_assoc]

/-- A loaded byte has a value. -/
theorem isSome_foldl 
    (h : (s.memory.get? b).isSome ∨ ∃ beat ∈ beats, beat.physicalMemoryId = b.1 ∧ beat.offset ≤ b.2 ∧
      b.2 - beat.offset ∈ enabledLanes beat.byteEnable plan.byteCount) :
    ((beats.foldl (loadedWith plan) s).memory.get? b).isSome := by
  induction beats generalizing s with
  | nil => exact h.resolve_right fun ⟨_, hmem, _⟩ => not_mem_nil hmem
  | cons beat beats ih =>
    refine ih ?_
    rcases h with hsome | ⟨beat', hmem, hid, hle, hlane⟩
    · exact .inl (isSome_get?_fill hsome)
    · rcases mem_cons.1 hmem with rfl | hmem
      · left
        unfold loadedWith
        rw [get?_fill, if_pos ⟨hid.symm, hle, hlane⟩]
        rfl
      · exact .inr ⟨beat', hmem, hid, hle, hlane⟩

/-- **A test begins with the bytes of its images**, or its header is refused and nothing changes. -/
theorem beginTest_cases (hplan : WellFormed plan) (s : ContractRuntime) (header : TestHeader) :
    (∃ e, checkHeader plan header = .error e ∧ beginTest plan s header = (.error e, s)) ∨
      ∃ s', beginTest plan s header = (.ok (), s') ∧ Loading plan header plan.memoryCapacityEntries s' ∧
        ∀ b v, s'.memory.get? b = none → imageByte plan b = some v → v = 0 := by
  have hbytes := hplan.byteCount_eq
  unfold beginTest
  cases hcheck : checkHeader plan header with
  | error e => exact .inl ⟨e, rfl, rfl⟩
  | ok _ =>
    right
    have hbeats : ∀ beat ∈ planMemoryImageBeats plan, BeatOk plan beat :=
      fun beat hbeat => beatOk_of_mem hplan hbeat
    have hfresh : Loading plan header 0 { header := some header } :=
      ⟨rfl, rfl, rfl, rfl, (inv_init plan).entries, nodup_nil, le_rfl, fun _ _ h => (by cases h),
        fun _ _ h => (by cases h)⟩
    have hload := loading_foldl hbeats hfresh
    refine ⟨_, loadBeats_eq (by omega) hbeats _, ?_, fun b v hnone hbyte => ?_⟩
    · have hlength : 0 + (planMemoryImageBeats plan).length ≤ plan.memoryCapacityEntries := by
        rw [Nat.zero_add, length_planMemoryImageBeats]
        exact hplan.images.fits
      exact { hload with length := hload.length.trans hlength }
    · by_contra hne
      unfold imageByte at hbyte
      split_ifs at hbyte
      · cases hbyte
        cases hlookup : Dict.lookup b.1 plan.memoryImages with
        | none =>
          rw [hlookup] at hne
          exact hne (getD_nil ..)
        | some image =>
          rw [hlookup, Option.getD_some] at hne
          have hlt : b.2 < image.length := by
            by_contra hge
            exact hne (getD_eq_default _ _ (not_lt.1 hge))
          obtain ⟨beat, hbeat, hid, hle, hlane⟩ := exists_beat hplan (Dict.mem_of_lookup_eq_some hlookup) hlt
          have hsome : (((planMemoryImageBeats plan).foldl (loadedWith plan)
              { header := some header }).memory.get? b).isSome :=
            isSome_foldl (.inr ⟨beat, hbeat, hid, hle, hlane⟩)
          rw [hnone] at hsome
          cases hsome

theorem inv_loading (h : Loading plan header plan.memoryCapacityEntries s) : Inv plan s where
  pending := fun r hr => by
    rw [h.protocol] at hr
    cases hr
  entries := h.entries
  nodup := h.nodup
  capacity := h.length
  age := by
    rw [h.protocol]
    exact Nat.zero_le _
  acceptAge := by
    rw [h.protocol]
    exact Nat.zero_le _

end Contract

end MyFuzz
