import MyFuzz.Integration.RfuzzWire

/-!
# Integration/RfuzzFraming — what a buffer frames is what is read from it

An input buffer is accepted exactly when it begins with the encoding of a batch within the bounds,
and that batch is
returned (`parseInputBuffer_eq_ok_iff`).  What is written to a coverage buffer is read back test by test
(`readable_of_encode`):

    batch ──encode──▸ bytes ++ rest ──parse──▸ batch
    coverage of test i ──▸ bytes from 8 + i · stride on ──▸ coverage of test i
-/

namespace MyFuzz

open Bytes Buffer Outcome List

namespace RfuzzWire

variable {data : List UInt8} {offset width value : ℕ} {rest : List UInt8}

/-! ## Integers -/

theorem unpackFrom_eq_ok : unpackFrom width data offset = .ok value ↔
    offset + width ≤ data.length ∧ value < 256 ^ width ∧ region data offset width = beBytes width value := by
  unfold unpackFrom
  rw [ensure_ok]
  refine and_congr_right fun h => ?_
  have hlength := length_region h
  constructor
  · intro hread
    cases hread
    have hlt := readBe_lt (region data offset width)
    rw [hlength] at hlt
    exact ⟨hlt, (beBytes_readBe_of_length hlength).symm⟩
  · rintro ⟨hvalue, hregion⟩
    rw [hregion, readBe_beBytes hvalue]
    rfl

/-- An integer at the front of the rest, and what follows it. -/
theorem unpackFrom_of_drop (hoffset : offset ≤ data.length) (hvalue : value < 256 ^ width)
    (h : data.drop offset = beBytes width value ++ rest) :
    unpackFrom width data offset = .ok value ∧ offset + width ≤ data.length ∧
      data.drop (offset + width) = rest := by
  have hlength := add_length_le_of_drop hoffset h
  rw [length_beBytes] at hlength
  exact ⟨unpackFrom_eq_ok.2 ⟨hlength, hvalue, region_eq_of_drop h (length_beBytes _ _)⟩, hlength,
    drop_add_of_drop h (length_beBytes _ _)⟩

/-- The rest begins with the integer that was unpacked. -/
theorem drop_of_unpackFrom (h : unpackFrom width data offset = .ok value) :
    data.drop offset = beBytes width value ++ data.drop (offset + width) := by
  rw [← (unpackFrom_eq_ok.1 h).2.2, region_append_drop]

/-! ## Records -/

variable {inputBytes maxCycles : ℕ}

theorem length_recordsAt (data : List UInt8) (inputBytes offset cycles : ℕ) :
    (recordsAt data inputBytes offset cycles).length = cycles := by
  rw [recordsAt, length_map, length_range]

theorem recordsAt_succ (data : List UInt8) (inputBytes offset cycles : ℕ) :
    recordsAt data inputBytes offset (cycles + 1) =
      region data offset inputBytes :: recordsAt data inputBytes (offset + inputBytes) cycles := by
  unfold recordsAt
  rw [range_succ_eq_map, map_cons, map_map, Nat.zero_mul, Nat.add_zero]
  refine congrArg _ (map_congr_left fun index _ => ?_)
  rw [Function.comp_apply, Nat.succ_mul, Nat.add_assoc, Nat.add_comm inputBytes]

/-- **The records of a test are the bytes after its count.** -/
theorem flatten_recordsAt : ∀ cycles offset : ℕ, (recordsAt data inputBytes offset cycles).flatten ++
    data.drop (offset + cycles * inputBytes) = data.drop offset
  | 0, offset => by
      rw [Nat.zero_mul]
      rfl
  | cycles + 1, offset => by
      rw [recordsAt_succ, flatten_cons, append_assoc, Nat.succ_mul, Nat.add_comm (cycles * inputBytes),
        ← Nat.add_assoc, flatten_recordsAt cycles, region_append_drop]

theorem recordsAt_of_drop : ∀ {records : List CycleRecord} {offset : ℕ},
    (∀ record ∈ records, record.length = inputBytes) → data.drop offset = records.flatten ++ rest →
      recordsAt data inputBytes offset records.length = records
  | [], _, _, _ => rfl
  | record :: records, offset, hlength, h => by
      have hrecord := hlength record (.head _)
      rw [flatten_cons, append_assoc] at h
      rw [length_cons, recordsAt_succ, region_eq_of_drop h hrecord,
        recordsAt_of_drop (fun r hr => hlength r (.tail _ hr)) (drop_add_of_drop h hrecord)]

theorem length_flatten {records : List CycleRecord} (h : ∀ record ∈ records, record.length = inputBytes) :
    records.flatten.length = records.length * inputBytes := by
  rw [List.length_flatten, List.map_congr_left h, List.map_const', List.sum_replicate, smul_eq_mul]

theorem length_of_mem_recordsAt {cycles : ℕ} (h : offset + cycles * inputBytes ≤ data.length)
    {record : CycleRecord}
    (hrecord : record ∈ recordsAt data inputBytes offset cycles) : record.length = inputBytes := by
  obtain ⟨index, hindex, rfl⟩ := mem_map.1 hrecord
  refine length_region ?_
  have hle : (index + 1) * inputBytes ≤ cycles * inputBytes :=
    Nat.mul_le_mul_right _ (mem_range.1 hindex)
  rw [Nat.succ_mul] at hle
  omega

/-! ## Tests -/

/-- The bytes of a test. -/
def encodeTest (cycles : List CycleRecord) : List UInt8 := beBytes 8 cycles.length ++ cycles.flatten

/-- A test of a batch within the bounds. -/
structure TestFits (inputBytes maxCycles : ℕ) (cycles : List CycleRecord) : Prop where
  bounds : 1 ≤ cycles.length ∧ cycles.length ≤ maxCycles
  records : ∀ record ∈ cycles, record.length = inputBytes

/-- **Tests are parsed exactly when the rest begins with their bytes.** -/
theorem parseTests_eq_ok (hcycles : maxCycles ≤ 65535) :
    ∀ {count offset : ℕ} {tests : List (List CycleRecord)},
    offset ≤ data.length → (parseTests data inputBytes maxCycles count offset = .ok tests ↔
      tests.length = count ∧ (∀ cycles ∈ tests, TestFits inputBytes maxCycles cycles) ∧
        ∃ rest, data.drop offset = tests.flatMap encodeTest ++ rest) := by
  intro count
  induction count with
  | zero =>
    intro offset tests hoffset
    unfold parseTests
    constructor
    · intro h
      cases h
      exact ⟨rfl, nofun, _, rfl⟩
    · rintro ⟨h, -, -⟩
      rw [length_eq_zero_iff.1 h]
  | succ count ih =>
    intro offset tests hoffset
    unfold parseTests
    constructor
    · intro h
      obtain ⟨-, h⟩ := ensure_ok.1 h
      obtain ⟨cycles, hunpack, h⟩ := bind_ok.1 h
      obtain ⟨hbounds, hstop, h⟩ := ensure_ok₂ h
      obtain ⟨later, hlater, h⟩ := bind_ok.1 h
      cases h
      obtain ⟨hcount, hfits, rest, hrest⟩ := (ih (not_lt.1 hstop)).1 hlater
      refine ⟨congrArg (· + 1) hcount, forall_mem_cons.2 ⟨⟨?_, fun record hrecord => ?_⟩, hfits⟩, rest, ?_⟩
      · rwa [length_recordsAt]
      · exact length_of_mem_recordsAt (not_lt.1 hstop) hrecord
      · rw [drop_of_unpackFrom hunpack, ← flatten_recordsAt cycles (offset + 8), hrest, flatMap_cons,
          encodeTest, length_recordsAt, append_assoc, append_assoc]
    · rintro ⟨hcount, hfits, rest, h⟩
      obtain ⟨cycles, later, rfl⟩ := exists_cons_of_length_eq_add_one hcount
      obtain ⟨hfit, hfits⟩ := forall_mem_cons.1 hfits
      rw [flatMap_cons, encodeTest, append_assoc, append_assoc] at h
      have hvalue : cycles.length < 256 ^ 8 := by
        have := hfit.bounds.2
        omega
      obtain ⟨hunpack, hlength, hdrop⟩ := unpackFrom_of_drop hoffset hvalue h
      have hstop := add_length_le_of_drop hlength hdrop
      rw [length_flatten hfit.records] at hstop
      rw [ensure_of (by omega), ok_bind, hunpack, ok_bind, ensure_of hfit.bounds, ok_bind]
      dsimp only
      rw [ensure_of (by omega), ok_bind, (ih hstop).2 ⟨Nat.succ.inj hcount, hfits, rest,
        drop_add_of_drop hdrop (length_flatten hfit.records)⟩, ok_bind, recordsAt_of_drop hfit.records hdrop]
      rfl

/-! ## Input buffers -/

/-- The bytes of a batch. -/
def InputBatch.encode (batch : InputBatch) : List UInt8 :=
  packed [(4, inputMagic), (4, batch.bufferId), (2, batch.tests.length), (2, 0), (2, 0), (2, 0)] ++
    batch.tests.flatMap encodeTest

/-- **The buffer frames a batch within the bounds**: it begins with the bytes of the batch. -/
structure Frames (data : List UInt8) (inputBytes maxCycles maxBytes : ℤ) (batch : InputBatch) : Prop where
  inputBytes_eq : inputBytes = batch.inputBytes
  maxCycles_bounds : 1 ≤ maxCycles ∧ maxCycles ≤ 65535
  maxBytes_bounds : 1 ≤ maxBytes ∧ maxBytes ≤ maxBufferBytes
  size : data.length ≤ maxBytes
  cycles_le : ∀ cycles ∈ batch.tests, (cycles.length : ℤ) ≤ maxCycles
  isPrefix : batch.encode <+: data

theorem positive_eq_ok {value : ℤ} {label : String} {maximum n : ℕ} :
    positive value label maximum = .ok n ↔ value = n ∧ 1 ≤ n ∧ n ≤ maximum := by
  unfold positive
  rw [ensure_ok]
  constructor
  · rintro ⟨hbounds, h⟩
    cases h
    omega
  · rintro ⟨rfl, hbounds⟩
    exact ⟨by omega, rfl⟩

variable {bufferId index : ℕ} {output result : List UInt8}
  {test : (List CycleRecord × List UInt8) × ℕ} {count : ℤ} {capacity : Option ℤ}

theorem make_eq_ok {inputBytes : ℕ} {tests : List (List CycleRecord)} {batch : InputBatch} :
    InputBatch.make bufferId inputBytes tests = .ok batch ↔
      batch.bufferId = bufferId ∧ batch.inputBytes = inputBytes ∧ batch.tests = tests := by
  unfold InputBatch.make
  constructor
  · intro h
    split_ifs at h
    cases h
    exact ⟨rfl, rfl, rfl⟩
  · rintro ⟨rfl, rfl, rfl⟩
    rw [dif_pos batch.bufferId_le, dif_pos batch.inputBytes_bounds, dif_pos batch.shape,
      dif_pos batch.cycles_bounds, dif_pos batch.record_length]

theorem length_header (bufferId count : ℕ) :
    (packed [(4, inputMagic), (4, bufferId), (2, count), (2, 0), (2, 0), (2, 0)]).length = 16 := by
  simp only [packed, flatMap_cons, flatMap_nil, length_append, length_beBytes, length_nil]

/-- The six integers at the front of a buffer. -/
theorem header_iff {count : ℕ} :
    (∃ rest, data = packed [(4, inputMagic), (4, bufferId), (2, count), (2, 0),
    (2, 0), (2, 0)] ++ rest) ∧ bufferId < 256 ^ 4 ∧ count < 256 ^ 2 ↔
      unpackFrom 4 data 0 = .ok inputMagic ∧ unpackFrom 4 data 4 = .ok bufferId ∧
        unpackFrom 2 data 8 = .ok count ∧
        unpackFrom 2 data 10 = .ok 0 ∧ unpackFrom 2 data 12 = .ok 0 ∧ unpackFrom 2 data 14 = .ok 0 := by
  simp only [packed, flatMap_cons, flatMap_nil, append_assoc, nil_append]
  constructor
  · rintro ⟨⟨rest, h⟩, hid, hcount⟩
    rw [← drop_zero (l := data)] at h
    obtain ⟨h0, hlength, h⟩ := unpackFrom_of_drop (Nat.zero_le _) (by decide) h
    obtain ⟨h4, hlength, h⟩ := unpackFrom_of_drop hlength hid h
    obtain ⟨h8, hlength, h⟩ := unpackFrom_of_drop hlength hcount h
    obtain ⟨h10, hlength, h⟩ := unpackFrom_of_drop hlength (by decide) h
    obtain ⟨h12, hlength, h⟩ := unpackFrom_of_drop hlength (by decide) h
    obtain ⟨h14, hlength, h⟩ := unpackFrom_of_drop hlength (by decide) h
    exact ⟨h0, h4, h8, h10, h12, h14⟩
  · rintro ⟨h0, h4, h8, h10, h12, h14⟩
    refine ⟨⟨data.drop 16, ?_⟩, (unpackFrom_eq_ok.1 h4).2.1, (unpackFrom_eq_ok.1 h8).2.1⟩
    rw [← drop_of_unpackFrom h14, ← drop_of_unpackFrom h12, ← drop_of_unpackFrom h10, ← drop_of_unpackFrom h8,
      ← drop_of_unpackFrom h4, ← drop_of_unpackFrom h0, drop_zero]

/-- **A buffer is accepted exactly when it frames a batch within the bounds**, and that batch is returned. -/
theorem parseInputBuffer_eq_ok {inputBytes maxCycles maxBytes : ℤ} {batch : InputBatch} :
    parseInputBuffer data inputBytes maxCycles maxBytes = .ok batch ↔
      Frames data inputBytes maxCycles maxBytes batch := by
  unfold parseInputBuffer
  constructor
  · intro h
    obtain ⟨size, hpsize, bound, hpbound, limit, hplimit, h⟩ := bind_ok₃ h
    obtain ⟨⟨-, hlong, hshort⟩, h⟩ := ensure_ok.1 h
    obtain ⟨magic, hmagic, bufferId, hid, count, hcount, h⟩ := bind_ok₃ h
    obtain ⟨r0, hr0, r1, hr1, r2, hr2, h⟩ := bind_ok₃ h
    obtain ⟨⟨rfl, -, rfl, rfl, rfl⟩, hparse⟩ := ensure_ok.1 h
    obtain ⟨tests, htests, hmake⟩ := bind_ok.1 hparse
    obtain ⟨rfl, rfl, rfl⟩ := make_eq_ok.1 hmake
    obtain ⟨rfl, -⟩ := positive_eq_ok.1 hpsize
    obtain ⟨rfl, hbound⟩ := positive_eq_ok.1 hpbound
    obtain ⟨rfl, hlimit⟩ := positive_eq_ok.1 hplimit
    obtain ⟨hlength, hfits, rest, hrest⟩ := (parseTests_eq_ok hbound.2 hlong).1 htests
    obtain ⟨⟨rest', hheader⟩, -, -⟩ := header_iff.2 ⟨hmagic, hid, hcount, hr0, hr1, hr2⟩
    refine ⟨rfl, by omega, by omega, by omega, fun cycles hcycles => ?_, rest, ?_⟩
    · exact Int.ofNat_le.2 (hfits cycles hcycles).bounds.2
    · have hdrop : data.drop 16 = rest' := by
        rw [hheader, drop_left' (length_header _ _)]
      rw [InputBatch.encode, append_assoc, ← hrest, hdrop, hheader, hlength]
  · rintro ⟨rfl, hbound, hlimit, hshort, hcycles, rest, h⟩
    obtain ⟨bound, rfl⟩ := Int.eq_ofNat_of_zero_le (show 0 ≤ maxCycles by omega)
    obtain ⟨limit, rfl⟩ := Int.eq_ofNat_of_zero_le (show 0 ≤ maxBytes by omega)
    rw [InputBatch.encode, append_assoc] at h
    have hid := batch.bufferId_le
    have hshape := batch.shape
    obtain ⟨hmagic, hid, hcount, hr0, hr1, hr2⟩ := header_iff.1
      ⟨⟨_, h.symm⟩, Nat.lt_succ_of_le batch.bufferId_le, Nat.lt_succ_of_le batch.shape.2.2⟩
    have hlong : 16 ≤ data.length := (unpackFrom_eq_ok.1 hr2).1
    have hfits : ∀ cycles ∈ batch.tests, TestFits batch.inputBytes bound cycles := fun cycles hmem =>
      ⟨⟨(batch.cycles_bounds cycles hmem).1, Int.ofNat_le.1 (hcycles cycles hmem)⟩,
        batch.record_length cycles hmem⟩
    have htests := (parseTests_eq_ok (by omega) hlong).2
      ⟨rfl, hfits, rest, by rw [← h, drop_left' (length_header _ _)]⟩
    rw [positive_eq_ok.2 ⟨rfl, batch.inputBytes_bounds⟩, ok_bind,
      positive_eq_ok.2 ⟨rfl, by omega, by omega⟩, ok_bind,
      positive_eq_ok.2 ⟨rfl, by omega, by omega⟩, ok_bind,
      ensure_of ⟨hshape.1, hlong, by omega⟩, ok_bind, hmagic, ok_bind, hid, ok_bind, hcount, ok_bind,
      hr0, ok_bind, hr1, ok_bind, hr2, ok_bind, ensure_of ⟨rfl, by omega, rfl, rfl, rfl⟩, ok_bind,
        htests, ok_bind]
    exact make_eq_ok.2 ⟨rfl, rfl, rfl⟩

/-! ## Refusals -/

theorem onlyValueError_positive (value : ℤ) (label : String) (maximum : ℕ) :
    OnlyValueError (positive value label maximum) := by
  exact onlyValueError_ensure_bind.2 fun _ => onlyValueError_ok _

/-- An integer that is there is unpacked. -/
theorem exists_unpackFrom (h : offset + width ≤ data.length) :
    ∃ value, unpackFrom width data offset = .ok value := by
  unfold unpackFrom
  rw [ensure_of h]
  exact ⟨_, rfl⟩

theorem onlyValueError_unpackFrom_bind {β : Type} {f : ℕ → Except Exn β} (h : offset + width ≤ data.length)
    (hf : ∀ value, OnlyValueError (f value)) : OnlyValueError (unpackFrom width data offset >>= f) := by
  obtain ⟨value, hvalue⟩ := exists_unpackFrom h
  rw [hvalue, ok_bind]
  exact hf value

theorem onlyValueError_make (bufferId inputBytes : ℕ) (tests : List (List CycleRecord)) :
    OnlyValueError (InputBatch.make bufferId inputBytes tests) := by
  unfold InputBatch.make
  split_ifs <;> first | exact onlyValueError_ok _ | exact onlyValueError_error

theorem onlyValueError_parseTests (data : List UInt8) (inputBytes maxCycles : ℕ) : ∀ count offset : ℕ,
    OnlyValueError (parseTests data inputBytes maxCycles count offset)
  | 0, _ => onlyValueError_ok _
  | count + 1, offset => by
      refine onlyValueError_ensure_bind.2 fun hlength =>
        onlyValueError_unpackFrom_bind (not_lt.1 hlength) fun cycles => ?_
      refine onlyValueError_ensure_bind.2 fun _ => onlyValueError_ensure_bind.2 fun _ => ?_
      exact onlyValueError_bind.2 ⟨onlyValueError_parseTests data inputBytes maxCycles count _,
        fun _ _ => onlyValueError_ok _⟩

/-- **A buffer that is not accepted is refused with a `ValueError`**: the header and the counts are
unpacked only where the buffer holds them. -/
theorem onlyValueError_parseInputBuffer (data : List UInt8) (inputBytes maxCycles maxBytes : ℤ) :
    OnlyValueError (parseInputBuffer data inputBytes maxCycles maxBytes) := by
  refine onlyValueError_bind.2 ⟨onlyValueError_positive _ _ _, fun size _ => ?_⟩
  refine onlyValueError_bind.2 ⟨onlyValueError_positive _ _ _, fun bound _ => ?_⟩
  refine onlyValueError_bind.2 ⟨onlyValueError_positive _ _ _, fun limit _ => ?_⟩
  refine onlyValueError_ensure_bind.2 fun ⟨_, hlong, _⟩ => ?_
  refine onlyValueError_unpackFrom_bind (by omega) fun magic => ?_
  refine onlyValueError_unpackFrom_bind (by omega) fun bufferId => ?_
  refine onlyValueError_unpackFrom_bind (by omega) fun count => ?_
  refine onlyValueError_unpackFrom_bind (by omega) fun r0 => ?_
  refine onlyValueError_unpackFrom_bind (by omega) fun r1 => ?_
  refine onlyValueError_unpackFrom_bind (by omega) fun r2 => ?_
  refine onlyValueError_ensure_bind.2 fun _ => ?_
  exact onlyValueError_bind.2 ⟨onlyValueError_parseTests _ _ _ _ _, fun tests _ => onlyValueError_make _ _ _⟩

/-! ## Coverage buffers -/

/-- Where the record of a test starts. -/
def recordStart (counterCount index : ℕ) : ℕ := 8 + index * strideOf counterCount

/-- **The coverage is read back from the buffer**: its id, and for every test the executed cycles and the
counters, in records that do not overlap. -/
structure Readable (batch : InputBatch) (coverages : List (List UInt8)) (counterCount : ℕ)
    (output : List UInt8) : Prop where
  magic : unpackFrom 4 output 0 = .ok coverageMagic
  bufferId : unpackFrom 4 output 4 = .ok batch.bufferId
  tests : coverages.length = batch.tests.length
  executed : ∀ index (h : index < batch.tests.length),
    unpackFrom 2 output (recordStart counterCount index) = .ok batch.tests[index].length
  counters : ∀ index (h : index < coverages.length),
    region output (recordStart counterCount index + 2) counterCount = coverages[index]
  apart : ∀ index, recordStart counterCount index + 2 + counterCount ≤ recordStart counterCount (index + 1)
  footer_apart : ∀ index < batch.tests.length,
    recordStart counterCount index + 2 + counterCount + 8 ≤ output.length
  footer : region output (output.length - 8) 8 = List.replicate 8 0

theorem add_two_le_strideOf (counterCount : ℕ) : counterCount + 2 ≤ strideOf counterCount := by
  unfold strideOf
  omega

theorem recordStart_le_of_lt (counterCount : ℕ) {later : ℕ} (h : index < later) :
    recordStart counterCount index + (counterCount + 2) ≤ recordStart counterCount later := by
  have hstride := add_two_le_strideOf counterCount
  have hle : (index + 1) * strideOf counterCount ≤ later * strideOf counterCount := Nat.mul_le_mul_right _ h
  rw [Nat.succ_mul] at hle
  unfold recordStart
  omega

theorem packInto_eq_ok {fields : List (ℕ × ℕ)} :
    packInto output offset fields = .ok result ↔ (∀ field ∈ fields, field.2 < 256 ^ field.1) ∧
      offset + (packed fields).length ≤ output.length ∧ overwrite output offset (packed fields) = result := by
  unfold packInto
  rw [ensure_ok, ensure_ok]
  refine and_congr_right fun _ => and_congr_right fun _ => ?_
  exact ⟨fun h => Except.ok.inj h, fun h => congrArg Except.ok h⟩

/-- The record of a test, and where it is written. -/
def recordWrite (counterCount : ℕ) (test : (List CycleRecord × List UInt8) × ℕ) : ℕ × List UInt8 :=
  (recordStart counterCount test.2, beBytes 2 test.1.1.length ++ test.1.2)

/-- **The record of one test is one write.** -/
theorem writeRecord_eq_ok {counterCount : ℕ} (hcounters : test.1.2.length = counterCount)
    (hfits : FitsIn output.length (recordWrite counterCount test))
    (h : writeRecord counterCount output test = .ok result) :
    result = overwrite output (recordWrite counterCount test).1 (recordWrite counterCount test).2 := by
  obtain ⟨packedOutput, hpack, hresult⟩ := bind_ok.1 h
  obtain ⟨-, -, rfl⟩ := packInto_eq_ok.1 hpack
  cases hresult
  have hbytes : packed [(2, test.1.1.length)] = beBytes 2 test.1.1.length := by
    rw [packed, flatMap_cons, flatMap_nil, append_nil]
  rw [recordWrite, FitsIn, length_append, ← Nat.add_assoc] at hfits
  have happend := overwrite_overwrite_append hfits
  rw [length_beBytes] at happend
  rw [recordWrite, ← happend, hbytes]
  rw [← hcounters]
  rfl

/-- **The records of all tests are writes, one after the other.** -/
theorem foldlM_writeRecord {counterCount : ℕ} : ∀ {tests : List ((List CycleRecord × List UInt8) × ℕ)}
    {output result : List UInt8}, (∀ test ∈ tests, test.1.2.length = counterCount) →
      (∀ test ∈ tests, FitsIn output.length (recordWrite counterCount test)) →
        tests.foldlM (writeRecord counterCount) output = .ok result →
          result = overwriteAll output (tests.map (recordWrite counterCount))
  | [], _, _, _, _, h => (Except.ok.inj h).symm
  | test :: tests, output, result, hcounters, hfits, h => by
      obtain ⟨hcounter, hcounters⟩ := forall_mem_cons.1 hcounters
      obtain ⟨hfit, hfits⟩ := forall_mem_cons.1 hfits
      rw [foldlM_cons] at h
      obtain ⟨next, hnext, hrest⟩ := bind_ok.1 h
      obtain rfl := writeRecord_eq_ok hcounter hfit hnext
      rw [map_cons, overwriteAll_cons]
      exact foldlM_writeRecord hcounters (by rw [length_overwrite hfit]; exact hfits) hrest

/-- The writes of a coverage buffer: the header, and the record of every test. -/
def coverageWrites (batch : InputBatch) (coverages : List (List UInt8)) (counterCount : ℕ) :
    List (ℕ × List UInt8) :=
  (0, packed [(4, coverageMagic), (4, batch.bufferId)]) ::
    (batch.tests.zip coverages).zipIdx.map (recordWrite counterCount)

variable {batch : InputBatch} {coverages : List (List UInt8)} {counterCount : ℕ}

theorem length_coverageHeader (bufferId : ℕ) : (packed [(4, coverageMagic), (4, bufferId)]).length = 8 := by
  simp only [packed, flatMap_cons, flatMap_nil, length_append, length_beBytes, length_nil]

theorem exists_of_mem_records (h : test ∈ (batch.tests.zip coverages).zipIdx) :
    ∃ (index : ℕ) (htest : index < batch.tests.length)
      (hcoverage : index < coverages.length), test = ((batch.tests[index], coverages[index]), index) := by
  obtain ⟨index, hindex, rfl⟩ := getElem_of_mem h
  rw [length_zipIdx, length_zip] at hindex
  refine ⟨index, by omega, by omega, ?_⟩
  rw [getElem_zipIdx, getElem_zip, Nat.zero_add]

theorem record_mem (htest : index < batch.tests.length) (hcoverage : index < coverages.length) :
    (recordStart counterCount index, beBytes 2 batch.tests[index].length ++ coverages[index]) ∈
      coverageWrites batch coverages counterCount := by
  have hindex : index < (batch.tests.zip coverages).zipIdx.length := by
    rw [length_zipIdx, length_zip]
    omega
  refine .tail _ (mem_map.2 ⟨_, getElem_mem hindex, ?_⟩)
  rw [getElem_zipIdx, getElem_zip, Nat.zero_add]
  rfl

/-- A record lies after the header and before the next record. -/
theorem record_length (hcounters : ∀ record ∈ coverages, record.length = counterCount)
    (htest : index < batch.tests.length) (hcoverage : index < coverages.length) :
    (beBytes 2 batch.tests[index].length ++ coverages[index]).length = counterCount + 2 := by
  rw [length_append, length_beBytes, hcounters _ (getElem_mem hcoverage), Nat.add_comm]

/-- **The writes of a coverage buffer are apart.** -/
theorem pairwise_coverageWrites (hcounters : ∀ record ∈ coverages, record.length = counterCount) :
    (coverageWrites batch coverages counterCount).Pairwise Apart := by
  refine pairwise_cons.2 ⟨fun write hwrite => ?_, pairwise_iff_getElem.2 ?_⟩
  · obtain ⟨test, -, rfl⟩ := mem_map.1 hwrite
    refine .inl ?_
    rw [length_coverageHeader, recordWrite, recordStart]
    omega
  · intro i j hi hj hlt
    rw [length_map, length_zipIdx, length_zip] at hi hj
    have hstart := recordStart_le_of_lt counterCount hlt
    have hlength := record_length hcounters (show i < batch.tests.length by omega) (by omega)
    refine .inl ?_
    rw [getElem_map, getElem_map, getElem_zipIdx, getElem_zipIdx, getElem_zip, recordWrite,
      recordWrite]
    rw [hlength, Nat.zero_add, Nat.zero_add]
    exact hstart

/-- The writes of a coverage buffer leave its last eight bytes alone. -/
theorem coverageWrites_fit (batch : InputBatch)
    (hcounters : ∀ record ∈ coverages, record.length = counterCount) {capacity : ℕ}
    (hcapacity : 16 + strideOf counterCount * coverages.length ≤ capacity) :
    ∀ write ∈ coverageWrites batch coverages counterCount, write.1 + write.2.length + 8 ≤ capacity := by
  refine forall_mem_cons.2 ⟨?_, fun write hwrite => ?_⟩
  · rw [length_coverageHeader]
    omega
  · obtain ⟨test, hmem, rfl⟩ := mem_map.1 hwrite
    obtain ⟨index, htest, hcoverage, rfl⟩ := exists_of_mem_records hmem
    have hstart := recordStart_le_of_lt counterCount hcoverage
    rw [recordStart, recordStart, Nat.mul_comm coverages.length] at hstart
    rw [recordWrite, record_length hcounters htest hcoverage, recordStart]
    dsimp only
    omega

/-- **An encoded coverage buffer is its writes over zeros.** -/
theorem encodeCoverageBuffer_eq_ok
    (h : encodeCoverageBuffer batch coverages count capacity = .ok output) :
    ∃ counterCount size : ℕ, count = counterCount ∧ coverages.length = batch.tests.length ∧
      (∀ record ∈ coverages, record.length = counterCount) ∧
      16 + strideOf counterCount * coverages.length ≤ size ∧
      output = overwriteAll (List.replicate size 0) (coverageWrites batch coverages counterCount) := by
  obtain ⟨counterCount, hpcount, h⟩ := bind_ok.1 h
  obtain ⟨hcount, hcounters, h⟩ := ensure_ok₂ h
  obtain ⟨size, -, h⟩ := bind_ok.1 h
  obtain ⟨hsize, h⟩ := ensure_ok.1 h
  obtain ⟨start, hstart, h⟩ := bind_ok.1 h
  obtain ⟨-, hheader, rfl⟩ := packInto_eq_ok.1 hstart
  have hminimum : 16 + strideOf counterCount * coverages.length ≤ size := by omega
  have hfits := coverageWrites_fit batch hcounters hminimum
  refine ⟨counterCount, size, (positive_eq_ok.1 hpcount).1, hcount, hcounters, hminimum, ?_⟩
  rw [coverageWrites, overwriteAll_cons]
  refine foldlM_writeRecord (fun test htest => ?_) (fun test htest => ?_) h
  · obtain ⟨index, htest, hcoverage, rfl⟩ := exists_of_mem_records htest
    exact hcounters _ (getElem_mem hcoverage)
  · have hfit := hfits _ (.tail _ (mem_map_of_mem htest))
    rw [FitsIn, length_overwrite hheader, length_replicate]
    omega

/-- **What was written to a coverage buffer is read back from it.** -/
theorem readable_of_encode (h : encodeCoverageBuffer batch coverages count capacity = .ok output) :
    Readable batch coverages count.toNat output := by
  obtain ⟨counterCount, size, rfl, hcount, hcounters, hsize, rfl⟩ := encodeCoverageBuffer_eq_ok h
  rw [Int.toNat_natCast]
  have hends := coverageWrites_fit batch hcounters hsize
  have hfits : ∀ write ∈ coverageWrites batch coverages counterCount,
      FitsIn (List.replicate size (0 : UInt8)).length write := fun write hwrite => by
    rw [FitsIn, length_replicate]
    exact Nat.le_of_add_right_le (hends write hwrite)
  have hlength := length_overwriteAll hfits
  rw [length_replicate] at hlength
  have hread := region_overwriteAll hfits (pairwise_coverageWrites hcounters)
  have hheader : region (overwriteAll (List.replicate size 0)
    (coverageWrites batch coverages counterCount)) 0 8 =
      beBytes 4 coverageMagic ++ beBytes 4 batch.bufferId := by
    have hmem := hread _ (.head _)
    rw [length_coverageHeader] at hmem
    rw [hmem, packed, flatMap_cons, flatMap_cons, flatMap_nil, append_nil]
  have hwidths : (beBytes 4 coverageMagic).length + (beBytes 4 batch.bufferId).length = 8 := by
    rw [length_beBytes, length_beBytes]
  rw [← hwidths] at hheader
  obtain ⟨hmagic, hid⟩ := region_append hheader
  have hparts : ∀ index (htest : index < batch.tests.length) (hcoverage : index < coverages.length),
      region (overwriteAll (List.replicate size 0) (coverageWrites batch coverages counterCount))
          (recordStart counterCount index) 2 = beBytes 2 batch.tests[index].length ∧
        region (overwriteAll (List.replicate size 0) (coverageWrites batch coverages counterCount))
          (recordStart counterCount index + 2) counterCount = coverages[index] :=
            fun index htest hcoverage => by
    have hmem := hread _ (record_mem htest hcoverage)
    rw [length_append] at hmem
    have hparts := region_append hmem
    rwa [length_beBytes, hcounters _ (getElem_mem hcoverage)] at hparts
  have hend : ∀ index, index < batch.tests.length →
    recordStart counterCount index + 2 + counterCount + 8 ≤ size :=
    fun index htest => by
      have hcoverage : index < coverages.length := by omega
      have hend := hends _ (record_mem htest hcoverage)
      rw [record_length hcounters htest hcoverage] at hend
      omega
  refine ⟨?_, ?_, hcount, fun index htest => ?_, fun index hcoverage => ?_, fun index =>
    ?_, fun index htest => ?_, ?_⟩
  · rw [length_beBytes] at hmagic
    exact unpackFrom_eq_ok.2 ⟨by omega, by decide, hmagic⟩
  · rw [length_beBytes, length_beBytes] at hid
    exact unpackFrom_eq_ok.2 ⟨by omega, Nat.lt_succ_of_le batch.bufferId_le, hid⟩
  · have hlong := (batch.cycles_bounds _ (getElem_mem htest)).2
    have hlast := hend index htest
    exact unpackFrom_eq_ok.2 ⟨by omega, Nat.lt_succ_of_le hlong, (hparts index htest (by omega)).1⟩
  · exact (hparts index (by omega) hcoverage).2
  · have hnext := recordStart_le_of_lt counterCount (Nat.lt_succ_self index)
    rw [Nat.succ_eq_add_one] at hnext
    omega
  · rw [hlength]
    exact hend index htest
  · rw [hlength, region_overwriteAll_of_apart hfits fun write hwrite =>
      .inr (by have := hends write hwrite; omega),
      region, drop_replicate, take_replicate]
    congr 1
    omega

/-- **Buffers are parsed by exactly their framing, and coverage is read back.** -/
theorem buffers_are_framed :
    (∀ (data : List UInt8) (inputBytes maxCycles maxBytes : ℤ),
      (∀ batch, parseInputBuffer data inputBytes maxCycles maxBytes = .ok batch ↔
        Frames data inputBytes maxCycles maxBytes batch) ∧
      (∀ batch batch', Frames data inputBytes maxCycles maxBytes batch →
        Frames data inputBytes maxCycles maxBytes batch' → batch = batch') ∧
      OnlyValueError (parseInputBuffer data inputBytes maxCycles maxBytes)) ∧
    ∀ (batch : InputBatch) (coverages : List (List UInt8)) (counterCount : ℤ) (capacity : Option ℤ)
      (output : List UInt8), encodeCoverageBuffer batch coverages counterCount capacity = .ok output →
        Readable batch coverages counterCount.toNat output := by
  refine ⟨fun data inputBytes maxCycles maxBytes => ⟨fun batch => parseInputBuffer_eq_ok,
    fun batch batch' hframes hframes' => ?_, onlyValueError_parseInputBuffer _ _ _ _⟩,
    fun batch coverages counterCount capacity output => readable_of_encode⟩
  have hparse := parseInputBuffer_eq_ok.mpr hframes
  rw [parseInputBuffer_eq_ok.mpr hframes'] at hparse
  exact (Except.ok.inj hparse).symm

/-- A batch of two tests, of one and of two cycles. -/
def twoTests : InputBatch where
  bufferId := 5
  inputBytes := 8
  tests := [[[1, 2, 3, 4, 5, 6, 7, 8]], [[9, 2, 3, 4, 5, 6, 7, 8], [1, 1, 2, 3, 5, 8, 13, 21]]]
  bufferId_le := by decide
  inputBytes_bounds := by decide
  shape := by decide
  cycles_bounds := by decide
  record_length := by decide

/-- Its bytes with one byte of padding frame it, and the three counters of each test are read back. -/
theorem buffers_are_framed_twoTests :
    Frames (twoTests.encode ++ [0]) 8 200 1024 twoTests ∧
      parseInputBuffer (twoTests.encode ++ [0]) 8 200 1024 = .ok twoTests ∧
      (∀ batch, Frames (twoTests.encode ++ [0]) 8 200 1024 batch → batch = twoTests) ∧
      Readable twoTests [[7, 8, 9], [10, 11, 12]] 3 [0x73, 0x53, 0x73, 0x53, 0, 0, 0, 5,
        0, 1, 7, 8, 9, 0, 0, 0, 0, 2, 10, 11, 12, 0, 0, 0, 0, 0, 0, 0, 0, 0, 0, 0] := by
  have hframes : Frames (twoTests.encode ++ [0]) 8 200 1024 twoTests :=
    ⟨rfl, by decide, by decide, by decide, by decide, [0], rfl⟩
  obtain ⟨hparse, hunique, -⟩ := buffers_are_framed.1 (twoTests.encode ++ [0]) 8 200 1024
  exact ⟨hframes, (hparse twoTests).mpr hframes, fun batch h => hunique batch twoTests h hframes,
    buffers_are_framed.2 twoTests [[7, 8, 9], [10, 11, 12]] 3 none _ (by decide)⟩

end RfuzzWire

end MyFuzz
