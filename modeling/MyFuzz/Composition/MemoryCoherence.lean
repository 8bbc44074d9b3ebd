import MyFuzz.Composition.RuntimeCalls

/-!
# Composition/MemoryCoherence — what a read returns

The trace of a run determines every byte that a read returns, whichever window the byte is reached
through:

    the last byte written to it  ▸  else the byte of its image  ▸  else the byte first read from it

`Coherent` says that the memory holds nothing else, and that it holds every byte that was written or read.
-/

namespace MyFuzz

namespace Contract

open Outcome List

variable (plan : ContractTransducerPlan)

/-! ## The bytes of a trace -/

/-- The lane of a request's beat that a physical byte is. -/
def laneOf (r : ProcessorBeatRequest) (b : String × ℕ) : Option ℕ :=
  match requestKey plan r with
  | .ok key => if b.1 = key.1 ∧ key.2 ≤ b.2 ∧ b.2 - key.2 < plan.byteCount then some (b.2 - key.2) else none
  | .error _ => none

/-- The byte that a successful write gave a physical byte. -/
def writtenByte (inputs : ProcessorBeatInputs) (b : String × ℕ) : Option ℕ := do
  let r ← inputs.responseRequest
  let lane ← laneOf plan r b
  if inputs.rspError = false ∧ r.write = true ∧ enableOf plan r >>> lane &&& 1 ≠ 0 then
    some (byteAt r.writeData lane)
  else none

/-- The byte that a successful read returned for a physical byte. -/
def readByte (inputs : ProcessorBeatInputs) (b : String × ℕ) : Option ℕ := do
  let r ← inputs.responseRequest
  let lane ← laneOf plan r b
  if inputs.rspError = false ∧ r.write = false then some (byteAt inputs.rspData lane) else none

/-- The last byte written since the test began. -/
def lastWritten (trace : List Event) (b : String × ℕ) : Option ℕ :=
  trace.foldl (fun byte e => match e with
    | .began _ => none
    | .cycle _ inputs => (writtenByte plan inputs b).or byte
    | .reset => byte) none

/-- The first byte read since the test began. -/
def firstRead (trace : List Event) (b : String × ℕ) : Option ℕ :=
  trace.foldl (fun byte e => match e with
    | .began _ => none
    | .cycle _ inputs => byte.or (readByte plan inputs b)
    | .reset => byte) none

/-- **What a read has to return.** -/
def expectedByte (trace : List Event) (b : String × ℕ) : Option ℕ :=
  (lastWritten plan trace b).or ((imageByte plan b).or (firstRead plan trace b))

variable {plan} {s s' : ContractRuntime} {trace : List Event} {outputs : DutOutputs}
  {inputs : ProcessorBeatInputs} {r : ProcessorBeatRequest} {key : BeatKey} {b : String × ℕ}

theorem lastWritten_cycle : lastWritten plan (trace ++ [.cycle outputs inputs]) b =
    (writtenByte plan inputs b).or (lastWritten plan trace b) := by
  unfold lastWritten
  rw [foldl_append]
  rfl

theorem firstRead_cycle : firstRead plan (trace ++ [.cycle outputs inputs]) b =
    (firstRead plan trace b).or (readByte plan inputs b) := by
  unfold firstRead
  rw [foldl_append]
  rfl

theorem lastWritten_reset : lastWritten plan (trace ++ [.reset]) b = lastWritten plan trace b := by
  unfold lastWritten
  rw [foldl_append]
  rfl

theorem firstRead_reset : firstRead plan (trace ++ [.reset]) b = firstRead plan trace b := by
  unfold firstRead
  rw [foldl_append]
  rfl

variable {header : TestHeader} {lane v address widthBytes initial : ℕ} {bytes : Bytes} {domain : String}

theorem lastWritten_began : lastWritten plan (trace ++ [.began header]) b = none := by
  unfold lastWritten
  rw [foldl_append]
  rfl

theorem firstRead_began : firstRead plan (trace ++ [.began header]) b = none := by
  unfold firstRead
  rw [foldl_append]
  rfl

/-! ## The bytes of a response -/

theorem laneOf_eq_some (hkey : requestKey plan r = .ok key) :
    laneOf plan r b = some lane ↔ b.1 = key.1 ∧ key.2 ≤ b.2 ∧ b.2 - key.2 = lane ∧ lane < plan.byteCount := by
  unfold laneOf
  rw [hkey]
  dsimp only
  split_ifs with hin
  · rw [Option.some.injEq]
    exact ⟨fun heq => ⟨hin.1, hin.2.1, heq, heq ▸ hin.2.2⟩, fun h => h.2.2.1⟩
  · refine iff_of_false (fun h => by cases h) fun ⟨hdomain, hle, heq, hlt⟩ => hin ⟨hdomain, hle, ?_⟩
    rwa [heq]

theorem writtenByte_of_none (h : inputs.responseRequest = none) : writtenByte plan inputs b = none := by
  unfold writtenByte
  rw [h]
  rfl

theorem readByte_of_none (h : inputs.responseRequest = none) : readByte plan inputs b = none := by
  unfold readByte
  rw [h]
  rfl

theorem writtenByte_eq_some (h : inputs.responseRequest = some r) :
    writtenByte plan inputs b = some v ↔ ∃ lane, laneOf plan r b = some lane ∧ inputs.rspError = false ∧
      r.write = true ∧ enableOf plan r >>> lane &&& 1 ≠ 0 ∧ byteAt r.writeData lane = v := by
  unfold writtenByte
  rw [h, Option.bind_eq_bind, Option.bind_some, Option.bind_eq_bind, Option.bind_eq_some_iff]
  refine exists_congr fun lane => and_congr_right fun _ => ?_
  rw [Option.ite_none_right_eq_some, Option.some.injEq, and_assoc, and_assoc]

theorem readByte_eq_some (h : inputs.responseRequest = some r) :
    readByte plan inputs b = some v ↔ ∃ lane, laneOf plan r b = some lane ∧ inputs.rspError = false ∧
      r.write = false ∧ byteAt inputs.rspData lane = v := by
  unfold readByte
  rw [h, Option.bind_eq_bind, Option.bind_some, Option.bind_eq_bind, Option.bind_eq_some_iff]
  refine exists_congr fun lane => and_congr_right fun _ => ?_
  rw [Option.ite_none_right_eq_some, Option.some.injEq, and_assoc]

/-- The byte of a written span is the byte that the trace records. -/
theorem get?_fill_written (hkey : requestKey plan r = .ok key) (hrequest : inputs.responseRequest = some r)
    (herror : inputs.rspError = false) (hwrite : r.write = true) (bytes : Bytes) :
    (fill bytes key.1 key.2 r.writeData (enabledLanes (enableOf plan r) plan.byteCount)).get? b =
      (writtenByte plan inputs b).or (bytes.get? b) := by
  rw [get?_fill]
  split_ifs with hlane
  · obtain ⟨hdomain, hle, hmem⟩ := hlane
    obtain ⟨hlt, henabled⟩ := mem_enabledLanes.1 hmem
    rw [(writtenByte_eq_some hrequest).2 ⟨_, (laneOf_eq_some hkey).2 ⟨hdomain, hle, rfl, hlt⟩, herror,
      hwrite, henabled, rfl⟩, Option.some_or]
  · cases hbyte : writtenByte plan inputs b with
    | none => rw [Option.none_or]
    | some v =>
      obtain ⟨lane, hof, -, -, henabled, -⟩ := (writtenByte_eq_some hrequest).1 hbyte
      obtain ⟨hdomain, hle, rfl, hlt⟩ := (laneOf_eq_some hkey).1 hof
      exact absurd ⟨hdomain, hle, mem_enabledLanes.2 ⟨hlt, henabled⟩⟩ hlane

theorem mem_missing :
    lane ∈ missing bytes domain address widthBytes ↔
      lane < widthBytes ∧ bytes.get? (domain, address + lane) = none := by
  unfold missing Dict.contains
  rw [mem_filter, mem_range, Bool.not_eq_true', Option.isSome_eq_false_iff,
    Option.isNone_iff_eq_none]

/-- **A byte of a read span** is the one that was there, or that of the initial value. -/
theorem get?_fill_missing (hlt : lane < widthBytes) :
    (fill bytes domain address initial (missing bytes domain address widthBytes)).get?
        (domain, address + lane) =
      (bytes.get? (domain, address + lane)).or (some (byteAt initial lane)) := by
  rw [get?_fill, Nat.add_sub_cancel_left]
  cases hget : bytes.get? (domain, address + lane) with
  | none => rw [if_pos ⟨rfl, Nat.le_add_right _ _, mem_missing.2 ⟨hlt, hget⟩⟩, Option.none_or]
  | some v =>
    rw [Option.some_or, if_neg fun h => ?_]
    have hnone := (mem_missing.1 h.2.2).2
    rw [hget] at hnone
    cases hnone

/-- Bytes in their lanes as the number they make. -/
theorem sum_shiftLeft (f : ℕ → ℕ) (n : ℕ) :
    ((List.range n).map fun lane => f lane <<< (8 * lane)).sum = littleEndian ((List.range n).map f) := by
  induction n generalizing f with
  | zero => rfl
  | succ n ih =>
    have hstep : ∀ lane, f (lane + 1) <<< (8 * (lane + 1)) = 256 * f (lane + 1) <<< (8 * lane) :=
      fun lane => by
        rw [Nat.shiftLeft_eq, Nat.shiftLeft_eq, Nat.mul_add, pow_add]
        ring
    rw [range_succ_eq_map, map_cons, map_cons, sum_cons, map_map, map_map,
      littleEndian, Nat.mul_zero, Nat.shiftLeft_zero]
    congr 1
    change ((List.range n).map fun lane => f (lane + 1) <<< (8 * (lane + 1))).sum =
      256 * littleEndian ((List.range n).map fun lane => f (lane + 1))
    rw [funext hstep, sum_map_mul_left, ih fun lane => f (lane + 1)]

/-- **The bytes of a number that was read are the bytes of the span.** -/
theorem byteAt_collect (hsmall : ∀ b v, bytes.get? b = some v → v < 256) (hlt : lane < widthBytes) :
    byteAt (collect bytes domain address widthBytes) lane = bytes.getD (domain, address + lane) 0 := by
  have hbytes : ∀ byte ∈ (List.range widthBytes).map fun lane => bytes.getD (domain, address + lane) 0,
      byte < 256 := by
    rw [forall_mem_map]
    intro lane _
    unfold Dict.getD
    cases hget : bytes.get? (domain, address + lane) with
    | none => exact Nat.succ_pos _
    | some v => exact hsmall _ v hget
  unfold collect
  rw [sum_shiftLeft fun lane => bytes.getD (domain, address + lane) 0, byteAt_littleEndian hbytes,
    getD_eq_getElem?_getD, getElem?_map,
    getElem?_range hlt]
  rfl

/-! ## Coherence -/

/-- **The memory holds what the trace says**, and everything that the trace mentions. -/
structure Coherent (plan : ContractTransducerPlan) (s : ContractRuntime) (trace : List Event) : Prop where
  known : ∀ b v, s.memory.get? b = some v → expectedByte plan trace b = some v
  small : ∀ b v, s.memory.get? b = some v → v < 256
  written : ∀ b, (lastWritten plan trace b).isSome → (s.memory.get? b).isSome
  read : ∀ b, (firstRead plan trace b).isSome → (s.memory.get? b).isSome
  unread : ∀ b v, s.memory.get? b = none → imageByte plan b = some v → v = 0

/-- An event that moves no byte. -/
theorem coherent_silent (hs : Coherent plan s trace) (hmemory : s'.memory = s.memory)
    (hwritten : ∀ b, writtenByte plan inputs b = none) (hread : ∀ b, readByte plan inputs b = none) :
    Coherent plan s' (trace ++ [.cycle outputs inputs]) := by
  have hlast : ∀ b, lastWritten plan (trace ++ [.cycle outputs inputs]) b = lastWritten plan trace b :=
    fun b => by rw [lastWritten_cycle, hwritten, Option.none_or]
  have hfirst : ∀ b, firstRead plan (trace ++ [.cycle outputs inputs]) b = firstRead plan trace b :=
    fun b => by rw [firstRead_cycle, hread, Option.or_none]
  refine ⟨fun b v hget => ?_, fun b v hget => ?_, fun b hsome => ?_, fun b hsome => ?_, fun b v hnone => ?_⟩
  · unfold expectedByte
    rw [hlast, hfirst]
    exact hs.known b v (hmemory ▸ hget)
  · exact hs.small b v (hmemory ▸ hget)
  · rw [hlast] at hsome
    exact hmemory ▸ hs.written b hsome
  · rw [hfirst] at hsome
    exact hmemory ▸ hs.read b hsome
  · exact hs.unread b v (hmemory ▸ hnone)

/-- The beat of an image is loaded. -/
theorem loadedBeat_of_imageByte (hplan : WellFormed plan) (hkey : requestKey plan r = .ok key)
    {offset : ℕ} (hbyte : imageByte plan (key.1, offset) = some v) :
    loadedBeat plan (beatBase plan r.address) = .ok true := by
  unfold imageByte at hbyte
  split_ifs at hbyte with hloaded
  obtain ⟨w, hw, hid, hpolicy⟩ := hloaded
  have hwindows : plan.memoryWindows ≠ [] := ne_nil_of_mem hw
  unfold requestKey at hkey
  rw [if_pos hwindows] at hkey
  obtain ⟨w', hfor, hkey⟩ := bind_ok.1 hkey
  cases hkey
  have hw' : w' ∈ plan.memoryWindows := by
    unfold windowFor at hfor
    split at hfor
    · rename_i hfind
      cases hfor
      exact mem_of_find?_eq_some hfind
    · cases hfor
  unfold loadedBeat
  rw [if_pos hwindows, hfor, ok_bind, ← (hplan.windows.physical w hw w' hw' hid).2, hpolicy]
  rfl

theorem coherent_wrote (hs : Coherent plan s trace) (hkey : requestKey plan r = .ok key)
    (hresponds : Responds r inputs) (hwrite : r.write = true) (herror : inputs.rspError = false)
    (hmemory : s'.memory = fill s.memory key.1 key.2 r.writeData
      (enabledLanes (enableOf plan r) plan.byteCount)) :
    Coherent plan s' (trace ++ [.cycle outputs inputs]) := by
  have hget : ∀ b, s'.memory.get? b = (writtenByte plan inputs b).or (s.memory.get? b) := fun b => by
    rw [hmemory]
    exact get?_fill_written hkey hresponds.request herror hwrite s.memory
  have hread : ∀ b, readByte plan inputs b = none := fun b => by
    refine Option.eq_none_iff_forall_not_mem.2 fun v hv => ?_
    obtain ⟨-, -, -, hnot, -⟩ := (readByte_eq_some hresponds.request).1 hv
    rw [hwrite] at hnot
    cases hnot
  have hfirst : ∀ b, firstRead plan (trace ++ [.cycle outputs inputs]) b = firstRead plan trace b :=
    fun b => by rw [firstRead_cycle, hread, Option.or_none]
  refine ⟨fun b v hv => ?_, fun b v hv => ?_, fun b hsome => ?_, fun b hsome => ?_, fun b v hnone => ?_⟩
  · rw [hget] at hv
    unfold expectedByte
    rw [lastWritten_cycle, hfirst]
    cases hbyte : writtenByte plan inputs b with
    | none =>
      rw [hbyte, Option.none_or] at hv
      exact hs.known b v hv
    | some v' =>
      rw [hbyte, Option.some_or] at hv
      rw [Option.some_or, Option.some_or, hv]
  · rw [hget] at hv
    cases hbyte : writtenByte plan inputs b with
    | none =>
      rw [hbyte, Option.none_or] at hv
      exact hs.small b v hv
    | some v' =>
      rw [hbyte, Option.some_or] at hv
      cases hv
      obtain ⟨lane, -, -, -, -, rfl⟩ := (writtenByte_eq_some hresponds.request).1 hbyte
      exact byteAt_lt _ _
  · rw [lastWritten_cycle, Option.isSome_or, Bool.or_eq_true] at hsome
    rw [hget, Option.isSome_or, Bool.or_eq_true]
    exact hsome.imp_right (hs.written b)
  · rw [hfirst] at hsome
    rw [hget, Option.isSome_or, Bool.or_eq_true]
    exact .inr (hs.read b hsome)
  · rw [hget, Option.or_eq_none_iff] at hnone
    exact hs.unread b v hnone.2

/-- **A read answers with the bytes of the memory it leaves.** -/
theorem readByte_eq_get? (hkey : requestKey plan r = .ok key) (hresponds : Responds r inputs)
    {memory : Bytes} (hsmall : ∀ b v, memory.get? b = some v → v < 256)
    (hall : ∀ lane < plan.byteCount, (memory.get? (key.1, key.2 + lane)).isSome)
    (hdata : inputs.rspData = collect memory key.1 key.2 plan.byteCount)
    (hbyte : readByte plan inputs b = some v) : memory.get? b = some v := by
  obtain ⟨lane, hof, -, -, rfl⟩ := (readByte_eq_some hresponds.request).1 hbyte
  obtain ⟨hdomain, hle, rfl, hlt⟩ := (laneOf_eq_some hkey).1 hof
  have hb : b = (key.1, key.2 + (b.2 - key.2)) := Prod.ext hdomain (Nat.add_sub_cancel' hle).symm
  obtain ⟨v, hget⟩ := Option.isSome_iff_exists.1 (hall _ hlt)
  rw [hdata, byteAt_collect hsmall hlt]
  rw [← hb] at hget ⊢
  rw [hget, Dict.getD, hget, Option.getD_some]

theorem coherent_read (hplan : WellFormed plan) (hs : Coherent plan s trace)
    (hkey : requestKey plan r = .ok key) (hresponds : Responds r inputs) (hread : r.write = false)
    (herror : inputs.rspError = false)
    (hloaded : loadedBeat plan (beatBase plan r.address) = .ok true → initial = 0)
    (hmemory : s'.memory = fill s.memory key.1 key.2 initial
      (missing s.memory key.1 key.2 plan.byteCount))
    (hdata : inputs.rspData = collect s'.memory key.1 key.2 plan.byteCount) :
    Coherent plan s' (trace ++ [.cycle outputs inputs]) := by
  have hwritten : ∀ b, writtenByte plan inputs b = none := fun b => by
    refine Option.eq_none_iff_forall_not_mem.2 fun v hv => ?_
    obtain ⟨-, -, -, hnot, -⟩ := (writtenByte_eq_some hresponds.request).1 hv
    rw [hread] at hnot
    cases hnot
  have hlast : ∀ b, lastWritten plan (trace ++ [.cycle outputs inputs]) b = lastWritten plan trace b :=
    fun b => by rw [lastWritten_cycle, hwritten, Option.none_or]
  have hkeeps : ∀ b, (s.memory.get? b).isSome → s'.memory.get? b = s.memory.get? b := fun b hsome => by
    rw [hmemory, get?_fill, if_neg fun h => ?_]
    have hnone := (mem_missing.1 h.2.2).2
    rw [← h.1, Nat.add_sub_cancel' h.2.1] at hnone
    rw [hnone] at hsome
    cases hsome
  have hsmall : ∀ b v, s'.memory.get? b = some v → v < 256 := fun b v hget => by
    rw [hmemory, get?_fill] at hget
    split_ifs at hget
    · exact Option.some.inj hget ▸ byteAt_lt _ _
    · exact hs.small b v hget
  have hall : ∀ lane < plan.byteCount, (s'.memory.get? (key.1, key.2 + lane)).isSome := fun lane hlt => by
    rw [hmemory, get?_fill_missing hlt, Option.isSome_or, Option.isSome_some, Bool.or_true]
  have hreadByte : ∀ lane < plan.byteCount, ∀ v, s'.memory.get? (key.1, key.2 + lane) = some v →
      readByte plan inputs (key.1, key.2 + lane) = some v := fun lane hlt v hget => by
    refine (readByte_eq_some hresponds.request).2 ⟨lane, (laneOf_eq_some hkey).2
      ⟨rfl, Nat.le_add_right _ _, Nat.add_sub_cancel_left _ _, hlt⟩, herror, hread, ?_⟩
    rw [hdata, byteAt_collect hsmall hlt, Dict.getD, hget, Option.getD_some]
  refine ⟨fun b v hget => ?_, hsmall, fun b hsome => ?_, fun b hsome => ?_, fun b v hnone himage => ?_⟩
  · unfold expectedByte
    rw [hlast, firstRead_cycle]
    by_cases hsome : (s.memory.get? b).isSome
    · -- The byte was there: what it came from comes before this read.
      rw [hkeeps b hsome] at hget
      have hknown := hs.known b v hget
      unfold expectedByte at hknown
      have hsplit : (lastWritten plan trace b).or ((imageByte plan b).or
          ((firstRead plan trace b).or (readByte plan inputs b))) =
          ((lastWritten plan trace b).or ((imageByte plan b).or (firstRead plan trace b))).or
            (readByte plan inputs b) := by
        rw [Option.or_assoc, Option.or_assoc]
      rw [hsplit, hknown, Option.some_or]
    · -- The byte is new: nothing was written or read there, and an image gives zero.
      have hnone : s.memory.get? b = none := Option.not_isSome_iff_eq_none.1 hsome
      have hlastNone : lastWritten plan trace b = none :=
        Option.not_isSome_iff_eq_none.1 fun h => hsome (hs.written b h)
      have hfirstNone : firstRead plan trace b = none :=
        Option.not_isSome_iff_eq_none.1 fun h => hsome (hs.read b h)
      rw [hlastNone, hfirstNone, Option.none_or, Option.none_or]
      have hlane := hget
      rw [hmemory, get?_fill, hnone] at hlane
      split_ifs at hlane with hin
      obtain ⟨hdomain, hle, hmissing⟩ := hin
      have hlt := (mem_missing.1 hmissing).1
      have hb : b = (key.1, key.2 + (b.2 - key.2)) := Prod.ext hdomain (Nat.add_sub_cancel' hle).symm
      cases himage : imageByte plan b with
      | none =>
        rw [Option.none_or]
        have hrb := hreadByte _ hlt v
        rw [← hb] at hrb
        exact hrb hget
      | some v' =>
        rw [hb] at himage
        have hzero := hloaded (loadedBeat_of_imageByte hplan hkey himage)
        rw [← hb] at himage
        rw [hzero, byteAt_eq, Nat.zero_div] at hlane
        rw [Option.some_or, hs.unread b v' hnone himage]
        exact hlane
  · rw [hlast] at hsome
    have hbefore := hs.written b hsome
    rwa [hkeeps b hbefore]
  · rw [firstRead_cycle, Option.isSome_or, Bool.or_eq_true] at hsome
    rcases hsome with hbefore | hnow
    · have hget := hs.read b hbefore
      rwa [hkeeps b hget]
    · obtain ⟨v, hv⟩ := Option.isSome_iff_exists.1 hnow
      rw [readByte_eq_get? hkey hresponds hsmall hall hdata hv]
      rfl
  · refine hs.unread b v (Option.not_isSome_iff_eq_none.1 fun hsome => ?_) himage
    rw [hkeeps b hsome] at hnone
    rw [hnone] at hsome
    cases hsome

theorem byte_of_error (herror : inputs.rspError = true) (b : String × ℕ) :
    writtenByte plan inputs b = none ∧ readByte plan inputs b = none := by
  cases hrequest : inputs.responseRequest with
  | none => exact ⟨writtenByte_of_none hrequest, readByte_of_none hrequest⟩
  | some r =>
    constructor
    · refine Option.eq_none_iff_forall_not_mem.2 fun v hv => ?_
      obtain ⟨-, -, hnot, -⟩ := (writtenByte_eq_some hrequest).1 hv
      rw [herror] at hnot
      cases hnot
    · refine Option.eq_none_iff_forall_not_mem.2 fun v hv => ?_
      obtain ⟨-, -, hnot, -⟩ := (readByte_eq_some hrequest).1 hv
      rw [herror] at hnot
      cases hnot

/-- A write that enables nothing writes nothing. -/
theorem byte_of_zero (hrequest : inputs.responseRequest = some r) (hwrite : r.write = true)
    (hzero : r.byteEnable = some 0) (b : String × ℕ) :
    writtenByte plan inputs b = none ∧ readByte plan inputs b = none := by
  constructor
  · refine Option.eq_none_iff_forall_not_mem.2 fun v hv => ?_
    obtain ⟨lane, -, -, -, henabled, -⟩ := (writtenByte_eq_some hrequest).1 hv
    unfold enableOf at henabled
    rw [hzero, Option.getD_some, Nat.zero_shiftRight, Nat.zero_and] at henabled
    exact henabled rfl
  · refine Option.eq_none_iff_forall_not_mem.2 fun v hv => ?_
    obtain ⟨-, -, -, hnot, -⟩ := (readByte_eq_some hrequest).1 hv
    rw [hwrite] at hnot
    cases hnot

theorem coherent_moved (hplan : WellFormed plan) (hs : Coherent plan s trace) {raw : ℕ}
    (h : Moved plan s header raw outputs inputs s') :
    Coherent plan s' (trace ++ [.cycle outputs inputs]) := by
  have hquiet : ∀ {s' : ContractRuntime}, s'.memory = s.memory → inputs.responseRequest = none →
      Coherent plan s' (trace ++ [.cycle outputs inputs]) := fun hmemory hnone =>
    coherent_silent hs hmemory (fun _ => writtenByte_of_none hnone) fun _ => readByte_of_none hnone
  cases h with
  | reset _ hq | outside _ _ hq | waits _ _ _ hq | idles _ _ _ hq
  | holds _ _ _ _ _ hq => exact hquiet rfl hq.request
  | accepts _ _ _ _ _ _ _ _ _ hnone => exact hquiet rfl hnone
  | injects _ _ _ herror =>
    exact coherent_silent hs rfl (fun b => (byte_of_error herror b).1) fun b => (byte_of_error herror b).2
  | answers _ _ hkey hresponds hanswered =>
    cases hanswered with
    | unchanged hwrite hzero _ _ =>
      exact coherent_silent hs rfl (fun b => (byte_of_zero hresponds.request hwrite hzero b).1)
        fun b => (byte_of_zero hresponds.request hwrite hzero b).2
    | refused _ _ herror =>
      exact coherent_silent hs rfl (fun b => (byte_of_error herror b).1) fun b => (byte_of_error herror b).2
    | wrote hwrite _ _ _ _ herror => exact coherent_wrote hs hkey hresponds hwrite herror rfl
    | read hread _ _ _ hloaded _ hdata _ herror =>
      exact coherent_read hplan hs hkey hresponds hread herror hloaded rfl hdata

theorem coherent_loading (hs : Loading plan header plan.memoryCapacityEntries s)
    (hzero : ∀ b v, s.memory.get? b = none → imageByte plan b = some v → v = 0) :
    Coherent plan s (trace ++ [.began header]) where
  known := fun b v hget => by
    unfold expectedByte
    rw [lastWritten_began, Option.none_or, hs.byte b v hget, Option.some_or]
  small := hs.small
  written := fun b hsome => by
    rw [lastWritten_began] at hsome
    cases hsome
  read := fun b hsome => by
    rw [firstRead_began] at hsome
    cases hsome
  unread := hzero

theorem coherent_reset (hs : Coherent plan s trace) : Coherent plan s.resetDut (trace ++ [.reset]) where
  known := fun b v hget => by
    unfold expectedByte
    rw [lastWritten_reset, firstRead_reset]
    exact hs.known b v hget
  small := hs.small
  written := fun b hsome => by
    rw [lastWritten_reset] at hsome
    exact hs.written b hsome
  read := fun b hsome => by
    rw [firstRead_reset] at hsome
    exact hs.read b hsome
  unread := hs.unread

/-- **Once a test has begun, the memory is coherent.** -/
theorem coherent_called {run run' : Run} (hplan : WellFormed plan)
    (hrun : ∀ header, run.runtime.header = some header → Coherent plan run.runtime run.trace)
    (h : Called plan run run') (header : TestHeader) (hheader : run'.runtime.header = some header) :
    Coherent plan run'.runtime run'.trace := by
  cases h with
  | raised => exact hrun header hheader
  | began hloading hzero => exact coherent_loading hloading hzero
  | cycle hbegun hmoved => exact coherent_moved hplan (hrun _ hbegun) hmoved
  | reset => exact coherent_reset (hrun header hheader)

theorem coherent_runCalls (hplan : WellFormed plan) (calls : List Call) (header : TestHeader)
    (hheader : (runCalls plan calls).runtime.header = some header) :
    Coherent plan (runCalls plan calls).runtime (runCalls plan calls).trace :=
  runCalls_called (P := fun run => ∀ header, run.runtime.header = some header →
      Coherent plan run.runtime run.trace) hplan (fun _ h => (by cases h))
    (fun _ _ _ hrun hcalled => coherent_called hplan hrun hcalled) calls header hheader

end Contract

end MyFuzz
