import MyFuzz.Composition.MemoryCoherence

/-!
# Composition/MemoryLaw — what responses return and change

The law of one memory, for every run of a compiled plan:

    a read         returns, byte by byte, what the trace says
    an error, a refusal, a write that enables nothing      change no byte, provenance or entry
    the entries    are the beats with a provenance, no more than there is room for

A read-only window belongs to the requests that go through it: they may be the first to give its bytes a
value, but no byte that has one changes.
-/

namespace MyFuzz

namespace Contract

variable {plan : ContractTransducerPlan} {s s' : ContractRuntime} {trace : List Event}
  {outputs : DutOutputs} {inputs : ProcessorBeatInputs} {r : ProcessorBeatRequest} {b : String × ℕ}

/-! ## One cycle -/

theorem isSome_fill_missing (bytes : Bytes) (domain : String) (address : ℕ) {widthBytes : ℕ}
    (initial : ℕ) {lane : ℕ} (hlt : lane < widthBytes) :
    ((fill bytes domain address initial (missing bytes domain address widthBytes)).get?
      (domain, address + lane)).isSome := by
  rw [get?_fill_missing hlt, Option.isSome_or, Option.isSome_some, Bool.or_true]

variable {header : TestHeader} {raw v : ℕ} {w : MemoryWindow}

/-- What a read returned is in the memory it left. -/
theorem get?_of_readByte (h : Moved plan s header raw outputs inputs s')
    (hsmall : ∀ b v, s'.memory.get? b = some v → v < 256)
    (hbyte : readByte plan inputs b = some v) : s'.memory.get? b = some v := by
  have hquiet : inputs.responseRequest ≠ none := fun hnone => by
    rw [readByte_of_none hnone] at hbyte
    cases hbyte
  have herror : inputs.rspError ≠ true := fun herror => by
    rw [(byte_of_error herror b).2] at hbyte
    cases hbyte
  cases h with
  | reset _ hq | outside _ _ hq | waits _ _ _ hq | idles _ _ _ hq
  | holds _ _ _ _ _ hq => exact absurd hq.request hquiet
  | accepts _ _ _ _ _ _ _ _ _ hnone => exact absurd hnone hquiet
  | injects _ _ _ htrue => exact absurd htrue herror
  | answers _ _ hkey hresponds hanswered =>
    cases hanswered with
    | unchanged hwrite hzero _ _ =>
      rw [(byte_of_zero hresponds.request hwrite hzero b).2] at hbyte
      cases hbyte
    | refused _ _ htrue => exact absurd htrue herror
    | wrote hwrite _ _ _ _ _ =>
      obtain ⟨-, -, -, hnot, -⟩ := (readByte_eq_some hresponds.request).1 hbyte
      rw [hwrite] at hnot
      cases hnot
    | read _ _ initial _ _ _ hdata _ _ =>
      exact readByte_eq_get? hkey hresponds hsmall (fun _ => isSome_fill_missing _ _ _ initial) hdata hbyte

/-- **A read returns the bytes that the trace says**, this read among them. -/
theorem read_expected (hplan : WellFormed plan) {calls : List Call} {before after : List Event}
    (htrace : (runCalls plan calls).trace = before ++ .cycle outputs inputs :: after)
    (hbyte : readByte plan inputs b = some v) :
    expectedByte plan (before ++ [.cycle outputs inputs]) b = some v := by
  obtain ⟨calls', run', hbefore, hcalled, hrun', -⟩ := exists_call hplan htrace
  have hcoherent := coherent_runCalls hplan calls'
  rw [hbefore] at hcoherent
  obtain ⟨header, raw, hheader, hmoved⟩ := moved_of_called hcalled (hrun'.trans (by rw [hbefore]))
  have hs' := coherent_moved hplan (hcoherent header hheader) hmoved
  exact hs'.known b v (get?_of_readByte hmoved hs'.small hbyte)

/-- Memory, provenances and entries are the same. -/
structure SameMemory (s s' : ContractRuntime) : Prop where
  memory : s'.memory = s.memory
  provenance : s'.memoryProvenance = s.memoryProvenance
  entries : s'.allocatedEntries = s.allocatedEntries

/-- **Only answers without an error that enable a byte change the memory.** -/
theorem sameMemory_moved (h : Moved plan s header raw outputs inputs s')
    (hsilent : inputs.rspValid = false ∨ inputs.rspError = true ∨
      ∃ r, inputs.responseRequest = some r ∧ r.write = true ∧ r.byteEnable = some 0) :
    SameMemory s s' := by
  have hzero : inputs.rspValid = true → inputs.rspError = false → ∀ r, inputs.responseRequest = some r →
      r.write = true ∧ r.byteEnable = some 0 := fun hvalid herror r hr => by
    rw [hvalid, herror] at hsilent
    obtain ⟨r', hrequest, hr'⟩ := (hsilent.resolve_left (by decide)).resolve_left (by decide)
    rw [hr] at hrequest
    cases hrequest
    exact hr'
  cases h with
  | reset | outside | waits | idles | holds | accepts | injects => exact ⟨rfl, rfl, rfl⟩
  | answers _ _ _ hresponds hanswered =>
    cases hanswered with
    | unchanged | refused => exact ⟨rfl, rfl, rfl⟩
    | wrote _ henable _ _ _ herror =>
      obtain ⟨-, hnone⟩ := hzero hresponds.valid herror _ hresponds.request
      unfold enableOf at henable
      rw [hnone] at henable
      exact absurd rfl henable
    | read hread _ _ _ _ _ _ _ herror =>
      obtain ⟨hwrite, -⟩ := hzero hresponds.valid herror _ hresponds.request
      rw [hread] at hwrite
      cases hwrite

/-- A beat lies in one window. -/
theorem eq_of_holds (hplan : WellFormed plan) {base : ℕ} {v : MemoryWindow}
    (hv : v ∈ plan.memoryWindows) (hw : w ∈ plan.memoryWindows)
    (hvholds : v.holds plan.byteCount base = true) (hwholds : w.holds plan.byteCount base = true) :
    v = w := by
  have hbytes := hplan.byteCount_eq
  by_contra hne
  have hapart : plan.memoryWindows.Pairwise fun v w =>
      v.base + v.size ≤ w.base ∨ w.base + w.size ≤ v.base := hplan.windows.apart.imp .inl
  have hsymm : Std.Symm fun v w : MemoryWindow =>
      v.base + v.size ≤ w.base ∨ w.base + w.size ≤ v.base := ⟨fun _ _ => Or.symm⟩
  have hdisjoint := hapart.forall hv hw hne
  obtain ⟨hvlow, hvhigh⟩ := of_decide_eq_true hvholds
  obtain ⟨hwlow, hwhigh⟩ := of_decide_eq_true hwholds
  obtain ⟨-, hvsize, hvpos, -⟩ := hplan.windows.each v hv
  obtain ⟨-, hwsize, hwpos, -⟩ := hplan.windows.each w hw
  have := Nat.le_of_dvd hvpos hvsize
  have := Nat.le_of_dvd hwpos hwsize
  omega

/-- **A request through a read-only window changes no byte.** -/
theorem readOnly_moved (hplan : WellFormed plan) (h : Moved plan s header raw outputs inputs s')
    (hrequest : inputs.responseRequest = some r) (hw : w ∈ plan.memoryWindows)
    (hholds : w.holds plan.byteCount (beatBase plan r.address) = true)
    (hreadOnly : w.permissions = .readOnly) :
    (∀ b v, s.memory.get? b = some v → s'.memory.get? b = some v) ∧ (r.write = true → SameMemory s s') := by
  have hsame : SameMemory s s' → (∀ b v, s.memory.get? b = some v → s'.memory.get? b = some v) ∧
      (r.write = true → SameMemory s s') := fun hsame =>
    ⟨fun b v hget => by rw [hsame.memory]; exact hget, fun _ => hsame⟩
  cases h with
  | reset | outside | waits | idles | holds | accepts | injects => exact hsame ⟨rfl, rfl, rfl⟩
  | answers _ _ _ hresponds hanswered =>
    rw [hresponds.request] at hrequest
    cases hrequest
    cases hanswered with
    | unchanged | refused => exact hsame ⟨rfl, rfl, rfl⟩
    | wrote _ _ hwritable =>
      -- The only window of the beat is read-only, so the write was refused.
      obtain ⟨v, hv, hcovers⟩ := List.any_eq_true.1
        (hwritable.resolve_left (List.ne_nil_of_mem hw))
      rw [Bool.and_eq_true] at hcovers
      obtain rfl := eq_of_holds hplan hv hw hcovers.1 hholds
      rw [hreadOnly] at hcovers
      exact absurd hcovers.2 (by decide)
    | read hread _ initial =>
      refine ⟨fun b v hget => ?_, fun hwrite => ?_⟩
      · rw [get?_fill, if_neg fun hin => ?_]
        · exact hget
        · have hnone := (mem_missing.1 hin.2.2).2
          rw [← hin.1, Nat.add_sub_cancel' hin.2.1, hget] at hnone
          cases hnone
      · rw [hread] at hwrite
        cases hwrite

/-! ## Runs -/

/-- A response is to a request that has a place. -/
theorem exists_key_of_moved (hplan : WellFormed plan) (hinv : Inv plan s)
    (h : Moved plan s header raw outputs inputs s') (hrequest : inputs.responseRequest = some r) :
    ∃ key, requestKey plan r = .ok key := by
  have hpending : s.protocol.pending = some r := by
    cases h with
    | reset _ hq | outside _ _ hq | waits _ _ _ hq | idles _ _ _ hq
    | holds _ _ _ _ _ hq => exact absurd (hq.request.symm.trans hrequest) (by simp)
    | accepts _ _ _ _ _ _ _ _ _ hnone => exact absurd (hnone.symm.trans hrequest) (by simp)
    | injects _ hpending hresponds
    | answers _ hpending _ hresponds => rw [hpending, ← hresponds.request, hrequest]
  obtain ⟨hr, hin, -⟩ := hinv.pending r hpending
  obtain ⟨key, hkey, -⟩ := exists_requestKey hplan hr hin
  exact ⟨key, hkey⟩

/-- **The law of the memory** in a run. -/
structure MemoryLaw (plan : ContractTransducerPlan) (run : Run) : Prop where
  place : ∀ before outputs inputs after, run.trace = before ++ .cycle outputs inputs :: after →
    ∀ r, inputs.responseRequest = some r → ∃ key, requestKey plan r = .ok key
  reads : ∀ before outputs inputs after, run.trace = before ++ .cycle outputs inputs :: after →
    ∀ b v, readByte plan inputs b = some v → expectedByte plan (before ++ [.cycle outputs inputs]) b = some v
  raised : ∀ raw outputs e s', step plan run.runtime raw outputs = (.error e, s') → s' = run.runtime
  silent : ∀ raw outputs inputs s', step plan run.runtime raw outputs = (.ok inputs, s') →
    (inputs.rspValid = false ∨ inputs.rspError = true ∨
      ∃ r, inputs.responseRequest = some r ∧ r.write = true ∧ r.byteEnable = some 0) →
    SameMemory run.runtime s'
  readOnly : ∀ raw outputs inputs s', step plan run.runtime raw outputs = (.ok inputs, s') →
    ∀ r, inputs.responseRequest = some r → ∀ w ∈ plan.memoryWindows,
      w.holds plan.byteCount (beatBase plan r.address) = true → w.permissions = .readOnly →
      (∀ b v, run.runtime.memory.get? b = some v → s'.memory.get? b = some v) ∧
        (r.write = true → SameMemory run.runtime s')
  entries : ∀ key, key ∈ run.runtime.allocatedEntries ↔ (run.runtime.memoryProvenance.get? key).isSome
  nodup : run.runtime.allocatedEntries.Nodup
  capacity : run.runtime.allocatedEntries.length ≤ plan.memoryCapacityEntries

theorem memory_law {request : ContractRequest} (h : compileContractTransducer request = .ok plan)
    (calls : List Call) : MemoryLaw plan (runCalls plan calls) := by
  have hplan := wellFormed_of_compile h
  have hinv := inv_runCalls hplan calls
  have hmoves : ∀ raw outputs inputs s', step plan (runCalls plan calls).runtime raw outputs =
      (.ok inputs, s') → ∃ header, Moved plan (runCalls plan calls).runtime header raw.toNat outputs
        inputs s' := fun raw outputs inputs s' hstep => by
    rcases step_cases hplan hinv raw outputs with ⟨e, -, herror⟩ | ⟨header, inputs', s'', -, hok, hmoved⟩
    · cases herror.symm.trans hstep
    · cases hok.symm.trans hstep
      exact ⟨header, hmoved⟩
  refine ⟨fun before outputs inputs after htrace r hr => ?_,
    fun _ _ _ _ htrace _ _ hbyte => read_expected hplan htrace hbyte,
    fun raw outputs e s' hstep => ?_, fun raw outputs inputs s' hstep hsilent => ?_,
    fun raw outputs inputs s' hstep r hr w hw hholds hreadOnly => ?_, hinv.entries, hinv.nodup, hinv.capacity⟩
  · obtain ⟨calls', run', hbefore, hcalled, hrun', -⟩ := exists_call hplan htrace
    obtain ⟨header, raw, -, hmoved⟩ := moved_of_called hcalled (hrun'.trans (by rw [hbefore]))
    exact exists_key_of_moved hplan (inv_runCalls hplan calls') hmoved hr
  · rcases step_cases hplan hinv raw outputs with ⟨e', -, herror⟩ | ⟨_, _, _, -, hok, -⟩
    · exact (congrArg Prod.snd (herror.symm.trans hstep)).symm
    · cases hok.symm.trans hstep
  · obtain ⟨header, hmoved⟩ := hmoves raw outputs inputs s' hstep
    exact sameMemory_moved hmoved hsilent
  · obtain ⟨header, hmoved⟩ := hmoves raw outputs inputs s' hstep
    exact readOnly_moved hplan hmoved hr hw hholds hreadOnly

/-- A write through one window and a read through the other. -/
def wordCalls : List Call :=
  let write : ProcessorBeatRequest := ⟨0, "data_memory_master", "shared", true, 0x11223344, some 5⟩
  let read : ProcessorBeatRequest := ⟨16, "data_memory_master", "shared", false, 0, none⟩
  [.beginTest wordHeader, .step 0 ⟨some write, false⟩, .step 0 ⟨none, false⟩, .step 0 ⟨some read, false⟩,
    .step 0 ⟨none, false⟩]

theorem wordRequest_law : ∃ plan, compileContractTransducer wordRequest = .ok plan ∧
    MemoryLaw plan (runCalls plan wordCalls) := by
  have hok : (compileContractTransducer wordRequest).toOption.isSome = true := by decide
  cases hcompile : compileContractTransducer wordRequest with
  | error e =>
    rw [hcompile] at hok
    cases hok
  | ok plan => exact ⟨plan, rfl, memory_law hcompile wordCalls⟩

end Contract

end MyFuzz
