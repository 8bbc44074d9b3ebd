import MyFuzz.Composition.InstructionBeat

/-!
# Composition/RuntimeAnswers — what answers a pending request

A pending request was checked when it was accepted: its beat lies in the address space and, where there
are windows, in one of them.  So nothing on the way to an answer raises, and there are four answers:

    unchanged   a write that enables no byte
    refused     counted, and nothing else
    wrote       the enabled bytes of the beat
    read        the bytes of the beat, those without a value given one first
-/

namespace MyFuzz

namespace Contract

open Outcome Sequence

variable {plan : ContractTransducerPlan} {s : ContractRuntime} {r : ProcessorBeatRequest}

/-! ## Checked requests -/

/-- What the check of a request leaves. -/
structure RequestOk (plan : ContractTransducerPlan) (r : ProcessorBeatRequest) : Prop where
  span : beatBase plan r.address + plan.byteCount ≤ 2 ^ plan.addressWidth
  data : r.writeData < 2 ^ plan.dataWidth
  enable : ∀ byteEnable ∈ r.byteEnable, byteEnable < 2 ^ plan.byteCount

variable {value address widthBytes : ℕ} {bytes : Bytes} {domain : String} {key : BeatKey}
  {result : ProcessorBeatInputs}

theorem unsigned_eq_ok {width : ℕ} {label : String} (h : unsigned value width label = .ok ()) :
    value < 2 ^ width := by
  have hlt := (ensure_eq_ok.1 h).2
  exact_mod_cast hlt

theorem requestOk_of_validateRequest (h : validateRequest plan (some r) = .ok ()) : RequestOk plan r := by
  obtain ⟨-, h⟩ := ensure_ok.1 h
  obtain ⟨⟨⟩, -, h⟩ := bind_ok.1 h
  obtain ⟨hspan, h⟩ := ensure_ok.1 h
  obtain ⟨⟨⟩, hdata, h⟩ := bind_ok.1 h
  refine ⟨hspan, unsigned_eq_ok hdata, fun byteEnable hmem => ?_⟩
  rw [Option.mem_def] at hmem
  rw [hmem] at h
  obtain ⟨⟨⟩, henable, -⟩ := bind_ok.1 h
  exact unsigned_eq_ok henable

/-- The beat of a request lies in the space that the target owns. -/
def Inside (plan : ContractTransducerPlan) (r : ProcessorBeatRequest) : Prop :=
  plan.memoryWindows = [] ∨ covers plan (beatBase plan r.address) false = true

/-! ## Windows and keys -/

/-- A beat that is covered has a window. -/
theorem exists_windowFor {base : ℕ} (h : covers plan base false = true) :
    ∃ w ∈ plan.memoryWindows, windowFor plan base = .ok w ∧ w.base ≤ base ∧
      base ≤ w.base + w.size - plan.byteCount := by
  obtain ⟨v, hv, hholds⟩ := List.any_eq_true.1 h
  rw [Bool.not_false, Bool.true_or, Bool.and_true] at hholds
  unfold windowFor
  cases hfind : plan.memoryWindows.find? (·.holds plan.byteCount base) with
  | none => exact absurd hholds (List.find?_eq_none.1 hfind v hv)
  | some w =>
    have hw := List.find?_some hfind
    exact ⟨w, List.mem_of_find?_eq_some hfind, rfl, of_decide_eq_true hw⟩

/-- **The beat of a request has a key**, inside the bounds of a physical memory. -/
theorem exists_requestKey (hplan : WellFormed plan) (hr : RequestOk plan r) (hin : Inside plan r) :
    ∃ key, requestKey plan r = .ok key ∧ key.2 + plan.byteCount ≤ 2 ^ 64 := by
  have hlimit : 2 ^ plan.addressWidth ≤ 2 ^ 64 := Nat.pow_le_pow_right (by decide) hplan.addressWidth_le
  unfold requestKey
  split_ifs with hwindows
  · obtain ⟨w, hw, hfor, -, hhigh⟩ := exists_windowFor (hin.resolve_left hwindows)
    obtain ⟨-, hsize, hpos, hinside⟩ := hplan.windows.each w hw
    refine ⟨(w.physicalMemoryId, beatBase plan r.address - w.base), ?_, ?_⟩
    · unfold physicalKey
      rw [hfor]
      rfl
    · have hle := Nat.le_of_dvd hpos hsize
      omega
  · exact ⟨_, rfl, hr.span.trans hlimit⟩

/-- Whether the beat is loaded from an image. -/
theorem exists_loadedBeat (hin : Inside plan r) :
    ∃ loaded, loadedBeat plan (beatBase plan r.address) = .ok loaded := by
  unfold loadedBeat
  split_ifs with hwindows
  · obtain ⟨w, -, hfor, -, -⟩ := exists_windowFor (hin.resolve_left hwindows)
    exact ⟨w.initializationPolicy.loaded, by rw [hfor]; rfl⟩
  · exact ⟨false, rfl⟩

/-! ## First values -/

/-- The entropy of the accepted request is there, and fits. -/
def Latched (plan : ContractTransducerPlan) (s : ContractRuntime) : Prop :=
  ∃ entropy, s.acceptedEntropy = some entropy ∧ entropy.1 < 2 ^ plan.dataWidth ∧
    entropy.2 < 2 ^ plan.dataWidth

/-- **A beat that has no value is given one**: zero where it is loaded from an image. -/
theorem exists_initialValue (hplan : WellFormed plan) (hin : Inside plan r) (hlatched : Latched plan s)
    (header : TestHeader) (raw : ℕ) (provenance : Option Provenance) :
    ∃ initial, initialValue plan s header raw r provenance = .ok initial ∧ initial < 2 ^ plan.dataWidth ∧
      (loadedBeat plan (beatBase plan r.address) = .ok true → initial = 0) := by
  obtain ⟨loaded, hloaded⟩ := exists_loadedBeat hin
  have hentropy : ∃ entropy, entropyOf plan s header raw r = .ok entropy ∧
      entropy.1 < 2 ^ plan.dataWidth ∧ entropy.2 < 2 ^ plan.dataWidth := by
    unfold entropyOf
    split_ifs
    · obtain ⟨entropy, hsome, hbounds⟩ := hlatched
      rw [hsome]
      exact ⟨entropy, rfl, hbounds⟩
    · obtain ⟨instruction, hinstruction, hlt⟩ := exists_instructionData hplan header raw r.address
      obtain ⟨data, hdata, hlt'⟩ := exists_responseData hplan raw
      refine ⟨(instruction, data), ?_, hlt, hlt'⟩
      rw [hinstruction, ok_bind, hdata]
      rfl
  unfold initialValue
  rw [hloaded, ok_bind]
  cases loaded with
  | true => exact ⟨0, rfl, Nat.two_pow_pos _, fun _ => rfl⟩
  | false =>
    obtain ⟨entropy, hok, hfirst, hsecond⟩ := hentropy
    rw [if_neg (by decide), hok, ok_bind]
    refine ⟨_, rfl, ?_, fun htrue => (by cases htrue)⟩
    split_ifs
    · exact hfirst
    · exact hsecond

/-! ## Spans -/

theorem validateSpan_ok (hpos : 0 < widthBytes) (h : address + widthBytes ≤ 2 ^ 64) :
    validateSpan address widthBytes = .ok () := by
  unfold validateSpan
  rw [ensure_of (by omega), ok_bind, ensure_of hpos, ok_bind]
  exact ensure_of (by omega) _

/-- **A span is read**, the bytes without a value filled in. -/
theorem readSpan_ok {initial : ℕ} (hpos : 0 < widthBytes) (hspan : address + widthBytes ≤ 2 ^ 64)
    (hinitial : initial < 2 ^ (8 * widthBytes)) :
    readSpan bytes domain address widthBytes (.ok initial) =
      .ok (collect (fill bytes domain address initial (missing bytes domain address widthBytes)) domain
          address widthBytes,
        fill bytes domain address initial (missing bytes domain address widthBytes)) := by
  unfold readSpan
  rw [validateSpan_ok hpos hspan, ok_bind]
  split
  · rename_i hnone
    rw [hnone]
    rfl
  · rw [ok_bind, validateValue, ensure_of hinitial]
    rfl

/-- The lanes that are written. -/
def enabledLanes (byteEnable widthBytes : ℕ) : List ℕ :=
  (List.range widthBytes).filter fun index => byteEnable >>> index &&& 1 ≠ 0

theorem writeSpan_ok {byteEnable : ℕ} (hpos : 0 < widthBytes)
    (hspan : address + widthBytes ≤ 2 ^ 64) (hvalue : value < 2 ^ (8 * widthBytes))
    (henable : byteEnable < 2 ^ widthBytes) :
    writeSpan bytes domain address value byteEnable widthBytes =
      .ok (fill bytes domain address value (enabledLanes byteEnable widthBytes)) := by
  unfold writeSpan
  rw [validateSpan_ok hpos hspan, ok_bind, validateValue, ensure_of hvalue, ok_bind, ensure_of henable]
  rfl

/-! ## Answers -/

/-- The bytes that a write enables. -/
def enableOf (plan : ContractTransducerPlan) (r : ProcessorBeatRequest) : ℕ :=
  r.byteEnable.getD (2 ^ plan.byteCount - 1)

/-- There is an entry for a beat, or room for one. -/
def HasRoom (plan : ContractTransducerPlan) (s : ContractRuntime) (key : BeatKey) : Prop :=
  key ∈ s.allocatedEntries ∨ s.allocatedEntries.length < plan.memoryCapacityEntries

/-- **What answers a request**, and the state it leaves. -/
inductive Answered (plan : ContractTransducerPlan) (s : ContractRuntime) (r : ProcessorBeatRequest)
    (key : BeatKey) : ProcessorBeatInputs → ContractRuntime → Prop
  | unchanged {inputs : ProcessorBeatInputs} (hwrite : r.write = true) (hzero : r.byteEnable = some 0)
      (hsource : inputs.responseDataSource = .write) (herror : inputs.rspError = false) :
      Answered plan s r key inputs s
  | refused {inputs : ProcessorBeatInputs} (source : Source) (hsource : inputs.responseDataSource = source)
      (herror : inputs.rspError = true) : Answered plan s r key inputs (s.recordFault source)
  | wrote {inputs : ProcessorBeatInputs} (hwrite : r.write = true) (henable : enableOf plan r ≠ 0)
      (hwritable : plan.memoryWindows = [] ∨ covers plan (beatBase plan r.address) true = true)
      (hroom : HasRoom plan s key) (hsource : inputs.responseDataSource = .write)
      (herror : inputs.rspError = false) :
      Answered plan s r key inputs { s with
        allocatedEntries := Sequence.addNew s.allocatedEntries key
        memory := fill s.memory key.1 key.2 r.writeData (enabledLanes (enableOf plan r) plan.byteCount)
        memoryProvenance := s.memoryProvenance.set key .cpuWritten }
  | read {inputs : ProcessorBeatInputs} (hread : r.write = false) (hroom : HasRoom plan s key)
      (initial : ℕ) (hinitial : initial < 2 ^ plan.dataWidth)
      (hloaded : loadedBeat plan (beatBase plan r.address) = .ok true → initial = 0) (provenance : Provenance)
      (hdata : inputs.rspData = collect (fill s.memory key.1 key.2 initial
        (missing s.memory key.1 key.2 plan.byteCount)) key.1 key.2 plan.byteCount)
      (hsource : inputs.responseDataSource = .stored) (herror : inputs.rspError = false) :
      Answered plan s r key inputs { s with
        allocatedEntries := Sequence.addNew s.allocatedEntries key
        memory := fill s.memory key.1 key.2 initial (missing s.memory key.1 key.2 plan.byteCount)
        memoryProvenance := if (s.memoryProvenance.get? key).isSome then s.memoryProvenance
          else s.memoryProvenance.set key provenance }

/-- The fields of a response that say which request it answers. -/
structure Responds (r : ProcessorBeatRequest) (inputs : ProcessorBeatInputs) : Prop where
  valid : inputs.rspValid = true
  ready : inputs.reqReady = false
  request : inputs.responseRequest = some r

theorem answerWrite_cases (hplan : WellFormed plan) (hr : RequestOk plan r)
    (hkey : key.2 + plan.byteCount ≤ 2 ^ 64) (hwrite : r.write = true) (hzero : r.byteEnable ≠ some 0)
    (hwritable : plan.memoryWindows = [] ∨ covers plan (beatBase plan r.address) true = true)
    (hroom : HasRoom plan s key) (hresult : Responds r result) (herror : result.rspError = false) :
    ∃ inputs s', answerWrite plan { s with allocatedEntries := addNew s.allocatedEntries key }
        result r key = (.ok inputs, s') ∧ Responds r inputs ∧ Answered plan s r key inputs s' := by
  have hbytes := hplan.byteCount_eq
  have henable : enableOf plan r < 2 ^ plan.byteCount := by
    unfold enableOf
    cases hbe : r.byteEnable with
    | none =>
      have := Nat.two_pow_pos plan.byteCount
      rw [Option.getD_none]
      omega
    | some be => exact hr.enable be hbe
  have hne : enableOf plan r ≠ 0 := by
    unfold enableOf
    cases hbe : r.byteEnable with
    | none =>
      rw [Option.getD_none]
      rcases hbytes with hb | hb <;> rw [hb] <;> decide
    | some be =>
      rw [Option.getD_some]
      exact fun hbe0 => hzero (hbe.trans (congrArg some hbe0))
  have hvalue := hr.data
  rw [hplan.dataWidth_eq_mul] at hvalue
  have hspan : writeSpan s.memory key.1 key.2 r.writeData (r.byteEnable.getD (2 ^ plan.byteCount - 1))
      plan.byteCount = .ok (fill s.memory key.1 key.2 r.writeData
        (enabledLanes (enableOf plan r) plan.byteCount)) :=
    writeSpan_ok (by omega) hkey hvalue henable
  unfold answerWrite
  dsimp only
  rw [hspan]
  rw [if_pos (show r.byteEnable.getD (2 ^ plan.byteCount - 1) ≠ 0 from hne)]
  exact ⟨_, _, rfl, ⟨hresult.valid, hresult.ready, hresult.request⟩,
    .wrote hwrite hne hwritable hroom rfl herror⟩

theorem answerRead_cases (hplan : WellFormed plan) (hin : Inside plan r) (hlatched : Latched plan s)
    (hkey : key.2 + plan.byteCount ≤ 2 ^ 64) (hread : r.write = false)
    (hentry : (s.memoryProvenance.get? key).isSome → key ∈ s.allocatedEntries)
    (hroom : HasRoom plan s key) (hresult : Responds r result) (herror : result.rspError = false)
    (header : TestHeader) (raw : ℕ) :
    ∃ inputs s', answerRead plan { s with allocatedEntries := addNew s.allocatedEntries key }
        header raw result r key = (.ok inputs, s') ∧ Responds r inputs ∧ Answered plan s r key inputs s' := by
  have hbytes := hplan.byteCount_eq
  have hresponds : ∀ (data : ℕ) (source : Source) (error : Bool),
      Responds r { result with rspData := data, responseDataSource := source, rspError := error } :=
    fun _ _ _ => ⟨hresult.valid, hresult.ready, hresult.request⟩
  unfold answerRead
  dsimp only
  split_ifs with hprovenance
  · have hmem : key ∈ s.allocatedEntries := hentry (by rw [hprovenance.2]; rfl)
    have hsame : addNew s.allocatedEntries key = s.allocatedEntries := if_pos hmem
    refine ⟨_, _, rfl, hresponds 0 .provenanceError true, ?_⟩
    rw [hsame]
    exact .refused .provenanceError rfl rfl
  · obtain ⟨initial, hinitial, hlt, hzero⟩ := exists_initialValue
      (s := { s with allocatedEntries := addNew s.allocatedEntries key }) hplan hin hlatched
      header raw (s.memoryProvenance.get? key)
    have hfits := hlt
    rw [hplan.dataWidth_eq_mul] at hfits
    rw [hinitial, readSpan_ok (by omega) hkey hfits]
    set memory := fill s.memory key.1 key.2 initial (missing s.memory key.1 key.2 plan.byteCount)
      with hmemory
    have hanswered : ∀ provenance, Answered plan s r key
        { result with rspData := collect memory key.1 key.2 plan.byteCount, responseDataSource := .stored }
        { s with
          allocatedEntries := addNew s.allocatedEntries key
          memory := memory
          memoryProvenance := if (s.memoryProvenance.get? key).isSome then s.memoryProvenance
            else s.memoryProvenance.set key provenance } :=
      fun provenance => .read hread hroom initial hlt hzero provenance rfl rfl herror
    cases hget : s.memoryProvenance.get? key with
    | some provenance =>
      have hsome := hanswered provenance
      rw [hget] at hsome
      exact ⟨_, _, rfl, hresponds _ .stored result.rspError, hsome⟩
    | none =>
      obtain ⟨loaded, hloaded⟩ := exists_loadedBeat hin
      have hnone := hanswered (newProvenance loaded r)
      rw [hget] at hnone
      rw [hloaded]
      exact ⟨_, _, rfl, hresponds _ .stored result.rspError, hnone⟩

/-- **Every pending request is answered**, in one of the four ways. -/
theorem answer_cases (hplan : WellFormed plan) (hr : RequestOk plan r) (hin : Inside plan r)
    (hlatched : Latched plan s)
    (hentry : ∀ key, (s.memoryProvenance.get? key).isSome → key ∈ s.allocatedEntries)
    (hresult : Responds r result) (herror : result.rspError = false) (header : TestHeader) (raw : ℕ) :
    ∃ key inputs s', requestKey plan r = .ok key ∧
      answer plan s header raw result r = (.ok inputs, s') ∧ Responds r inputs ∧
      Answered plan s r key inputs s' := by
  obtain ⟨key, hkey, hbound⟩ := exists_requestKey hplan hr hin
  have hresponds : ∀ (data : ℕ) (source : Source) (error : Bool),
      Responds r { result with rspData := data, responseDataSource := source, rspError := error } :=
    fun _ _ _ => ⟨hresult.valid, hresult.ready, hresult.request⟩
  unfold answer
  rw [hkey]
  dsimp only
  split_ifs with hzero hreadOnly hfull hwrite
  · exact ⟨key, _, _, rfl, rfl, hresponds 0 .write result.rspError, .unchanged hzero.1 hzero.2 rfl herror⟩
  · exact ⟨key, _, _, rfl, rfl, hresponds 0 .readOnlyWriteError true, .refused .readOnlyWriteError rfl rfl⟩
  · exact ⟨key, _, _, rfl, rfl, hresponds 0 .capacityError true, .refused .capacityError rfl rfl⟩
  · have hroom : HasRoom plan s key := by
      by_contra hno
      exact hfull ⟨fun hmem => hno (.inl hmem), not_lt.1 fun hlt => hno (.inr hlt)⟩
    have hwritable : plan.memoryWindows = [] ∨ covers plan (beatBase plan r.address) true = true := by
      by_contra hno
      obtain ⟨hwindows, hcovers⟩ := not_or.1 hno
      exact hreadOnly ⟨hwindows, hwrite, hcovers⟩
    obtain ⟨inputs, s', hok, hall⟩ := answerWrite_cases hplan hr hbound hwrite
      (fun hbe => hzero ⟨hwrite, hbe⟩) hwritable hroom hresult herror
    exact ⟨key, inputs, s', rfl, hok, hall⟩
  · have hroom : HasRoom plan s key := by
      by_contra hno
      exact hfull ⟨fun hmem => hno (.inl hmem), not_lt.1 fun hlt => hno (.inr hlt)⟩
    obtain ⟨inputs, s', hok, hall⟩ := answerRead_cases hplan hin hlatched hbound
      (Bool.not_eq_true _ ▸ hwrite) (hentry key) hroom hresult herror header raw
    exact ⟨key, inputs, s', rfl, hok, hall⟩

end Contract

end MyFuzz
