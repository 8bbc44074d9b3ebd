import MyFuzz.Composition.RuntimeCalls

/-!
# Composition/EntropyLatch — a stalled transaction does not resample its entropy

With declared windows, the bytes that a read gives for the first time come from the cycle its request was
accepted in.  So two runs whose raw cycles agree where requests are accepted, and otherwise only in what
decides when to accept and when to answer, cannot be told apart:

    choice fields agree, accepting cycles agree   ⟹   the runtimes are equal after every call

The runs are not merely similar: their states are the same, and only the data of an error response and the
external inputs of a cycle may differ.
-/

namespace MyFuzz

namespace Contract

open Outcome

variable {plan : ContractTransducerPlan} {s : ContractRuntime}

/-! ## Runs that agree where it matters -/

/-- The cycle accepts a request. -/
def acceptsIn (plan : ContractTransducerPlan) (s : ContractRuntime) (raw : ℤ) (outputs : DutOutputs) : Bool :=
  match (step plan s raw outputs).1 with
  | .ok inputs => inputs.reqReady
  | .error _ => false

/-- A raw cycle that fits the layout. -/
def FitsLayout (plan : ContractTransducerPlan) (raw : ℤ) : Prop :=
  0 ≤ raw ∧ raw < 2 ^ plan.cycleLayout.rawWidth

/-- The raw cycles give a field the same value. -/
def SameField (plan : ContractTransducerPlan) (raw raw' : ℤ) (name : FieldName) : Prop :=
  fieldOf plan raw.toNat name = fieldOf plan raw'.toNat name

/-- **Calls that agree where it matters**: in the choices of every cycle, and in every field where a
request is accepted. -/
def Alike (plan : ContractTransducerPlan) (s : ContractRuntime) : Call → Call → Prop
  | .beginTest header, .beginTest header' => header = header'
  | .step raw outputs, .step raw' outputs' =>
    outputs = outputs' ∧ (FitsLayout plan raw ↔ FitsLayout plan raw') ∧
      SameField plan raw raw' .responseChoice ∧
      (acceptsIn plan s raw outputs = true → ∀ name, SameField plan raw raw' name)
  | .resetDut, .resetDut => True
  | _, _ => False

/-- Runs of such calls, from where the first of them is. -/
def AlikeFrom (plan : ContractTransducerPlan) (run : Run) : List Call → List Call → Prop
  | [], [] => True
  | c :: calls, c' :: calls' =>
    Alike plan run.runtime c c' ∧ AlikeFrom plan (run.call plan c) calls calls'
  | _, _ => False

/-- The same timing and the same answered request; the same data unless it is an error. -/
structure SameInputs (i i' : ProcessorBeatInputs) : Prop where
  ready : i.reqReady = i'.reqReady
  valid : i.rspValid = i'.rspValid
  error : i.rspError = i'.rspError
  request : i.responseRequest = i'.responseRequest
  source : i.responseDataSource = i'.responseDataSource
  data : i.rspValid = true → i.rspError = false → i.rspData = i'.rspData

/-- A cycle without a response. -/
theorem sameInputs_external (ready : Bool) (external external' : List (String × ℕ)) :
    SameInputs { reqReady := ready, externalInputs := external }
      { reqReady := ready, externalInputs := external' } :=
  ⟨rfl, rfl, rfl, rfl, rfl, fun _ _ => rfl⟩

/-- Outcomes that raise the same, or return the same. -/
def SameOutcome : Except Exn ProcessorBeatInputs → Except Exn ProcessorBeatInputs → Prop
  | .ok i, .ok i' => SameInputs i i'
  | .error e, .error e' => e = e'
  | _, _ => False

/-- The same state, after the same outcome. -/
def SameResult (x x' : Except Exn ProcessorBeatInputs × ContractRuntime) : Prop :=
  SameOutcome x.1 x'.1 ∧ x.2 = x'.2

inductive SameEvent : Event → Event → Prop
  | began (header : TestHeader) : SameEvent (.began header) (.began header)
  | cycle (outputs : DutOutputs) {i i' : ProcessorBeatInputs} (h : SameInputs i i') :
      SameEvent (.cycle outputs i) (.cycle outputs i')
  | reset : SameEvent .reset .reset

/-! ## Answers do not read the cycle -/

/-- A response before its data is known. -/
structure SameControl (i i' : ProcessorBeatInputs) : Prop where
  ready : i.reqReady = i'.reqReady
  valid : i.rspValid = i'.rspValid
  error : i.rspError = i'.rspError
  request : i.responseRequest = i'.responseRequest

variable {i i' : ProcessorBeatInputs} {raw raw' : ℕ} {run run' : Run}

theorem SameControl.withData (h : SameControl i i') (data : ℕ) (source : Source) :
    SameInputs { i with rspData := data, responseDataSource := source }
      { i' with rspData := data, responseDataSource := source } :=
  ⟨h.ready, h.valid, h.error, h.request, rfl, fun _ _ => rfl⟩

theorem refuse_alike (h : SameControl i i') (source : Source) :
    SameResult (refuse s i source) (refuse s i' source) :=
  ⟨⟨h.ready, h.valid, rfl, h.request, rfl, fun _ _ => rfl⟩, rfl⟩

/-- **With windows, a first value comes from the latch**, not from the cycle. -/
theorem initialValue_alike (hwindows : plan.memoryWindows ≠ []) (header : TestHeader) (raw raw' : ℕ)
    (pending : ProcessorBeatRequest) (provenance : Option Provenance) :
    initialValue plan s header raw pending provenance = initialValue plan s header raw' pending
      provenance := by
  unfold initialValue entropyOf
  rw [if_pos hwindows, if_pos hwindows]

theorem answerWrite_alike (h : SameControl i i') (pending : ProcessorBeatRequest) (key : BeatKey) :
    SameResult (answerWrite plan s i pending key) (answerWrite plan s i' pending key) := by
  unfold answerWrite
  dsimp only
  split
  · exact ⟨rfl, rfl⟩
  · exact ⟨h.withData 0 .write, rfl⟩

theorem answerRead_alike (hwindows : plan.memoryWindows ≠ []) (h : SameControl i i')
    (header : TestHeader) (raw raw' : ℕ) (pending : ProcessorBeatRequest) (key : BeatKey) :
    SameResult (answerRead plan s header raw i pending key)
      (answerRead plan s header raw' i' pending key) := by
  unfold answerRead
  dsimp only
  rw [initialValue_alike hwindows header raw raw']
  split_ifs
  · exact refuse_alike h .provenanceError
  · split
    · exact ⟨rfl, rfl⟩
    · split
      · exact ⟨h.withData _ .stored, rfl⟩
      · split
        · exact ⟨rfl, rfl⟩
        · exact ⟨h.withData _ .stored, rfl⟩

/-- **The answer to a request does not depend on the cycle it is given in.** -/
theorem answer_alike (hwindows : plan.memoryWindows ≠ []) (h : SameControl i i')
    (header : TestHeader) (raw raw' : ℕ) (pending : ProcessorBeatRequest) :
    SameResult (answer plan s header raw i pending) (answer plan s header raw' i' pending) := by
  unfold answer
  split
  · exact ⟨rfl, rfl⟩
  · split_ifs
    · exact ⟨h.withData 0 .write, rfl⟩
    · exact refuse_alike h .readOnlyWriteError
    · exact refuse_alike h .capacityError
    · exact answerWrite_alike h pending _
    · exact answerRead_alike hwindows h header raw raw' pending _

/-! ## One cycle -/

/-- The instruction that a cycle holds. -/
theorem instructionData_alike (h : ∀ name, fieldOf plan raw name = fieldOf plan raw' name)
    (header : TestHeader) (address : ℕ) :
    instructionData plan header raw address = instructionData plan header raw' address := by
  have hvalue : ∀ name, fieldValue name plan.cycleLayout raw = fieldValue name plan.cycleLayout raw' :=
    fun name => by
      have hname := h name
      unfold fieldOf at hname
      split at hname <;> split at hname
      · rename_i hsome _ _ hsome'
        rw [hsome, hsome', Except.ok.inj hname]
      · cases hname
      · cases hname
      · rename_i hnone _ hnone'
        rw [hnone, hnone']
  unfold instructionData compressedBeat repairSlot
  rw [h, hvalue]
  simp only [h]

/-- **A cycle through the protocol.** -/
theorem stepProtocol_alike (hplan : WellFormed plan) (hwindows : plan.memoryWindows ≠ [])
    (header : TestHeader) (external external' : List (String × ℕ))
    (request : Option ProcessorBeatRequest) (choice : ℕ) {data data' : ℕ}
    (haccepts : (∃ inputs, (stepProtocol plan s header raw external request choice data).1 = .ok inputs ∧
      inputs.reqReady = true) → data = data' ∧ ∀ name, fieldOf plan raw name = fieldOf plan raw' name) :
    SameResult (stepProtocol plan s header raw external request choice data)
      (stepProtocol plan s header raw' external' request choice data') := by
  unfold stepProtocol protocolStep at haccepts ⊢
  cases hpending : s.protocol.pending with
  | some r =>
    dsimp only
    by_cases hrespond : choice &&& 2 ≠ 0 ∨ plan.maxWaitCycles - 1 ≤ s.protocol.age
    · rw [if_pos hrespond, if_pos hrespond]
      rw [if_neg Bool.false_ne_true, if_neg (not_not.2 rfl), if_neg Bool.false_ne_true,
        if_neg (not_not.2 rfl)]
      by_cases herror : (plan.allowError && decide (choice &&& 4 ≠ 0)) = true
      · rw [if_pos herror, if_pos herror]
        exact ⟨⟨rfl, rfl, rfl, rfl, rfl, fun _ hno => by cases herror.symm.trans hno⟩, rfl⟩
      · rw [if_neg herror, if_neg herror]
        refine answer_alike hwindows ?_ header raw raw' r
        exact ⟨rfl, rfl, rfl, rfl⟩
    · rw [if_neg hrespond, if_neg hrespond]
      exact ⟨sameInputs_external false external external', rfl⟩
  | none =>
    cases request with
    | none => exact ⟨sameInputs_external false external external', rfl⟩
    | some r =>
      dsimp only
      by_cases haccept : choice &&& 1 ≠ 0 ∨ plan.maxWaitCycles - 1 ≤ s.protocol.acceptAge
      · obtain ⟨instruction, hinstruction, -⟩ := exists_instructionData hplan header raw r.address
        rw [hpending] at haccepts
        dsimp only at haccepts
        rw [if_pos haccept, if_pos rfl, Option.map_some, Option.getD_some, hinstruction] at haccepts
        obtain ⟨rfl, hfields⟩ := haccepts ⟨_, rfl, rfl⟩
        rw [if_pos haccept]
        rw [if_pos rfl, if_pos rfl, Option.map_some, Option.getD_some,
          ← instructionData_alike hfields header r.address, hinstruction]
        exact ⟨sameInputs_external true external external', rfl⟩
      · rw [if_neg haccept]
        exact ⟨sameInputs_external false external external', rfl⟩

theorem checkStep_alike {raw raw' : ℤ} (h : FitsLayout plan raw ↔ FitsLayout plan raw')
    (outputs : DutOutputs) : checkStep plan s raw outputs = checkStep plan s raw' outputs := by
  have hunsigned : unsigned raw plan.cycleLayout.rawWidth "raw cycle" =
      unsigned raw' plan.cycleLayout.rawWidth "raw cycle" := if_congr h rfl rfl
  unfold checkStep
  rw [hunsigned]

/-- **One cycle of two runs that agree where it matters.** -/
theorem step_alike (hplan : WellFormed plan) (hwindows : plan.memoryWindows ≠ []) {raw raw' : ℤ}
    {outputs : DutOutputs} (hfits : FitsLayout plan raw ↔ FitsLayout plan raw')
    (hchoice : SameField plan raw raw' .responseChoice)
    (haccepts : acceptsIn plan s raw outputs = true → ∀ name, SameField plan raw raw' name) :
    SameResult (step plan s raw outputs) (step plan s raw' outputs) := by
  obtain ⟨external, choice, data, hfields, hchoiceOf, hdataOf, -⟩ := exists_stepFields hplan raw.toNat
  obtain ⟨external', choice', data', hfields', hchoiceOf', hdataOf', -⟩ := exists_stepFields hplan raw'.toNat
  have hsame : choice = choice' := by
    have hboth := hchoiceOf.symm.trans (hchoice.trans hchoiceOf')
    exact Except.ok.inj hboth
  subst hsame
  unfold acceptsIn at haccepts
  unfold step at haccepts ⊢
  rw [← checkStep_alike hfits outputs, hfields, hfields']
  rw [hfields] at haccepts
  cases hcheck : checkStep plan s raw outputs with
  | error e => exact ⟨rfl, rfl⟩
  | ok header =>
    rw [hcheck] at haccepts
    dsimp only at haccepts ⊢
    by_cases hreset : outputs.reset = true
    · rw [if_pos hreset, if_pos hreset]
      exact ⟨sameInputs_external false external external', rfl⟩
    · by_cases hout : outOfWindow plan s outputs.request
      · rw [if_neg hreset, if_neg hreset, if_pos hout, if_pos hout]
        exact ⟨sameInputs_external false external external', rfl⟩
      · rw [if_neg hreset, if_neg hout] at haccepts
        rw [if_neg hreset, if_neg hreset, if_neg hout, if_neg hout]
        refine stepProtocol_alike hplan hwindows header external external' outputs.request choice ?_
        rintro ⟨inputs, hok, hready⟩
        rw [hok] at haccepts
        have hall := haccepts hready
        refine ⟨?_, hall⟩
        have hboth := hdataOf.symm.trans ((hall .responseData).trans hdataOf')
        exact Except.ok.inj hboth

/-! ## Runs -/

/-- The same runtime, after the same events. -/
structure SameRun (run run' : Run) : Prop where
  runtime : run.runtime = run'.runtime
  trace : List.Forall₂ SameEvent run.trace run'.trace

theorem call_alike (hplan : WellFormed plan) (hwindows : plan.memoryWindows ≠ [])
    (hrun : SameRun run run') {c c' : Call} (h : Alike plan run.runtime c c') :
    SameRun (run.call plan c) (run'.call plan c') := by
  obtain ⟨s, trace⟩ := run
  obtain ⟨s', trace'⟩ := run'
  obtain ⟨hruntime, htrace⟩ := hrun
  subst hruntime
  have hsnoc : ∀ {e e' : Event}, SameEvent e e' → List.Forall₂ SameEvent (trace ++ [e]) (trace' ++ [e']) :=
    fun he => List.rel_append htrace (.cons he .nil)
  cases c with
  | beginTest header =>
    cases c' with
    | beginTest header' =>
      obtain rfl : header = header' := h
      simp only [Run.call]
      obtain ⟨out, s₁⟩ := beginTest plan s header
      cases out with
      | ok => exact ⟨rfl, hsnoc (.began header)⟩
      | error => exact ⟨rfl, htrace⟩
    | step | resetDut => exact h.elim
  | step raw outputs =>
    cases c' with
    | beginTest => exact h.elim
    | step raw' outputs' =>
      obtain ⟨rfl, hfits, hchoice, haccepts⟩ := h
      have hstep := step_alike hplan hwindows hfits hchoice haccepts
      simp only [Run.call]
      revert hstep
      generalize step plan s raw outputs = x
      generalize step plan s raw' outputs = x'
      obtain ⟨out, s₁⟩ := x
      obtain ⟨out', s₁'⟩ := x'
      rintro ⟨houtcome, rfl⟩
      cases out with
      | ok inputs =>
        cases out' with
        | ok inputs' => exact ⟨rfl, hsnoc (.cycle outputs houtcome)⟩
        | error => exact houtcome.elim
      | error e =>
        cases out' with
        | ok => exact houtcome.elim
        | error e' => exact ⟨rfl, htrace⟩
    | resetDut => exact h.elim
  | resetDut =>
    cases c' with
    | beginTest | step => exact h.elim
    | resetDut => exact ⟨rfl, hsnoc .reset⟩

theorem foldl_alike (hplan : WellFormed plan) (hwindows : plan.memoryWindows ≠ [])
    (hrun : SameRun run run') {calls calls' : List Call} (h : AlikeFrom plan run calls calls') (n : ℕ) :
    SameRun ((calls.take n).foldl (Run.call plan) run) ((calls'.take n).foldl (Run.call plan) run') := by
  induction calls generalizing run run' calls' n with
  | nil =>
    cases calls' with
    | nil =>
      rw [List.take_nil]
      exact hrun
    | cons => exact h.elim
  | cons c calls ih =>
    cases calls' with
    | nil => exact h.elim
    | cons c' calls' =>
      cases n with
      | zero => exact hrun
      | succ n =>
        rw [List.take_succ_cons, List.take_succ_cons, List.foldl_cons, List.foldl_cons]
        exact ih (call_alike hplan hwindows hrun h.1) h.2 n

/-- **A stalled transaction does not resample its entropy**: after every call, the two runs have had the
same timing and the same answers, and their runtimes are equal. -/
theorem entropy_latched {request : ContractRequest} (hcompile : compileContractTransducer request = .ok plan)
    (hmode : plan.memoryMode = .declaredWindows) {calls calls' : List Call}
    (h : AlikeFrom plan {} calls calls') (n : ℕ) :
    SameRun (runCalls plan (calls.take n)) (runCalls plan (calls'.take n)) := by
  have hplan := wellFormed_of_compile hcompile
  exact foldl_alike hplan (hplan.windows.mode_iff.mp hmode) ⟨rfl, .nil⟩ h n

/-! ## A run with another cycle of response -/

/-- A read is accepted in one cycle and answered in the next, which holds another instruction. -/
def stalledCalls (raw : ℤ) : List Call :=
  [.beginTest wordHeader, .step 0 ⟨some ⟨0, "data_memory_master", "shared", false, 0, none⟩, false⟩,
    .step raw ⟨none, false⟩]

theorem stalled_same : ∃ plan, compileContractTransducer wordRequest = .ok plan ∧
    SameRun (runCalls plan (stalledCalls 0)) (runCalls plan (stalledCalls 1)) := by
  have hrun : (match compileContractTransducer wordRequest with
      | .ok plan => decide (plan.memoryMode = .declaredWindows) && decide (1 < plan.cycleLayout.rawWidth) &&
          (decide ((fieldOf plan 0 .responseChoice).toOption = some 0) &&
            decide ((fieldOf plan 1 .responseChoice).toOption = some 0)) &&
          !acceptsIn plan (runCalls plan ((stalledCalls 0).take 2)).runtime 0 ⟨none, false⟩
      | .error _ => false) = true := by decide
  cases hcompile : compileContractTransducer wordRequest with
  | error e =>
    rw [hcompile] at hrun
    cases hrun
  | ok plan =>
    rw [hcompile] at hrun
    simp only [Bool.and_eq_true, decide_eq_true_iff, Bool.not_eq_true'] at hrun
    obtain ⟨⟨⟨hmode, hwidth⟩, hzero, hone⟩, hwaits⟩ := hrun
    have hwide : (2 : ℤ) ^ 1 ≤ 2 ^ plan.cycleLayout.rawWidth := pow_le_pow_right₀ (by decide) hwidth.le
    have hchoice : SameField plan 0 1 .responseChoice := by
      unfold SameField
      rw [show (0 : ℤ).toNat = 0 from rfl, show (1 : ℤ).toNat = 1 from rfl]
      revert hzero hone
      cases fieldOf plan 0 .responseChoice <;> cases fieldOf plan 1 .responseChoice <;>
        simp [Except.toOption]
      rintro rfl rfl
      rfl
    have halike : AlikeFrom plan {} (stalledCalls 0) (stalledCalls 1) := by
      refine ⟨rfl, ⟨rfl, Iff.rfl, rfl, fun _ _ => rfl⟩, ⟨rfl, iff_of_true ⟨le_rfl, by omega⟩
        ⟨by decide, by omega⟩, hchoice, fun haccepts => ?_⟩, trivial⟩
      cases haccepts.symm.trans hwaits
    exact ⟨plan, rfl, entropy_latched hcompile hmode halike 3⟩

end Contract

end MyFuzz
