import MyFuzz.Composition.RuntimeAnswers

/-!
# Composition/RuntimeInvariant — what a cycle does

A cycle that passes its checks does one of eight things, and none of them raises.  What makes that so is an
invariant that acceptance sets up and every cycle keeps:

    pending   ⟹   the request was checked, lies inside the windows, and its entropy is latched
    entries    =   the beats with a provenance, no more than there is room for
-/

namespace MyFuzz

namespace Contract

open Outcome

variable {plan : ContractTransducerPlan} {s s' : ContractRuntime} {outputs : DutOutputs}
  {inputs : ProcessorBeatInputs}

/-! ## The invariant -/

/-- **What holds between two calls.** -/
structure Inv (plan : ContractTransducerPlan) (s : ContractRuntime) : Prop where
  pending : ∀ r, s.protocol.pending = some r → RequestOk plan r ∧ Inside plan r ∧ Latched plan s
  entries : ∀ key, key ∈ s.allocatedEntries ↔ (s.memoryProvenance.get? key).isSome
  nodup : s.allocatedEntries.Nodup
  capacity : s.allocatedEntries.length ≤ plan.memoryCapacityEntries
  age : s.protocol.age ≤ plan.maxWaitCycles - 1
  acceptAge : s.protocol.acceptAge ≤ plan.maxWaitCycles - 1

/-- A cycle that neither accepts nor answers. -/
structure Quiet (inputs : ProcessorBeatInputs) : Prop where
  ready : inputs.reqReady = false
  valid : inputs.rspValid = false
  request : inputs.responseRequest = none

/-- **What a cycle does.** -/
inductive Moved (plan : ContractTransducerPlan) (s : ContractRuntime) (header : TestHeader) (raw : ℕ)
    (outputs : DutOutputs) : ProcessorBeatInputs → ContractRuntime → Prop
  | reset {inputs : ProcessorBeatInputs} (hreset : outputs.reset = true) (hquiet : Quiet inputs) :
      Moved plan s header raw outputs inputs s.resetDut
  | outside {inputs : ProcessorBeatInputs} (hreset : outputs.reset = false)
      (hout : outOfWindow plan s outputs.request) (hquiet : Quiet inputs) :
      Moved plan s header raw outputs inputs (s.recordFault .outOfWindow)
  | waits {inputs : ProcessorBeatInputs} {r : ProcessorBeatRequest} (hreset : outputs.reset = false)
      (hpending : s.protocol.pending = some r) (hage : s.protocol.age < plan.maxWaitCycles - 1)
      (hquiet : Quiet inputs) :
      Moved plan s header raw outputs inputs
        { s with protocol := { pending := some r, age := s.protocol.age + 1 } }
  | idles {inputs : ProcessorBeatInputs} (hreset : outputs.reset = false)
      (hpending : s.protocol.pending = none) (hrequest : outputs.request = none) (hquiet : Quiet inputs) :
      Moved plan s header raw outputs inputs { s with protocol := {} }
  | holds {inputs : ProcessorBeatInputs} {r : ProcessorBeatRequest} (hreset : outputs.reset = false)
      (hpending : s.protocol.pending = none) (hrequest : outputs.request = some r)
      (hin : Inside plan r) (hage : s.protocol.acceptAge < plan.maxWaitCycles - 1) (hquiet : Quiet inputs) :
      Moved plan s header raw outputs inputs
        { s with protocol := { acceptAge := s.protocol.acceptAge + 1 } }
  | accepts {inputs : ProcessorBeatInputs} {r : ProcessorBeatRequest} {instruction data : ℕ}
      (hreset : outputs.reset = false) (hpending : s.protocol.pending = none)
      (hrequest : outputs.request = some r) (hr : RequestOk plan r) (hin : Inside plan r)
      (hinstruction : instruction < 2 ^ plan.dataWidth) (hdata : data < 2 ^ plan.dataWidth)
      (hready : inputs.reqReady = true) (hvalid : inputs.rspValid = false)
      (hnone : inputs.responseRequest = none) :
      Moved plan s header raw outputs inputs
        { s with protocol := { pending := some r }, acceptedEntropy := some (instruction, data) }
  | injects {inputs : ProcessorBeatInputs} {r : ProcessorBeatRequest} (hreset : outputs.reset = false)
      (hpending : s.protocol.pending = some r) (hresponds : Responds r inputs)
      (herror : inputs.rspError = true) (hsource : inputs.responseDataSource = .error) :
      Moved plan s header raw outputs inputs ({ s with protocol := {} }.recordFault .error)
  | answers {inputs : ProcessorBeatInputs} {s' : ContractRuntime} {r : ProcessorBeatRequest}
      {key : BeatKey} (hreset : outputs.reset = false) (hpending : s.protocol.pending = some r)
      (hkey : requestKey plan r = .ok key) (hresponds : Responds r inputs)
      (hanswered : Answered plan { s with protocol := {} } r key inputs s') :
      Moved plan s header raw outputs inputs s'

variable {r : ProcessorBeatRequest} {header : TestHeader} {raw : ℕ} {key : BeatKey}

theorem inside_of_not_outOfWindow (hpending : s.protocol.pending = none)
    (hrequest : outputs.request = some r) (hout : ¬ outOfWindow plan s outputs.request) :
    Inside plan r := by
  by_contra hno
  obtain ⟨hwindows, hcovers⟩ := not_or.1 hno
  exact hout ⟨hwindows, hpending, r, hrequest, hcovers⟩

/-- A cycle that goes through the protocol. -/
theorem stepProtocol_cases (hplan : WellFormed plan) (hinv : Inv plan s) {choice data : ℕ}
    (hdata : data < 2 ^ plan.dataWidth) (hreset : outputs.reset = false)
    (hcheck : validateRequest plan outputs.request = .ok ())
    (hout : ¬ outOfWindow plan s outputs.request) (external : List (String × ℕ)) :
    ∃ inputs s', stepProtocol plan s header raw external outputs.request choice data = (.ok inputs, s') ∧
      Moved plan s header raw outputs inputs s' := by
  unfold stepProtocol protocolStep
  cases hpending : s.protocol.pending with
  | some r =>
    dsimp only
    by_cases hrespond : choice &&& 2 ≠ 0 ∨ plan.maxWaitCycles - 1 ≤ s.protocol.age
    · rw [if_pos hrespond]
      rw [if_neg Bool.false_ne_true, if_neg (not_not.2 rfl)]
      split_ifs with herror
      · exact ⟨_, _, rfl, .injects hreset hpending ⟨rfl, rfl, rfl⟩ herror rfl⟩
      · obtain ⟨hr, hin, hlatched⟩ := hinv.pending r hpending
        obtain ⟨key, inputs, s', hkey, hanswer, hresponds, hanswered⟩ :=
          answer_cases (s := { s with protocol := {} }) hplan hr hin hlatched
            (fun key hsome => (hinv.entries key).2 hsome)
            (show Responds r
              { rspValid := true, rspData := data, rspError := plan.allowError && decide (choice &&& 4 ≠ 0),
                responseRequest := some r, responseDataSource := .raw, externalInputs := external } from
              ⟨rfl, rfl, rfl⟩)
            (Bool.not_eq_true _ ▸ herror) header raw
        exact ⟨inputs, s', hanswer, .answers hreset hpending hkey hresponds hanswered⟩
    · rw [if_neg hrespond]
      rw [not_or, not_le] at hrespond
      exact ⟨_, _, rfl, .waits hreset hpending hrespond.2 ⟨rfl, rfl, rfl⟩⟩
  | none =>
    cases hrequest : outputs.request with
    | none => exact ⟨_, _, rfl, .idles hreset hpending hrequest ⟨rfl, rfl, rfl⟩⟩
    | some r =>
      have hin := inside_of_not_outOfWindow hpending hrequest hout
      dsimp only
      by_cases haccept : choice &&& 1 ≠ 0 ∨ plan.maxWaitCycles - 1 ≤ s.protocol.acceptAge
      · rw [if_pos haccept]
        obtain ⟨instruction, hinstruction, hlt⟩ := exists_instructionData hplan header raw r.address
        rw [if_pos rfl]
        rw [Option.map_some, Option.getD_some, hinstruction]
        rw [hrequest] at hcheck
        exact ⟨_, _, rfl, .accepts hreset hpending hrequest (requestOk_of_validateRequest hcheck) hin hlt
          hdata rfl rfl rfl⟩
      · rw [if_neg haccept]
        rw [not_or, not_le] at haccept
        exact ⟨_, _, rfl, .holds hreset hpending hrequest hin haccept.2 ⟨rfl, rfl, rfl⟩⟩

/-- **A cycle is rejected by its checks or moves**; nothing else raises. -/
theorem step_cases (hplan : WellFormed plan) (hinv : Inv plan s) (raw : ℤ) (outputs : DutOutputs) :
    (∃ e, checkStep plan s raw outputs = .error e ∧ step plan s raw outputs = (.error e, s)) ∨
      ∃ header inputs s', checkStep plan s raw outputs = .ok header ∧
        step plan s raw outputs = (.ok inputs, s') ∧ Moved plan s header raw.toNat outputs inputs s' := by
  obtain ⟨external, choice, data, hfields, -, -, hdata⟩ := exists_stepFields hplan raw.toNat
  unfold step
  rw [hfields]
  cases hcheck : checkStep plan s raw outputs with
  | error e => exact .inl ⟨e, rfl, rfl⟩
  | ok header =>
    refine .inr ⟨header, ?_⟩
    have hrequest : validateRequest plan outputs.request = .ok () := by
      obtain ⟨_, -, _, -, ⟨⟩, hok, -⟩ := bind_ok₃ hcheck
      exact hok
    split_ifs with hreset hout
    · exact ⟨_, _, rfl, rfl, .reset hreset ⟨rfl, rfl, rfl⟩⟩
    · exact ⟨_, _, rfl, rfl, .outside (Bool.not_eq_true _ ▸ hreset) hout ⟨rfl, rfl, rfl⟩⟩
    · obtain ⟨inputs, s', hok, hmoved⟩ := stepProtocol_cases hplan hinv hdata
        (Bool.not_eq_true _ ▸ hreset) hrequest hout external
      exact ⟨inputs, s', rfl, hok, hmoved⟩

/-! ## The invariant is kept -/

theorem inv_init (plan : ContractTransducerPlan) : Inv plan {} where
  pending := fun _ h => by cases h
  entries := fun _ => ⟨nofun, fun h => by cases h⟩
  nodup := List.nodup_nil
  capacity := Nat.zero_le _
  age := Nat.zero_le _
  acceptAge := Nat.zero_le _

theorem inv_resetDut (hinv : Inv plan s) : Inv plan s.resetDut where
  pending := fun _ h => by cases h
  entries := hinv.entries
  nodup := hinv.nodup
  capacity := hinv.capacity
  age := Nat.zero_le _
  acceptAge := Nat.zero_le _

theorem inv_recordFault (hinv : Inv plan s) (source : Source) : Inv plan (s.recordFault source) :=
  ⟨hinv.pending, hinv.entries, hinv.nodup, hinv.capacity, hinv.age, hinv.acceptAge⟩

/-- A protocol without a pending request. -/
theorem inv_free (hinv : Inv plan s) {acceptAge : ℕ} (hage : acceptAge ≤ plan.maxWaitCycles - 1) :
    Inv plan { s with protocol := { acceptAge := acceptAge } } :=
  ⟨fun _ h => (by cases h), hinv.entries, hinv.nodup, hinv.capacity, Nat.zero_le _, hage⟩

/-- An entry for a beat that has room, and a provenance for it. -/
theorem inv_enter (hinv : Inv plan s) (hroom : HasRoom plan s key) {memory : Bytes}
    {provenance : Dict BeatKey Provenance}
    (hprovenance : ∀ k, (provenance.get? k).isSome ↔ (s.memoryProvenance.get? k).isSome ∨ k = key) :
    Inv plan { s with
      allocatedEntries := Sequence.addNew s.allocatedEntries key
      memory := memory
      memoryProvenance := provenance } where
  pending := hinv.pending
  entries := fun k => by
    rw [Sequence.mem_addNew, hinv.entries k]
    exact (hprovenance k).symm
  nodup := Sequence.nodup_addNew hinv.nodup key
  capacity := by
    have hcapacity := hinv.capacity
    unfold Sequence.addNew
    split_ifs with hmem
    · exact hcapacity
    · have hlt := hroom.resolve_left hmem
      rw [List.length_append, List.length_singleton]
      omega
  age := hinv.age
  acceptAge := hinv.acceptAge

theorem isSome_get?_set {d : Dict BeatKey Provenance} {k : BeatKey} {v : Provenance} :
    ((d.set key v).get? k).isSome ↔ (d.get? k).isSome ∨ k = key := by
  rw [Dict.get?_set]
  split_ifs with hk
  · exact ⟨fun _ => .inr hk, fun _ => rfl⟩
  · exact ⟨.inl, fun h => h.resolve_right hk⟩

theorem inv_answered (hinv : Inv plan s) (h : Answered plan s r key inputs s') : Inv plan s' := by
  cases h with
  | unchanged => exact hinv
  | refused source => exact inv_recordFault hinv source
  | wrote _ _ _ hroom => exact inv_enter hinv hroom fun k => isSome_get?_set
  | read _ hroom =>
    refine inv_enter hinv hroom fun k => ?_
    split_ifs with hsome
    · exact ⟨.inl, fun h => h.elim id fun hk => hk ▸ hsome⟩
    · exact isSome_get?_set

/-- **A cycle keeps the invariant.** -/
theorem inv_moved (hinv : Inv plan s) (h : Moved plan s header raw outputs inputs s') : Inv plan s' := by
  cases h with
  | reset => exact inv_resetDut hinv
  | outside => exact inv_recordFault hinv _
  | waits _ hpending hage =>
    refine ⟨fun r' hr' => ?_, hinv.entries, hinv.nodup, hinv.capacity, hage, Nat.zero_le _⟩
    cases hr'
    exact hinv.pending _ hpending
  | idles => exact inv_free hinv (Nat.zero_le _)
  | holds _ _ _ _ hage => exact inv_free hinv hage
  | accepts _ _ _ hr hin hinstruction hdata =>
    refine ⟨fun r' hr' => ?_, hinv.entries, hinv.nodup, hinv.capacity, Nat.zero_le _, Nat.zero_le _⟩
    cases hr'
    exact ⟨hr, hin, _, rfl, hinstruction, hdata⟩
  | injects => exact inv_recordFault (inv_free hinv (Nat.zero_le _)) _
  | answers _ _ _ _ hanswered => exact inv_answered (inv_free hinv (Nat.zero_le _)) hanswered

end Contract

end MyFuzz
