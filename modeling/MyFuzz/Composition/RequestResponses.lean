import MyFuzz.Composition.RuntimeCalls

/-!
# Composition/RequestResponses — one request at a time

A request is outstanding from the cycle that accepts it to the response, the reset or the new test that
ends it.  What is pending in the runtime is what is outstanding in the trace, so

    … accepts r ─ waits ─ … ─ waits ─ responds r …

is the only way a response comes about.  A counter bounds each of the two waits.
-/

namespace MyFuzz

open List

namespace Contract

variable {plan : ContractTransducerPlan} {s s' : ContractRuntime} {run run' : Run}
  {before after trace : List Event} {e : Event} {r : ProcessorBeatRequest}

/-! ## Events -/

namespace Event

/-- The request is presented in a cycle that is not a reset. -/
def Presents (r : ProcessorBeatRequest) : Event → Prop
  | cycle outputs _ => outputs.reset = false ∧ outputs.request = some r
  | began _ => False
  | reset => False

/-- The request is accepted. -/
def Accepts (r : ProcessorBeatRequest) : Event → Prop
  | cycle outputs inputs => outputs.reset = false ∧ outputs.request = some r ∧ inputs.reqReady = true
  | began _ => False
  | reset => False

/-- The request is answered. -/
def Responds (r : ProcessorBeatRequest) : Event → Prop
  | cycle outputs inputs =>
    outputs.reset = false ∧ inputs.rspValid = true ∧ inputs.responseRequest = some r
  | began _ => False
  | reset => False

/-- A cycle that is not a reset. -/
def Runs : Event → Prop
  | cycle outputs _ => outputs.reset = false
  | began _ => False
  | reset => False

/-- A cycle that is not a reset, accepts nothing and answers nothing. -/
def Waits : Event → Prop
  | cycle outputs inputs => outputs.reset = false ∧ inputs.reqReady = false ∧ inputs.rspValid = false
  | began _ => False
  | reset => False

variable {outputs : DutOutputs} {inputs : ProcessorBeatInputs}

theorem accepts_cycle : (cycle outputs inputs).Accepts r ↔
    outputs.reset = false ∧ outputs.request = some r ∧ inputs.reqReady = true := Iff.rfl

theorem waits_cycle : (cycle outputs inputs).Waits ↔
    outputs.reset = false ∧ inputs.reqReady = false ∧ inputs.rspValid = false := Iff.rfl

end Event

/-- **The request is outstanding**: it was accepted, and nothing has happened to it since. -/
def Outstanding (trace : List Event) (r : ProcessorBeatRequest) : Prop :=
  ∃ before e waits, trace = before ++ e :: waits ∧ e.Accepts r ∧ ∀ w ∈ waits, w.Waits

theorem outstanding_append : Outstanding (trace ++ [e]) r ↔ e.Accepts r ∨ Outstanding trace r ∧ e.Waits := by
  constructor
  · rintro ⟨before, a, waits, htrace, haccepts, hwaits⟩
    rcases Sequence.concat_eq_append_cons.1 htrace with ⟨-, -, rfl⟩ | ⟨rest, rfl, hbefore⟩
    · exact .inl haccepts
    · rw [forall_mem_append] at hwaits
      exact .inr ⟨⟨before, a, rest, hbefore, haccepts, hwaits.1⟩, hwaits.2 e (.head _)⟩
  · rintro (haccepts | ⟨⟨before, a, waits, rfl, haccepts, hwaits⟩, he⟩)
    · exact ⟨trace, e, [], rfl, haccepts, forall_mem_nil _⟩
    · refine ⟨before, a, waits ++ [e], by rw [append_assoc, cons_append], haccepts, ?_⟩
      exact forall_mem_append.2 ⟨hwaits, forall_mem_singleton.2 he⟩

/-! ## What is pending is outstanding -/

variable {inputs : ProcessorBeatInputs} {header : TestHeader} {raw : ℕ} {outputs : DutOutputs} {α : Type}

theorem protocol_answered {key : BeatKey} (h : Answered plan s r key inputs s') :
    s'.protocol = s.protocol := by
  cases h with
  | unchanged | refused | wrote | read => rfl

/-- A cycle accepts a request, waits, or leaves none pending. -/
theorem pending_moved (h : Moved plan s header raw outputs inputs s') (r : ProcessorBeatRequest) :
    s'.protocol.pending = some r ↔ (Event.cycle outputs inputs).Accepts r ∨
      s.protocol.pending = some r ∧ (Event.cycle outputs inputs).Waits := by
  rw [Event.accepts_cycle, Event.waits_cycle]
  cases h with
  | reset hreset hquiet =>
    rw [hreset]
    exact iff_of_false (fun h => by cases h) fun h => h.elim (fun h => by cases h.1) fun h => by cases h.2.1
  | outside hreset _ hquiet =>
    rw [hreset, hquiet.ready, hquiet.valid]
    exact ⟨fun h => .inr ⟨h, rfl, rfl, rfl⟩, fun h => h.elim (fun h => by cases h.2.2) And.left⟩
  | waits hreset hpending _ hquiet | idles hreset hpending _ hquiet
  | holds hreset hpending _ _ _ hquiet =>
    rw [hreset, hquiet.ready, hquiet.valid, hpending]
    exact ⟨fun h => .inr ⟨h, rfl, rfl, rfl⟩, fun h => h.elim (fun h => by cases h.2.2) And.left⟩
  | accepts hreset hpending hrequest _ _ _ _ hready =>
    rw [hreset, hready, hrequest]
    exact ⟨fun h => .inl ⟨rfl, h, rfl⟩, fun h => h.elim (fun h => h.2.1) fun h => by cases h.2.2.1⟩
  | injects hreset _ hresponds =>
    rw [hreset, hresponds.ready, hresponds.valid]
    exact iff_of_false (fun h => by cases h) fun h => h.elim (fun h => by cases h.2.2) fun h => by
      cases h.2.2.2
  | answers hreset _ _ hresponds hanswered =>
    rw [hreset, hresponds.ready, hresponds.valid, protocol_answered hanswered]
    exact iff_of_false (fun h => by cases h) fun h => h.elim (fun h => by cases h.2.2) fun h => by
      cases h.2.2.2

/-- **What is pending is what is outstanding.** -/
theorem outstanding_called (h : Called plan run run')
    (hrun : ∀ r, run.runtime.protocol.pending = some r ↔ Outstanding run.trace r) (r : ProcessorBeatRequest) :
    run'.runtime.protocol.pending = some r ↔ Outstanding run'.trace r := by
  cases h with
  | raised => exact hrun r
  | began hloading =>
    rw [outstanding_append, hloading.protocol]
    exact iff_of_false (fun h => by cases h) fun h => h.elim id And.right
  | cycle _ hmoved => rw [pending_moved hmoved, outstanding_append, hrun]
  | reset =>
    rw [outstanding_append]
    exact iff_of_false (fun h => by cases h) fun h => h.elim id And.right

theorem outstanding_nil : ¬ Outstanding [] r := fun ⟨_, _, _, htrace, _⟩ => by
  cases append_eq_nil_iff.1 htrace.symm |>.2

theorem pending_iff_outstanding (hplan : WellFormed plan) (calls : List Call) (r : ProcessorBeatRequest) :
    (runCalls plan calls).runtime.protocol.pending = some r ↔ Outstanding (runCalls plan calls).trace r :=
  runCalls_called (P := fun run => ∀ r, run.runtime.protocol.pending = some r ↔ Outstanding run.trace r)
    hplan (fun _ => iff_of_false (fun h => by cases h) outstanding_nil)
    (fun _ _ _ hrun hcalled => outstanding_called hcalled hrun) calls r

/-! ## Bounded waits -/

/-- The cycles since the request was first presented, none of which accepted it, are counted. -/
def Counted (plan : ContractTransducerPlan) (run : Run) : Prop :=
  ∀ before cycles r, run.trace = before ++ cycles → (∀ r', ¬ Outstanding before r') → Inside plan r →
    (∀ c ∈ cycles, c.Presents r ∧ ¬ c.Accepts r) → cycles.length ≤ run.runtime.protocol.acceptAge

/-- Cycles that accept nothing leave nothing outstanding. -/
theorem not_outstanding_append {cycles : List Event} (hfree : ∀ r', ¬ Outstanding before r')
    (hcycles : ∀ c ∈ cycles, c.Presents r ∧ ¬ c.Accepts r) (r' : ProcessorBeatRequest) :
    ¬ Outstanding (before ++ cycles) r' := by
  induction cycles using List.reverseRecOn with
  | nil =>
    rw [append_nil]
    exact hfree r'
  | append_singleton cycles c ih =>
    obtain ⟨hrest, hc⟩ := forall_mem_append.1 hcycles
    obtain ⟨hpresents, hnot⟩ := forall_mem_singleton.1 hc
    rw [← append_assoc, outstanding_append]
    rintro (haccepts | ⟨hout, -⟩)
    · cases c with
      | cycle outputs inputs =>
        have hsame := hpresents.2.symm.trans haccepts.2.1
        cases hsame
        exact hnot haccepts
      | began | reset => exact hpresents
    · exact ih hrest hout

theorem acceptAge_moved (h : Moved plan s header raw outputs inputs s')
    (hfree : s.protocol.pending = none) (hin : Inside plan r)
    (hpresents : (Event.cycle outputs inputs).Presents r) (hnot : ¬ (Event.cycle outputs inputs).Accepts r) :
    s'.protocol.acceptAge = s.protocol.acceptAge + 1 := by
  obtain ⟨hrun, hrequest⟩ := hpresents
  cases h with
  | reset hreset =>
    rw [hrun] at hreset
    cases hreset
  | outside _ hout =>
    obtain ⟨hwindows, -, r', hr', hcovers⟩ := hout
    cases hrequest.symm.trans hr'
    exact absurd (hin.resolve_left hwindows) hcovers
  | waits _ hpending =>
    rw [hfree] at hpending
    cases hpending
  | idles _ _ hnone =>
    rw [hrequest] at hnone
    cases hnone
  | holds => rfl
  | accepts _ _ _ _ _ _ _ hready => exact absurd ⟨hrun, hrequest, hready⟩ hnot
  | injects _ hpending | answers _ hpending =>
    rw [hfree] at hpending
    cases hpending

theorem counted_called (h : Called plan run run')
    (hpending : ∀ r, run.runtime.protocol.pending = some r ↔ Outstanding run.trace r)
    (hrun : Counted plan run) : Counted plan run' := by
  intro before cycles r htrace hfree hin hcycles
  rcases eq_nil_or_concat' cycles with rfl | ⟨cycles, c, rfl⟩
  · exact Nat.zero_le _
  · obtain ⟨hrest, hc⟩ := forall_mem_append.1 hcycles
    obtain ⟨hpresents, hnot⟩ := forall_mem_singleton.1 hc
    rw [length_append, length_singleton]
    cases h with
    | raised =>
      have hlast := hrun before (cycles ++ [c]) r htrace hfree hin hcycles
      rwa [length_append, length_singleton] at hlast
    | began | reset =>
      rw [← append_assoc] at htrace
      obtain ⟨-, rfl⟩ := append_inj' htrace rfl |>.imp id singleton_inj.1
      exact hpresents.elim
    | cycle _ hmoved =>
      rw [← append_assoc] at htrace
      obtain ⟨hbefore, rfl⟩ := append_inj' htrace rfl |>.imp id singleton_inj.1
      have hnone : run.runtime.protocol.pending = none := by
        refine Option.eq_none_iff_forall_not_mem.2 fun r' hr' => ?_
        have hout := (hpending r').1 hr'
        rw [hbefore] at hout
        exact not_outstanding_append hfree hrest r' hout
      rw [acceptAge_moved hmoved hnone hin hpresents hnot]
      exact Nat.succ_le_succ (hrun before cycles r hbefore hfree hin hrest)

/-- The cycles since the request was accepted, none of which answered it, are counted. -/
def Aged (run : Run) : Prop :=
  ∀ before e cycles r, run.trace = before ++ e :: cycles → e.Accepts r →
    (∀ c ∈ cycles, c.Runs ∧ ¬ c.Responds r) →
    run.runtime.protocol.pending = some r ∧ cycles.length ≤ run.runtime.protocol.age

theorem age_moved (h : Moved plan s header raw outputs inputs s')
    (hpending : s.protocol.pending = some r) (hruns : (Event.cycle outputs inputs).Runs)
    (hnot : ¬ (Event.cycle outputs inputs).Responds r) :
    s'.protocol.pending = some r ∧ s'.protocol.age = s.protocol.age + 1 := by
  cases h with
  | reset hreset =>
    rw [show outputs.reset = false from hruns] at hreset
    cases hreset
  | outside _ hout =>
    rw [hout.2.1] at hpending
    cases hpending
  | waits _ hsome => exact ⟨hsome.symm.trans hpending, rfl⟩
  | idles _ hnone | holds _ hnone | accepts _ hnone =>
    rw [hnone] at hpending
    cases hpending
  | injects _ hsome hresponds | answers _ hsome _ hresponds =>
    cases hsome.symm.trans hpending
    exact absurd ⟨hruns, hresponds.valid, hresponds.request⟩ hnot

theorem aged_called (h : Called plan run run') (hrun : Aged run) : Aged run' := by
  intro before e cycles r htrace haccepts hcycles
  cases h with
  | raised => exact hrun before e cycles r htrace haccepts hcycles
  | began | reset =>
    rcases Sequence.concat_eq_append_cons.1 htrace with ⟨-, -, rfl⟩ | ⟨rest, rfl, -⟩
    · exact haccepts.elim
    · exact (hcycles _ (mem_append_right _ (.head _))).1.elim
  | cycle _ hmoved =>
    rcases Sequence.concat_eq_append_cons.1 htrace with ⟨rfl, -, rfl⟩ | ⟨rest, rfl, hbefore⟩
    · exact ⟨(pending_moved hmoved r).2 (.inl haccepts), Nat.zero_le _⟩
    · obtain ⟨hrest, hlast⟩ := forall_mem_append.1 hcycles
      obtain ⟨hruns, hnot⟩ := forall_mem_singleton.1 hlast
      obtain ⟨hpending, hage⟩ := hrun before e rest r hbefore haccepts hrest
      obtain ⟨hsome, hnext⟩ := age_moved hmoved hpending hruns hnot
      rw [length_append, length_singleton, hnext]
      exact ⟨hsome, Nat.succ_le_succ hage⟩

/-! ## Runs -/

/-- A request that is presented inside the windows, long enough, is accepted. -/
def AcceptsPresented (plan : ContractTransducerPlan) (trace : List Event) (free : List Event → Prop) : Prop :=
  ∀ before cycles after r, trace = before ++ cycles ++ after → cycles.length = plan.maxWaitCycles →
    (∀ c ∈ cycles, c.Presents r) → Inside plan r → free before → ∃ c ∈ cycles, c.Accepts r

/-- **The law of the beat protocol** in a run. -/
structure BeatLaw (plan : ContractTransducerPlan) (run : Run) : Prop where
  response : ∀ before outputs inputs after, run.trace = before ++ .cycle outputs inputs :: after →
    inputs.rspValid = true →
      ∃ r, inputs.responseRequest = some r ∧ outputs.reset = false ∧ Outstanding before r
  acceptance : ∀ before outputs inputs after, run.trace = before ++ .cycle outputs inputs :: after →
    inputs.reqReady = true → ∃ r, (Event.cycle outputs inputs).Accepts r ∧ inputs.rspValid = false ∧
        (∀ r', ¬ Outstanding before r') ∧ (plan.memoryMode = .declaredWindows →
          ∃ w ∈ plan.memoryWindows, w.holds plan.byteCount (beatBase plan r.address) = true)
  accepted : AcceptsPresented plan run.trace fun before => ∀ r, ¬ Outstanding before r
  answered : ∀ before e cycles after r, run.trace = before ++ e :: (cycles ++ after) → e.Accepts r →
    cycles.length = plan.maxWaitCycles → (∀ c ∈ cycles, c.Runs) → ∃ c ∈ cycles, c.Responds r
  raises : ∀ raw outputs e s', step plan run.runtime raw outputs = (.error e, s') →
    checkStep plan run.runtime raw outputs = .error e
  begins : ∀ header e s', beginTest plan run.runtime header = (.error e, s') →
    checkHeader plan header = .error e

/-- A declared request lies in a window. -/
theorem exists_window_of_inside (hmode : plan.memoryMode = .declaredWindows) (hplan : WellFormed plan)
    (hin : Inside plan r) :
    ∃ w ∈ plan.memoryWindows, w.holds plan.byteCount (beatBase plan r.address) = true := by
  have hcovers := hin.resolve_left (hplan.windows.mode_iff.1 hmode)
  obtain ⟨w, hw, hholds⟩ := any_eq_true.1 hcovers
  rw [Bool.and_eq_true] at hholds
  exact ⟨w, hw, hholds.1⟩

theorem exists_run_of_append (hplan : WellFormed plan) {calls : List Call}
    (h : (runCalls plan calls).trace = before ++ after) :
    ∃ calls', (runCalls plan calls').trace = before := by
  cases after with
  | nil =>
    rw [append_nil] at h
    exact ⟨calls, h⟩
  | cons e after =>
    obtain ⟨calls', -, hbefore, -⟩ := exists_call hplan h
    exact ⟨calls', hbefore⟩

theorem counted_runCalls (hplan : WellFormed plan) (calls : List Call) :
    Counted plan (runCalls plan calls) := by
  refine (runCalls_called (P := fun run => (∀ r, run.runtime.protocol.pending = some r ↔
    Outstanding run.trace r) ∧ Counted plan run) hplan ⟨fun _ => iff_of_false (fun h => by cases h)
      outstanding_nil, fun before cycles r htrace _ _ _ => ?_⟩ (fun _ _ _ hrun hcalled =>
    ⟨outstanding_called hcalled hrun.1, counted_called hcalled hrun.1 hrun.2⟩) calls).2
  obtain ⟨-, rfl⟩ := append_eq_nil_iff.1 htrace.symm
  exact Nat.zero_le _

theorem aged_runCalls (hplan : WellFormed plan) (calls : List Call) : Aged (runCalls plan calls) := by
  refine runCalls_called (P := Aged) hplan (fun before e cycles r htrace => ?_)
    (fun _ _ _ hrun hcalled => aged_called hcalled hrun) calls
  cases (append_eq_nil_iff.1 htrace.symm).2

/-- A response answers what is pending; an acceptance is of what is presented. -/
theorem response_moved (h : Moved plan s header raw outputs inputs s') (hvalid : inputs.rspValid = true) :
    ∃ r, inputs.responseRequest = some r ∧ outputs.reset = false ∧ s.protocol.pending = some r := by
  have hquiet : Quiet inputs → False := fun hq => by
    rw [hq.valid] at hvalid
    cases hvalid
  cases h with
  | reset _ hq | outside _ _ hq | waits _ _ _ hq | idles _ _ _ hq
  | holds _ _ _ _ _ hq => exact (hquiet hq).elim
  | accepts _ _ _ _ _ _ _ _ hno =>
    rw [hno] at hvalid
    cases hvalid
  | injects hreset hpending hresponds
  | answers hreset hpending _ hresponds => exact ⟨_, hresponds.request, hreset, hpending⟩

theorem acceptance_moved (h : Moved plan s header raw outputs inputs s') (hready : inputs.reqReady = true) :
    ∃ r, (Event.cycle outputs inputs).Accepts r ∧ inputs.rspValid = false ∧ s.protocol.pending = none ∧
      Inside plan r := by
  have hquiet : Quiet inputs → False := fun hq => by
    rw [hq.ready] at hready
    cases hready
  cases h with
  | reset _ hq | outside _ _ hq | waits _ _ _ hq | idles _ _ _ hq
  | holds _ _ _ _ _ hq => exact (hquiet hq).elim
  | accepts hreset hpending hrequest _ hin _ _ _ hno =>
    exact ⟨_, ⟨hreset, hrequest, hready⟩, hno, hpending, hin⟩
  | injects _ _ hresponds | answers _ _ _ hresponds =>
    rw [hresponds.ready] at hready
    cases hready

/-- **Every accepted request is answered once, within bounds**, and only the checks of a call raise. -/
theorem beat_law {request : ContractRequest} (h : compileContractTransducer request = .ok plan)
    (calls : List Call) : BeatLaw plan (runCalls plan calls) := by
  have hplan := wellFormed_of_compile h
  refine ⟨fun before outputs inputs after htrace hvalid => ?_,
    fun before outputs inputs after htrace hready => ?_,
    fun before cycles after r htrace hlength hpresents hin hfree => ?_,
    fun before e cycles after r htrace haccepts hlength hruns => ?_,
    fun raw outputs e s' hstep => ?_, fun header e s' hbegin => ?_⟩
  · obtain ⟨calls', run', hbefore, hcalled, hrun', -⟩ := exists_call hplan htrace
    obtain ⟨header, raw, -, hmoved⟩ := moved_of_called hcalled (hrun'.trans (by rw [hbefore]))
    obtain ⟨r, hr, hreset, hpending⟩ := response_moved hmoved hvalid
    refine ⟨r, hr, hreset, ?_⟩
    rwa [pending_iff_outstanding hplan, hbefore] at hpending
  · obtain ⟨calls', run', hbefore, hcalled, hrun', -⟩ := exists_call hplan htrace
    obtain ⟨header, raw, -, hmoved⟩ := moved_of_called hcalled (hrun'.trans (by rw [hbefore]))
    obtain ⟨r, haccepts, hvalid, hnone, hin⟩ := acceptance_moved hmoved hready
    refine ⟨r, haccepts, hvalid, fun r' hout => ?_, fun hmode => exists_window_of_inside hmode hplan hin⟩
    rw [← hbefore, ← pending_iff_outstanding hplan, hnone] at hout
    cases hout
  · obtain ⟨calls', hrun⟩ := exists_run_of_append hplan htrace
    by_contra hnone
    have hcount := counted_runCalls hplan calls' before cycles r hrun hfree hin fun c hc =>
      ⟨hpresents c hc, fun haccepts => hnone ⟨c, hc, haccepts⟩⟩
    have hage := (inv_runCalls hplan calls').acceptAge
    have hpos := hplan.wait_pos
    omega
  · rw [← List.cons_append, ← List.append_assoc] at htrace
    obtain ⟨calls', hrun⟩ := exists_run_of_append hplan htrace
    by_contra hnone
    obtain ⟨-, hcount⟩ := aged_runCalls hplan calls' before e cycles r hrun haccepts fun c hc =>
      ⟨hruns c hc, fun hresponds => hnone ⟨c, hc, hresponds⟩⟩
    have hage := (inv_runCalls hplan calls').age
    have hpos := hplan.wait_pos
    omega
  · rcases step_cases hplan (inv_runCalls hplan calls) raw outputs with ⟨e', hcheck, herror⟩ |
      ⟨_, _, _, -, hok, -⟩
    · cases herror.symm.trans hstep
      exact hcheck
    · cases hok.symm.trans hstep
  · rcases beginTest_cases hplan (runCalls plan calls).runtime header with ⟨e', hcheck, herror⟩ |
      ⟨_, hok, -⟩
    · cases herror.symm.trans hbegin
      exact hcheck
    · cases hok.symm.trans hbegin

/-! ## A request that finds another one pending -/

def wordRead (address : ℕ) : ProcessorBeatRequest :=
  ⟨address, "data_memory_master", "shared", false, 0, none⟩

/-- The first request is accepted; the second one is presented while the first is answered. -/
def busyCalls : List Call :=
  [.beginTest wordHeader, .step 0 ⟨some (wordRead 0), false⟩, .step 0 ⟨some (wordRead 4), false⟩]

/-- The last cycle presents the second request and does not accept it. -/
def lastRefuses : List Event → Bool
  | [_, _, .cycle outputs inputs] =>
    outputs.reset = false ∧ outputs.request = some (wordRead 4) ∧ inputs.reqReady = false
  | _ => false

theorem busy_not_accepted : ∃ plan, compileContractTransducer wordRequest = .ok plan ∧
    ¬ AcceptsPresented plan (runCalls plan busyCalls).trace fun _ => True := by
  have hrun : (match compileContractTransducer wordRequest with
      | .ok plan => decide (plan.maxWaitCycles = 1) && (covers plan (beatBase plan 4) false &&
          lastRefuses (runCalls plan busyCalls).trace)
      | .error _ => false) = true := by decide
  cases hcompile : compileContractTransducer wordRequest with
  | error e =>
    rw [hcompile] at hrun
    cases hrun
  | ok plan =>
    rw [hcompile] at hrun
    rw [Bool.and_eq_true, Bool.and_eq_true, decide_eq_true_iff] at hrun
    obtain ⟨hwait, hcovers, hlast⟩ := hrun
    refine ⟨plan, rfl, fun haccepts => ?_⟩
    unfold lastRefuses at hlast
    split at hlast
    · rename_i first second outputs inputs htrace
      obtain ⟨hreset, hrequest, hready⟩ := of_decide_eq_true hlast
      obtain ⟨c, hc, haccepted⟩ := haccepts [first, second] [.cycle outputs inputs] [] (wordRead 4)
        (by rw [htrace]; rfl) (by rw [hwait]; rfl)
        (fun c hc => by rw [List.mem_singleton.mp hc]; exact ⟨hreset, hrequest⟩) (.inr hcovers) trivial
      rw [List.mem_singleton.mp hc] at haccepted
      rw [haccepted.2.2] at hready
      cases hready
    · cases hlast

theorem busy_law : ∃ plan, compileContractTransducer wordRequest = .ok plan ∧
    BeatLaw plan (runCalls plan busyCalls) := by
  have hok : (compileContractTransducer wordRequest).toOption.isSome = true := by decide
  cases hcompile : compileContractTransducer wordRequest with
  | error e =>
    rw [hcompile] at hok
    cases hok
  | ok plan => exact ⟨plan, rfl, beat_law hcompile busyCalls⟩

end Contract

end MyFuzz
