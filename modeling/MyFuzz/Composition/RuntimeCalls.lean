import MyFuzz.Composition.ImageLoading

/-!
# Composition/RuntimeCalls — runs of a runtime

A run is any sequence of calls.  Its trace records what each call did, except for the calls that raised:
those change nothing.

    calls ──call──▸ (runtime, trace)        trace = before ++ event :: after
                                                    ╰─ the trace of a shorter run

So a fact about every event of a trace is a fact about one call from a reachable runtime.
-/

namespace MyFuzz

namespace Contract

variable (plan : ContractTransducerPlan)

inductive Call where
  | beginTest (header : TestHeader)
  | step (raw : ℤ) (outputs : DutOutputs)
  | resetDut

/-- What a call did. -/
inductive Event where
  | began (header : TestHeader)
  | cycle (outputs : DutOutputs) (inputs : ProcessorBeatInputs)
  | reset

structure Run where
  runtime : ContractRuntime := {}
  trace : List Event := []

/-- **One call.** -/
def Run.call (run : Run) : Call → Run
  | .beginTest header =>
    match beginTest plan run.runtime header with
    | (.ok (), s) => ⟨s, run.trace ++ [.began header]⟩
    | (.error _, s) => ⟨s, run.trace⟩
  | .step raw outputs =>
    match step plan run.runtime raw outputs with
    | (.ok inputs, s) => ⟨s, run.trace ++ [.cycle outputs inputs]⟩
    | (.error _, s) => ⟨s, run.trace⟩
  | .resetDut => ⟨run.runtime.resetDut, run.trace ++ [.reset]⟩

def runCalls (calls : List Call) : Run := calls.foldl (Run.call plan) {}

variable {plan} {run run' : Run}

variable {P : Run → Prop} {outputs : DutOutputs}

/-- What every call keeps holds in every run. -/
theorem runCalls_induction (hinit : P {}) (hcall : ∀ run c, P run → P (run.call plan c))
    (calls : List Call) : P (runCalls plan calls) := by
  induction calls using List.reverseRecOn with
  | nil => exact hinit
  | append_singleton calls c ih =>
    unfold runCalls
    rw [List.foldl_append]
    exact hcall _ c ih

/-! ## What a call does -/

/-- **What a call does to a run.** -/
inductive Called (plan : ContractTransducerPlan) (run : Run) : Run → Prop
  | raised : Called plan run run
  | began {header : TestHeader} {s : ContractRuntime}
      (hloading : Loading plan header plan.memoryCapacityEntries s)
      (hzero : ∀ b v, s.memory.get? b = none → imageByte plan b = some v → v = 0) :
      Called plan run ⟨s, run.trace ++ [.began header]⟩
  | cycle {header : TestHeader} {raw : ℕ} {outputs : DutOutputs} {inputs : ProcessorBeatInputs}
      {s : ContractRuntime} (hheader : run.runtime.header = some header)
      (hmoved : Moved plan run.runtime header raw outputs inputs s) :
      Called plan run ⟨s, run.trace ++ [.cycle outputs inputs]⟩
  | reset : Called plan run ⟨run.runtime.resetDut, run.trace ++ [.reset]⟩

theorem header_of_checkStep {s : ContractRuntime} {raw : ℤ} {header : TestHeader}
    (h : checkStep plan s raw outputs = .ok header) : s.header = some header := by
  unfold checkStep ContractRuntime.currentHeader at h
  obtain ⟨header', hheader, h⟩ := Outcome.bind_ok.1 h
  obtain ⟨_, -, h⟩ := Outcome.bind_ok.1 h
  obtain ⟨_, -, h⟩ := Outcome.bind_ok.1 h
  cases h
  split at hheader
  · rename_i hsome
    rw [hsome, Except.ok.inj hheader]
  · cases hheader

theorem call_cases (hplan : WellFormed plan) (hinv : Inv plan run.runtime) (c : Call) :
    Called plan run (run.call plan c) := by
  cases c with
  | beginTest header =>
    unfold Run.call
    rcases beginTest_cases hplan run.runtime header with ⟨e, -, hraised⟩ | ⟨s, hok, hloading, hzero⟩
    · dsimp only
      rw [hraised]
      exact .raised
    · dsimp only
      rw [hok]
      exact .began hloading hzero
  | step raw outputs =>
    unfold Run.call
    rcases step_cases hplan hinv raw outputs with ⟨e, -, hraised⟩ | ⟨header, inputs, s, hcheck, hok, hmoved⟩
    · dsimp only
      rw [hraised]
      exact .raised
    · dsimp only
      rw [hok]
      exact .cycle (header_of_checkStep hcheck) hmoved
  | resetDut => exact .reset

theorem inv_called (hinv : Inv plan run.runtime) (h : Called plan run run') : Inv plan run'.runtime := by
  cases h with
  | raised => exact hinv
  | began hloading => exact inv_loading hloading
  | cycle _ hmoved => exact inv_moved hinv hmoved
  | reset => exact inv_resetDut hinv

/-- A cycle of a trace is a cycle of the runtime. -/
theorem moved_of_called {inputs : ProcessorBeatInputs} (h : Called plan run run')
    (htrace : run'.trace = run.trace ++ [.cycle outputs inputs]) :
    ∃ header raw, run.runtime.header = some header ∧
      Moved plan run.runtime header raw outputs inputs run'.runtime := by
  cases h with
  | raised => exact absurd (congrArg List.length htrace) (by simp)
  | began => cases List.append_cancel_left htrace
  | cycle hheader hmoved =>
    cases List.append_cancel_left htrace
    exact ⟨_, _, hheader, hmoved⟩
  | reset => cases List.append_cancel_left htrace

/-- **Every run keeps the invariant.** -/
theorem inv_runCalls (hplan : WellFormed plan) (calls : List Call) : Inv plan (runCalls plan calls).runtime :=
  runCalls_induction (P := fun run => Inv plan run.runtime) (inv_init plan)
    (fun _ c hinv => inv_called hinv (call_cases hplan hinv c)) calls

/-- A rule for what the calls keep of a runtime and its trace. -/
theorem runCalls_called (hplan : WellFormed plan) (hinit : P {})
    (hcalled : ∀ run run', Inv plan run.runtime → P run → Called plan run run' → P run')
    (calls : List Call) : P (runCalls plan calls) := by
  refine (runCalls_induction (P := fun run => Inv plan run.runtime ∧ P run) ⟨inv_init plan, hinit⟩
    (fun run c ⟨hinv, hrun⟩ => ?_) calls).2
  have hcase := call_cases hplan hinv c
  exact ⟨inv_called hinv hcase, hcalled _ _ hinv hrun hcase⟩

/-! ## Traces -/

/-- **An event of a trace is what one call of a shorter run did.** -/
theorem exists_call (hplan : WellFormed plan) {calls : List Call} {before after : List Event} {e : Event}
    (h : (runCalls plan calls).trace = before ++ e :: after) :
    ∃ calls' run', (runCalls plan calls').trace = before ∧ Called plan (runCalls plan calls') run' ∧
      run'.trace = before ++ [e] ∧ ∃ c, run' = runCalls plan (calls' ++ [c]) := by
  induction calls using List.reverseRecOn generalizing after with
  | nil => exact absurd h (by simp [runCalls])
  | append_singleton calls c ih =>
    have hnext : runCalls plan (calls ++ [c]) = (runCalls plan calls).call plan c := by
      unfold runCalls
      rw [List.foldl_append]
      rfl
    have hcase := call_cases hplan (inv_runCalls hplan calls) c
    rw [← hnext] at hcase
    -- Either the event was there before the last call, or it is what that call did.
    have hsplit : (runCalls plan (calls ++ [c])).trace = (runCalls plan calls).trace ∨
        ∃ e', (runCalls plan (calls ++ [c])).trace = (runCalls plan calls).trace ++ [e'] := by
      generalize runCalls plan (calls ++ [c]) = run' at hcase
      cases hcase with
      | raised => exact .inl rfl
      | began | cycle | reset => exact .inr ⟨_, rfl⟩
    rcases hsplit with hsame | ⟨e', hlast⟩
    · exact ih (hsame.symm.trans h)
    · rcases Sequence.concat_eq_append_cons.1 (hlast.symm.trans h) with ⟨-, hbefore, he⟩ | ⟨rest, -, hrest⟩
      · subst hbefore he
        exact ⟨calls, _, rfl, hcase, hlast, c, rfl⟩
      · exact ih hrest

/-! ## A small plan -/

/-- Two words of memory, reached through two windows. -/
def wordRequest : ContractRequest where
  isa := .rv32i
  protocol := ("processor-memory-beat", "1")
  addressWidth := 8
  dataWidth := 32
  memoryDomains := ⟨[("data_memory_master", "shared")], by decide⟩
  maxWaitCycles := 1
  memoryMode := .declaredWindows
  memoryWindows := [⟨0, 8, "rw", some "ram", some "on_demand"⟩, ⟨16, 8, "ro", some "ram", some "on_demand"⟩]
  layoutHash := "layout"
  contractHash := "contract"

def wordHeader : TestHeader := ⟨testHeaderSchemaVersion, "layout", "contract", 0, false⟩

end Contract

end MyFuzz
