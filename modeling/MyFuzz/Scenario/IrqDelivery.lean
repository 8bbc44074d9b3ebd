import MyFuzz.Scenario.Irq

/-!
# Scenario/IrqDelivery — every pulse is closed once

The event log of a delivery is bracketed: a `pulse_start` is followed by one expiry or cancellation
of the same source event before the next one, and the pulse that is open is the one on the input.

    pulse_start 1 ─▸ pulse_expired 1 ─▸ pulse_start 2 ─▸ pulse_cancelled_by_reset 2

Only a CPU sample or a reset closes a pulse.  An edge seen at or past the end of a pulse that neither
has closed yet takes its place, so the log is bracketed exactly in the runs where that never happens
(`EdgeInTime`).
-/

namespace MyFuzz

open Run Outcome IrqPulseDelivery IrqEvent List

namespace IrqEvent

variable {τ : Type}

/-- The source event a pulse starts for. -/
def opens : IrqEvent τ → Option (Option ℕ)
  | .pulseStart id _ _ _ => some (some id)
  | _ => none

/-- The source event whose pulse an event closes. -/
def closes : IrqEvent τ → Option (Option ℕ)
  | .expiredMasked id _ => some id
  | .pulseExpired id _ => some id
  | .pulseCancelledByReset id _ => some id
  | _ => none

/-- An event that neither starts nor closes a pulse. -/
def Neutral (e : IrqEvent τ) : Prop := e.opens = none ∧ e.closes = none

/-- The slot was asked for while it was taken. -/
def overruns : IrqEvent τ → Bool
  | .irqOverrun .. => true
  | _ => false

/-- The pulse that is open after an event: its source event, start and end. -/
def openStep (pulse : Option (ℕ × ℤ × ℤ)) (e : IrqEvent τ) : Option (ℕ × ℤ × ℤ) :=
  match e with
  | .pulseStart id start stop _ => some (id, start, stop)
  | .expiredMasked .. => none
  | .pulseExpired .. => none
  | .pulseCancelledByReset .. => none
  | _ => pulse

theorem openStep_of_neutral {e : IrqEvent τ} (h : e.Neutral) (pulse : Option (ℕ × ℤ × ℤ)) :
    e.openStep pulse = pulse := by
  obtain ⟨ho, hc⟩ := h
  cases e with
  | pulseStart => cases ho
  | expiredMasked | pulseExpired | pulseCancelledByReset => exact absurd hc (Option.some_ne_none _)
  | _ => rfl

end IrqEvent

/-- The pulse that is open at the end of a log. -/
def openPulse {τ : Type} (events : List (IrqEvent τ)) : Option (ℕ × ℤ × ℤ) :=
  events.foldl IrqEvent.openStep none

namespace IrqPulseDelivery

variable {τ : Type} {cfg : IrqConfig} {s s' : IrqPulseDelivery τ}

/-! ## The invariant -/

/-- The pulse of the state: its source event, start and end are set together. -/
def HasPulse (s : IrqPulseDelivery τ) : Option (ℕ × ℤ × ℤ) → Prop
  | none => s.activeSourceEventId = none ∧ s.pulseStart = none ∧ s.pulseEnd = none
  | some (id, start, stop) => s.activeSourceEventId = some id ∧ s.pulseStart = some start ∧
      s.pulseEnd = some stop

/-- The log is bracketed, and its open pulse is the one of the state. -/
structure Inv (s : IrqPulseDelivery τ) : Prop where
  pulse : s.HasPulse (openPulse s.events)
  bracketed : Bracketed IrqEvent.opens IrqEvent.closes
    ((openPulse s.events).map fun p => some p.1) s.events

theorem inv_init (cfg : IrqConfig) : (init cfg : IrqPulseDelivery τ).Inv := ⟨⟨rfl, rfl, rfl⟩, .nil⟩

theorem openPulse_concat (events : List (IrqEvent τ)) (e : IrqEvent τ) :
    openPulse (events ++ [e]) = e.openStep (openPulse events) := by
  rw [openPulse, foldl_append]
  rfl

/-- A step that keeps the pulse and logs neutral events.  An overrun it logs or finds stays. -/
structure Logs (s s' : IrqPulseDelivery τ) (new : List (IrqEvent τ)) : Prop where
  events : s'.events = s.events ++ new
  active : s'.activeSourceEventId = s.activeSourceEventId
  start : s'.pulseStart = s.pulseStart
  stop : s'.pulseEnd = s.pulseEnd
  neutral : ∀ e ∈ new, e.Neutral
  overrun : s.status = .unsupportedIrqOverrun ∨ (∃ e ∈ new, e.overruns = true) →
    s'.status = .unsupportedIrqOverrun

theorem Logs.none (hevents : s'.events = s.events)
    (hactive : s'.activeSourceEventId = s.activeSourceEventId) (hstart : s'.pulseStart = s.pulseStart)
    (hstop : s'.pulseEnd = s.pulseEnd) (hstatus : s'.status = s.status) : Logs s s' [] where
  events := by rw [hevents, append_nil]
  active := hactive
  start := hstart
  stop := hstop
  neutral e he := nomatch he
  overrun h := by
    rcases h with h | ⟨e, he, -⟩
    · exact hstatus.trans h
    · cases he

variable {e : IrqEvent τ} {new : List (IrqEvent τ)} {cpuTick : ℤ}

theorem Logs.one (hevents : s'.events = s.events ++ [e])
    (hactive : s'.activeSourceEventId = s.activeSourceEventId)
    (hstart : s'.pulseStart = s.pulseStart) (hstop : s'.pulseEnd = s.pulseEnd) (he : e.Neutral)
    (hstatus : (s'.status = s.status ∧ e.overruns = false) ∨ s'.status = .unsupportedIrqOverrun) :
    Logs s s' [e] where
  events := hevents
  active := hactive
  start := hstart
  stop := hstop
  neutral e' he' := mem_singleton.1 he' ▸ he
  overrun h := by
    rcases hstatus with ⟨hsame, hnot⟩ | hover
    · rcases h with h | ⟨e', he', hover⟩
      · exact hsame.trans h
      · rw [mem_singleton.1 he', hnot] at hover
        cases hover
    · exact hover

theorem Logs.trans {s₁ s₂ s₃ : IrqPulseDelivery τ} {new' : List (IrqEvent τ)} (h : Logs s₁ s₂ new)
    (h' : Logs s₂ s₃ new') : Logs s₁ s₃ (new ++ new') where
  events := by rw [h'.events, h.events, append_assoc]
  active := h'.active.trans h.active
  start := h'.start.trans h.start
  stop := h'.stop.trans h.stop
  neutral e he := by
    rcases mem_append.1 he with he | he
    · exact h.neutral e he
    · exact h'.neutral e he
  overrun hover := by
    rcases hover with hs | ⟨e, he, hover⟩
    · exact h'.overrun (.inl (h.overrun (.inl hs)))
    · rcases mem_append.1 he with he | he
      · exact h'.overrun (.inl (h.overrun (.inr ⟨e, he, hover⟩)))
      · exact h'.overrun (.inr ⟨e, he, hover⟩)

theorem HasPulse.of_logs (h : Logs s s' new) {p : Option (ℕ × ℤ × ℤ)} (hp : s.HasPulse p) :
    s'.HasPulse p := by
  cases p with
  | none | some p => exact ⟨h.active.trans hp.1, h.start.trans hp.2.1, h.stop.trans hp.2.2⟩

theorem openPulse_append_neutral (hnew : ∀ e ∈ new, e.Neutral) (events : List (IrqEvent τ)) :
    openPulse (events ++ new) = openPulse events := by
  induction new generalizing events with
  | nil => rw [append_nil]
  | cons e new ih =>
    have happ : events ++ e :: new = (events ++ [e]) ++ new := by simp
    rw [happ, ih fun e' he' => hnew e' (.tail _ he'), openPulse_concat,
      openStep_of_neutral (hnew e (.head _))]

theorem Bracketed.append_neutral {o : Option (Option ℕ)} (hnew : ∀ e ∈ new, e.Neutral)
    {events : List (IrqEvent τ)} (h : Bracketed opens closes o events) :
    Bracketed opens closes o (events ++ new) := by
  induction new generalizing events with
  | nil => rwa [append_nil]
  | cons e new ih =>
    have happ : events ++ e :: new = (events ++ [e]) ++ new := by simp
    obtain ⟨ho, hc⟩ := hnew e (.head _)
    rw [happ]
    exact ih (fun e' he' => hnew e' (.tail _ he')) (.neutral h ho hc)

/-- **Neutral events keep the invariant.** -/
theorem Inv.logs (hs : s.Inv) (h : Logs s s' new) : s'.Inv := by
  have hopen : openPulse s'.events = openPulse s.events := by
    rw [h.events, openPulse_append_neutral h.neutral]
  refine ⟨?_, ?_⟩
  · rw [hopen]
    exact HasPulse.of_logs h hs.pulse
  · rw [hopen, h.events]
    exact Bracketed.append_neutral h.neutral hs.bracketed

/-- **A pulse starts when none is open.** -/
theorem Inv.startPulse (hs : s.Inv) (hfree : s.pulseEnd = none) (cfg : IrqConfig) (id : ℕ)
    (cpuTick : ℤ) (trigger : Option τ) : (s.startPulse cfg id cpuTick trigger).Inv := by
  have hnone : openPulse s.events = none := by
    cases hp : openPulse s.events with
    | none => rfl
    | some p =>
      have hpulse := hs.pulse
      rw [hp] at hpulse
      rw [hpulse.2.2] at hfree
      cases hfree
  have hopen : openPulse (s.startPulse cfg id cpuTick trigger).events
      = some (id, cpuTick + 1, cpuTick + 1 + cfg.widthTicks) := openPulse_concat _ _
  refine ⟨?_, ?_⟩
  · rw [hopen]
    exact ⟨rfl, rfl, rfl⟩
  · rw [hopen]
    have hb := hs.bracketed
    rw [hnone] at hb
    exact .opening hb rfl rfl

/-- **A closing event closes the pulse that is open.** -/
theorem Inv.close (hs : s.Inv) (hopen : s.pulseEnd.isSome) (ho : e.opens = none)
    (hc : e.closes = some s.activeSourceEventId) (hstep : ∀ p, e.openStep p = none)
    (hevents : s'.events = s.events ++ [e])
    (hnone : s'.activeSourceEventId = none ∧ s'.pulseStart = none ∧ s'.pulseEnd = none) :
    s'.Inv := by
  have hafter : openPulse s'.events = none := by
    rw [hevents, openPulse_concat, hstep]
  refine ⟨?_, ?_⟩
  · rw [hafter]
    exact hnone
  · rw [hafter, hevents]
    have hb := hs.bracketed
    have hpulse := hs.pulse
    cases hp : openPulse s.events with
    | none =>
      rw [hp] at hpulse
      rw [hpulse.2.2] at hopen
      cases hopen
    | some p =>
      rw [hp] at hpulse hb
      rw [hpulse.1] at hc
      exact .closing hb ho hc

/-! ## The calls -/

/-- An observation the delivery accepts and sees a rising edge in. -/
structure RisingEdge (s : IrqPulseDelivery τ) (level sourceTick cpuTick : ℤ) : Prop where
  level_eq : level = 1
  source_tick : 0 ≤ sourceTick
  cpu_tick : s.lastCpuTick ≤ cpuTick
  low : ∃ previous, s.sourceLevel = some previous ∧ previous ≠ 1

/-- While the slot is not overrun, an edge is seen before the end of the pulse that is pending. -/
def EdgeInTime (s : IrqPulseDelivery τ) : IrqCall τ → Prop
  | .observeSource level sourceTick cpuTick _ =>
      s.RisingEdge level sourceTick cpuTick → s.status = .active → ∀ stop ∈ s.pulseEnd, cpuTick < stop
  | _ => True

theorem logs_fall (s : IrqPulseDelivery τ) (sourceTick cpuTick : ℤ) :
    ∃ new, Logs s (s.fall sourceTick cpuTick) new := by
  unfold fall
  cases s.sourceEventId with
  | none => exact ⟨[], .none rfl rfl rfl rfl rfl⟩
  | some id => exact ⟨_, .one rfl rfl rfl rfl ⟨rfl, rfl⟩ (.inl ⟨rfl, rfl⟩)⟩

theorem logs_countEdge (s : IrqPulseDelivery τ) (sourceTick cpuTick : ℤ) (trigger : Option τ) :
    Logs s (s.countEdge sourceTick cpuTick trigger)
      [.sourceStart sourceTick cpuTick (s.sourceCount + 1) trigger] :=
  .one rfl rfl rfl rfl ⟨rfl, rfl⟩ (.inl ⟨rfl, rfl⟩)

/-- **An edge starts a pulse or only logs.** -/
theorem rise_cases (cfg : IrqConfig) (s : IrqPulseDelivery τ) (sourceTick cpuTick : ℤ) (trigger : Option τ) :
    (s.status = .active ∧ ¬ s.occupied cpuTick ∧ s.rise cfg sourceTick cpuTick trigger
      = (s.countEdge sourceTick cpuTick trigger).startPulse cfg (s.sourceCount + 1) cpuTick trigger) ∨
    ∃ new, Logs s (s.rise cfg sourceTick cpuTick trigger) new := by
  have hcount := logs_countEdge s sourceTick cpuTick trigger
  unfold rise
  split_ifs with hocc hact
  · exact .inr ⟨_, hcount.trans (.one rfl rfl rfl rfl ⟨rfl, rfl⟩ (.inr rfl))⟩
  · exact .inr ⟨_, hcount⟩
  · exact .inl ⟨not_not.1 hact, hocc, rfl⟩

/-- **An observation starts a pulse or only logs.** -/
theorem observeSource_cases (cfg : IrqConfig) (s : IrqPulseDelivery τ)
    (level sourceTick cpuTick : ℤ) (trigger : Option τ) :
    (s.RisingEdge level sourceTick cpuTick ∧ s.status = .active ∧ ¬ s.occupied cpuTick ∧
      ∃ s₁, Logs s s₁ [.sourceStart sourceTick cpuTick (s.sourceCount + 1) trigger] ∧
        (s.observeSource cfg level sourceTick cpuTick trigger).2
          = s₁.startPulse cfg (s.sourceCount + 1) cpuTick trigger) ∨
    ∃ new, Logs s (s.observeSource cfg level sourceTick cpuTick trigger).2 new := by
  have hlevelled : ∀ {s' : IrqPulseDelivery τ} {new : List (IrqEvent τ)},
      Logs { s with sourceLevel := some level } s' new → Logs s s' new :=
    fun h => ⟨h.events, h.active, h.start, h.stop, h.neutral, h.overrun⟩
  unfold observeSource
  split_ifs with hlevel htick
  · exact .inr ⟨[], .none rfl rfl rfl rfl rfl⟩
  · unfold seeLevel
    cases hl : s.sourceLevel with
    | none => exact .inr ⟨[], .none rfl rfl rfl rfl rfl⟩
    | some previous =>
      dsimp only
      split_ifs with hsame hzero
      · exact .inr ⟨[], .none rfl rfl rfl rfl rfl⟩
      · obtain ⟨new, hlogs⟩ := logs_fall { s with sourceLevel := some level } sourceTick cpuTick
        exact .inr ⟨new, hlevelled hlogs⟩
      · have hone : level = 1 := by
          rcases hlevel with h | h
          · exact absurd h hzero
          · exact h
        rcases rise_cases cfg { s with sourceLevel := some level } sourceTick cpuTick trigger with
          ⟨hact, hocc, hrise⟩ | ⟨new, hlogs⟩
        · refine .inl ⟨⟨hone, by omega, by omega, previous, hl, ?_⟩, hact, hocc,
            { s with sourceLevel := some level }.countEdge sourceTick cpuTick trigger,
            hlevelled (logs_countEdge _ sourceTick cpuTick trigger), hrise⟩
          rintro rfl
          exact hsame hone
        · exact .inr ⟨new, hlevelled hlogs⟩
  · exact .inr ⟨[], .none rfl rfl rfl rfl rfl⟩

theorem logs_recordInput (s : IrqPulseDelivery τ) (cpuTick value : ℤ) (accepted : Option Bool)
    (cpuStepEventId : Option ℤ) :
    ∃ new, Logs s (s.recordInput cpuTick value accepted cpuStepEventId) new := by
  have hstep : ∃ new, Logs s (s.recordStep cpuTick value cpuStepEventId) new := by
    cases cpuStepEventId with
    | none => exact ⟨[], .none rfl rfl rfl rfl rfl⟩
    | some step => exact ⟨_, .one rfl rfl rfl rfl ⟨rfl, rfl⟩ (.inl ⟨rfl, rfl⟩)⟩
  have htaken : ∀ s : IrqPulseDelivery τ,
      ∃ new, Logs s (s.recordTaken cpuTick accepted cpuStepEventId) new := by
    intro s
    unfold recordTaken
    split_ifs
    · exact ⟨_, .one rfl rfl rfl rfl ⟨rfl, rfl⟩ (.inl ⟨rfl, rfl⟩)⟩
    · exact ⟨[], .none rfl rfl rfl rfl rfl⟩
  unfold recordInput
  split_ifs
  · exact ⟨[], .none rfl rfl rfl rfl rfl⟩
  · obtain ⟨new, hnew⟩ := hstep
    obtain ⟨new', hnew'⟩ := htaken (s.recordStep cpuTick value cpuStepEventId)
    exact ⟨_, hnew.trans hnew'⟩

theorem logs_observeMask (s : IrqPulseDelivery τ) (cpuTick value : ℤ) (masked : Option Bool) :
    Logs s (s.observeMask cpuTick value masked) [] := by
  unfold observeMask
  split_ifs <;> exact .none rfl rfl rfl rfl rfl

/-- **A CPU sample logs and lets the pulse expire**, or changes nothing. -/
theorem sampleCpu_cases (cfg : IrqConfig) (s : IrqPulseDelivery τ) (cpuTick : ℤ)
    (masked accepted : Option Bool) (cpuStepEventId : Option ℤ) :
    (s.sampleCpu cfg cpuTick masked accepted cpuStepEventId).2 = s ∨
    ∃ s₁ new, Logs s s₁ new ∧ (s.sampleCpu cfg cpuTick masked accepted cpuStepEventId).2
      = { s₁.expire cfg cpuTick with lastCpuTick := cpuTick } := by
  unfold sampleCpu
  split_ifs
  · exact .inl rfl
  · cases s.inputAt cpuTick with
    | error e => exact .inl rfl
    | ok value =>
      obtain ⟨new, hinput⟩ := logs_recordInput s cpuTick value accepted cpuStepEventId
      exact .inr ⟨_, _, hinput.trans (logs_observeMask _ cpuTick value masked), rfl⟩

section

variable (hs : s.Inv) (cfg : IrqConfig) (cpuTick : ℤ)

include hs

/-- **An expiry closes the pulse, or changes nothing.** -/
theorem Inv.expire : (s.expire cfg cpuTick).Inv := by
  unfold IrqPulseDelivery.expire
  cases hstop : s.pulseEnd with
  | none => exact hs
  | some stop =>
    have hopen : s.pulseEnd.isSome := by rw [hstop]; rfl
    dsimp only
    split_ifs
    · exact hs
    · exact hs.close hopen rfl rfl (fun _ => rfl) rfl ⟨rfl, rfl, rfl⟩
    · exact hs.close hopen rfl rfl (fun _ => rfl) rfl ⟨rfl, rfl, rfl⟩

theorem Inv.sampleCpu (masked accepted : Option Bool)
    (cpuStepEventId : Option ℤ) : (s.sampleCpu cfg cpuTick masked accepted cpuStepEventId).2.Inv := by
  rcases sampleCpu_cases cfg s cpuTick masked accepted cpuStepEventId with h | ⟨s₁, new, hlogs, h⟩
  · rw [h]
    exact hs
  · rw [h]
    exact ((hs.logs hlogs).expire cfg cpuTick).logs (.none rfl rfl rfl rfl rfl)

theorem Inv.reset : (s.reset cfg cpuTick).Inv := by
  unfold IrqPulseDelivery.reset
  split_ifs with hopen
  · exact hs.close hopen rfl rfl (fun _ => rfl) rfl ⟨rfl, rfl, rfl⟩
  · have hpulse := hs.pulse
    cases hp : openPulse s.events with
    | none =>
      rw [hp] at hpulse
      exact ⟨by rw [hp]; exact ⟨rfl, rfl, rfl⟩, hs.bracketed⟩
    | some p =>
      rw [hp] at hpulse
      rw [hpulse.2.2] at hopen
      exact absurd rfl hopen

end

/-- **Every call whose edge is in time keeps the invariant.** -/
theorem Inv.step (hs : s.Inv) (cfg : IrqConfig) (c : IrqCall τ) (hc : s.EdgeInTime c) :
    (s.step cfg c).Inv := by
  cases c with
  | observeSource level sourceTick cpuTick trigger =>
    rcases observeSource_cases cfg s level sourceTick cpuTick trigger with
      ⟨hedge, hact, hocc, s₁, hlogs, hstart⟩ | ⟨new, hlogs⟩
    · have hfree : s₁.pulseEnd = none := by
        rw [hlogs.stop]
        cases hstop : s.pulseEnd with
        | none => rfl
        | some stop => exact absurd ⟨stop, hstop, hc hedge hact stop hstop⟩ hocc
      rw [IrqPulseDelivery.step, hstart]
      exact (hs.logs hlogs).startPulse hfree cfg _ cpuTick trigger
    · exact hs.logs hlogs
  | sampleCpu cpuTick masked accepted cpuStepEventId =>
    exact hs.sampleCpu cfg cpuTick masked accepted cpuStepEventId
  | reset cpuTick => exact hs.reset cfg cpuTick

/-! ## The log only grows -/

theorem expire_events (cfg : IrqConfig) (s : IrqPulseDelivery τ) (cpuTick : ℤ) :
    (s.expire cfg cpuTick).status = s.status ∧ ∃ new, (s.expire cfg cpuTick).events = s.events ++ new ∧
      ∀ e ∈ new, e.opens = none ∧ e.overruns = false := by
  unfold expire
  cases s.pulseEnd with
  | none => exact ⟨rfl, [], (append_nil _).symm, nofun⟩
  | some stop =>
    dsimp only
    split_ifs
    · exact ⟨rfl, [], (append_nil _).symm, nofun⟩
    · exact ⟨rfl, _, rfl, fun e he => by rw [mem_singleton.1 he]; exact ⟨rfl, rfl⟩⟩
    · exact ⟨rfl, _, rfl, fun e he => by rw [mem_singleton.1 he]; exact ⟨rfl, rfl⟩⟩

/-- **Every call appends to the log.**  An overrun it logs or finds stays, and then no pulse starts,
unless the call is a reset. -/
theorem step_events (cfg : IrqConfig) (s : IrqPulseDelivery τ) (c : IrqCall τ) :
    ∃ new, (s.step cfg c).events = s.events ++ new ∧
      ((∃ e ∈ new, e.overruns = true) → (s.step cfg c).status = .unsupportedIrqOverrun) ∧
      (s.status = .unsupportedIrqOverrun → (∀ cpuTick, c ≠ .reset cpuTick) →
        (s.step cfg c).status = .unsupportedIrqOverrun ∧ ∀ e ∈ new, e.opens = none) := by
  cases c with
  | observeSource level sourceTick cpuTick trigger =>
    rcases observeSource_cases cfg s level sourceTick cpuTick trigger with
      ⟨-, hact, -, s₁, hlogs, hstart⟩ | ⟨new, hlogs⟩
    · rw [step, hstart]
      refine ⟨[.sourceStart sourceTick cpuTick (s.sourceCount + 1) trigger,
        .pulseStart (s.sourceCount + 1) (cpuTick + 1) (cpuTick + 1 + cfg.widthTicks) trigger],
        ?_, ?_, fun hover => ?_⟩
      · change s₁.events ++ [_] = _
        rw [hlogs.events, append_assoc]
        rfl
      · rintro ⟨e, he, hover⟩
        rcases mem_cons.1 he with rfl | he
        · cases hover
        · rw [mem_singleton.1 he] at hover
          cases hover
      · rw [hact] at hover
        cases hover
    · exact ⟨new, hlogs.events, fun hover => hlogs.overrun (.inr hover), fun hover _ =>
        ⟨hlogs.overrun (.inl hover), fun e he => (hlogs.neutral e he).1⟩⟩
  | sampleCpu cpuTick masked accepted cpuStepEventId =>
    rw [step]
    rcases sampleCpu_cases cfg s cpuTick masked accepted cpuStepEventId with h | ⟨s₁, new, hlogs, h⟩
    · rw [h]
      exact ⟨[], (append_nil _).symm, fun ⟨e, he, _⟩ => absurd he not_mem_nil,
        fun hover _ => ⟨hover, nofun⟩⟩
    · rw [h]
      obtain ⟨hstatus, new', hnew', hopens⟩ := expire_events cfg s₁ cpuTick
      refine ⟨new ++ new', ?_, ?_, fun hover _ => ⟨?_, fun e he => ?_⟩⟩
      · change (s₁.expire cfg cpuTick).events = _
        rw [hnew', hlogs.events, append_assoc]
      · rintro ⟨e, he, hover⟩
        rcases mem_append.1 he with he | he
        · exact hstatus.trans (hlogs.overrun (.inr ⟨e, he, hover⟩))
        · rw [(hopens e he).2] at hover
          cases hover
      · exact hstatus.trans (hlogs.overrun (.inl hover))
      · rcases mem_append.1 he with he | he
        · exact (hlogs.neutral e he).1
        · exact (hopens e he).1
  | reset cpuTick =>
    rw [step, reset]
    split_ifs
    · refine ⟨_, rfl, ?_, fun _ hne => absurd rfl (hne cpuTick)⟩
      rintro ⟨e, he, hover⟩
      rw [mem_singleton.1 he] at hover
      cases hover
    · exact ⟨[], (append_nil _).symm, fun ⟨e, he, _⟩ => absurd he not_mem_nil,
        fun _ hne => absurd rfl (hne cpuTick)⟩

theorem run_events (cfg : IrqConfig) (cs : List (IrqCall τ)) (s : IrqPulseDelivery τ) :
    ∃ new, (run (step cfg) s cs).events = s.events ++ new ∧
      (s.status = .unsupportedIrqOverrun → (∀ c ∈ cs, ∀ cpuTick, c ≠ .reset cpuTick) →
        ∀ e ∈ new, e.opens = none) := by
  induction cs generalizing s with
  | nil => exact ⟨[], (append_nil _).symm, nofun⟩
  | cons c cs ih =>
    obtain ⟨new, hnew, -, hstep⟩ := step_events cfg s c
    obtain ⟨new', hnew', hrun⟩ := ih (s.step cfg c)
    refine ⟨new ++ new', by rw [run_cons, hnew', hnew, append_assoc], fun hover hreset e he => ?_⟩
    obtain ⟨hstatus, hopens⟩ := hstep hover (hreset c (.head _))
    rcases mem_append.1 he with he | he
    · exact hopens e he
    · exact hrun hstatus (fun c' hc' => hreset c' (.tail _ hc')) e he

/-! ## Runs -/

/-- Every pulse of the log is closed once before the next one starts, or is pending. -/
def ClosedOnce (s : IrqPulseDelivery τ) : Prop :=
  ∀ before id start stop trigger after, s.events = before ++ .pulseStart id start stop trigger :: after →
    (untilOpening IrqEvent.opens after).filterMap IrqEvent.closes = [some id] ∨
      ((∀ e ∈ after, e.Neutral) ∧ s.pending = true)

theorem Inv.closedOnce (hs : s.Inv) : s.ClosedOnce := by
  intro before id start stop trigger after hevents
  rcases hs.bracketed.closes_once hevents rfl with ⟨hone, -⟩ | ⟨hneutral, hopen⟩
  · exact .inl hone
  · refine .inr ⟨hneutral, ?_⟩
    have hpulse := hs.pulse
    cases hp : openPulse s.events with
    | none =>
      rw [hp] at hopen
      cases hopen
    | some p =>
      rw [hp] at hpulse
      rw [pending, hpulse.2.2]
      rfl

/-- The input follows the open pulse of the log. -/
theorem Inv.inputAt (hs : s.Inv) (h : s.lastCpuTick ≤ cpuTick) :
    s.inputAt cpuTick = .ok (match openPulse s.events with
      | some (_, start, stop) => if start ≤ cpuTick ∧ cpuTick < stop then 1 else 0
      | none => 0) := by
  have hpulse := hs.pulse
  refine ensure_ok.2 ⟨by omega, ?_⟩
  cases hp : openPulse s.events with
  | none =>
    rw [hp] at hpulse
    rw [hpulse.2.1]
  | some p =>
    rw [hp] at hpulse
    rw [hpulse.2.1, hpulse.2.2]

/-- An edge starts a pulse when the slot is free at its tick. -/
theorem observeSource_of_edge {level sourceTick : ℤ} (hedge : s.RisingEdge level sourceTick cpuTick)
    (hact : s.status = .active) (hocc : ¬ s.occupied cpuTick) (cfg : IrqConfig) (trigger : Option τ) :
    (s.observeSource cfg level sourceTick cpuTick trigger).2
      = ({ s with sourceLevel := some level }.countEdge sourceTick cpuTick trigger).startPulse cfg
        (s.sourceCount + 1) cpuTick trigger := by
  obtain ⟨hone, hsource, hcpu, previous, hprev, hne⟩ := hedge
  have hfree : ¬ ({ s with sourceLevel := some level }.countEdge sourceTick cpuTick trigger).occupied
      cpuTick := hocc
  rw [observeSource, if_neg (not_not.2 (.inr hone)), if_neg (by omega), seeLevel, hprev]
  dsimp only
  rw [if_neg fun h => hne (h.symm.trans hone), if_neg (by omega), rise, if_neg hfree]
  exact if_neg (not_not.2 hact)

/-- **An edge out of time leaves its pulse unclosed**, whatever follows. -/
theorem Inv.not_closedOnce (hs : s.Inv) (cfg : IrqConfig) {c : IrqCall τ} (hc : ¬ s.EdgeInTime c)
    (cs : List (IrqCall τ)) :
    ¬ (run (IrqPulseDelivery.step cfg) (s.step cfg c) cs).ClosedOnce := by
  cases c with
  | sampleCpu | reset => exact absurd trivial hc
  | observeSource level sourceTick cpuTick trigger =>
    simp only [EdgeInTime, not_forall] at hc
    obtain ⟨hedge, hact, stop, hstop, hlate⟩ := hc
    have hocc : ¬ s.occupied cpuTick := by
      rintro ⟨stop', hstop', hlt⟩
      rw [Option.mem_unique hstop' hstop] at hlt
      exact hlate hlt
    have hstep : (s.step cfg (.observeSource level sourceTick cpuTick trigger)).events
        = s.events ++ [.sourceStart sourceTick cpuTick (s.sourceCount + 1) trigger] ++
          [.pulseStart (s.sourceCount + 1) (cpuTick + 1) (cpuTick + 1 + cfg.widthTicks) trigger] := by
      rw [IrqPulseDelivery.step, observeSource_of_edge hedge hact hocc]
      rfl
    obtain ⟨more, hmore, -⟩ :=
      run_events cfg cs (s.step cfg (.observeSource level sourceTick cpuTick trigger))
    -- the pulse that was pending is followed by neutral events up to the new one
    have hpulse := hs.pulse
    cases hp : openPulse s.events with
    | none =>
      rw [hp] at hpulse
      rw [hpulse.2.2] at hstop
      cases hstop
    | some p =>
      obtain ⟨before, e, after, hevents, hopens, hafter⟩ := hs.bracketed.exists_opening (by rw [hp]; rfl)
      intro hclosed
      cases e with
      | pulseStart id start stop' trigger' =>
        have hfinal := hclosed before id start stop' trigger' (after ++
          [.sourceStart sourceTick cpuTick (s.sourceCount + 1) trigger] ++
          .pulseStart (s.sourceCount + 1) (cpuTick + 1) (cpuTick + 1 + cfg.widthTicks) trigger :: more) (by
              rw [hmore, hstep, hevents]
              simp only [append_assoc, cons_append, nil_append])
        have hneutral : ∀ e' ∈ after ++
            [sourceStart sourceTick cpuTick (s.sourceCount + 1) trigger], e'.Neutral := by
          intro e' he'
          rcases mem_append.1 he' with he' | he'
          · exact hafter e' he'
          · rw [mem_singleton.1 he']
            exact ⟨rfl, rfl⟩
        rcases hfinal with hone | ⟨hall, -⟩
        · rw [untilOpening_append_opening (fun e' he' => (hneutral e' he').1) rfl,
            filterMap_eq_nil_iff.2 fun e' he' => (hneutral e' he').2] at hone
          cases hone
        · cases (hall _ (mem_append_right _ (.head _))).1
      | _ => cases hopens

/-- **The log closes every pulse once exactly when no edge comes too late.** -/
theorem closedOnce_iff_guarded (cfg : IrqConfig) (cs : List (IrqCall τ)) :
    ∀ {s : IrqPulseDelivery τ}, s.Inv →
      ((run (step cfg) s cs).ClosedOnce ↔ Guarded (step cfg) EdgeInTime s cs) := by
  induction cs with
  | nil =>
    intro s hs
    exact ⟨fun _ => trivial, fun _ => hs.closedOnce⟩
  | cons c cs ih =>
    intro s hs
    rw [run_cons, Guarded]
    by_cases hc : s.EdgeInTime c
    · rw [ih (hs.step cfg c hc)]
      exact ⟨fun h => ⟨hc, h⟩, fun h => h.2⟩
    · exact ⟨fun h => absurd h (hs.not_closedOnce cfg hc cs), fun h => absurd h.1 hc⟩

/-- What a run of a delivery should show. -/
structure PulsesExact (cfg : IrqConfig) (cs : List (IrqCall τ)) : Prop where
  /-- Every pulse is closed once before the next one starts, or is pending. -/
  closed : (run (step cfg) (init cfg) cs).ClosedOnce
  /-- The input is up exactly during the open pulse. -/
  input : ∀ cpuTick, (run (step cfg) (init cfg) cs).lastCpuTick ≤ cpuTick →
    (run (step cfg) (init cfg) cs).inputAt cpuTick
      = .ok (match openPulse (run (step cfg) (init cfg) cs).events with
        | some (_, start, stop) => if start ≤ cpuTick ∧ cpuTick < stop then 1 else 0
        | none => 0)
  /-- An observation during a pending pulse keeps it. -/
  kept : ∀ before level sourceTick cpuTick trigger after,
    cs = before ++ .observeSource level sourceTick cpuTick trigger :: after →
    (run (step cfg) (init cfg) before).pending = true → openPulse (run (step cfg) (init cfg)
        (before ++ [.observeSource level sourceTick cpuTick trigger])).events
      = openPulse (run (step cfg) (init cfg) before).events
  /-- After an overrun no pulse starts until a reset. -/
  overrun : ∀ before c after, cs = before ++ c :: after →
    (∃ e ∈ (run (step cfg) (init cfg) (before ++ [c])).events.drop
      (run (step cfg) (init cfg) before).events.length, e.overruns = true) →
    (∀ c' ∈ after, ∀ cpuTick, c' ≠ .reset cpuTick) → ∀ e ∈ (run (step cfg) (init cfg) cs).events.drop
      (run (step cfg) (init cfg) (before ++ [c])).events.length, e.opens = none

/-- **Every delivered pulse is closed exactly once, if and only if** no rising edge comes at or past the end
of a pulse that is pending while the slot is not overrun. -/
theorem pulses_exact_iff (cfg : IrqConfig) (cs : List (IrqCall τ)) :
    PulsesExact cfg cs ↔ Guarded (step cfg) EdgeInTime (init cfg : IrqPulseDelivery τ) cs := by
  refine ⟨fun h => (closedOnce_iff_guarded cfg cs (inv_init cfg)).mp h.closed, fun hg => ?_⟩
  have hs := run_invariant_of_guarded (P := Inv) (fun _ c hs hc => hs.step cfg c hc) cs
    (inv_init cfg) hg
  refine ⟨hs.closedOnce, fun cpuTick h => hs.inputAt h, ?_, ?_⟩
  · intro before level sourceTick cpuTick trigger after hcs hpending
    rw [hcs, guarded_append] at hg
    have hb := run_invariant_of_guarded (P := Inv) (fun _ c hs hc => hs.step cfg c hc) before
      (inv_init cfg) hg.1
    rw [run_concat]
    generalize run (step cfg) (init cfg) before = s at hb hg hpending
    rcases observeSource_cases cfg s level sourceTick cpuTick trigger with
      ⟨hedge, hact, hocc, -⟩ | ⟨new, hlogs⟩
    · obtain ⟨stop, hstop⟩ := Option.isSome_iff_exists.mp hpending
      exact absurd ⟨stop, hstop, hg.2.1 hedge hact stop hstop⟩ hocc
    · change openPulse (s.observeSource cfg level sourceTick cpuTick trigger).2.events = _
      rw [hlogs.events, openPulse_append_neutral hlogs.neutral]
  · intro before c after hcs hover hreset e he
    rw [run_concat] at hover he
    rw [hcs, run_append, run_cons] at he
    obtain ⟨new, hnew, hstatus, -⟩ := step_events cfg (run (step cfg) (init cfg) before) c
    obtain ⟨more, hmore, hopens⟩ := run_events cfg after ((run (step cfg) (init cfg) before).step cfg c)
    rw [hnew, List.drop_left] at hover
    rw [hmore, List.drop_left] at he
    exact hopens (hstatus hover) hreset e he

/-- Pulses of one tick. -/
def exampleIrq : IrqConfig := ⟨1, false, by decide⟩

/-- Two edges, the second seen after the end of the first pulse, and no CPU sample. -/
def exampleEdges : List (IrqCall Unit) :=
  [.observeSource 1 0 0 none, .observeSource 0 1 0 none, .observeSource 1 2 5 none]

/-- **The second pulse takes the place of the first**, which is never closed. -/
theorem late_edge_leaves_pulse_unclosed : ¬ PulsesExact exampleIrq exampleEdges := by
  intro h
  have hclosed := h.closed [.sourceStart 0 0 1 none] 1 1 2 none
    [.sourceEnd 1 0 1 none, .sourceStart 2 5 2 none, .pulseStart 2 6 7 none] rfl
  rcases hclosed with hone | ⟨hneutral, -⟩
  · cases hone
  · cases (hneutral (.pulseStart 2 6 7 none) (by decide)).1

end IrqPulseDelivery

end MyFuzz
