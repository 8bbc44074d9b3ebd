import MyFuzz.Scenario.IrqDelivery

/-!
# Scenario/IrqMasking — a pulse that was masked throughout

The CPU says at each sampled tick whether the input is masked.  A delivery keeps no history of the
answers, only a flag and a counter; they summarise the samples since the pulse was created:

    last          start                stop
     ·──┬──┬──┬────┬──┬──┬──┬──┬──┬──────┬──      every tick sampled
                   m  m  m  m  m  m               every answer `masked`

The flag is down as soon as a tick is skipped, before, inside or after the pulse, or an answer inside
it is not `masked`.  The ticks that count begin after the last one sampled when the pulse was created.
-/

namespace MyFuzz

open Run Outcome IrqPulseDelivery List

namespace IrqPulseDelivery

variable {τ : Type} {cfg : IrqConfig} {s s' : IrqPulseDelivery τ}

/-! ## Samples -/

/-- The tick a call samples and what it is told about the mask, when the call is accepted. -/
def sampled (cfg : IrqConfig) (s : IrqPulseDelivery τ) : IrqCall τ → List (ℤ × Option Bool)
  | .sampleCpu cpuTick masked accepted cpuStepEventId =>
      match (s.sampleCpu cfg cpuTick masked accepted cpuStepEventId).1 with
      | .ok _ => [(cpuTick, masked)]
      | .error _ => []
  | _ => []

/-- The accepted samples of a run. -/
def samples (cfg : IrqConfig) (s : IrqPulseDelivery τ) : List (IrqCall τ) → List (ℤ × Option Bool)
  | [] => []
  | c :: cs => sampled cfg s c ++ samples cfg (s.step cfg c) cs

theorem samples_append (s : IrqPulseDelivery τ) (cs cs' : List (IrqCall τ)) :
    samples cfg s (cs ++ cs') = samples cfg s cs ++ samples cfg (run (step cfg) s cs) cs' := by
  induction cs generalizing s with
  | nil => rfl
  | cons c cs ih =>
    rw [cons_append, samples, samples, ih, append_assoc]
    rfl

/-- **A pulse was masked throughout**: no tick was skipped from the last one sampled when it was
created up to its end, and every answer inside it was `masked`. -/
structure MaskedThroughout (last start stop : ℤ) (taken : List (ℤ × Option Bool)) : Prop where
  unskipped : ∀ tick, last < tick → tick < stop → ∃ masked, (tick, masked) ∈ taken
  ended : ∃ masked, (stop, masked) ∈ taken
  inside : ∀ tick, start ≤ tick → tick < stop → (tick, some true) ∈ taken
  masked : ∀ tick masked, (tick, masked) ∈ taken → start ≤ tick → tick < stop → masked = some true

/-! ## What the calls leave alone -/

/-- A step that keeps the last tick, the flag and the counter. -/
structure KeepsMask (s s' : IrqPulseDelivery τ) : Prop where
  lastCpuTick : s'.lastCpuTick = s.lastCpuTick
  allMasked : s'.allMasked = s.allMasked
  maskedTickCount : s'.maskedTickCount = s.maskedTickCount

theorem KeepsMask.refl (s : IrqPulseDelivery τ) : KeepsMask s s := ⟨rfl, rfl, rfl⟩

theorem KeepsMask.trans {s₁ s₂ s₃ : IrqPulseDelivery τ} (h : KeepsMask s₁ s₂)
    (h' : KeepsMask s₂ s₃) : KeepsMask s₁ s₃ :=
  ⟨h'.lastCpuTick.trans h.lastCpuTick, h'.allMasked.trans h.allMasked,
    h'.maskedTickCount.trans h.maskedTickCount⟩

theorem keepsMask_fall (s : IrqPulseDelivery τ) (sourceTick cpuTick : ℤ) :
    KeepsMask s (s.fall sourceTick cpuTick) := by
  unfold fall
  cases s.sourceEventId with
  | none => exact .refl s
  | some id => exact ⟨rfl, rfl, rfl⟩

theorem keepsMask_recordInput (s : IrqPulseDelivery τ) (cpuTick value : ℤ) (accepted : Option Bool)
    (cpuStepEventId : Option ℤ) :
    KeepsMask s (s.recordInput cpuTick value accepted cpuStepEventId) := by
  have hstep : KeepsMask s (s.recordStep cpuTick value cpuStepEventId) := by
    cases cpuStepEventId with
    | none => exact .refl s
    | some step => exact ⟨rfl, rfl, rfl⟩
  have htaken : ∀ s : IrqPulseDelivery τ, KeepsMask s (s.recordTaken cpuTick accepted cpuStepEventId) := by
    intro s
    unfold recordTaken
    split_ifs
    · exact ⟨rfl, rfl, rfl⟩
    · exact .refl s
  unfold recordInput
  split_ifs
  · exact .refl s
  · exact hstep.trans (htaken _)

variable {cpuTick level : ℤ} {trigger : Option τ} {new : List (IrqEvent τ)}

/-- **An observation that starts no pulse keeps them.** -/
theorem keepsMask_observeSource {sourceTick : ℤ}
    (h : ¬ (s.RisingEdge level sourceTick cpuTick ∧ s.status = .active ∧ ¬ s.occupied cpuTick)) :
    KeepsMask s (s.observeSource cfg level sourceTick cpuTick trigger).2 := by
  unfold observeSource
  split_ifs with hlevel htick
  · exact .refl s
  · unfold seeLevel
    cases hl : s.sourceLevel with
    | none => exact ⟨rfl, rfl, rfl⟩
    | some previous =>
      dsimp only
      split_ifs with hsame hzero
      · exact .refl s
      · exact (⟨rfl, rfl, rfl⟩ : KeepsMask s { s with sourceLevel := some level }).trans
          (keepsMask_fall _ sourceTick cpuTick)
      · have hone : level = 1 := by
          rcases hlevel with h | h
          · exact absurd h hzero
          · exact h
        have hedge : s.RisingEdge level sourceTick cpuTick :=
          ⟨hone, by omega, by omega, previous, hl, fun hp => hsame (hone.trans hp.symm)⟩
        unfold rise
        split_ifs with hocc hact
        · exact ⟨rfl, rfl, rfl⟩
        · exact ⟨rfl, rfl, rfl⟩
        · exact absurd ⟨hedge, not_not.1 hact, hocc⟩ h
  · exact .refl s

/-! ## What the flag and the counter summarise -/

/-- The pending pulse `[start, stop)` of event `id`, and what its flag and counter say of the samples
taken since it was created, when `last` was the last tick sampled. -/
structure Watched (last start stop : ℤ) (id : ℕ) (s : IrqPulseDelivery τ)
    (taken : List (ℤ × Option Bool)) : Prop where
  pulse : s.HasPulse (some (id, start, stop))
  last_le : last ≤ s.lastCpuTick
  before_stop : s.lastCpuTick < stop
  past : ∀ tick masked, (tick, masked) ∈ taken → tick ≤ s.lastCpuTick
  flag : s.allMasked = true ↔
    (∀ tick, last < tick → tick ≤ s.lastCpuTick → ∃ masked, (tick, masked) ∈ taken) ∧
      ∀ tick masked, (tick, masked) ∈ taken → start ≤ tick → masked = some true
  count : s.allMasked = true → s.maskedTickCount = max (s.lastCpuTick + 1 - start) 0

variable {last start stop : ℤ} {id : ℕ} {taken : List (ℤ × Option Bool)}

/-- **A new pulse is watched from its creation.** -/
theorem watched_of_edge (cfg : IrqConfig) (sourceTick : ℤ) (trigger : Option τ)
    (hedge : s.RisingEdge level sourceTick cpuTick) (hact : s.status = .active)
    (hocc : ¬ s.occupied cpuTick) :
    Watched s.lastCpuTick (cpuTick + 1) (cpuTick + 1 + cfg.widthTicks) (s.sourceCount + 1)
      (s.observeSource cfg level sourceTick cpuTick trigger).2 [] := by
  have hwidth := cfg.width_bounds.1
  have htick := hedge.cpu_tick
  rw [observeSource_of_edge hedge hact hocc]
  refine ⟨⟨rfl, rfl, rfl⟩, le_rfl, ?_, nofun, ?_, fun _ => ?_⟩
  · change s.lastCpuTick < cpuTick + 1 + cfg.widthTicks
    omega
  · refine ⟨fun _ => ⟨fun tick h h' => ?_, nofun⟩, fun _ => rfl⟩
    change tick ≤ s.lastCpuTick at h'
    omega
  · change (0 : ℤ) = max (s.lastCpuTick + 1 - (cpuTick + 1)) 0
    omega

/-- **A call that keeps the pulse and the tick is not seen.** -/
theorem Watched.keep (h : Watched last start stop id s taken) (hlogs : Logs s s' new)
    (hkeep : KeepsMask s s') : Watched last start stop id s' taken where
  pulse := HasPulse.of_logs hlogs h.pulse
  last_le := by rw [hkeep.lastCpuTick]; exact h.last_le
  before_stop := by rw [hkeep.lastCpuTick]; exact h.before_stop
  past := by rw [hkeep.lastCpuTick]; exact h.past
  flag := by rw [hkeep.lastCpuTick, hkeep.allMasked]; exact h.flag
  count := by rw [hkeep.lastCpuTick, hkeep.allMasked, hkeep.maskedTickCount]; exact h.count

/-- The value on the input while the pulse is watched. -/
theorem Watched.inputAt (h : Watched last start stop id s taken) (htick : s.lastCpuTick < cpuTick) :
    s.inputAt cpuTick = .ok (if start ≤ cpuTick ∧ cpuTick < stop then 1 else 0) := by
  obtain ⟨-, hstart, hstop⟩ := h.pulse
  refine ensure_ok.2 ⟨by omega, ?_⟩
  rw [hstart, hstop]

theorem observeMask_lastCpuTick (s : IrqPulseDelivery τ) (cpuTick value : ℤ) (masked : Option Bool) :
    (s.observeMask cpuTick value masked).lastCpuTick = s.lastCpuTick := by
  unfold observeMask
  dsimp only
  split_ifs <;> rfl

/-- **The flag and the counter after a sample**: the flag stays up when the tick follows the last one
and the answer inside the pulse is `masked`. -/
theorem observeMask_flag (hpending : s.pulseEnd.isSome = true) (cpuTick value : ℤ) (masked : Option Bool) :
    ((s.observeMask cpuTick value masked).allMasked = true ↔
      s.allMasked = true ∧ cpuTick = s.lastCpuTick + 1 ∧ (value ≠ 0 → masked = some true)) ∧
    (s.observeMask cpuTick value masked).maskedTickCount
      = s.maskedTickCount + if value ≠ 0 ∧ masked = some true then 1 else 0 := by
  unfold observeMask
  by_cases htick : cpuTick = s.lastCpuTick + 1
  · have hskip : ¬ (s.pulseEnd.isSome = true ∧ cpuTick ≠ s.lastCpuTick + 1) := fun hb => hb.2 htick
    simp only [if_neg hskip]
    split_ifs <;> simp_all
  · simp only [if_pos (show s.pulseEnd.isSome = true ∧ cpuTick ≠ s.lastCpuTick + 1 from
      ⟨hpending, htick⟩)]
    split_ifs <;> simp_all

/-- The delivery a pending pulse's sample is closed or kept in. -/
theorem sampleCpu_eq (cfg : IrqConfig) (h : Watched last start stop id s taken)
    (htick : s.lastCpuTick < cpuTick) (masked accepted : Option Bool) (cpuStepEventId : Option ℤ) :
    ∃ s₁ new, Logs s s₁ new ∧ s₁.lastCpuTick = s.lastCpuTick ∧
      (s₁.allMasked = true ↔ s.allMasked = true ∧ cpuTick = s.lastCpuTick + 1 ∧
        (start ≤ cpuTick → cpuTick < stop → masked = some true)) ∧
      s₁.maskedTickCount = s.maskedTickCount
        + (if start ≤ cpuTick ∧ cpuTick < stop ∧ masked = some true then 1 else 0) ∧
      (∃ value, (s.sampleCpu cfg cpuTick masked accepted cpuStepEventId).1 = .ok value) ∧
      (s.sampleCpu cfg cpuTick masked accepted cpuStepEventId).2
        = { s₁.expire cfg cpuTick with lastCpuTick := cpuTick } := by
  obtain ⟨value, hvalue⟩ : ∃ value : ℤ, value = if start ≤ cpuTick ∧ cpuTick < stop then 1 else 0 := ⟨_, rfl⟩
  have hinside : value ≠ 0 ↔ start ≤ cpuTick ∧ cpuTick < stop := by
    rw [hvalue]
    split_ifs with hin
    · exact ⟨fun _ => hin, fun _ => one_ne_zero⟩
    · exact ⟨fun hne => absurd rfl hne, fun hb => absurd hb hin⟩
  obtain ⟨new, hinput⟩ := logs_recordInput s cpuTick value accepted cpuStepEventId
  have hkeep := keepsMask_recordInput s cpuTick value accepted cpuStepEventId
  have hpending : (s.recordInput cpuTick value accepted cpuStepEventId).pulseEnd.isSome = true := by
    rw [hinput.stop, h.pulse.2.2]
    rfl
  obtain ⟨hflag, hcount⟩ := observeMask_flag hpending cpuTick value masked
  rw [hkeep.allMasked, hkeep.lastCpuTick, hinside] at hflag
  simp only [hkeep.maskedTickCount, hinside, and_assoc] at hcount
  have hsample : s.sampleCpu cfg cpuTick masked accepted cpuStepEventId
      = (.ok value, { ((s.recordInput cpuTick value accepted cpuStepEventId).observeMask cpuTick value
          masked).expire cfg cpuTick with lastCpuTick := cpuTick }) := by
    rw [sampleCpu, if_neg (by omega), h.inputAt htick, ← hvalue]
  refine ⟨_, _, hinput.trans (logs_observeMask _ cpuTick value masked), ?_, ?_, ?_, ?_, ?_⟩
  · rw [← hkeep.lastCpuTick]
    exact observeMask_lastCpuTick _ cpuTick value masked
  · rw [hflag, and_imp]
  · exact hcount
  · rw [hsample]
    exact ⟨value, rfl⟩
  · rw [hsample]

/-- **The flag after a sample of the pulse**, over the samples taken. -/
theorem Watched.flag_concat (h : Watched last start stop id s taken)
    (htick : s.lastCpuTick < cpuTick) (hlt : cpuTick < stop) (masked : Option Bool) :
    (s.allMasked = true ∧ cpuTick = s.lastCpuTick + 1 ∧
        (start ≤ cpuTick → cpuTick < stop → masked = some true)) ↔
      (∀ tick, last < tick → tick ≤ cpuTick → ∃ answer, (tick, answer) ∈ taken ++ [(cpuTick, masked)]) ∧
        ∀ tick answer, (tick, answer) ∈ taken ++ [(cpuTick, masked)] → start ≤ tick → answer = some true := by
  have hlast := h.last_le
  rw [h.flag]
  constructor
  · rintro ⟨⟨hall, hmasked⟩, hnext, hanswer⟩
    refine ⟨fun tick hlow hhigh => ?_, fun tick answer hmem hin => ?_⟩
    · by_cases hold : tick ≤ s.lastCpuTick
      · obtain ⟨answer, hmem⟩ := hall tick hlow hold
        exact ⟨answer, mem_append_left _ hmem⟩
      · have heq : tick = cpuTick := by omega
        exact ⟨masked, mem_append_right _ (by rw [heq]; exact .head _)⟩
    · rcases mem_append.1 hmem with hmem | hmem
      · exact hmasked tick answer hmem hin
      · cases mem_singleton.1 hmem
        exact hanswer hin hlt
  · rintro ⟨hall, hmasked⟩
    refine ⟨⟨fun tick hlow hhigh => ?_, fun tick answer hmem hin => ?_⟩, ?_, fun hin _ => ?_⟩
    · obtain ⟨answer, hmem⟩ := hall tick hlow (by omega)
      rcases mem_append.1 hmem with hmem | hmem
      · exact ⟨answer, hmem⟩
      · cases mem_singleton.1 hmem
        omega
    · exact hmasked tick answer (mem_append_left _ hmem) hin
    · -- the tick after the last one was sampled, and only this sample can be it
      obtain ⟨answer, hmem⟩ := hall (s.lastCpuTick + 1) (by omega) (by omega)
      rcases mem_append.1 hmem with hmem | hmem
      · have hpast := h.past _ _ hmem
        omega
      · exact (Prod.mk.inj (mem_singleton.1 hmem)).1.symm
    · exact hmasked cpuTick masked (mem_append_right _ (.head _)) hin

/-- **A sample before the end keeps the pulse watched.** -/
theorem Watched.sample (cfg : IrqConfig) (h : Watched last start stop id s taken)
    (htick : s.lastCpuTick < cpuTick) (hlt : cpuTick < stop) (masked accepted : Option Bool)
    (cpuStepEventId : Option ℤ) :
    (∃ new, Logs s (s.sampleCpu cfg cpuTick masked accepted cpuStepEventId).2 new) ∧
      Watched last start stop id (s.sampleCpu cfg cpuTick masked accepted cpuStepEventId).2
        (taken ++ [(cpuTick, masked)]) := by
  obtain ⟨s₁, new, hlogs, -, hflag, hcount, -, hafter⟩ :=
    sampleCpu_eq cfg h htick masked accepted cpuStepEventId
  have hlast := h.last_le
  have hpulse₁ := HasPulse.of_logs hlogs h.pulse
  have hexpire : s₁.expire cfg cpuTick = s₁ := by
    rw [expire, hpulse₁.2.2]
    exact if_pos hlt
  rw [hafter, hexpire]
  refine ⟨⟨_, hlogs.trans (.none rfl rfl rfl rfl rfl)⟩, hpulse₁, by change last ≤ cpuTick; omega, hlt,
    ?_, ?_, fun hup => ?_⟩
  · intro tick answer hmem
    change tick ≤ cpuTick
    rcases mem_append.1 hmem with hmem | hmem
    · have hpast := h.past tick answer hmem
      omega
    · exact (Prod.mk.inj (mem_singleton.1 hmem)).1.le
  · exact hflag.trans (h.flag_concat htick hlt masked)
  · change s₁.maskedTickCount = max (cpuTick + 1 - start) 0
    obtain ⟨hold, hnext, hanswer⟩ := hflag.1 hup
    rw [hcount, h.count hold]
    by_cases hin : start ≤ cpuTick
    · rw [if_pos ⟨hin, hlt, hanswer hin hlt⟩]
      omega
    · rw [if_neg fun hb => hin hb.1]
      omega

/-- **The flag at the end of a pulse**, over the samples taken. -/
theorem Watched.maskedThroughout_iff (h : Watched last start stop id s taken)
    (hwidth : start < stop) (hstart : last < start) (hge : stop ≤ cpuTick) (masked : Option Bool) :
    MaskedThroughout last start stop (taken ++ [(cpuTick, masked)]) ↔
      s.allMasked = true ∧ cpuTick = s.lastCpuTick + 1 := by
  have hlast := h.last_le
  have hbefore := h.before_stop
  rw [h.flag]
  constructor
  · intro hm
    have hold : ∀ {tick answer}, (tick, answer) ∈ taken ++ [(cpuTick, masked)] → tick < stop →
        (tick, answer) ∈ taken := by
      intro tick answer hmem hlt
      rcases mem_append.1 hmem with hmem | hmem
      · exact hmem
      · have heq := (Prod.mk.inj (mem_singleton.1 hmem)).1
        omega
    refine ⟨⟨fun tick hlow hhigh => ?_, fun tick answer hmem hin => ?_⟩, ?_⟩
    · obtain ⟨answer, hmem⟩ := hm.unskipped tick hlow (by omega)
      exact ⟨answer, hold hmem (by omega)⟩
    · have hpast := h.past tick answer hmem
      exact hm.masked tick answer (mem_append_left _ hmem) hin (by omega)
    · -- the tick before the end was sampled, so it is the last one
      have hprevious := h.past _ _ (hold (hm.inside (stop - 1) (by omega) (by omega)) (by omega))
      obtain ⟨answer, hmem⟩ := hm.ended
      rcases mem_append.1 hmem with hmem | hmem
      · have hpast := h.past _ _ hmem
        omega
      · have heq := (Prod.mk.inj (mem_singleton.1 hmem)).1
        omega
  · rintro ⟨⟨hall, hmasked⟩, hnext⟩
    refine ⟨fun tick hlow hhigh => ?_, ⟨masked, ?_⟩, fun tick hin hhigh => ?_,
      fun tick answer hmem hin hhigh => ?_⟩
    · obtain ⟨answer, hmem⟩ := hall tick hlow (by omega)
      exact ⟨answer, mem_append_left _ hmem⟩
    · have heq : stop = cpuTick := by omega
      exact mem_append_right _ (by rw [heq]; exact .head _)
    · obtain ⟨answer, hmem⟩ := hall tick (by omega) (by omega)
      rw [hmasked tick answer hmem hin] at hmem
      exact mem_append_left _ hmem
    · rcases mem_append.1 hmem with hmem | hmem
      · exact hmasked tick answer hmem hin
      · have heq := (Prod.mk.inj (mem_singleton.1 hmem)).1
        omega

/-- **A sample at or past the end closes the pulse**, as masked when the flag is still up and no tick
was skipped. -/
theorem Watched.close (h : Watched last start stop id s taken)
    (hstop : stop = start + cfg.widthTicks) (hge : stop ≤ cpuTick) (masked accepted : Option Bool)
    (cpuStepEventId : Option ℤ) :
    ∃ new, (s.sampleCpu cfg cpuTick masked accepted cpuStepEventId).2.events
      = s.events ++ new ++ [if s.allMasked = true ∧ cpuTick = s.lastCpuTick + 1
          then .expiredMasked (some id) stop else .pulseExpired (some id) stop] := by
  have htick : s.lastCpuTick < cpuTick := by
    have hbefore := h.before_stop
    omega
  obtain ⟨s₁, new, hlogs, -, hflag, hcount, -, hafter⟩ :=
    sampleCpu_eq cfg h htick masked accepted cpuStepEventId
  have hpulse₁ := HasPulse.of_logs hlogs h.pulse
  have hfull : s₁.allMasked = true ∧ s₁.maskedTickCount = cfg.widthTicks ↔
      s.allMasked = true ∧ cpuTick = s.lastCpuTick + 1 := by
    rw [hflag]
    constructor
    · rintro ⟨⟨hold, hnext, -⟩, -⟩
      exact ⟨hold, hnext⟩
    · rintro ⟨hold, hnext⟩
      refine ⟨⟨hold, hnext, fun _ hlt => absurd hlt (by omega)⟩, ?_⟩
      rw [hcount, h.count hold, if_neg fun hb => absurd hb.2.1 (by omega)]
      have hbefore := h.before_stop
      have hwidth := cfg.width_bounds.1
      omega
  refine ⟨new, ?_⟩
  rw [hafter]
  change (s₁.expire cfg cpuTick).events = _
  rw [expire, hpulse₁.2.2]
  dsimp only
  rw [if_neg (by omega), ← hlogs.events, hpulse₁.1]
  simp only [hfull]
  rfl

/-! ## Runs -/

theorem sampled_of_accepted (h : Watched last start stop id s taken)
    (htick : s.lastCpuTick < cpuTick) (masked accepted : Option Bool) (cpuStepEventId : Option ℤ) :
    sampled cfg s (.sampleCpu cpuTick masked accepted cpuStepEventId) = [(cpuTick, masked)] := by
  obtain ⟨-, -, -, -, -, -, ⟨value, hok⟩, -⟩ := sampleCpu_eq cfg h htick masked accepted cpuStepEventId
  rw [sampled, hok]

/-- A sample that does not advance is rejected. -/
theorem sampleCpu_of_le (hle : cpuTick ≤ s.lastCpuTick) (masked accepted : Option Bool)
    (cpuStepEventId : Option ℤ) :
    s.sampleCpu cfg cpuTick masked accepted cpuStepEventId
      = (.error (.valueError "CPU local tick must advance"), s) := if_pos hle

/-- **A call that neither starts nor closes a pulse keeps it watched.** -/
theorem Watched.step (h : Watched last start stop id s taken)
    (hstop : stop = start + cfg.widthTicks) (c : IrqCall τ)
    (hevents : (s.step cfg c).events = s.events ++ new) (hneutral : ∀ e ∈ new, e.Neutral) :
    Watched last start stop id (s.step cfg c) (taken ++ sampled cfg s c) := by
  have hlogged : ∀ {log : List (IrqEvent τ)} {e : IrqEvent τ},
      (s.step cfg c).events = s.events ++ log ++ [e] → e.Neutral := by
    intro log e he
    rw [hevents, append_assoc] at he
    exact hneutral e (by
      rw [append_cancel_left he]
      exact mem_append_right _ (.head _))
  cases c with
  | observeSource level sourceTick cpuTick trigger =>
    have hnone : sampled cfg s (.observeSource level sourceTick cpuTick trigger) = [] := rfl
    rw [hnone, append_nil]
    by_cases hnew : s.RisingEdge level sourceTick cpuTick ∧ s.status = .active ∧ ¬ s.occupied cpuTick
    · have he := @hlogged [.sourceStart sourceTick cpuTick (s.sourceCount + 1) trigger]
        (.pulseStart (s.sourceCount + 1) (cpuTick + 1) (cpuTick + 1 + cfg.widthTicks) trigger) (by
          rw [IrqPulseDelivery.step, observeSource_of_edge hnew.1 hnew.2.1 hnew.2.2]
          rfl)
      cases he.1
    · rcases observeSource_cases cfg s level sourceTick cpuTick trigger with
        ⟨hedge, hact, hocc, -⟩ | ⟨new, hlogs⟩
      · exact absurd ⟨hedge, hact, hocc⟩ hnew
      · exact h.keep hlogs (keepsMask_observeSource hnew)
  | sampleCpu cpuTick masked accepted cpuStepEventId =>
    by_cases hle : cpuTick ≤ s.lastCpuTick
    · rw [IrqPulseDelivery.step, sampled, sampleCpu_of_le hle]
      rwa [append_nil]
    · rw [sampled_of_accepted h (by omega)]
      by_cases hlt : cpuTick < stop
      · exact (h.sample cfg (by omega) hlt masked accepted cpuStepEventId).2
      · obtain ⟨log, hclose⟩ := h.close hstop (not_lt.1 hlt) masked accepted cpuStepEventId
        have he := hlogged hclose
        split_ifs at he
        · cases he.2
        · cases he.2
  | reset cpuTick =>
    have he := @hlogged [] (.pulseCancelledByReset s.activeSourceEventId cpuTick) (by
      have hpending : s.pulseEnd.isSome = true := by rw [h.pulse.2.2]; rfl
      rw [IrqPulseDelivery.step, reset, if_pos hpending, append_nil]
      rfl)
    cases he.2

/-- **A pulse stays watched until it is closed.** -/
theorem Watched.run {cs : List (IrqCall τ)} (h : Watched last start stop id s taken)
    (hstop : stop = start + cfg.widthTicks)
    (hevents : (run (IrqPulseDelivery.step cfg) s cs).events = s.events ++ new)
    (hneutral : ∀ e ∈ new, e.Neutral) :
    Watched last start stop id (Run.run (IrqPulseDelivery.step cfg) s cs) (taken ++ samples cfg s cs) := by
  induction cs generalizing s taken new with
  | nil =>
    rw [samples, append_nil]
    exact h
  | cons c cs ih =>
    obtain ⟨new₁, hnew₁, -⟩ := step_events cfg s c
    obtain ⟨new₂, hnew₂, -⟩ := run_events cfg cs (s.step cfg c)
    have hboth : new = new₁ ++ new₂ := by
      rw [run_cons, hnew₂, hnew₁, append_assoc] at hevents
      exact (append_cancel_left hevents).symm
    rw [hboth] at hneutral
    have hstep := h.step hstop c hnew₁ fun e he => hneutral e (mem_append_left _ he)
    rw [samples, ← append_assoc]
    exact ih hstep hnew₂ fun e he => hneutral e (mem_append_right _ he)

/-- A call of a run that starts a pulse, the calls while it is pending and the one that closes it. -/
structure ClosedPulse (cfg : IrqConfig) (before : List (IrqCall τ)) (opening : IrqCall τ)
    (middle : List (IrqCall τ)) (closing : IrqCall τ) (id : ℕ) (start stop : ℤ) (e : IrqEvent τ) : Prop where
  opened : ∃ log trigger, (run (step cfg) (init cfg) (before ++ [opening])).events
    = (run (step cfg) (init cfg) before).events ++ log ++ [.pulseStart id start stop trigger]
  pending : ∃ log, (run (step cfg) (init cfg) (before ++ [opening] ++ middle)).events
    = (run (step cfg) (init cfg) (before ++ [opening])).events ++ log ∧ ∀ e ∈ log, e.Neutral
  closed : ∃ log, (run (step cfg) (init cfg) (before ++ [opening] ++ middle ++ [closing])).events
    = (run (step cfg) (init cfg) (before ++ [opening] ++ middle)).events ++ log ++ [e] ∧ e.closes ≠ none

/-- **The call that starts a pulse**: an edge, and the pulse is watched after it. -/
theorem watched_of_opened {c : IrqCall τ} {log : List (IrqEvent τ)}
    (h : (s.step cfg c).events = s.events ++ log ++ [.pulseStart id start stop trigger]) :
    s.lastCpuTick < start ∧ stop = start + cfg.widthTicks ∧
      Watched s.lastCpuTick start stop id (s.step cfg c) [] := by
  have hnot : ∀ {new : List (IrqEvent τ)}, (s.step cfg c).events = s.events ++ new →
      ¬ ∀ e ∈ new, e.opens = none := by
    intro new hnew hopens
    rw [hnew, append_assoc] at h
    have hmem := hopens (.pulseStart id start stop trigger) (by
      rw [append_cancel_left h]
      exact mem_append_right _ (.head _))
    cases hmem
  cases c with
  | observeSource level sourceTick cpuTick trigger' =>
    rcases observeSource_cases cfg s level sourceTick cpuTick trigger' with
      ⟨hedge, hact, hocc, -⟩ | ⟨new, hlogs⟩
    · have hwatched := watched_of_edge cfg sourceTick trigger' hedge hact hocc
      have hevents : (s.step cfg (.observeSource level sourceTick cpuTick trigger')).events
          = s.events ++ [.sourceStart sourceTick cpuTick (s.sourceCount + 1) trigger'] ++
            [.pulseStart (s.sourceCount + 1) (cpuTick + 1) (cpuTick + 1 + cfg.widthTicks) trigger'] := by
        rw [step, observeSource_of_edge hedge hact hocc]
        rfl
      have hlast := (append_inj' (hevents.symm.trans h) rfl).2
      cases singleton_inj.1 hlast
      have htick := hedge.cpu_tick
      exact ⟨by omega, rfl, hwatched⟩
    · exact absurd (fun e he => (hlogs.neutral e he).1) (hnot hlogs.events)
  | sampleCpu cpuTick masked accepted cpuStepEventId =>
    rcases sampleCpu_cases cfg s cpuTick masked accepted cpuStepEventId with
      hsame | ⟨s₁, new, hlogs, hafter⟩
    · refine absurd (forall_mem_nil _) (@hnot [] ?_)
      rw [step, hsame, append_nil]
    · obtain ⟨-, new', hnew', hopens⟩ := expire_events cfg s₁ cpuTick
      refine absurd (fun e he => ?_) (@hnot (new ++ new') ?_)
      · rcases mem_append.1 he with he | he
        · exact (hlogs.neutral e he).1
        · exact (hopens e he).1
      · rw [step, hafter, ← append_assoc, ← hlogs.events]
        exact hnew'
  | reset cpuTick =>
    rw [step, reset] at hnot
    split_ifs at hnot
    · refine absurd (fun e he => ?_) (hnot rfl)
      rw [mem_singleton.1 he]
      rfl
    · exact absurd (forall_mem_nil _) (hnot (append_nil _).symm)

/-- **A pulse is reported masked exactly when it was masked throughout.** -/
theorem expired_masked_iff {before middle : List (IrqCall τ)} {opening : IrqCall τ} {cpuTick : ℤ}
    {masked accepted : Option Bool} {cpuStepEventId : Option ℤ} {e : IrqEvent τ}
    (h : ClosedPulse cfg before opening middle (.sampleCpu cpuTick masked accepted cpuStepEventId)
      id start stop e) :
    (e = .expiredMasked (some id) stop ∨ e = .pulseExpired (some id) stop) ∧
    (e = .expiredMasked (some id) stop ↔
      MaskedThroughout (run (step cfg) (init cfg) before).lastCpuTick start stop
        (samples cfg (run (step cfg) (init cfg) (before ++ [opening]))
          (middle ++ [.sampleCpu cpuTick masked accepted cpuStepEventId]))) := by
  obtain ⟨⟨log, trigger, hopened⟩, ⟨log', hpending, hneutral⟩, ⟨log'', hclosed, hcloses⟩⟩ := h
  rw [run_concat] at hopened
  obtain ⟨hstart, hstop, hnew⟩ := watched_of_opened hopened
  rw [run_append _ (before ++ [opening])] at hpending
  rw [run_concat, run_append _ (before ++ [opening])] at hclosed
  rw [run_concat] at hpending hclosed ⊢
  have hwatched := hnew.run hstop hpending hneutral
  rw [List.nil_append] at hwatched
  rw [samples_append]
  generalize run (step cfg) (init cfg) before = s₀ at *
  generalize run (step cfg) (s₀.step cfg opening) middle = s₁ at *
  by_cases hle : cpuTick ≤ s₁.lastCpuTick
  · rw [step, sampleCpu_of_le hle] at hclosed
    have hlen := congrArg List.length hclosed
    simp at hlen
  · have hlt : s₁.lastCpuTick < cpuTick := by omega
    by_cases hin : cpuTick < stop
    · obtain ⟨⟨new, hlogs⟩, -⟩ := hwatched.sample cfg hlt hin masked accepted cpuStepEventId
      rw [step, hlogs.events, List.append_assoc] at hclosed
      have hmem := hlogs.neutral e (by
        rw [List.append_cancel_left hclosed]
        exact List.mem_append_right _ (.head _))
      exact absurd hmem.2 hcloses
    · obtain ⟨new, hclose⟩ := hwatched.close hstop (not_lt.mp hin) masked accepted cpuStepEventId
      have he := List.singleton_inj.mp (List.append_inj' (hclosed.symm.trans hclose) rfl).2
      have hwidth := cfg.width_bounds.1
      have hiff := hwatched.maskedThroughout_iff (by omega) hstart (not_lt.mp hin) masked
      rw [samples, samples, List.append_nil, sampled_of_accepted hwatched hlt, hiff, he]
      split_ifs with hup
      · exact ⟨.inl rfl, fun _ => hup, fun _ => rfl⟩
      · exact ⟨.inr rfl, fun heq => absurd heq (by simp), fun hb => absurd hb hup⟩

/-- Pulses of two ticks. -/
def exampleWide : IrqConfig := ⟨2, false, by decide⟩

/-- **A pulse of two ticks, masked at both**, is reported masked, and was. -/
theorem masked_twice : MaskedThroughout 0 1 3 [(1, some true), (2, some true), (3, none)] := by
  have h : ClosedPulse exampleWide [] (.observeSource 1 0 0 (none : Option Unit))
      [.sampleCpu 1 (some true) none none, .sampleCpu 2 (some true) (some false) (some 7)]
      (.sampleCpu 3 none none none) 1 1 3 (.expiredMasked (some 1) 3) := by
    refine ⟨⟨[.sourceStart 0 0 1 none], none, by decide⟩, ⟨[.cpuIrqInput 2 1 (some 1) 7 none],
      by decide, fun e he => ?_⟩, ⟨[], by decide, by decide⟩⟩
    rw [List.mem_singleton.mp he]
    exact ⟨rfl, rfl⟩
  exact (expired_masked_iff h).2.1 rfl

end IrqPulseDelivery

end MyFuzz
