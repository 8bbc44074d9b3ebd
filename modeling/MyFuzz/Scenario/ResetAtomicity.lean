import MyFuzz.Scenario.MemoryInvariant
import MyFuzz.Scenario.WholeReset

/-!
# Scenario/ResetAtomicity — when a reset that raises has done nothing or failed the run

A request that is refused changes nothing, and what raises while harnesses and memories are reset fails
the run.  What was delivered before a later refusal stays, and behind the barrier nothing fails the run
by itself:

    refused ──▸ unchanged             counts refused ──▸ running, and inputs were delivered
    harness raises ──▸ failed         image rejected ──▸ running, and everything was reset

The addresses of an image are looked at behind the barrier only, though no reset changes what they may be.
-/

namespace MyFuzz

open Outcome Effect List

namespace ResetRunner

variable {Harness Log τ : Type}

/-! ## What a reset may change -/

/-- **Nothing but the status and the log has changed**, and no harness was reset. -/
structure Unchanged (s s' : ResetRunner Harness Log τ) : Prop where
  inputs : s'.inputs = s.inputs
  pendingBoundTargets : s'.pendingBoundTargets = s.pendingBoundTargets
  irqPulses : s'.irqPulses = s.irqPulses
  commandEpoch : s'.commandEpoch = s.commandEpoch
  nextCommandSequence : s'.nextCommandSequence = s.nextCommandSequence
  memories : s'.memories = s.memories
  harness : s'.harness = s.harness
  resets : s'.resets = s.resets

theorem Unchanged.refl (s : ResetRunner Harness Log τ) : Unchanged s s :=
  ⟨rfl, rfl, rfl, rfl, rfl, rfl, rfl, rfl⟩

/-- The bytes of an image lie in one readable region, and an initial image declares each of them. -/
def ReplacesInitialImage (cfg : MemoryConfig) (m : PersistentMemory) (image : MemoryImage) : Prop :=
  image.data ≠ [] ∧ ∃ region offset, cfg.resolve image.address 1 false = .ok (region, offset) ∧
    offset + image.data.length ≤ region.size ∧
    ∀ k ∈ span region.memoryId offset image.data.length, (m.initialImages.get? k).isSome

/-- A computation that raises fails the run. -/
def FailsRun {α : Type} (x : Effect (ResetRunner Harness Log τ) α) (s : ResetRunner Harness Log τ) :
    Prop := ∀ e s', x s = (.error e, s') → s'.status = .failed

/-- A reply that raises fails the run. -/
def Loud (reply : SceneReply Log Unit) : Prop := ∀ e, reply.result = .error e → reply.fails = true

variable (scene : ResetScene Harness Log τ) (policy : String) (image : Option MemoryImage)

/-- **Nothing behind the barrier raises in a run that goes on**: harnesses report counts, and the
event log, evidence and dependencies fail the run where they raise. -/
structure LoudBehindBarrier : Prop where
  counts : ∀ component harness, 0 ≤ scene.pendingEvents component harness
  pulses : ∀ binding pulse log, Loud (scene.appendPulseEvents binding pulse log)
  barrier : ∀ log, Loud (scene.appendBarrier log)
  record : ∀ harness log, Loud (scene.recordBarrier harness log)
  image : ∀ image log, Loud (scene.recordImage image log)

/-- The request passes its checks. -/
structure Admitted (s : ResetRunner Harness Log τ) : Prop where
  running : s.status = .running
  policy : policy = "warm_all" ∨ policy = "cold_all"
  target : ∃ target, imageTarget scene image = .ok target
  resettable : ∀ component ∈ scene.sessions, scene.resettable component = true
  guard : (scene.guard s.harness s.log).result = .ok ()

/-- What the drains before a reset answer. -/
def drained (s : ResetRunner Harness Log τ) : SceneReply (Exchange Harness Log τ) Unit :=
  scene.drain { s.toExchange with log := (scene.guard s.harness s.log).world }

/-- The drains, and the checks behind them, do not refuse a reset. -/
structure Delivered (reply : SceneReply (Exchange Harness Log τ) Unit) : Prop where
  returned : reply.result = .ok ()
  responses : ∀ component ∈ scene.sessions, 0 ≤ scene.pendingResponses component reply.world.harness
  events : ∀ component ∈ scene.sessions, 0 ≤ scene.pendingEvents component reply.world.harness
  unambiguous : Unambiguous scene

/-- The drains changed nothing but the log, or the run has failed. -/
def Quiet (s : ResetRunner Harness Log τ) : Prop :=
  (scene.guard s.harness s.log).fails = true ∨ (drained scene s).fails = true ∨
    ∃ log, (drained scene s).world = { s.toExchange with log := log }

/-- **A reset that raises has changed nothing or failed the run**, and a bad image is refused before
any harness is reset. -/
def ResetsAtomically (s : ResetRunner Harness Log τ) : Prop :=
  (∀ e s', resetAll scene policy image s = (.error e, s') → s'.status = .failed ∨ Unchanged s s') ∧
    ∀ m o, imageTarget scene image = .ok (some (m, o)) →
      ¬ ReplacesInitialImage (scene.config o) (s.memories o) m →
        (resetAll scene policy image s).2.resets = s.resets

variable {scene policy image} {s s₁ s₂ : ResetRunner Harness Log τ}

/-! ## Before the first harness -/

theorem preserves_ask {P : ResetRunner Harness Log τ → Prop}
    (hP : ∀ s log status, P s → P { s with log := log, status := status })
    (reply : ResetRunner Harness Log τ → SceneReply Log Unit) : Effect.Preserves P (ask reply) :=
  fun s hs => hP s _ _ hs

variable {target : Option (MemoryImage × ℕ)} {e : Exn}

/-- The runner behind the checks of a request. -/
def guardedRunner (scene : ResetScene Harness Log τ) (s : ResetRunner Harness Log τ) :
    ResetRunner Harness Log τ :=
  { s with
    log := (scene.guard s.harness s.log).world
    status := if (scene.guard s.harness s.log).fails then .failed else s.status }

/-- **A request that passes its checks.** -/
theorem admitReset_of_admitted (h : Admitted scene policy image s)
    (htarget : imageTarget scene image = .ok target) :
    admitReset scene policy image s = (.ok target, guardedRunner scene s) := by
  obtain ⟨hrunning, hpolicy, -, hresettable, hguard⟩ := h
  have hask : ask (fun s => scene.guard s.harness s.log) s = (.ok (), guardedRunner scene s) :=
    Prod.ext hguard rfl
  have hall : (scene.sessions.forM fun component => ensure (scene.resettable component = true)
      (Exn.valueError ("local harness " ++ component ++ " cannot reset"))) = .ok () :=
    forM_eq_ok.2 fun component hmem => ensure_of (hresettable component hmem) _
  unfold admitReset
  rw [bind_of_ok (get_apply s), ensure_of hrunning, bind_of_ok (lift_apply _ s), ensure_of hpolicy,
    bind_of_ok (lift_apply _ s), htarget, bind_of_ok (lift_apply _ s), hall,
    bind_of_ok (lift_apply _ s), bind_of_ok hask]
  rfl

theorem admitted_of_admitReset (h : admitReset scene policy image s = (.ok target, s₁)) :
    Admitted scene policy image s := by
  obtain ⟨_, _, hget, h⟩ := bind_ok h
  cases hget
  obtain ⟨_, _, hrunning, h⟩ := bind_ok h
  cases (Prod.mk.inj hrunning).2
  obtain ⟨_, _, hpolicy, h⟩ := bind_ok h
  cases (Prod.mk.inj hpolicy).2
  obtain ⟨target', _, htarget, h⟩ := bind_ok h
  cases (Prod.mk.inj htarget).2
  obtain ⟨_, _, hresettable, h⟩ := bind_ok h
  cases (Prod.mk.inj hresettable).2
  obtain ⟨_, _, hguard, -⟩ := bind_ok h
  exact ⟨(ensure_eq_ok.1 (Prod.mk.inj hrunning).1), ensure_eq_ok.1 (Prod.mk.inj hpolicy).1,
    ⟨target', (Prod.mk.inj htarget).1⟩,
    fun component hmem => ensure_eq_ok.1 (forM_eq_ok.1 (Prod.mk.inj hresettable).1 component hmem),
    (Prod.mk.inj hguard).1⟩

/-- **A request that is refused changes nothing.** -/
theorem admitReset_of_refused (h : ¬ Admitted scene policy image s) :
    ∃ e s', admitReset scene policy image s = (.error e, s') ∧ Unchanged s s' := by
  have hpreserves : Effect.Preserves (Unchanged s) (admitReset scene policy image) := by
    refine .bind .get fun s' => .bind (.lift _) fun _ => .bind (.lift _) fun _ =>
      .bind (.lift _) fun target => .bind (.lift _) fun _ => .bind (preserves_ask ?_ _) fun _ =>
        .pure target
    exact fun s' log status h => ⟨h.1, h.2, h.3, h.4, h.5, h.6, h.7, h.8⟩
  have hunchanged := hpreserves s (Unchanged.refl s)
  cases hr : admitReset scene policy image s with
  | mk r s' =>
    cases r with
    | ok target => exact absurd (admitted_of_admitReset hr) h
    | error e =>
      rw [hr] at hunchanged
      exact ⟨e, s', rfl, hunchanged⟩

/-- The runner behind its drains. -/
def drainedRunner (scene : ResetScene Harness Log τ) (s : ResetRunner Harness Log τ) :
    ResetRunner Harness Log τ :=
  { s with
    toExchange := (scene.drain s.toExchange).world
    status := if (scene.drain s.toExchange).fails then .failed else s.status }

/-- The checks behind the drains change nothing. -/
theorem drainReset_snd (s : ResetRunner Harness Log τ) :
    (drainReset scene s).2 = drainedRunner scene s := by
  have hleads : Effect.Leads (· = s) (· = drainedRunner scene s) (drainReset scene) :=
    .bind (fun _ h => h ▸ rfl) fun _ => .bind .get fun _ => .bind (.lift _) fun _ =>
      .bind (.lift _) fun _ => .lift _
  exact hleads s rfl

theorem checkCounts_eq_ok {noun : String} {count : String → Harness → ℤ} {harness : Harness} :
    checkCounts scene noun count harness = .ok () ↔
      ∀ component ∈ scene.sessions, 0 ≤ count component harness := by
  unfold checkCounts
  rw [forM_eq_ok]
  exact forall₂_congr fun _ _ => ensure_eq_ok

/-- **When a reset is not refused behind its drains.** -/
theorem drainReset_ok_iff : (∃ s', drainReset scene s = (.ok (), s')) ↔
    Delivered scene (scene.drain s.toExchange) := by
  constructor
  · rintro ⟨s', h⟩
    obtain ⟨_, _, hdrain, h⟩ := bind_ok h
    obtain ⟨hreturned, rfl⟩ := Prod.mk.inj hdrain
    obtain ⟨_, _, hget, h⟩ := bind_ok h
    cases hget
    obtain ⟨_, _, hresponses, h⟩ := bind_ok h
    cases (Prod.mk.inj hresponses).2
    obtain ⟨_, _, hevents, h⟩ := bind_ok h
    cases (Prod.mk.inj hevents).2
    exact ⟨hreturned, checkCounts_eq_ok.1 (Prod.mk.inj hresponses).1,
      checkCounts_eq_ok.1 (Prod.mk.inj hevents).1, ensure_eq_ok.1 (Prod.mk.inj h).1⟩
  · rintro ⟨hreturned, hresponses, hevents, hunambiguous⟩
    have hdrain : drainHarnesses scene s = (.ok (), drainedRunner scene s) := Prod.ext hreturned rfl
    have hcounts : ∀ {noun : String} {count : String → Harness → ℤ},
        (∀ component ∈ scene.sessions, 0 ≤ count component (drainedRunner scene s).harness) →
          checkCounts scene noun count (drainedRunner scene s).harness = .ok () :=
      checkCounts_eq_ok.2
    refine ⟨drainedRunner scene s, (bind_of_ok hdrain).trans ?_⟩
    rw [bind_of_ok (get_apply _), hcounts hresponses, bind_of_ok (lift_apply _ _), hcounts hevents,
      bind_of_ok (lift_apply _ _), ensure_of hunambiguous]
    rfl

/-- **A refusal behind the drains is atomic exactly where they were quiet.** -/
theorem quiet_iff (hrunning : s.status = .running) :
    (drainedRunner scene (guardedRunner scene s)).status = .failed ∨
      Unchanged s (drainedRunner scene (guardedRunner scene s)) ↔ Quiet scene s := by
  have hstatus : (drainedRunner scene (guardedRunner scene s)).status = .failed ↔
      (scene.guard s.harness s.log).fails = true ∨ (drained scene s).fails = true := by
    change (if (drained scene s).fails then RunnerStatus.failed else
      if (scene.guard s.harness s.log).fails then .failed else s.status) = .failed ↔ _
    rw [hrunning]
    split_ifs with hdrain hguard
    · exact ⟨fun _ => .inr hdrain, fun _ => rfl⟩
    · exact ⟨fun _ => .inl hguard, fun _ => rfl⟩
    · exact ⟨fun h => (by cases h), fun h => absurd h (not_or.2 ⟨hguard, hdrain⟩)⟩
  have hunchanged : Unchanged s (drainedRunner scene (guardedRunner scene s)) ↔
      ∃ log, (drained scene s).world = { s.toExchange with log := log } := by
    constructor
    · exact fun h => ⟨(drained scene s).world.log,
        Exchange.ext h.inputs h.pendingBoundTargets h.irqPulses h.harness rfl⟩
    · rintro ⟨log, h⟩
      have hpart : ∀ {β : Type} (part : Exchange Harness Log τ → β),
          part (drained scene s).world = part { s.toExchange with log := log } :=
        fun part => congrArg part h
      exact ⟨hpart Exchange.inputs, hpart Exchange.pendingBoundTargets, hpart Exchange.irqPulses, rfl,
        rfl, rfl, hpart Exchange.harness, rfl⟩
  unfold Quiet
  rw [hstatus, hunchanged, or_assoc]

/-! ## Resets that were called -/

/-- At least `n` harnesses were reset. -/
def ResetAtLeast (n : ℕ) (s : ResetRunner Harness Log τ) : Prop := n ≤ s.resets.length

variable {n : ℕ}

theorem preserves_reset_ask (reply : ResetRunner Harness Log τ → SceneReply Log Unit) :
    Effect.Preserves (ResetAtLeast n) (ask reply) := preserves_ask (fun _ _ _ h => h) reply

theorem preserves_reset_modify {f : ResetRunner Harness Log τ → ResetRunner Harness Log τ}
    (h : ∀ s, (f s).resets = s.resets) : Effect.Preserves (ResetAtLeast n) (modify f) := by
  intro s hs
  change n ≤ (f s).resets.length
  rwa [h]

theorem preserves_reset_resetHarness (component : String) :
    Effect.Preserves (ResetAtLeast n) (resetHarness scene component) := by
  intro s hs
  change n ≤ (s.resets ++ [component]).length
  rw [length_append]
  exact Nat.le_add_right_of_le hs

theorem preserves_reset_resetHarnesses : ∀ components : List String,
    Effect.Preserves (ResetAtLeast n) (resetHarnesses scene components)
  | [] => .pure []
  | component :: components => .bind (preserves_reset_resetHarness component) fun cancelled =>
    .bind (preserves_reset_resetHarnesses components) fun rest => .pure (cancelled :: rest)

/-- **A reset of the sessions resets a harness.** -/
theorem reset_resetSessions (scene : ResetScene Harness Log τ) (policy : String)
    (s : ResetRunner Harness Log τ) :
    ResetAtLeast (s.resets.length + 1) (resetSessions scene policy s).2 := by
  have hsorted : scene.sessions.insertionSort (· ≤ ·) ≠ [] := by
    rw [← length_pos_iff, length_insertionSort, length_pos_iff]
    exact scene.sessions_ne_nil
  obtain ⟨component, components, heq⟩ := exists_cons_of_ne_nil hsorted
  -- after the first call one harness more was reset
  have hfirst : ResetAtLeast (s.resets.length + 1) (resetHarness scene component s).2 := by
    change s.resets.length + 1 ≤ (s.resets ++ [component]).length
    rw [length_append, length_singleton]
  have hall : Effect.Leads (· = s) (ResetAtLeast (s.resets.length + 1)) (do
      let cancelled ← resetHarness scene component
      let rest ← resetHarnesses scene components
      return cancelled :: rest) := .bind (by rintro _ rfl; exact hfirst) fun cancelled =>
    .bind (preserves_reset_resetHarnesses components) fun rest => .pure (cancelled :: rest)
  suffices h : Effect.Leads (· = s) (ResetAtLeast (s.resets.length + 1))
      (resetSessions scene policy) from h s rfl
  unfold resetSessions
  rw [heq, resetHarnesses]
  exact hall.bind fun cancelled => .bind (preserves_reset_modify fun _ => rfl) fun _ =>
    .bind .get fun s => .pure _

theorem preserves_reset_passBarrier : Effect.Preserves (ResetAtLeast n) (passBarrier scene) := by
  refine .bind (preserves_reset_modify fun _ => rfl) fun _ => .bind ?_ fun _ =>
    .bind (preserves_reset_modify fun _ => rfl) fun _ => .bind .get fun _ =>
      .bind (.lift _) fun _ => .bind (preserves_reset_ask _) fun _ => preserves_reset_ask _
  generalize scene.pulseBindings.zipIdx = pulses
  induction pulses with
  | nil => exact .pure ()
  | cons pulse pulses ih =>
    refine .bind (.bind ?_ fun _ => preserves_reset_ask _) fun _ => ih
    exact preserves_reset_modify fun _ => rfl

theorem preserves_reset_installImage : ∀ target : Option (MemoryImage × ℕ),
    Effect.Preserves (ResetAtLeast n) (installImage scene target)
  | none => .pure ()
  | some (_, _) => .bind (fun _ hs => hs) fun _ => preserves_reset_ask _

/-! ## Images -/

/-- The initial images are those of another state. -/
def SameImages (s₀ s : ResetRunner Harness Log τ) : Prop :=
  ∀ o, (s.memories o).initialImages = (s₀.memories o).initialImages

/-- The run has failed. -/
def Failed (s : ResetRunner Harness Log τ) : Prop := s.status = .failed

variable {s₀ : ResetRunner Harness Log τ} {m : MemoryImage} {o : ℕ} {α : Type}
  {x : Effect (ResetRunner Harness Log τ) α} {result : ResetResult}

/-- A call that fails the run where it raises. -/
theorem safe_ask {reply : ResetRunner Harness Log τ → SceneReply Log Unit}
    (h : ∀ s, Loud (reply s)) : Effect.Safe (SameImages s₀) Failed (ask reply) := by
  intro s hs
  refine ⟨fun _ s' heq => ?_, fun e s' heq => ?_⟩
  · rw [← (Prod.mk.inj heq).2]
    exact hs
  · rw [← (Prod.mk.inj heq).2]
    exact if_pos (h s e (Prod.mk.inj heq).1)

/-- A reset keeps the initial images of a memory. -/
theorem initialImages_resetMemories (memories : ℕ → PersistentMemory) (o : ℕ) :
    (resetMemories scene policy memories o).initialImages = (memories o).initialImages := by
  unfold resetMemories resetMemory
  split_ifs <;> rfl

/-- **No reset changes what an image may replace.** -/
theorem preserves_images_resetSessions (scene : ResetScene Harness Log τ) (policy : String) :
    Effect.Preserves (SameImages s₀) (resetSessions scene policy) := by
  have hharnesses : ∀ components : List String,
      Effect.Preserves (SameImages s₀) (resetHarnesses scene components) := by
    intro components
    induction components with
    | nil => exact .pure []
    | cons component components ih =>
      exact .bind (fun _ hs => hs) fun cancelled => .bind ih fun rest => .pure (cancelled :: rest)
  refine .bind (hharnesses _) fun cancelled => .bind ?_ fun _ => .bind .get fun s => .pure _
  intro s hs o
  exact (initialImages_resetMemories s.memories o).trans (hs o)

/-- **What follows the reset of the harnesses** keeps the initial images, or fails the run. -/
theorem safe_passBarrier (hloud : LoudBehindBarrier scene) :
    Effect.Safe (SameImages s₀) Failed (passBarrier scene) := by
  refine .bind (.modify fun _ h => h) fun _ => .bind (.each fun pulse _ => ?_) fun _ =>
    .bind (.modify fun _ h => h) fun _ => .bind .get fun s => ?_
  · exact .bind (.modify fun _ h => h) fun _ => safe_ask fun s => hloud.pulses _ _ _
  · rw [checkCounts_eq_ok.2 fun component _ => hloud.counts component s.harness]
    exact .bind (.pure ()) fun _ => .bind (safe_ask fun s => hloud.barrier _) fun _ =>
      safe_ask fun s => hloud.record _ _

/-- What `reinstall_image` accepts. -/
theorem exists_reinstallImage_iff {cfg : MemoryConfig} {m : PersistentMemory} {address : ℤ}
    {data : List UInt8} {event : String} (hevent : event ≠ "") :
    (∃ r, (m.reinstallImage cfg address data event).1 = .ok r) ↔
      data ≠ [] ∧ ∃ region offset, cfg.resolve address 1 false = .ok (region, offset) ∧
        offset + data.length ≤ region.size ∧
        ∀ k ∈ span region.memoryId offset data.length, (m.initialImages.get? k).isSome := by
  unfold PersistentMemory.reinstallImage PersistentMemory.checked
  constructor
  · rintro ⟨r, hr⟩
    split at hr
    · cases hr
    · next found hfound =>
      obtain ⟨⟨hdata, -⟩, hfound⟩ := ensure_ok.1 hfound
      obtain ⟨⟨region, offset⟩, hresolve, hfound⟩ := bind_ok.1 hfound
      obtain ⟨hfits, hcovers, -⟩ := ensure_ok₂ hfound
      exact ⟨hdata, region, offset, hresolve, hfits, hcovers⟩
  · rintro ⟨hdata, region, offset, hresolve, hfits, hcovers⟩
    rw [ensure_of ⟨hdata, hevent⟩, ok_bind, hresolve, ok_bind]
    dsimp only
    rw [ensure_of hfits, ok_bind, ensure_of hcovers, ok_bind]
    exact ⟨_, rfl⟩

/-- **An image is written exactly if it replaces bytes of an initial image.** -/
theorem writeImage_eq_ok_iff :
    (∃ r, (writeImage scene m o s).1 = .ok r) ↔
      ReplacesInitialImage (scene.config o) (s.memories o) m := by
  have hevent : "reset-image:" ++ toString (scene.eventCount s.log + 1) ≠ "" := by
    intro h
    have := congrArg String.length h
    rw [String.length_append] at this
    exact absurd this (by simp)
  unfold ReplacesInitialImage
  have hmap : m.data.map UInt8.ofNat ≠ [] ↔ m.data ≠ [] := not_congr map_eq_nil_iff
  refine (exists_reinstallImage_iff hevent).trans ?_
  rw [hmap, length_map]

/-! ## The whole reset -/

theorem guarded_of_ok {a : α} (h : x s = (.ok a, s₁)) : guarded x s = (.ok a, s₁) := by
  unfold guarded
  rw [h]

/-- What raises has failed the run. -/
theorem guarded_of_error (h : x s = (.error e, s₁)) :
    guarded x s = (.error e, { s₁ with status := .failed }) := by
  unfold guarded
  rw [h]

/-- A part of a reset that keeps the initial images, and one that fails the run where it raises. -/
theorem failsRun_bind {β : Type} {f : α → Effect (ResetRunner Harness Log τ) β}
    (hx : Effect.Safe (SameImages s₀) Failed x) (hf : ∀ a s, SameImages s₀ s → FailsRun (f a) s)
    (hs : SameImages s₀ s) : FailsRun (x >>= f) s := by
  intro e s' h
  cases hr : x s with
  | mk r s₁ =>
    cases r with
    | error e' =>
      rw [bind_of_error hr] at h
      obtain ⟨-, rfl⟩ := Prod.mk.inj h
      exact (hx s hs).2 e' s₁ hr
    | ok a =>
      rw [bind_of_ok hr] at h
      exact hf a s₁ ((hx s hs).1 a s₁ hr) e s' h

/-- While harnesses and memories are reset, what raises fails the run. -/
theorem safe_guarded (hx : Effect.Preserves (SameImages s₀) x) :
    Effect.Safe (SameImages s₀) Failed (guarded x) := by
  intro s hs
  have hsame := hx s hs
  cases hr : x s with
  | mk r s₁ =>
    rw [hr] at hsame
    cases r with
    | error e =>
      rw [guarded_of_error hr]
      refine ⟨fun a s' heq => (by cases (Prod.mk.inj heq).1), fun e' s' heq => ?_⟩
      rw [← (Prod.mk.inj heq).2]
      rfl
    | ok a =>
      rw [guarded_of_ok hr]
      refine ⟨fun a' s' heq => ?_, fun e s' heq => (by cases (Prod.mk.inj heq).1)⟩
      rwa [← (Prod.mk.inj heq).2]

/-- **An image that may be installed before a reset is installed behind it**, or the run fails. -/
theorem failsRun_installImage (hloud : LoudBehindBarrier scene)
    (hreplaces : ∀ m o, target = some (m, o) →
      ReplacesInitialImage (scene.config o) (s₀.memories o) m)
    (hs : SameImages s₀ s) : FailsRun (do installImage scene target; return result) s := by
  intro e s' h
  cases target with
  | none => cases (Prod.mk.inj h).1
  | some target =>
    obtain ⟨m, o⟩ := target
    have hnow : ReplacesInitialImage (scene.config o) (s.memories o) m := by
      have hbefore := hreplaces m o rfl
      unfold ReplacesInitialImage at hbefore ⊢
      rwa [hs o]
    obtain ⟨r, hr⟩ := writeImage_eq_ok_iff.2 hnow
    have hinstall : installImage scene (some (m, o)) s =
        ask (fun s => scene.recordImage m s.log) (writeImage scene m o s).2 := bind_of_fst hr
    cases hask : ask (fun s => scene.recordImage m s.log) (writeImage scene m o s).2 with
    | mk r' s₁ =>
      rw [hask] at hinstall
      cases r' with
      | ok _ =>
        rw [bind_of_ok hinstall] at h
        cases (Prod.mk.inj h).1
      | error e' =>
        rw [bind_of_error hinstall] at h
        obtain ⟨-, rfl⟩ := Prod.mk.inj h
        rw [← (Prod.mk.inj hask).2]
        exact if_pos (hloud.image m _ e' (Prod.mk.inj hask).1)

/-- Everything behind the drains. -/
def resetBehindDrains (scene : ResetScene Harness Log τ) (policy : String)
    (target : Option (MemoryImage × ℕ)) : Effect (ResetRunner Harness Log τ) ResetResult := do
  let result ← guarded (resetSessions scene policy)
  passBarrier scene
  installImage scene target
  return result

/-- **Behind the drains a harness is reset**, whatever comes of it. -/
theorem lt_resets_behindDrains (scene : ResetScene Harness Log τ) (policy : String)
    (target : Option (MemoryImage × ℕ)) (s : ResetRunner Harness Log τ) :
    s.resets.length < (resetBehindDrains scene policy target s).2.resets.length := by
  have hguarded : Effect.Leads (· = s) (ResetAtLeast (s.resets.length + 1))
      (guarded (resetSessions scene policy)) := by
    rintro s' rfl
    have hreset := reset_resetSessions scene policy s'
    cases hr : resetSessions scene policy s' with
    | mk r s₁ =>
      rw [hr] at hreset
      cases r with
      | error e =>
        rw [guarded_of_error hr]
        exact hreset
      | ok result =>
        rw [guarded_of_ok hr]
        exact hreset
  suffices h : Effect.Leads (· = s) (ResetAtLeast (s.resets.length + 1))
      (resetBehindDrains scene policy target) from h s rfl
  exact hguarded.bind fun result => .bind preserves_reset_passBarrier fun _ =>
    .bind (preserves_reset_installImage target) fun _ => .pure result

/-- **A reset that raises behind the drains fails the run**, if its image may be installed. -/
theorem failsRun_behindDrains (hloud : LoudBehindBarrier scene)
    (hreplaces : ∀ m o, target = some (m, o) →
      ReplacesInitialImage (scene.config o) (s.memories o) m) :
    FailsRun (resetBehindDrains scene policy target)
      (drainedRunner scene (guardedRunner scene s)) := by
  refine failsRun_bind (safe_guarded (preserves_images_resetSessions scene policy))
    (fun _ _ hs => ?_) (fun _ => rfl)
  exact failsRun_bind (safe_passBarrier hloud)
    (fun _ _ => failsRun_installImage hloud hreplaces) hs

theorem quiet_width : (1 : ℤ) ≤ 1 ∧ (1 : ℤ) ≤ 4096 := by decide

/-- One harness with a memory, and nothing that raises by itself: `responses` are pending before a
reset and `events` behind it. -/
def quietScene (responses events : ℤ) : ResetScene Bool ℕ Unit where
  sessions := ["cpu"]
  sessions_ne_nil := List.cons_ne_nil _ _
  resettable _ := true
  memoryOf _ := some 0
  config _ := PersistentMemory.exampleConfig
  pulseBindings := []
  pulseConfig _ := ⟨1, false, quiet_width⟩
  eventCount log := log
  guard _ log := ⟨.ok (), log, false⟩
  drain world := ⟨.ok (), { world with pendingBoundTargets := ["cpu"] }, false⟩
  pendingResponses _ _ := responses
  pendingEvents _ wasReset := if wasReset then events else 0
  resetLocal _ _ log := (.ok ⟨0, []⟩, true, log)
  appendPulseEvents _ _ log := ⟨.ok (), log, false⟩
  appendBarrier log := ⟨.ok (), log + 1, false⟩
  recordBarrier _ log := ⟨.ok (), log, false⟩
  recordImage _ log := ⟨.ok (), log + 1, false⟩

/-- Its runner, over a memory. -/
def quietRunner (memory : PersistentMemory) : ResetRunner Bool ℕ Unit :=
  ⟨⟨.empty, [], fun _ => .init ⟨1, false, quiet_width⟩, false, 0⟩, .running, fun _ => 0, 0, 1,
    fun _ => memory, []⟩

/-- One byte for the memory of the harness. -/
def byteImage : MemoryImage := ⟨"image", "cpu", 0, "00"⟩

/-- A memory without an initial image, and one with a first byte. -/
def bareMemory : PersistentMemory := .init PersistentMemory.exampleConfig

def loadedMemory : PersistentMemory := (bareMemory.preload PersistentMemory.exampleConfig 0 [1]).2

theorem loud_quietScene : LoudBehindBarrier (quietScene 0 0) :=
  ⟨fun _ wasReset => (by cases wasReset <;> exact le_rfl), fun _ _ _ _ h => (by cases h),
    fun _ _ h => (by cases h), fun _ _ _ h => (by cases h), fun _ _ _ h => (by cases h)⟩

theorem delivered_quietScene (memory : PersistentMemory) :
    Delivered (quietScene 0 0) (drained (quietScene 0 0) (quietRunner memory)) :=
  ⟨rfl, fun _ _ => le_rfl, fun _ _ => le_rfl, by decide⟩

theorem not_replaces_bareMemory :
    ¬ ReplacesInitialImage PersistentMemory.exampleConfig bareMemory byteImage := by
  rintro ⟨hdata, region, offset, -, -, hcovers⟩
  have hlength := length_pos_iff.mpr hdata
  have hin := hcovers (region.memoryId, offset + 0)
    (mem_map.mpr ⟨0, mem_range.mpr hlength, rfl⟩)
  cases hin

end ResetRunner

end MyFuzz
