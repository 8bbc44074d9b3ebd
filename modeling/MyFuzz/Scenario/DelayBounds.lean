import MyFuzz.Scenario.RecordDecoder

/-!
# Scenario/DelayBounds — what the records of a testcase do to the delays

A record adds to the delay of one action and clamps the sum to the decoder's bound.  The bound is not
one of the templates: a template may delay an action for longer, and then the clamp shortens it.

    template delay ≤ bound      template delay ─────▸ … ─────▸ bound        only grows
    template delay > bound      bound ◂───────────── template delay         at most one step, to the bound

Records accumulate on one action, so what is carried along is a relation between an action of the
template and the action it became, which is reflexive and transitive.
-/

namespace MyFuzz

open Outcome

/-- What an action of a template may become under a bound on the delays: its value may change, and its
delay grows up to the bound, or is cut to it. -/
structure Delayed (maxDelayTicks : ℤ) (a b : Action) : Prop where
  same : b = { a with value := b.value, delayTicks := b.delayTicks }
  within : a.delayTicks ≤ maxDelayTicks → a.delayTicks ≤ b.delayTicks ∧ b.delayTicks ≤ maxDelayTicks
  beyond : maxDelayTicks < a.delayTicks → b.delayTicks = a.delayTicks ∨ b.delayTicks = maxDelayTicks

namespace Delayed

variable {maxDelayTicks : ℤ} {a b c : Action}

theorem refl (maxDelayTicks : ℤ) (a : Action) : Delayed maxDelayTicks a a :=
  ⟨rfl, fun h => ⟨le_rfl, h⟩, fun _ => .inl rfl⟩

theorem trans (h : Delayed maxDelayTicks a b) (h' : Delayed maxDelayTicks b c) :
    Delayed maxDelayTicks a c where
  same := by
    rw [h'.same, h.same]
  within hle := by
    obtain ⟨hgrows, hbound⟩ := h.within hle
    obtain ⟨hgrows', hbound'⟩ := h'.within hbound
    exact ⟨hgrows.trans hgrows', hbound'⟩
  beyond hlt := by
    rcases h.beyond hlt with hsame | hcut
    · have hnext := h'.beyond (hsame ▸ hlt)
      rwa [hsame] at hnext
    · obtain ⟨hgrows, hbound⟩ := h'.within hcut.le
      exact .inr (le_antisymm hbound (hcut ▸ hgrows))

theorem of_value (maxDelayTicks : ℤ) (a : Action) (value : ℤ) :
    Delayed maxDelayTicks a { a with value := value } :=
  ⟨rfl, fun h => ⟨le_rfl, h⟩, fun _ => .inl rfl⟩

/-- **Adding ticks and clamping the sum.** -/
theorem of_clamp (maxDelayTicks : ℤ) (a : Action) (ticks : ℕ) :
    Delayed maxDelayTicks a { a with delayTicks := min maxDelayTicks (a.delayTicks + ticks) } where
  same := rfl
  within hle := by
    change a.delayTicks ≤ min maxDelayTicks (a.delayTicks + ticks) ∧
      min maxDelayTicks (a.delayTicks + ticks) ≤ maxDelayTicks
    omega
  beyond hlt := by
    refine .inr ?_
    change min maxDelayTicks (a.delayTicks + ticks) = maxDelayTicks
    omega

end Delayed

/-- Every action of a genome and the action it became. -/
def AllDelayed (maxDelayTicks : ℤ) (g g' : ScenarioGenome) : Prop :=
  List.Forall₂ (Delayed maxDelayTicks) g.actions g'.actions

variable {source : FuzzableSource} {actionId : Option String} {genome genome' : ScenarioGenome}

section Genomes

variable {maxDelayTicks : ℤ}

theorem forall₂_refl (actions : List Action) : List.Forall₂ (Delayed maxDelayTicks) actions actions :=
  List.forall₂_same.2 fun a _ => Delayed.refl maxDelayTicks a

theorem AllDelayed.refl (g : ScenarioGenome) : AllDelayed maxDelayTicks g g := forall₂_refl g.actions

theorem forall₂_trans {as bs cs : List Action} (h : List.Forall₂ (Delayed maxDelayTicks) as bs)
    (h' : List.Forall₂ (Delayed maxDelayTicks) bs cs) : List.Forall₂ (Delayed maxDelayTicks) as cs := by
  induction h generalizing cs with
  | nil => exact h'
  | cons hab _ ih =>
    obtain ⟨c, cs, hbc, hrest, rfl⟩ := List.forall₂_cons_left_iff.1 h'
    exact .cons (hab.trans hbc) (ih hrest)

theorem AllDelayed.trans {g₁ g₂ g₃ : ScenarioGenome} (h : AllDelayed maxDelayTicks g₁ g₂)
    (h' : AllDelayed maxDelayTicks g₂ g₃) : AllDelayed maxDelayTicks g₁ g₃ :=
  forall₂_trans h h'

variable {ownership : OwnershipMap} {bit : ℤ} {plan : MutationPlan}

/-- **A flipped bit of an action changes no delay.** -/
theorem mutateActions_delayed {direction : Direction} {actions actions' : List Action}
    (h : mutateActions ownership source direction bit actionId actions = .ok actions') :
    List.Forall₂ (Delayed maxDelayTicks) actions actions' := by
  induction actions generalizing actions' with
  | nil => cases h
  | cons action actions ih =>
    unfold mutateActions at h
    split_ifs at h with hnamed
    · obtain ⟨rest, hrest, h⟩ := bind_ok.1 h
      rw [← Except.ok.inj h]
      exact .cons (.refl _ _) (ih hrest)
    · obtain ⟨width, -, h⟩ := bind_ok.1 h
      split_ifs at h with hdrives
      · obtain ⟨_, -, h⟩ := bind_ok.1 h
        rw [← Except.ok.inj h]
        exact .cons (.of_value _ _ _) (forall₂_refl actions)
      · obtain ⟨rest, hrest, h⟩ := bind_ok.1 h
        rw [← Except.ok.inj h]
        exact .cons (.refl _ _) (ih hrest)

theorem writeBit_delayed {compiled : Bool}
    (h : writeBit ownership genome plan source bit actionId compiled = .ok genome') :
    AllDelayed maxDelayTicks genome genome' := by
  unfold writeBit at h
  cases hkind : source.kind with
  | memoryImage =>
    rw [hkind] at h
    obtain ⟨images, -, _, -, h⟩ := bind_ok₂ h
    rw [← Except.ok.inj h]
    exact .refl genome
  | source =>
    rw [hkind] at h
    have hrest : ∀ {x : Except Exn Unit}, (x >>= fun _ => do
        let actions ← mutateActions ownership source plan.direction bit actionId genome.actions
        let genome := { genome with actions := actions }
        genome.validate
        pure genome) = .ok genome' → AllDelayed maxDelayTicks genome genome' := by
      intro x hx
      obtain ⟨_, -, actions, hactions, _, -, hx⟩ := bind_ok₃ hx
      rw [← Except.ok.inj hx]
      exact mutateActions_delayed hactions
    split_ifs at h
    · obtain ⟨_, -, h⟩ := bind_ok.1 h
      exact @hrest (.ok ()) h
    · exact @hrest (.ok ()) h

/-- **A mutation changes no delay.** -/
theorem mutateGenome_delayed {graph : DependencyGraph} {bitIndex : ℤ}
    {target : Option MutationTarget} {authorization : Option MutationAuthorization}
    (h : mutateGenome graph ownership genome plan bitIndex actionId target authorization
      = .ok genome') : AllDelayed maxDelayTicks genome genome' := by
  obtain ⟨-, -, h⟩ := ensure_ok₂ h
  obtain ⟨_, -, h⟩ := bind_ok.1 h
  cases hsource : graph.sources.get? plan.focusSource with
  | none =>
    rw [hsource] at h
    cases h
  | some source =>
    rw [hsource] at h
    obtain ⟨_, -, h⟩ := bind_ok.1 h
    obtain ⟨-, -, h⟩ := ensure_ok₂ h
    exact writeBit_delayed h

end Genomes

/-! ## Records -/

namespace GenomeRecordDecoder

variable {sha : Sha256} {d : GenomeRecordDecoder}

variable {ticks : ℕ} {path : DependencyPath}

theorem delayAction_delayed {id : String} {action action' : Action}
    (h : d.delayAction id ticks action = .ok action') : Delayed d.maxDelayTicks action action' := by
  unfold delayAction at h
  split_ifs at h
  · obtain ⟨_, -, h⟩ := bind_ok.1 h
    rw [← Except.ok.inj h]
    exact .of_clamp d.maxDelayTicks action ticks
  · rw [← Except.ok.inj h]
    exact .refl _ action

theorem delay_delayed (h : d.delay genome source actionId ticks = .ok genome') :
    AllDelayed d.maxDelayTicks genome genome' := by
  unfold delay at h
  cases hkind : source.kind with
  | memoryImage =>
    rw [hkind] at h
    rw [← Except.ok.inj h]
    exact .refl genome
  | source =>
    rw [hkind] at h
    cases actionId with
    | none =>
      rw [← Except.ok.inj h]
      exact .refl genome
    | some id =>
      obtain ⟨actions, hactions, _, -, h⟩ := bind_ok₂ h
      rw [← Except.ok.inj h]
      exact (mapM_eq_ok.1 hactions).imp fun _ _ haction => delayAction_delayed haction

/-- **One record keeps every action and bounds its delay.** -/
theorem apply_delayed {record : List UInt8} (h : d.apply path genome record = .ok genome') :
    AllDelayed d.maxDelayTicks genome genome' := by
  unfold apply at h
  by_cases hnothing : operation record = 0
  · rw [if_pos hnothing] at h
    rw [← Except.ok.inj h]
    exact .refl genome
  · rw [if_neg hnothing] at h
    obtain ⟨source, -, choices, -, h⟩ := bind_ok₂ h
    obtain ⟨-, h⟩ := ensure_ok.1 h
    obtain ⟨⟨bitIndex, ids⟩, -, actionId, -, h⟩ := bind_ok₂ h
    split_ifs at h with hflip
    · exact mutateGenome_delayed h
    · exact delay_delayed h

/-- **All records together.** -/
theorem foldlM_delayed {records : List (List UInt8)}
    (h : records.foldlM (d.apply path) genome = .ok genome') :
    AllDelayed d.maxDelayTicks genome genome' := by
  induction records generalizing genome with
  | nil =>
    rw [← Except.ok.inj h]
    exact .refl genome
  | cons record records ih =>
    rw [List.foldlM_cons] at h
    obtain ⟨next, hnext, h⟩ := bind_ok.1 h
    exact (apply_delayed hnext).trans (ih h)

/-- **What decoding does to the delays of the selected template.** -/
theorem decode_delayed {records : List (List UInt8)} {genome : ScenarioGenome}
    (h : d.decode sha records = .ok genome) : ∃ template path, d.select records = .ok (template, path) ∧
      List.Forall₂ (Delayed d.maxDelayTicks) template.genome.actions genome.actions := by
  unfold decode at h
  split_ifs at h
  -- the bounds of the decoder are checked on one of the two ways only
  case' pos => obtain ⟨_, -, h⟩ := bind_ok.mp h
  all_goals
    obtain ⟨_, -, h⟩ := bind_ok.mp h
    obtain ⟨⟨template, path⟩, hselect, h⟩ := bind_ok.mp h
    obtain ⟨final, hfinal, h⟩ := bind_ok.mp h
    obtain ⟨pathId, -, h⟩ := bind_ok.mp h
    obtain ⟨_, -, h⟩ := bind_ok.mp h
    have hdelayed := foldlM_delayed hfinal
    rw [← Except.ok.inj h]
    exact ⟨template, path, hselect, hdelayed⟩

/-! ## A template that delays for longer than the bound -/

/-- One bit of an input, which a source drives. -/
def exampleInput : FuzzableSource := ⟨"pin", "gpio", "in", 0, 1, [.ipToCpu], .source, none⟩

/-- The target depends on the input. -/
def exampleRule : DependencyRule := ⟨"irq", ["pin"], .dataBinding⟩

/-- A graph of one rule. -/
def exampleGraph : DependencyGraph := .ofInputs [exampleInput] [exampleRule] (by decide +kernel)

/-- The source owns the bit. -/
def exampleOwnership : OwnershipMap :=
  ⟨Dict.empty.set ("gpio", "in") [⟨"gpio", "in", 0, 1, .source, "pin"⟩]⟩

/-- A genome that drives the input after a delay. -/
def delayedGenome (delayTicks : ℤ) : ScenarioGenome where
  testcaseId := "template"
  direction := .ipToCpu
  pathId := "irq"
  scheduleOrder := ["gpio"]
  maxSteps := 200
  actions := [⟨"rise", "gpio", "in", 1, .ipToCpu, .atStart, "gpio", delayTicks, 0, some 1⟩]
  initialImages := []
  encodingVersion := 2
  resetActions := []
  quiesceSteps := 0

/-- The template of a delay of 100 ticks. -/
def exampleTemplate : DecoderTemplate := ⟨"irq", delayedGenome 100, by decide, by decide +kernel⟩

/-- A decoder of the template with a bound of 64 ticks. -/
def exampleDecoder : GenomeRecordDecoder :=
  ⟨exampleGraph, exampleOwnership, [exampleTemplate], 200, 64, none, none, .empty⟩

/-- A record that adds five ticks. -/
def exampleRecord : List UInt8 := [0, 0, 0, 0, 0, 2, 5, 0]

/-- A digest that knows the record. -/
def recordSha : Sha256 where
  hexdigest _ := "08dd67e6b0b30935375cea89662286963193cbe2943d8bb6a3df5e8b55ce355f"
  length_hexdigest _ := by decide

/-- What the record is decoded to. -/
def exampleDecoded : ScenarioGenome :=
  { delayedGenome 64 with testcaseId := "rfuzz-08dd67e6b0b30935375cea89", pathId := "irq:pin" }

theorem decode_example : exampleDecoder.decode recordSha [exampleRecord] = .ok exampleDecoded := by
  decide +kernel

theorem new_example : new Json.lines recordSha exampleGraph exampleOwnership [exampleTemplate] 200 64
    none none = .ok exampleDecoder := by
  rfl

/-- **A template's delay of 100 ticks becomes 64**: the record brings the action forward. -/
theorem delay_brought_forward :
    new Json.lines recordSha exampleGraph exampleOwnership [exampleTemplate] 200 64 none none
      = .ok exampleDecoder ∧
    exampleDecoder.decode recordSha [exampleRecord] = .ok exampleDecoded ∧
    exampleTemplate.genome.actions.map Action.delayTicks = [100] ∧
    exampleDecoded.actions.map Action.delayTicks = [64] :=
  ⟨new_example, decode_example, rfl, rfl⟩

theorem decode_delayed_example : ∃ template path,
    exampleDecoder.select [exampleRecord] = .ok (template, path) ∧
      List.Forall₂ (Delayed 64) template.genome.actions exampleDecoded.actions :=
  decode_delayed decode_example

end GenomeRecordDecoder

end MyFuzz
