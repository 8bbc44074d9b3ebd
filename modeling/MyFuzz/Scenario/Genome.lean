import Mathlib.Data.Int.Bitwise
import MyFuzz.Foundations.Outcome

/-!
# Scenario/Genome — the genome of a testcase

A `ScenarioGenome` is everything that is decided before a testcase runs: the components and their
order, the source actions with their triggers, the memory images and the whole-scene resets.  Every
record checks itself when it is constructed; `Valid` collects the checks of a record and of the
records it holds, so a `Genome` is what the constructors accept.
-/

namespace MyFuzz

open Outcome

/-- The direction of a mutation. -/
inductive Direction where
  | cpuToIp
  | ipToCpu
  | ipToIp
  | cpuToIpToCpu
  | ipToCpuToIp
  | multiComponentChain
  deriving DecidableEq

namespace Direction

/-- Every direction. -/
def all : List Direction :=
  [cpuToIp, ipToCpu, ipToIp, cpuToIpToCpu, ipToCpuToIp, multiComponentChain]

/-- A direction as the source spells it. -/
def text : Direction → String
  | cpuToIp => "CPU_TO_IP"
  | ipToCpu => "IP_TO_CPU"
  | ipToIp => "IP_TO_IP"
  | cpuToIpToCpu => "CPU_TO_IP_TO_CPU"
  | ipToCpuToIp => "IP_TO_CPU_TO_IP"
  | multiComponentChain => "MULTI_COMPONENT_CHAIN"

/-- The direction a text spells. -/
def ofText? (s : String) : Option Direction := all.find? fun d => d.text = s

@[simp] theorem ofText?_text (d : Direction) : ofText? d.text = some d := by
  cases d <;> decide

end Direction

/-- An integer is at least a minimum. -/
def genomeNatural (value : ℤ) (name : String) (minimum : ℤ) : Except Exn Unit :=
  ensure (minimum ≤ value) (.valueError (name ++ " must be an integer >= " ++ toString minimum))

/-! ## Triggers -/

/-- When an action may fire. -/
inductive TriggerKind where
  | start
  | afterOutput
  deriving DecidableEq

/-- A trigger kind as the source spells it. -/
def TriggerKind.text : TriggerKind → String
  | start => "START"
  | afterOutput => "AFTER_OUTPUT"

/-- The trigger kind a text spells. -/
def TriggerKind.ofText? (s : String) : Option TriggerKind :=
  [start, afterOutput].find? fun k => k.text = s

@[simp] theorem TriggerKind.ofText?_text (k : TriggerKind) : ofText? k.text = some k := by
  cases k <;> decide

/-- What an action waits for: the start, or an occurrence of an output value. -/
structure Trigger where
  kind : TriggerKind
  sourceComponent : String
  sourcePort : String
  mask : ℤ
  value : ℤ
  occurrence : ℤ
  deriving DecidableEq

/-- The trigger of an action that may fire at once. -/
def Trigger.atStart : Trigger := ⟨.start, "", "", 0, 0, 1⟩

/-- The checks of a trigger. -/
def Trigger.validate (t : Trigger) : Except Exn Unit :=
  match t.kind with
  | .start =>
      ensure (t.sourceComponent = "" ∧ t.sourcePort = "" ∧ t.mask = 0 ∧ t.value = 0 ∧ t.occurrence = 1)
        (.valueError "START trigger cannot refer to an output")
  | .afterOutput => do
      ensure (t.sourceComponent ≠ "" ∧ t.sourcePort ≠ "")
        (.valueError "AFTER_OUTPUT requires a real output endpoint")
      genomeNatural t.mask "trigger mask" 1
      genomeNatural t.value "trigger value" 0
      genomeNatural t.occurrence "trigger occurrence" 1
      ensure (Int.land t.value (Int.lnot t.mask) = 0) (.valueError "trigger value exceeds mask")

theorem genomeNatural_eq_ok {value minimum : ℤ} {name : String} :
    genomeNatural value name minimum = .ok () ↔ minimum ≤ value := ensure_eq_ok

/-- The trigger is accepted by its constructor. -/
def Trigger.Valid (t : Trigger) : Prop := t.validate = .ok ()

instance (t : Trigger) : Decidable t.Valid := inferInstanceAs (Decidable (_ = _))

/-- An output trigger waits for a positive occurrence. -/
theorem Trigger.Valid.one_le_occurrence {t : Trigger} (h : t.Valid) (hkind : t.kind = .afterOutput) :
    1 ≤ t.occurrence := by
  unfold Trigger.Valid Trigger.validate at h
  rw [hkind] at h
  obtain ⟨-, h⟩ := ensure_ok.1 h
  obtain ⟨-, -, -, -, _, hoccurrence, -⟩ := bind_ok₃ h
  exact genomeNatural_eq_ok.1 hoccurrence

/-! ## Actions -/

/-- One drive of a source port. -/
structure Action where
  actionId : String
  component : String
  port : String
  value : ℤ
  direction : Direction
  trigger : Trigger
  delayComponent : String
  delayTicks : ℤ
  bitOffset : ℤ
  width : Option ℤ
  deriving DecidableEq

/-- The checks of an action. -/
def Action.validate (a : Action) : Except Exn Unit := do
  ensure (a.actionId ≠ "" ∧ a.component ≠ "" ∧ a.port ≠ "")
    (.valueError "action identity and source endpoint are required")
  genomeNatural a.value "action value" 0
  genomeNatural a.delayTicks "delay_ticks" 0
  genomeNatural a.bitOffset "bit_offset" 0
  match a.width with
  | none => pure ()
  | some width => genomeNatural width "width" 1

/-- The action and its trigger are accepted by their constructors. -/
def Action.Valid (a : Action) : Prop := a.trigger.Valid ∧ a.validate = .ok ()

instance (a : Action) : Decidable a.Valid := inferInstanceAs (Decidable (_ ∧ _ = _))

/-! ## Memory images -/

/-- White space that `bytes.fromhex` skips. -/
def isSpace (c : Char) : Bool := c = ' ' || (9 ≤ c.toNat && c.toNat ≤ 13)

/-- The value of a hexadecimal digit. -/
def hexDigit? (c : Char) : Option ℕ :=
  if '0' ≤ c ∧ c ≤ '9' then some (c.toNat - 48)
  else if 'a' ≤ c ∧ c ≤ 'f' then some (c.toNat - 87)
  else if 'A' ≤ c ∧ c ≤ 'F' then some (c.toNat - 55)
  else none

/-- The bytes of a hexadecimal text; white space between bytes is skipped. -/
def fromHex : List Char → Option (List ℕ)
  | [] => some []
  | c :: rest =>
      if isSpace c then fromHex rest
      else
        match rest with
        | [] => none
        | d :: rest => do
            let high ← hexDigit? c
            let low ← hexDigit? d
            let bytes ← fromHex rest
            pure ((high * 16 + low) :: bytes)

/-- A lower-case hexadecimal digit. -/
def hexChar (n : ℕ) : Char := if n < 10 then Char.ofNat (48 + n) else Char.ofNat (87 + n)

/-- The canonical text of bytes. -/
def toHex (bytes : List ℕ) : List Char := bytes.flatMap fun b => [hexChar (b / 16), hexChar (b % 16)]

theorem hexDigit?_hexChar : ∀ {n : ℕ}, n < 16 →
    hexDigit? (hexChar n) = some n ∧ isSpace (hexChar n) = false := by
  decide

/-- **The text of bytes is read back.** -/
theorem fromHex_toHex {bytes : List ℕ} (h : ∀ b ∈ bytes, b < 256) : fromHex (toHex bytes) = some bytes := by
  induction bytes with
  | nil => rfl
  | cons b bytes ih =>
    have hb := h b (.head _)
    obtain ⟨hhigh, hspace⟩ := hexDigit?_hexChar (by omega : b / 16 < 16)
    obtain ⟨hlow, -⟩ := hexDigit?_hexChar (by omega : b % 16 < 16)
    have hrest := ih fun c hc => h c (List.mem_cons_of_mem b hc)
    change fromHex (hexChar (b / 16) :: hexChar (b % 16) :: toHex bytes) = some (b :: bytes)
    rw [fromHex, hspace, hhigh, hlow, hrest]
    simp only [Bool.false_eq_true, if_false, Option.bind_eq_bind, Option.bind_some,
      Option.pure_def, Option.some.injEq, List.cons.injEq, and_true]
    omega

theorem length_toHex (bytes : List ℕ) : (toHex bytes).length = 2 * bytes.length := by
  unfold toHex
  rw [List.length_flatMap]
  simp [Nat.mul_comm]

/-- Bytes installed before a testcase starts. -/
structure MemoryImage where
  imageId : String
  component : String
  address : ℤ
  dataHex : String
  deriving DecidableEq

/-- The bytes of an image. -/
def MemoryImage.data (m : MemoryImage) : List ℕ := (fromHex m.dataHex.toList).getD []

/-- The checks of an image. -/
def MemoryImage.validate (m : MemoryImage) : Except Exn Unit := do
  ensure (m.imageId ≠ "" ∧ m.component ≠ "") (.valueError "memory image identity and component are required")
  genomeNatural m.address "image address" 0
  ensure (m.dataHex ≠ "" ∧ m.dataHex.toList.length % 2 = 0) (.valueError "memory image must have whole bytes")
  match fromHex m.dataHex.toList with
  | none => .error (.valueError "memory image must be hex")
  | some data =>
      ensure (toHex data = m.dataHex.toList) (.valueError "memory image hex must be canonical lowercase")

/-- The image is accepted by its constructor. -/
def MemoryImage.Valid (m : MemoryImage) : Prop := m.validate = .ok ()

instance (m : MemoryImage) : Decidable m.Valid := inferInstanceAs (Decidable (_ = _))

/-! ## Resets -/

/-- How the whole scene is reset. -/
inductive ResetPolicy where
  | warmAll
  | coldAll
  deriving DecidableEq

/-- A policy as the source spells it. -/
def ResetPolicy.text : ResetPolicy → String
  | warmAll => "warm_all"
  | coldAll => "cold_all"

/-- The policy a text spells. -/
def ResetPolicy.ofText? (s : String) : Option ResetPolicy :=
  [warmAll, coldAll].find? fun p => p.text = s

@[simp] theorem ResetPolicy.ofText?_text (p : ResetPolicy) : ofText? p.text = some p := by
  cases p <;> decide

/-- An explicit reset of the whole scene. -/
structure ResetAction where
  actionId : String
  policy : ResetPolicy
  trigger : Trigger
  delayComponent : String
  delayTicks : ℤ
  deriving DecidableEq

/-- The checks of a reset. -/
def ResetAction.validate (r : ResetAction) : Except Exn Unit := do
  ensure (r.actionId ≠ "") (.valueError "reset action needs an identity and whole-scene policy")
  genomeNatural r.delayTicks "reset delay_ticks" 0

/-- The reset and its trigger are accepted by their constructors. -/
def ResetAction.Valid (r : ResetAction) : Prop := r.trigger.Valid ∧ r.validate = .ok ()

instance (r : ResetAction) : Decidable r.Valid := inferInstanceAs (Decidable (_ ∧ _ = _))

/-! ## Genomes -/

/-- The genome of a testcase. -/
structure ScenarioGenome where
  testcaseId : String
  direction : Direction
  pathId : String
  scheduleOrder : List String
  maxSteps : ℤ
  actions : List Action
  initialImages : List MemoryImage
  encodingVersion : ℤ
  resetActions : List ResetAction
  quiesceSteps : ℤ
  deriving DecidableEq

namespace ScenarioGenome

/-- An image's component is scheduled. -/
def checkImage (g : ScenarioGenome) (m : MemoryImage) : Except Exn Unit :=
  ensure (m.component ∈ g.scheduleOrder)
    (.valueError "memory image component is absent from schedule_order")

/-- The components a trigger and a delay name are scheduled. -/
def checkClock (g : ScenarioGenome) (delayComponent : String) (trigger : Trigger)
    (delayText triggerText : String) : Except Exn Unit := do
  ensure (delayComponent = "" ∨ delayComponent ∈ g.scheduleOrder) (.valueError delayText)
  ensure (trigger.kind = .afterOutput → trigger.sourceComponent ∈ g.scheduleOrder) (.valueError triggerText)

/-- The components of an action are scheduled. -/
def checkAction (g : ScenarioGenome) (a : Action) : Except Exn Unit := do
  ensure (a.component ∈ g.scheduleOrder) (.valueError "action source is absent from schedule_order")
  g.checkClock a.delayComponent a.trigger "delay component is absent from schedule_order"
    "trigger component is absent from schedule_order"

/-- The components of a reset are scheduled. -/
def checkReset (g : ScenarioGenome) (r : ResetAction) : Except Exn Unit :=
  g.checkClock r.delayComponent r.trigger "reset delay component is absent from schedule_order"
    "reset trigger component is absent from schedule_order"

/-- The checks of a genome. -/
def validate (g : ScenarioGenome) : Except Exn Unit := do
  ensure (g.testcaseId ≠ "" ∧ g.pathId ≠ "") (.valueError "testcase_id and path_id are required")
  ensure (g.scheduleOrder ≠ [] ∧ (∀ item ∈ g.scheduleOrder, item ≠ "") ∧ g.scheduleOrder.Nodup)
    (.valueError "schedule_order must list unique components")
  genomeNatural g.maxSteps "max_steps" 1
  ensure (g.encodingVersion = 2 ∨ g.encodingVersion = 3) (.valueError "unknown genome encoding version")
  ensure (g.resetActions = [] ∨ g.encodingVersion = 3)
    (.valueError "reset actions require genome encoding version 3")
  genomeNatural g.quiesceSteps "quiesce_steps" 0
  ensure (g.quiesceSteps ≤ 4096) (.valueError "quiesce_steps exceeds first-stage budget")
  ensure (g.quiesceSteps = 0 ∨ g.encodingVersion = 3)
    (.valueError "quiesce steps require genome encoding version 3")
  ensure ((g.actions.map Action.actionId).Nodup) (.valueError "action_id must be unique")
  ensure ((g.actions.map Action.actionId ++ g.resetActions.map ResetAction.actionId).Nodup)
    (.valueError "action_id must be unique across the testcase")
  ensure ((g.initialImages.map MemoryImage.imageId).Nodup) (.valueError "image_id must be unique")
  g.initialImages.forM g.checkImage
  g.actions.forM g.checkAction
  g.resetActions.forM g.checkReset

/-- A component that a delay or a trigger names is scheduled. -/
def ClockScheduled (g : ScenarioGenome) (delayComponent : String) (trigger : Trigger) : Prop :=
  (delayComponent = "" ∨ delayComponent ∈ g.scheduleOrder) ∧
    (trigger.kind = .afterOutput → trigger.sourceComponent ∈ g.scheduleOrder)

/-- What the checks of a genome ask for. -/
structure Checks (g : ScenarioGenome) : Prop where
  names : g.testcaseId ≠ "" ∧ g.pathId ≠ ""
  order : g.scheduleOrder ≠ [] ∧ (∀ item ∈ g.scheduleOrder, item ≠ "") ∧ g.scheduleOrder.Nodup
  maxSteps : 1 ≤ g.maxSteps
  version : g.encodingVersion = 2 ∨ g.encodingVersion = 3
  resetVersion : g.resetActions = [] ∨ g.encodingVersion = 3
  quiesceNonneg : 0 ≤ g.quiesceSteps
  quiesceBound : g.quiesceSteps ≤ 4096
  quiesceVersion : g.quiesceSteps = 0 ∨ g.encodingVersion = 3
  actionIds : (g.actions.map Action.actionId).Nodup
  ids : (g.actions.map Action.actionId ++ g.resetActions.map ResetAction.actionId).Nodup
  imageIds : (g.initialImages.map MemoryImage.imageId).Nodup
  images : ∀ m ∈ g.initialImages, m.component ∈ g.scheduleOrder
  actions : ∀ a ∈ g.actions, a.component ∈ g.scheduleOrder ∧ g.ClockScheduled a.delayComponent a.trigger
  resets : ∀ r ∈ g.resetActions, g.ClockScheduled r.delayComponent r.trigger

variable {g : ScenarioGenome}

theorem checkClock_eq_ok {delayComponent : String} {trigger : Trigger} {delayText triggerText : String} :
    g.checkClock delayComponent trigger delayText triggerText = .ok () ↔
      g.ClockScheduled delayComponent trigger := by
  rw [checkClock, ensure_ok, ensure_eq_ok]
  rfl

theorem checkAction_eq_ok {a : Action} : g.checkAction a = .ok () ↔
    a.component ∈ g.scheduleOrder ∧ g.ClockScheduled a.delayComponent a.trigger := by
  rw [checkAction, ensure_ok, checkClock_eq_ok]

/-- **The checks of a genome, all together.** -/
theorem validate_eq_ok : g.validate = .ok () ↔ g.Checks := by
  have himages : g.initialImages.forM g.checkImage = .ok () ↔
      ∀ m ∈ g.initialImages, m.component ∈ g.scheduleOrder := by
    simp only [forM_eq_ok, checkImage, ensure_eq_ok]
  have hactions : g.actions.forM g.checkAction = .ok () ↔ ∀ a ∈ g.actions,
      a.component ∈ g.scheduleOrder ∧ g.ClockScheduled a.delayComponent a.trigger := by
    simp only [forM_eq_ok, checkAction_eq_ok]
  have hresets : g.resetActions.forM g.checkReset = .ok () ↔ ∀ r ∈ g.resetActions,
      g.ClockScheduled r.delayComponent r.trigger := by
    simp only [forM_eq_ok, checkReset, checkClock_eq_ok]
  rw [validate]
  simp only [genomeNatural, ensure_ok]
  constructor
  · rintro ⟨h1, h2, h3, h4, h5, h6, h7, h8, h9, h10, h11, h⟩
    obtain ⟨_, h12, _, h13, h14⟩ := bind_ok₂ h
    exact ⟨h1, h2, h3, h4, h5, h6, h7, h8, h9, h10, h11, himages.1 h12, hactions.1 h13, hresets.1 h14⟩
  · intro h
    refine ⟨h.names, h.order, h.maxSteps, h.version, h.resetVersion, h.quiesceNonneg,
      h.quiesceBound, h.quiesceVersion, h.actionIds, h.ids, h.imageIds, ?_⟩
    exact bind_ok.2 ⟨(), himages.2 h.images, bind_ok.2 ⟨(), hactions.2 h.actions,
      hresets.2 h.resets⟩⟩

/-- The genome and every record it holds are accepted by their constructors. -/
structure Valid (g : ScenarioGenome) : Prop where
  actions : ∀ a ∈ g.actions, a.Valid
  images : ∀ m ∈ g.initialImages, m.Valid
  resets : ∀ r ∈ g.resetActions, r.Valid
  genome : g.validate = .ok ()

instance (g : ScenarioGenome) : Decidable g.Valid :=
  decidable_of_iff ((∀ a ∈ g.actions, a.Valid) ∧ (∀ m ∈ g.initialImages, m.Valid) ∧
      (∀ r ∈ g.resetActions, r.Valid) ∧ g.validate = .ok ())
    ⟨fun h => ⟨h.1, h.2.1, h.2.2.1, h.2.2.2⟩, fun h => ⟨h.actions, h.images, h.resets, h.genome⟩⟩

end ScenarioGenome

/-- A genome the constructors accept. -/
def Genome : Type := { g : ScenarioGenome // g.Valid }

end MyFuzz
