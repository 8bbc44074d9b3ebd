import MyFuzz.Foundations.JsonValue
import MyFuzz.Scenario.Genome

/-!
# Scenario/JsonGenome — genomes as they are read from documents of unknown origin

The records of a genome hold whatever JSON value stands in a field; only their constructors look at the types.
A membership test in a set hashes the value first, which fails for lists and objects.

    text ──loads──▸ document ──shape, records, genome──▸ genome ──document──▸ document ──dumps──▸ text

The shape of the document is checked record by record, and every record is constructed before the next one is
looked at.
-/

namespace MyFuzz

namespace JsonGenome

open JsonValue Outcome

/-- The entries of an object. -/
abbrev Entries := List (List ℕ × JsonValue)

/-! ## Checks of values -/

/-- An integer of at least a minimum. -/
def natural (v : JsonValue) (name : String) (minimum : ℤ) : Except Exn ℤ :=
  match v with
  | .int i =>
    if minimum ≤ i then .ok i
    else .error (.valueError (name ++ " must be an integer >= " ++ toString minimum))
  | _ => .error (.valueError (name ++ " must be an integer >= " ++ toString minimum))

/-- The values are put into a set, or looked up in one. -/
def hashAll (values : List JsonValue) : Except Exn Unit :=
  ensure (∀ v ∈ values, v.Hashable) (.other "TypeError: unhashable type")

/-- The values of a set are distinct. -/
def Distinct (values : List JsonValue) : Prop := (values.map key).Nodup

instance (values : List JsonValue) : Decidable (Distinct values) := inferInstanceAs (Decidable (List.Nodup _))

/-- A value is equal to one of these; none of them is a list or an object. -/
def Among (v : JsonValue) (values : List JsonValue) : Prop := v.key ∈ values.map key

instance (v : JsonValue) (values : List JsonValue) : Decidable (Among v values) :=
  inferInstanceAs (Decidable (_ ∈ _))

/-- The value is a direction. -/
def IsDirection (v : JsonValue) : Prop := ∃ d ∈ Direction.all, v.Is d.text

instance (v : JsonValue) : Decidable (IsDirection v) := inferInstanceAs (Decidable (∃ d ∈ _, _))

/-! ## Triggers -/

structure Trigger where
  kind : JsonValue
  sourceComponent : JsonValue
  sourcePort : JsonValue
  mask : JsonValue
  value : JsonValue
  occurrence : JsonValue

namespace Trigger

variable (t : Trigger)

def validate : Except Exn Unit := do
  ensure (t.kind.Is "START" ∨ t.kind.Is "AFTER_OUTPUT") (.valueError "unknown trigger kind")
  if t.kind.Is "START" then
    ensure (t.sourceComponent.truthy = false ∧ t.sourcePort.truthy = false ∧ t.mask.truthy = false ∧
        t.value.truthy = false ∧ t.occurrence.Equals 1)
      (.valueError "START trigger cannot refer to an output")
  else do
    ensure (t.sourceComponent.truthy = true ∧ t.sourcePort.truthy = true)
      (.valueError "AFTER_OUTPUT requires a real output endpoint")
    let mask ← natural t.mask "trigger mask" 1
    let value ← natural t.value "trigger value" 0
    let _ ← natural t.occurrence "trigger occurrence" 1
    ensure (Int.land value (Int.lnot mask) = 0) (.valueError "trigger value exceeds mask")

/-- The trigger is accepted by its constructor. -/
def Valid : Prop := t.validate = .ok ()

/-- The fields of a trigger, by their names. -/
def entries : Entries :=
  [(points "kind", t.kind), (points "mask", t.mask), (points "occurrence", t.occurrence),
    (points "source_component", t.sourceComponent), (points "source_port", t.sourcePort),
    (points "value", t.value)]

def document : JsonValue := .object t.entries

def fields : List (List ℕ) :=
  [points "kind", points "mask", points "occurrence", points "source_component", points "source_port",
    points "value"]

def ofEntries (entries : Entries) : Trigger where
  kind := field entries "kind"
  sourceComponent := field entries "source_component"
  sourcePort := field entries "source_port"
  mask := field entries "mask"
  value := field entries "value"
  occurrence := field entries "occurrence"

end Trigger

/-! ## Actions -/

structure Action where
  actionId : JsonValue
  component : JsonValue
  port : JsonValue
  value : JsonValue
  direction : JsonValue
  trigger : Trigger
  delayComponent : JsonValue
  delayTicks : JsonValue
  bitOffset : JsonValue
  width : JsonValue

namespace Action

variable (a : Action)

/-- The identity and the endpoint of an action are there. -/
def Identified : Prop := a.actionId.truthy = true ∧ a.component.truthy = true ∧ a.port.truthy = true

instance : Decidable a.Identified := inferInstanceAs (Decidable (_ ∧ _))

def validate : Except Exn Unit := do
  ensure a.Identified (.valueError "action identity and source endpoint are required")
  hashAll [a.direction]
  ensure (IsDirection a.direction) (.valueError "unknown mutation direction")
  let _ ← natural a.value "action value" 0
  let _ ← natural a.delayTicks "delay_ticks" 0
  let _ ← natural a.bitOffset "bit_offset" 0
  if a.width.key = some .null then return ()
  let _ ← natural a.width "width" 1

/-- The action and its trigger are accepted by their constructors. -/
def Valid : Prop := a.trigger.Valid ∧ a.validate = .ok ()

def entries : Entries :=
  [(points "action_id", a.actionId), (points "bit_offset", a.bitOffset), (points "component", a.component),
    (points "delay_component", a.delayComponent), (points "delay_ticks", a.delayTicks),
    (points "direction", a.direction), (points "port", a.port), (points "trigger", a.trigger.document),
    (points "value", a.value), (points "width", a.width)]

def document : JsonValue := .object a.entries

def fields : List (List ℕ) :=
  [points "action_id", points "bit_offset", points "component", points "delay_component",
    points "delay_ticks",
    points "direction", points "port", points "trigger", points "value", points "width"]

def ofEntries (entries : Entries) (trigger : Trigger) : Action where
  actionId := field entries "action_id"
  component := field entries "component"
  port := field entries "port"
  value := field entries "value"
  direction := field entries "direction"
  trigger := trigger
  delayComponent := field entries "delay_component"
  delayTicks := field entries "delay_ticks"
  bitOffset := field entries "bit_offset"
  width := field entries "width"

end Action

/-! ## Memory images -/

structure MemoryImage where
  imageId : JsonValue
  component : JsonValue
  address : JsonValue
  dataHex : JsonValue

namespace MemoryImage

variable (m : MemoryImage)

/-- The bytes of a text. -/
def checkHex (points : List ℕ) : Except Exn Unit :=
  match fromHex (points.map Char.ofNat) with
  | none => .error (.valueError "memory image must be hex")
  | some data =>
    ensure ((toHex data).map Char.toNat = points)
      (.valueError "memory image hex must be canonical lowercase")

def validate : Except Exn Unit := do
  ensure (m.imageId.truthy = true ∧ m.component.truthy = true)
    (.valueError "memory image identity and component are required")
  let _ ← natural m.address "image address" 0
  match m.dataHex with
  | .text points => do
    ensure (points ≠ [] ∧ points.length % 2 = 0) (.valueError "memory image must have whole bytes")
    checkHex points
  | _ => .error (.valueError "memory image must have whole bytes")

/-- The image is accepted by its constructor. -/
def Valid : Prop := m.validate = .ok ()

def entries : Entries :=
  [(points "address", m.address), (points "component", m.component), (points "data_hex", m.dataHex),
    (points "image_id", m.imageId)]

def document : JsonValue := .object m.entries

def fields : List (List ℕ) := [points "address", points "component", points "data_hex", points "image_id"]

def ofEntries (entries : Entries) : MemoryImage where
  imageId := field entries "image_id"
  component := field entries "component"
  address := field entries "address"
  dataHex := field entries "data_hex"

end MemoryImage

/-! ## Resets -/

structure ResetAction where
  actionId : JsonValue
  policy : JsonValue
  trigger : Trigger
  delayComponent : JsonValue
  delayTicks : JsonValue

namespace ResetAction

variable (r : ResetAction)

def validate : Except Exn Unit := do
  ensure (r.actionId.truthy = true ∧ (r.policy.Is "warm_all" ∨ r.policy.Is "cold_all"))
    (.valueError "reset action needs an identity and whole-scene policy")
  let _ ← natural r.delayTicks "reset delay_ticks" 0

/-- The reset and its trigger are accepted by their constructors. -/
def Valid : Prop := r.trigger.Valid ∧ r.validate = .ok ()

def entries : Entries :=
  [(points "action_id", r.actionId), (points "delay_component", r.delayComponent),
    (points "delay_ticks", r.delayTicks), (points "policy", r.policy), (points "trigger", r.trigger.document)]

def document : JsonValue := .object r.entries

def fields : List (List ℕ) :=
  [points "action_id", points "delay_component", points "delay_ticks", points "policy", points "trigger"]

def ofEntries (entries : Entries) (trigger : Trigger) : ResetAction where
  actionId := field entries "action_id"
  policy := field entries "policy"
  trigger := trigger
  delayComponent := field entries "delay_component"
  delayTicks := field entries "delay_ticks"

end ResetAction

/-! ## Genomes -/

structure Genome where
  testcaseId : JsonValue
  direction : JsonValue
  pathId : JsonValue
  scheduleOrder : List JsonValue
  maxSteps : JsonValue
  actions : List Action
  initialImages : List MemoryImage
  encodingVersion : JsonValue
  resetActions : List ResetAction
  quiesceSteps : JsonValue

namespace Genome

variable (g : Genome)

def actionIds : List JsonValue := g.actions.map Action.actionId

def resetIds : List JsonValue := g.resetActions.map ResetAction.actionId

def imageIds : List JsonValue := g.initialImages.map MemoryImage.imageId

/-- The components that a delay and a trigger name are scheduled. -/
def checkClock (delayComponent : JsonValue) (trigger : Trigger) (delayText triggerText : String) :
    Except Exn Unit := do
  ensure (delayComponent.truthy = true → Among delayComponent g.scheduleOrder) (.valueError delayText)
  ensure (trigger.kind.Is "AFTER_OUTPUT" → Among trigger.sourceComponent g.scheduleOrder)
    (.valueError triggerText)

def checkAction (a : Action) : Except Exn Unit := do
  ensure (Among a.component g.scheduleOrder) (.valueError "action source is absent from schedule_order")
  g.checkClock a.delayComponent a.trigger "delay component is absent from schedule_order"
    "trigger component is absent from schedule_order"

def checkReset (r : ResetAction) : Except Exn Unit :=
  g.checkClock r.delayComponent r.trigger "reset delay component is absent from schedule_order"
    "reset trigger component is absent from schedule_order"

def checkImage (m : MemoryImage) : Except Exn Unit :=
  ensure (Among m.component g.scheduleOrder)
    (.valueError "memory image component is absent from schedule_order")

/-- The identities of the records, and the components that they name. -/
def checkRecords : Except Exn Unit := do
  hashAll g.actionIds
  ensure (Distinct g.actionIds) (.valueError "action_id must be unique")
  hashAll (g.actionIds ++ g.resetIds)
  ensure (Distinct (g.actionIds ++ g.resetIds)) (.valueError "action_id must be unique across the testcase")
  hashAll g.imageIds
  ensure (Distinct g.imageIds) (.valueError "image_id must be unique")
  g.initialImages.forM g.checkImage
  g.actions.forM g.checkAction
  g.resetActions.forM g.checkReset

/-- **The checks of a genome.** -/
def validate : Except Exn Unit := do
  ensure (g.testcaseId.truthy = true ∧ g.pathId.truthy = true)
    (.valueError "testcase_id and path_id are required")
  hashAll [g.direction]
  ensure (IsDirection g.direction) (.valueError "unknown mutation direction")
  ensure (g.scheduleOrder ≠ [] ∧ ∀ item ∈ g.scheduleOrder, item.truthy = true)
    (.valueError "schedule_order must list unique components")
  hashAll g.scheduleOrder
  ensure (Distinct g.scheduleOrder) (.valueError "schedule_order must list unique components")
  let _ ← natural g.maxSteps "max_steps" 1
  ensure (g.encodingVersion.Equals 2 ∨ g.encodingVersion.Equals 3)
    (.valueError "unknown genome encoding version")
  ensure (g.resetActions = [] ∨ g.encodingVersion.Equals 3)
    (.valueError "reset actions require genome encoding version 3")
  let quiesce ← natural g.quiesceSteps "quiesce_steps" 0
  ensure (quiesce ≤ 4096) (.valueError "quiesce_steps exceeds first-stage budget")
  ensure (quiesce = 0 ∨ g.encodingVersion.Equals 3)
    (.valueError "quiesce steps require genome encoding version 3")
  g.checkRecords

end Genome

/-! ## Writing -/

namespace Genome

variable (g : Genome)

def orderDocument : JsonValue := .list g.scheduleOrder

def actionsDocument : JsonValue := .list (g.actions.map Action.document)

def imagesDocument : JsonValue := .list (g.initialImages.map MemoryImage.document)

def resetsDocument : JsonValue := .list (g.resetActions.map ResetAction.document)

/-- The fields of every version. -/
def baseEntries : Entries :=
  [(points "actions", g.actionsDocument), (points "direction", g.direction),
    (points "encoding_version", g.encodingVersion), (points "initial_images", g.imagesDocument),
    (points "max_steps", g.maxSteps), (points "path_id", g.pathId),
    (points "schedule_order", g.orderDocument),
    (points "testcase_id", g.testcaseId)]

/-- The fields of version 3. -/
def allEntries : Entries :=
  [(points "actions", g.actionsDocument), (points "direction", g.direction),
    (points "encoding_version", g.encodingVersion), (points "initial_images", g.imagesDocument),
    (points "max_steps", g.maxSteps), (points "path_id", g.pathId), (points "quiesce_steps", g.quiesceSteps),
    (points "reset_actions", g.resetsDocument), (points "schedule_order", g.orderDocument),
    (points "testcase_id", g.testcaseId)]

/-- The document of a genome: version 2 leaves out what version 3 added. -/
def document : JsonValue := .object (if g.encodingVersion.Equals 2 then g.baseEntries else g.allEntries)

end Genome

/-- **Write a genome.** -/
def encode (codec : JsonText) (g : Genome) : Except Exn (List UInt8) :=
  match codec.dumps g.document with
  | some raw => .ok raw
  | none => .error (.valueError "the document cannot be written")

/-! ## Reading -/

/-- The entries of an object with exactly these fields. -/
def record (expected : List (List ℕ)) (message : String) : JsonValue → Except Exn Entries
  | .object entries => do
    ensure ((∀ k ∈ entries.map Prod.fst, k ∈ expected) ∧ ∀ k ∈ expected, k ∈ entries.map Prod.fst)
      (.valueError message)
    return entries
  | _ => .error (.valueError message)

/-- The items of a list. -/
def listOf (message : String) : JsonValue → Except Exn (List JsonValue)
  | .list items => .ok items
  | _ => .error (.valueError message)

def decodeTrigger (message : String) (v : JsonValue) : Except Exn Trigger := do
  let entries ← record Trigger.fields message v
  (Trigger.ofEntries entries).validate
  return Trigger.ofEntries entries

def decodeAction (v : JsonValue) : Except Exn Action := do
  let entries ← record Action.fields "unknown or missing action fields" v
  let trigger ← decodeTrigger "unknown or missing trigger fields" (field entries "trigger")
  (Action.ofEntries entries trigger).validate
  return Action.ofEntries entries trigger

def decodeReset (v : JsonValue) : Except Exn ResetAction := do
  let entries ← record ResetAction.fields "unknown or missing reset action fields" v
  let trigger ← decodeTrigger "unknown or missing reset trigger fields" (field entries "trigger")
  (ResetAction.ofEntries entries trigger).validate
  return ResetAction.ofEntries entries trigger

def decodeImage (entries : Entries) : Except Exn MemoryImage := do
  (MemoryImage.ofEntries entries).validate
  return MemoryImage.ofEntries entries

namespace Genome

def baseFields : List (List ℕ) :=
  [points "actions", points "direction", points "encoding_version", points "initial_images",
    points "max_steps", points "path_id", points "schedule_order", points "testcase_id"]

def allFields : List (List ℕ) :=
  [points "actions", points "direction", points "encoding_version", points "initial_images",
    points "max_steps", points "path_id", points "quiesce_steps", points "reset_actions",
    points "schedule_order", points "testcase_id"]

/-- The fields that a document of a version has. -/
def expectedFields (version : JsonValue) : List (List ℕ) := if version.Equals 3 then allFields else baseFields

def ofEntries (entries : Entries) (order : List JsonValue) (actions : List Action) (images : List MemoryImage)
    (resets : List ResetAction) : Genome where
  testcaseId := field entries "testcase_id"
  direction := field entries "direction"
  pathId := field entries "path_id"
  scheduleOrder := order
  maxSteps := field entries "max_steps"
  actions := actions
  initialImages := images
  encodingVersion := field entries "encoding_version"
  resetActions := resets
  quiesceSteps := (Dict.lookup (points "quiesce_steps") entries).getD (.int 0)

end Genome

/-- The entries of a document with the fields of its version. -/
def documentEntries : JsonValue → Except Exn Entries
  | .object entries =>
    record (Genome.expectedFields (field entries "encoding_version")) "unknown or missing genome fields"
      (.object entries)
  | _ => .error (.valueError "genome must be a JSON object")

/-- The records of a document, constructed one after the other, and its other fields. -/
def readFields (v : JsonValue) : Except Exn Genome := do
  let entries ← documentEntries v
  let actionItems ← listOf "actions must be a list" (field entries "actions")
  let actions ← actionItems.mapM decodeAction
  let order ← listOf "schedule_order must be a list" (field entries "schedule_order")
  let imageItems ← listOf "initial_images must be a list" (field entries "initial_images")
  let imageRecords ← imageItems.mapM (record MemoryImage.fields "unknown or missing memory image fields")
  let resetItems ← listOf "reset_actions must be a list"
    ((Dict.lookup (points "reset_actions") entries).getD (.list []))
  let resets ← resetItems.mapM decodeReset
  let images ← imageRecords.mapM decodeImage
  return Genome.ofEntries entries order actions images resets

/-- Read a document and construct its genome. -/
def decodeDocument (v : JsonValue) : Except Exn Genome := do
  let genome ← readFields v
  genome.validate
  return genome

/-- **Read a genome.** -/
def decode (codec : JsonText) (raw : List UInt8) : Except Exn Genome :=
  match codec.loads raw with
  | none => .error (.valueError "invalid genome JSON")
  | some v => decodeDocument v

end JsonGenome

end MyFuzz
