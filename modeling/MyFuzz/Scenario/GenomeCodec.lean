import MyFuzz.Foundations.Json
import MyFuzz.Scenario.Genome

/-!
# Scenario/GenomeCodec — genomes as bytes

`encode` writes a genome as the document of its fields; version 2 leaves out the two fields that
version 3 added.  `decode` reads a document field by field, checks that every record has exactly its
fields and constructs the records again, with all their checks.  How a document becomes bytes is a
`JsonCodec`: what `decode` sees is the canonical form of what `encode` wrote.

    genome ──document──▸ tree ──dumps──▸ bytes ──loads──▸ canonical tree ──decode──▸ genome
-/

namespace MyFuzz

namespace GenomeCodec

open Outcome Value Dict Prod

/-- A document over the scalars of a genome. -/
abbrev Tree := Value JsonScalar

/-! ## Documents -/

/-- An integer field. -/
def int (i : ℤ) : Tree := .scalar (.int i)

/-- The document of a trigger. -/
def triggerEntries (t : Trigger) : List (String × Tree) :=
  [("kind", .str t.kind.text), ("source_component", .str t.sourceComponent),
   ("source_port", .str t.sourcePort), ("mask", int t.mask), ("value", int t.value),
   ("occurrence", int t.occurrence)]

/-- The width of an action, which may be absent. -/
def widthTree : Option ℤ → Tree
  | none => .scalar .null
  | some width => int width

/-- The document of an action. -/
def actionEntries (a : Action) : List (String × Tree) :=
  [("action_id", .str a.actionId), ("component", .str a.component), ("port", .str a.port),
   ("value", int a.value), ("direction", .str a.direction.text),
   ("trigger", .dict (triggerEntries a.trigger)), ("delay_component", .str a.delayComponent),
   ("delay_ticks", int a.delayTicks), ("bit_offset", int a.bitOffset), ("width", widthTree a.width)]

/-- The document of an image. -/
def imageEntries (m : MemoryImage) : List (String × Tree) :=
  [("image_id", .str m.imageId), ("component", .str m.component), ("address", int m.address),
   ("data_hex", .str m.dataHex)]

/-- The document of a reset. -/
def resetEntries (r : ResetAction) : List (String × Tree) :=
  [("action_id", .str r.actionId), ("policy", .str r.policy.text),
   ("trigger", .dict (triggerEntries r.trigger)), ("delay_component", .str r.delayComponent),
   ("delay_ticks", int r.delayTicks)]

/-- The document of the fields every version has. -/
def baseEntries (g : ScenarioGenome) : List (String × Tree) :=
  [("testcase_id", .str g.testcaseId), ("direction", .str g.direction.text),
   ("path_id", .str g.pathId), ("schedule_order", .tuple (g.scheduleOrder.map .str)),
   ("max_steps", int g.maxSteps), ("actions", .tuple (g.actions.map fun a => .dict (actionEntries a))),
   ("initial_images", .tuple (g.initialImages.map fun m => .dict (imageEntries m))),
   ("encoding_version", int g.encodingVersion)]

/-- The document of the fields of version 3. -/
def resetFields (g : ScenarioGenome) : List (String × Tree) :=
  [("reset_actions", .tuple (g.resetActions.map fun r => .dict (resetEntries r))),
   ("quiesce_steps", int g.quiesceSteps)]

/-- The document of a genome. -/
def genomeEntries (g : ScenarioGenome) : List (String × Tree) :=
  if g.encodingVersion = 2 then baseEntries g else baseEntries g ++ resetFields g

/-- Write a genome. -/
def encode (codec : JsonCodec JsonScalar) (g : ScenarioGenome) : List UInt8 :=
  codec.dumps (.dict (genomeEntries g))

/-! ## Reading documents -/

/-- A field of a type the records are not declared with. -/
def untyped : Exn := .other "TypeError: field of another type"

/-- The entries of a record with exactly these fields. -/
def record (expected : List String) (message : String) : Tree → Except Exn (List (String × Tree))
  | .dict entries => do
      ensure ((∀ k ∈ entries.map Prod.fst, k ∈ expected) ∧ ∀ k ∈ expected, k ∈ entries.map Prod.fst)
        (.valueError message)
      pure entries
  | _ => .error (.valueError message)

/-- The value of a field. -/
def field (entries : List (String × Tree)) (k : String) : Tree :=
  (Dict.lookup k entries).getD (.scalar .null)

/-- A text field. -/
def textField (entries : List (String × Tree)) (k : String) : Except Exn String :=
  match field entries k with
  | .str s => .ok s
  | _ => .error untyped

/-- An integer field. -/
def intField (entries : List (String × Tree)) (k : String) : Except Exn ℤ :=
  match field entries k with
  | .scalar (.int i) => .ok i
  | _ => .error untyped

/-- An integer field that may be absent. -/
def widthField (entries : List (String × Tree)) (k : String) : Except Exn (Option ℤ) :=
  match field entries k with
  | .scalar .null => .ok none
  | .scalar (.int i) => .ok (some i)
  | _ => .error untyped

/-- The members of a list. -/
def listOf (message : String) : Tree → Except Exn (List Tree)
  | .list items => .ok items
  | _ => .error (.valueError message)

/-- A name from a table, or an error. -/
def named {α : Type} (message : String) : Option α → Except Exn α
  | some a => .ok a
  | none => .error (.valueError message)

/-- The fields of a trigger. -/
def triggerFields : List String :=
  ["kind", "source_component", "source_port", "mask", "value", "occurrence"]

/-- Construct a trigger from a record with its fields. -/
def decodeTrigger (message : String) (tree : Tree) : Except Exn Trigger := do
  let entries ← record triggerFields message tree
  let kindText ← textField entries "kind"
  let sourceComponent ← textField entries "source_component"
  let sourcePort ← textField entries "source_port"
  let mask ← intField entries "mask"
  let value ← intField entries "value"
  let occurrence ← intField entries "occurrence"
  let kind ← named "unknown trigger kind" (TriggerKind.ofText? kindText)
  let trigger := Trigger.mk kind sourceComponent sourcePort mask value occurrence
  trigger.validate
  pure trigger

/-- The fields of an action. -/
def actionFields : List String :=
  ["action_id", "component", "port", "value", "direction", "trigger", "delay_component",
   "delay_ticks", "bit_offset", "width"]

/-- Construct an action from a record with its fields. -/
def decodeAction (tree : Tree) : Except Exn Action := do
  let entries ← record actionFields "unknown or missing action fields" tree
  let trigger ← decodeTrigger "unknown or missing trigger fields" (field entries "trigger")
  let actionId ← textField entries "action_id"
  let component ← textField entries "component"
  let port ← textField entries "port"
  let value ← intField entries "value"
  let directionText ← textField entries "direction"
  let delayComponent ← textField entries "delay_component"
  let delayTicks ← intField entries "delay_ticks"
  let bitOffset ← intField entries "bit_offset"
  let width ← widthField entries "width"
  let direction ← named "unknown mutation direction" (Direction.ofText? directionText)
  let action := Action.mk actionId component port value direction trigger delayComponent delayTicks
    bitOffset width
  action.validate
  pure action

/-- The fields of an image. -/
def imageFields : List String := ["image_id", "component", "address", "data_hex"]

/-- Construct an image from a record with its fields. -/
def decodeImage (entries : List (String × Tree)) : Except Exn MemoryImage := do
  let imageId ← textField entries "image_id"
  let component ← textField entries "component"
  let address ← intField entries "address"
  let dataHex ← textField entries "data_hex"
  let image := MemoryImage.mk imageId component address dataHex
  image.validate
  pure image

/-- The fields of a reset. -/
def resetActionFields : List String :=
  ["action_id", "policy", "trigger", "delay_component", "delay_ticks"]

/-- Construct a reset from a record with its fields. -/
def decodeReset (tree : Tree) : Except Exn ResetAction := do
  let entries ← record resetActionFields "unknown or missing reset action fields" tree
  let trigger ← decodeTrigger "unknown or missing reset trigger fields" (field entries "trigger")
  let actionId ← textField entries "action_id"
  let policyText ← textField entries "policy"
  let delayComponent ← textField entries "delay_component"
  let delayTicks ← intField entries "delay_ticks"
  let policy ← named "reset action needs an identity and whole-scene policy"
    (ResetPolicy.ofText? policyText)
  let reset := ResetAction.mk actionId policy trigger delayComponent delayTicks
  reset.validate
  pure reset

/-- A text. -/
def asText : Tree → Except Exn String
  | .str s => .ok s
  | _ => .error untyped

/-- The fields of a genome of a version. -/
def expectedFields (version : Tree) : List String :=
  let base := ["testcase_id", "direction", "path_id", "schedule_order", "max_steps", "actions",
    "initial_images", "encoding_version"]
  match version with
  | .scalar (.int 3) => base ++ ["reset_actions", "quiesce_steps"]
  | _ => base

/-- The document of a genome. -/
def document : Tree → Except Exn (List (String × Tree))
  | .dict entries => .ok entries
  | _ => .error (.valueError "genome must be a JSON object")

/-- The quiesce steps, 0 when the field is absent. -/
def quiesceField (entries : List (String × Tree)) : Except Exn ℤ :=
  match Dict.lookup "quiesce_steps" entries with
  | none => .ok 0
  | some _ => intField entries "quiesce_steps"

/-- Read the fields of a genome's document and construct it. -/
def decodeEntries (entries : List (String × Tree)) : Except Exn ScenarioGenome := do
  let entries ← record (expectedFields (field entries "encoding_version"))
    "unknown or missing genome fields" (.dict entries)
  let actionItems ← listOf "actions must be a list" (field entries "actions")
  let actions ← actionItems.mapM decodeAction
  let orderItems ← listOf "schedule_order must be a list" (field entries "schedule_order")
  let imageItems ← listOf "initial_images must be a list" (field entries "initial_images")
  let imageRecords ← imageItems.mapM (record imageFields "unknown or missing memory image fields")
  let resetItems ← listOf "reset_actions must be a list"
    ((Dict.lookup "reset_actions" entries).getD (.list []))
  let resetActions ← resetItems.mapM decodeReset
  let testcaseId ← textField entries "testcase_id"
  let directionText ← textField entries "direction"
  let pathId ← textField entries "path_id"
  let scheduleOrder ← orderItems.mapM asText
  let maxSteps ← intField entries "max_steps"
  let initialImages ← imageRecords.mapM decodeImage
  let encodingVersion ← intField entries "encoding_version"
  let quiesceSteps ← quiesceField entries
  let direction ← named "unknown mutation direction" (Direction.ofText? directionText)
  let genome := ScenarioGenome.mk testcaseId direction pathId scheduleOrder maxSteps actions
    initialImages encodingVersion resetActions quiesceSteps
  genome.validate
  pure genome

/-- Read a genome. -/
def decode (codec : JsonCodec JsonScalar) (raw : List UInt8) : Except Exn ScenarioGenome := do
  let tree ← named "invalid genome JSON" (codec.loads raw)
  let entries ← document tree
  decodeEntries entries

/-! ## Records

What `loads` returns is the canonical form of a document.  A record of it has the fields that were
written, and each field is found under its name. -/

variable {entries : List (String × Tree)} {α : Type} {e : α → Tree} {items : List α}

theorem record_canonical {expected : List String} (h : entries.map fst = expected) (message : String) :
    record expected message (canonical (.dict entries)) = .ok (canonicalDict entries) := by
  have hmem : ∀ k, k ∈ (canonicalDict entries).map fst ↔ k ∈ expected := by
    intro k
    rw [(keys_perm_canonicalDict entries).mem_iff, h]
  rw [canonical_dict, record, ensure_of ⟨fun k => (hmem k).1, fun k => (hmem k).2⟩]
  rfl

section Fields

variable {entries : List (String × Tree)} {k : String}

section

variable (hnodup : (entries.map fst).Nodup)

include hnodup

theorem field_canonical {v : Tree}
    (h : lookup k entries = some v) :
    field (canonicalDict entries) k = v.canonical := by
  rw [field, lookup_canonicalDict hnodup, h]
  rfl

theorem textField_canonical {s : String}
    (h : lookup k entries = some (.str s)) :
    textField (canonicalDict entries) k = .ok s := by
  rw [textField, field_canonical hnodup h]
  rfl

theorem intField_canonical {i : ℤ}
    (h : lookup k entries = some (int i)) :
    intField (canonicalDict entries) k = .ok i := by
  rw [intField, field_canonical hnodup h]
  rfl

theorem widthField_canonical {width : Option ℤ}
    (h : lookup k entries = some (widthTree width)) :
    widthField (canonicalDict entries) k = .ok width := by
  rw [widthField, field_canonical hnodup h]
  cases width <;> rfl

end

end Fields

/-! ## Round trips -/

/-- **A valid trigger is read back.** -/
theorem decodeTrigger_canonical {t : Trigger} (h : t.Valid) (message : String) :
    decodeTrigger message (canonical (.dict (triggerEntries t))) = .ok t := by
  have hn : ((triggerEntries t).map fst).Nodup := by simp [triggerEntries]
  have hrecord := record_canonical (show (triggerEntries t).map fst = triggerFields from rfl)
    message
  have hkind := textField_canonical (k := "kind") hn rfl
  have hcomponent := textField_canonical (k := "source_component") hn rfl
  have hport := textField_canonical (k := "source_port") hn rfl
  have hmask := intField_canonical (k := "mask") hn rfl
  have hvalue := intField_canonical (k := "value") hn rfl
  have hoccurrence := intField_canonical (k := "occurrence") hn rfl
  have hvalid : t.validate = .ok () := h
  simp only [decodeTrigger, hrecord, hkind, hcomponent, hport, hmask, hvalue, hoccurrence, ok_bind,
    TriggerKind.ofText?_text, named, hvalid]
  rfl

/-- **A valid action is read back.** -/
theorem decodeAction_canonical {a : Action} (h : a.Valid) :
    decodeAction (canonical (.dict (actionEntries a))) = .ok a := by
  have hn : ((actionEntries a).map fst).Nodup := by simp [actionEntries]
  have hrecord := record_canonical (show (actionEntries a).map fst = actionFields from rfl)
    "unknown or missing action fields"
  have htrigger := field_canonical (k := "trigger") (v := .dict (triggerEntries a.trigger)) hn rfl
  have hid := textField_canonical (k := "action_id") hn rfl
  have hcomponent := textField_canonical (k := "component") hn rfl
  have hport := textField_canonical (k := "port") hn rfl
  have hvalue := intField_canonical (k := "value") hn rfl
  have hdirection := textField_canonical (k := "direction") hn rfl
  have hdelay := textField_canonical (k := "delay_component") hn rfl
  have hticks := intField_canonical (k := "delay_ticks") hn rfl
  have hoffset := intField_canonical (k := "bit_offset") hn rfl
  have hwidth := widthField_canonical (k := "width") hn (show _ = some (widthTree a.width) from rfl)
  simp only [decodeAction, hrecord, htrigger, decodeTrigger_canonical h.1, hid, hcomponent, hport,
    hvalue, hdirection, hdelay, hticks, hoffset, hwidth, ok_bind, Direction.ofText?_text, named, h.2]
  rfl

/-- **A valid image is read back.** -/
theorem decodeImage_canonical {m : MemoryImage} (h : m.Valid) :
    decodeImage (canonicalDict (imageEntries m)) = .ok m := by
  have hn : ((imageEntries m).map fst).Nodup := by simp [imageEntries]
  have hid := textField_canonical (k := "image_id") hn rfl
  have hcomponent := textField_canonical (k := "component") hn rfl
  have haddress := intField_canonical (k := "address") hn rfl
  have hdata := textField_canonical (k := "data_hex") hn rfl
  have hvalid : m.validate = .ok () := h
  simp only [decodeImage, hid, hcomponent, haddress, hdata, ok_bind, hvalid]
  rfl

/-- **A valid reset is read back.** -/
theorem decodeReset_canonical {r : ResetAction} (h : r.Valid) :
    decodeReset (canonical (.dict (resetEntries r))) = .ok r := by
  have hn : ((resetEntries r).map fst).Nodup := by simp [resetEntries]
  have hrecord := record_canonical (show (resetEntries r).map fst = resetActionFields from rfl)
    "unknown or missing reset action fields"
  have htrigger := field_canonical (k := "trigger") (v := .dict (triggerEntries r.trigger)) hn rfl
  have hid := textField_canonical (k := "action_id") hn rfl
  have hpolicy := textField_canonical (k := "policy") hn rfl
  have hdelay := textField_canonical (k := "delay_component") hn rfl
  have hticks := intField_canonical (k := "delay_ticks") hn rfl
  simp only [decodeReset, hrecord, htrigger, decodeTrigger_canonical h.1, hid, hpolicy, hdelay,
    hticks, ok_bind, ResetPolicy.ofText?_text, named, h.2]
  rfl

/-- A tuple is read back member by member. -/
theorem mapM_canonical {β : Type} {f : Tree → Except Exn β} {g : α → β}
    (h : ∀ a ∈ items, f (e a).canonical = .ok (g a)) :
    ((items.map e).map canonical).mapM f = .ok (items.map g) := by
  rw [List.map_map]
  exact mapM_map_of_ok h

/-- A list field is the canonical form of the tuple that was written. -/
theorem listOf_canonical {k : String} {items : List Tree} (hnodup : (entries.map fst).Nodup)
    (h : lookup k entries = some (.tuple items)) (message : String) :
    listOf message (field (canonicalDict entries) k) = .ok (items.map canonical) := by
  rw [field_canonical hnodup h, canonical_tuple, listOf]

section Genome

variable {g : ScenarioGenome}

/-- What the checks say of the version: version 2 has neither resets nor quiesce steps. -/
theorem version_cases (h : g.validate = .ok ()) :
    (g.encodingVersion = 2 ∧ g.resetActions = [] ∧ g.quiesceSteps = 0) ∨ g.encodingVersion = 3 := by
  have hchecks := ScenarioGenome.validate_eq_ok.1 h
  rcases hchecks.version with hversion | hversion
  · have hne : g.encodingVersion ≠ 3 := by omega
    exact .inl ⟨hversion, hchecks.resetVersion.resolve_right hne, hchecks.quiesceVersion.resolve_right hne⟩
  · exact .inr hversion

/-- A document that starts with the fields of every version is read back, given what is read for
the fields that version 3 added. -/
theorem decodeEntries_append (h : g.Valid) (rest : List (String × Tree))
    (hkeys : (baseEntries g ++ rest).map fst = expectedFields (int g.encodingVersion))
    (hnodup : ((baseEntries g ++ rest).map fst).Nodup) {resetItems : List Tree}
    (hresetItems : listOf "reset_actions must be a list" ((lookup "reset_actions"
      (canonicalDict (baseEntries g ++ rest))).getD (.list [])) = .ok resetItems)
    (hresets : resetItems.mapM decodeReset = .ok g.resetActions)
    (hquiesce : quiesceField (canonicalDict (baseEntries g ++ rest)) = .ok g.quiesceSteps) :
    decodeEntries (canonicalDict (baseEntries g ++ rest)) = .ok g := by
  have hversion := field_canonical (k := "encoding_version") (v := int g.encodingVersion) hnodup rfl
  have hrecord := record_canonical hkeys "unknown or missing genome fields"
  have hactionItems := listOf_canonical (k := "actions") hnodup rfl "actions must be a list"
  have hactions := mapM_canonical fun a ha => decodeAction_canonical (h.actions a ha)
  have horderItems := listOf_canonical (k := "schedule_order") hnodup rfl
    "schedule_order must be a list"
  have horder := mapM_canonical fun s (_ : s ∈ g.scheduleOrder) =>
    (rfl : asText (canonical (.str s)) = .ok s)
  have himageItems := listOf_canonical (k := "initial_images") hnodup rfl
    "initial_images must be a list"
  have hrecords := mapM_canonical fun m (_ : m ∈ g.initialImages) => record_canonical
    (show (imageEntries m).map fst = imageFields from rfl)
    "unknown or missing memory image fields"
  have himages := mapM_map_of_ok fun m hm => decodeImage_canonical (h.images m hm)
  have htestcase := textField_canonical (k := "testcase_id") hnodup rfl
  have hdirection := textField_canonical (k := "direction") hnodup rfl
  have hpath := textField_canonical (k := "path_id") hnodup rfl
  have hmax := intField_canonical (k := "max_steps") hnodup rfl
  have hencoding := intField_canonical (k := "encoding_version") hnodup rfl
  rw [List.map_id'] at hactions horder himages
  rw [canonical_dict] at hrecord
  have hexpected : canonical (int g.encodingVersion) = int g.encodingVersion := rfl
  simp only [decodeEntries, hversion, hexpected, hrecord, hactionItems, hactions, horderItems,
    himageItems, hrecords, hresetItems, hresets, htestcase, hdirection, hpath, horder, hmax, himages,
    hencoding, hquiesce, ok_bind, Direction.ofText?_text, named, h.genome]
  rfl

/-- **A valid genome is read back from its document.** -/
theorem decodeEntries_canonical (h : g.Valid) :
    decodeEntries (canonicalDict (genomeEntries g)) = .ok g := by
  rcases version_cases h.genome with ⟨hversion, hresets, hquiesce⟩ | hversion
  · have hentries : genomeEntries g = baseEntries g ++ [] := by
      rw [genomeEntries, if_pos hversion, List.append_nil]
    have hnodup : ((baseEntries g ++ []).map fst).Nodup := by simp [baseEntries]
    have hnone : ∀ k, lookup k (baseEntries g ++ []) = none →
        lookup k (canonicalDict (baseEntries g ++ [])) = none := by
      intro k hk
      rw [lookup_canonicalDict hnodup, hk, Option.map_none]
    rw [hentries]
    refine decodeEntries_append h [] ?_ hnodup (by rw [hnone "reset_actions" rfl]; rfl) ?_ ?_
    · rw [hversion]
      rfl
    · rw [hresets]
      rfl
    · rw [quiesceField, hnone "quiesce_steps" rfl, hquiesce]
  · have hentries : genomeEntries g = baseEntries g ++ resetFields g := by
      rw [genomeEntries, if_neg (by omega)]
    have hnodup : ((baseEntries g ++ resetFields g).map fst).Nodup := by
      simp [baseEntries, resetFields]
    have hresets := mapM_canonical fun r hr => decodeReset_canonical (h.resets r hr)
    rw [List.map_id'] at hresets
    have hlookup : lookup "reset_actions"
        (canonicalDict (baseEntries g ++ resetFields g)) =
          some (.list ((g.resetActions.map fun r => .dict (resetEntries r)).map canonical)) := by
      rw [lookup_canonicalDict hnodup, ← canonical_tuple]
      rfl
    rw [hentries]
    refine decodeEntries_append h (resetFields g) ?_ hnodup (by rw [hlookup]; rfl) hresets ?_
    · rw [hversion]
      rfl
    · rw [quiesceField, lookup_canonicalDict hnodup,
        intField_canonical (i := g.quiesceSteps) hnodup rfl]
      rfl

/-! ## Well-formed documents -/

/-- A record of well-formed fields is well formed. -/
theorem wellFormed_dict (hnodup : (entries.map fst).Nodup) (h : ∀ e ∈ entries, e.2.WellFormed) :
    (dict entries).WellFormed :=
  ⟨hnodup, wellFormedEntries_iff.2 h⟩

theorem wellFormed_tuple (h : ∀ a, (e a).WellFormed) : (tuple (items.map e)).WellFormed := by
  refine wellFormedItems_iff.2 fun v hv => ?_
  obtain ⟨a, -, rfl⟩ := List.mem_map.1 hv
  exact h a

theorem wellFormed_trigger (t : Trigger) : (dict (triggerEntries t)).WellFormed :=
  wellFormed_dict (by simp [triggerEntries]) (by simp [triggerEntries, int, Value.WellFormed])

theorem wellFormed_widthTree (width : Option ℤ) : (widthTree width).WellFormed := by
  cases width <;> exact trivial

theorem wellFormed_action (a : Action) : (dict (actionEntries a)).WellFormed :=
  wellFormed_dict (by simp [actionEntries]) (by
    simp only [actionEntries, List.forall_mem_cons, wellFormed_trigger, wellFormed_widthTree]
    simp [int, Value.WellFormed])

theorem wellFormed_image (m : MemoryImage) : (dict (imageEntries m)).WellFormed :=
  wellFormed_dict (by simp [imageEntries]) (by simp [imageEntries, int, Value.WellFormed])

theorem wellFormed_reset (r : ResetAction) : (dict (resetEntries r)).WellFormed :=
  wellFormed_dict (by simp [resetEntries]) (by
    simp only [resetEntries, List.forall_mem_cons, wellFormed_trigger]
    simp [int, Value.WellFormed])

theorem wellFormed_baseEntries (g : ScenarioGenome) : ∀ e ∈ baseEntries g, e.2.WellFormed := by
  have horder : (tuple (g.scheduleOrder.map str) : Tree).WellFormed :=
    wellFormed_tuple fun _ => trivial
  simp only [baseEntries, List.forall_mem_cons, horder, wellFormed_tuple wellFormed_action,
    wellFormed_tuple wellFormed_image]
  simp [int, Value.WellFormed]

theorem wellFormed_resetFields (g : ScenarioGenome) : ∀ e ∈ resetFields g, e.2.WellFormed := by
  simp only [resetFields, List.forall_mem_cons, wellFormed_tuple wellFormed_reset]
  simp [int, Value.WellFormed]

theorem wellFormed_genome (g : ScenarioGenome) : (dict (genomeEntries g)).WellFormed := by
  by_cases hversion : g.encodingVersion = 2
  · rw [genomeEntries, if_pos hversion]
    exact wellFormed_dict (by simp [baseEntries]) (wellFormed_baseEntries g)
  · rw [genomeEntries, if_neg hversion]
    refine wellFormed_dict (by simp [baseEntries, resetFields]) fun e he => ?_
    rcases List.mem_append.1 he with he | he
    · exact wellFormed_baseEntries g e he
    · exact wellFormed_resetFields g e he

/-- What `decode` returns for the bytes of a valid genome. -/
theorem decode_encode_of_valid (codec : JsonCodec JsonScalar) (h : g.Valid) :
    decode codec (encode codec g) = .ok g := by
  rw [decode, encode, codec.loads_dumps _ (wellFormed_genome g), named, ok_bind,
    canonical_dict, document, ok_bind]
  exact decodeEntries_canonical h

end Genome

/-- **Encoding a genome and decoding the bytes gives the genome back**, for both versions and
whatever the genome holds, and so no two genomes have the same bytes. -/
theorem decode_encode (codec : JsonCodec JsonScalar) :
    (∀ g : Genome, decode codec (encode codec g.val) = .ok g.val) ∧
      Function.Injective fun g : Genome => encode codec g.val := by
  have hround : ∀ g : Genome, decode codec (encode codec g.val) = .ok g.val :=
    fun g => decode_encode_of_valid codec g.property
  refine ⟨hround, fun g g' h => ?_⟩
  have hbytes : encode codec g.val = encode codec g'.val := h
  have hok := hround g
  rw [hbytes, hround g'] at hok
  exact Subtype.ext (Except.ok.inj hok).symm

end GenomeCodec

end MyFuzz
