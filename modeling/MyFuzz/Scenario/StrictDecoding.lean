import MyFuzz.Scenario.JsonGenome

/-!
# Scenario/StrictDecoding — when decoding is strict

A document in the order of its keys is the document of what is read from it, so a genome that is written gives
back the text's own document:

    decode raw = g   ⟹   document g = loads raw   ⟹   encode g succeeds exactly when the document is encodable

What is raised is a `ValueError`, unless a list or an object is hashed before any check refuses the document.
-/

namespace MyFuzz

namespace JsonGenome

open Outcome Genome JsonValue Dict

/-! ## Values -/

variable {v : JsonValue} {name message : String} {minimum : ℤ} {α β : Type}
  {expected : List (List ℕ)} {entries : Entries} {trigger : Trigger} {g : Genome}

theorem natural_eq_ok {i : ℤ} : natural v name minimum = .ok i ↔ v = .int i ∧ minimum ≤ i := by
  cases v with
  | int j =>
    unfold natural
    constructor
    · intro h
      simp only at h
      split_ifs at h with hle
      cases h
      exact ⟨rfl, hle⟩
    · rintro ⟨heq, hle⟩
      cases heq
      exact if_pos hle
  | _ => exact ⟨fun h => (by cases h), fun h => (by cases h.1)⟩

theorem onlyValueError_natural : OnlyValueError (natural v name minimum) := by
  cases v with
  | int j =>
    unfold natural
    simp only
    split_ifs
    · exact onlyValueError_ok _
    · exact onlyValueError_error
  | _ => exact onlyValueError_error

theorem onlyValueError_natural_bind {f : ℤ → Except Exn α} :
    OnlyValueError (natural v name minimum >>= f) ↔ ∀ i, v = .int i → minimum ≤ i → OnlyValueError (f i) := by
  rw [onlyValueError_bind]
  exact ⟨fun h i hi hle => h.2 i (natural_eq_ok.2 ⟨hi, hle⟩),
    fun h => ⟨onlyValueError_natural, fun i hi => h i (natural_eq_ok.1 hi).1 (natural_eq_ok.1 hi).2⟩⟩

theorem onlyValueError_hashAll_bind {values : List JsonValue} {f : Unit → Except Exn α} :
    OnlyValueError (hashAll values >>= f) ↔ (∀ v ∈ values, v.Hashable) ∧ OnlyValueError (f ()) :=
  onlyValueError_other_bind

/-! ## Records -/

/-- **A record in order has its fields in order.** -/
theorem record_eq_ok (hexpected : expected.Pairwise (· < ·)) (hv : v.Sorted) :
    record expected message v = .ok entries ↔ v = .object entries ∧ entries.map Prod.fst = expected := by
  cases v with
  | object entries' =>
    unfold record
    simp only
    rw [ensure_ok]
    constructor
    · rintro ⟨⟨hin, hall⟩, h⟩
      obtain rfl : entries' = entries := Except.ok.inj h
      exact ⟨rfl, hv.entries.1.eq_of_mem_iff hexpected fun k => ⟨hin k, hall k⟩⟩
    · rintro ⟨heq, hkeys⟩
      cases heq
      rw [hkeys]
      exact ⟨⟨fun _ hk => hk, fun _ hk => hk⟩, rfl⟩
  | _ => exact ⟨fun h => (by cases h), fun h => (by cases h.1)⟩

theorem onlyValueError_record : OnlyValueError (record expected message v) := by
  cases v with
  | object entries => exact onlyValueError_ensure_bind.2 fun _ => onlyValueError_ok _
  | _ => exact onlyValueError_error

theorem listOf_eq_ok {items : List JsonValue} : listOf message v = .ok items ↔ v = .list items := by
  cases v with
  | list items' =>
    exact ⟨fun h => congrArg _ (Except.ok.inj h), fun h => congrArg _ (list.inj h)⟩
  | _ => exact ⟨fun h => (by cases h), fun h => (by cases h)⟩

theorem onlyValueError_listOf : OnlyValueError (listOf message v) := by
  cases v with
  | list items => exact onlyValueError_ok _
  | _ => exact onlyValueError_error

/-- The fields of a record in order, one by one. -/
theorem entries_eq_fields (hexpected : expected.Pairwise (· < ·)) (h : entries.map Prod.fst = expected) :
    entries = expected.map fun k => (k, (lookup k entries).getD .null) := by
  have hnodup : (entries.map Prod.fst).Nodup := by
    rw [h]
    exact hexpected.imp ne_of_lt
  rw [← h]
  exact entries_eq_map hnodup

/-! ## Triggers -/

namespace Trigger

theorem sorted_fields : fields.Pairwise (· < ·) := by decide

theorem entries_ofEntries (h : entries.map Prod.fst = fields) :
    (ofEntries entries).entries = entries := (entries_eq_fields sorted_fields h).symm

theorem onlyValueError_validate (t : Trigger) : OnlyValueError t.validate := by
  unfold validate
  rw [onlyValueError_ensure_bind]
  intro _
  split_ifs
  · exact onlyValueError_ensure
  · simp only [onlyValueError_ensure_bind, onlyValueError_natural_bind]
    exact fun _ _ _ _ _ _ _ _ _ _ => onlyValueError_ensure

end Trigger

/-- **A document is read as a trigger exactly when it is the document of a valid one.** -/
theorem decodeTrigger_eq_ok (hv : v.Sorted) {t : Trigger} :
    decodeTrigger message v = .ok t ↔ v = t.document ∧ t.Valid := by
  rw [decodeTrigger, bind_ok]
  constructor
  · rintro ⟨entries, hrecord, h⟩
    obtain ⟨rfl, hkeys⟩ := (record_eq_ok Trigger.sorted_fields hv).1 hrecord
    obtain ⟨_, hvalid, h⟩ := bind_ok.1 h
    cases h
    exact ⟨by rw [Trigger.document, Trigger.entries_ofEntries hkeys], hvalid⟩
  · rintro ⟨rfl, hvalid⟩
    exact ⟨t.entries, (record_eq_ok Trigger.sorted_fields hv).2 ⟨rfl, rfl⟩,
      bind_ok.2 ⟨(), hvalid, rfl⟩⟩

theorem onlyValueError_decodeTrigger : OnlyValueError (decodeTrigger message v) := by
  rw [decodeTrigger, onlyValueError_bind]
  refine ⟨onlyValueError_record, fun entries _ => ?_⟩
  rw [onlyValueError_bind]
  exact ⟨Trigger.onlyValueError_validate _, fun _ _ => onlyValueError_ok _⟩

/-! ## Actions -/

namespace Action

theorem sorted_fields : fields.Pairwise (· < ·) := by decide

/-- **The only unhashable value that an action looks up is its direction.** -/
theorem onlyValueError_validate (a : Action) :
    OnlyValueError a.validate ↔ (a.Identified → a.direction.Hashable) := by
  unfold validate
  simp only [onlyValueError_ensure_bind, onlyValueError_hashAll_bind, onlyValueError_natural_bind,
    List.forall_mem_singleton]
  refine ⟨fun h hid => (h hid).1, fun h hid => ⟨h hid, fun _ _ _ _ _ _ _ _ _ _ => ?_⟩⟩
  split_ifs
  · exact onlyValueError_ok _
  · exact onlyValueError_natural_bind.2 fun _ _ _ => onlyValueError_ok _

theorem entries_ofEntries (h : entries.map Prod.fst = fields)
    (htrigger : field entries "trigger" = trigger.document) :
    (ofEntries entries trigger).entries = entries := by
  rw [Action.entries, ofEntries, ← htrigger]
  exact (entries_eq_fields sorted_fields h).symm

end Action

/-- The record and the trigger of an action are read: what is left is the action's own checks. -/
theorem decodeAction_eq (hv : v.Sorted) :
    (∀ a : Action, v = a.document → a.trigger.Valid → decodeAction v = a.validate >>= fun _ => .ok a) ∧
    ((¬ ∃ a : Action, v = a.document ∧ a.trigger.Valid) →
      ∃ message, decodeAction v = .error (.valueError message)) := by
  have htrigger : ∀ entries, v = .object entries → (field entries "trigger").Sorted := by
    rintro entries rfl
    exact hv.field "trigger"
  constructor
  · rintro a rfl htv
    have hrecord : record Action.fields "unknown or missing action fields" a.document = .ok a.entries :=
      (record_eq_ok Action.sorted_fields hv).2 ⟨rfl, rfl⟩
    have hread : decodeTrigger "unknown or missing trigger fields" (field a.entries "trigger") =
      .ok a.trigger :=
      (decodeTrigger_eq_ok (htrigger _ rfl)).2 ⟨rfl, htv⟩
    rw [decodeAction, hrecord, ok_bind, hread, ok_bind]
    rfl
  · intro hnone
    rw [decodeAction]
    cases hrecord : record Action.fields "unknown or missing action fields" v with
    | error e =>
      obtain ⟨message, rfl⟩ := onlyValueError_record _ hrecord
      exact ⟨message, rfl⟩
    | ok entries =>
      obtain ⟨rfl, hkeys⟩ := (record_eq_ok Action.sorted_fields hv).1 hrecord
      rw [ok_bind]
      cases hread : decodeTrigger "unknown or missing trigger fields" (field entries "trigger") with
      | error e =>
        obtain ⟨message, rfl⟩ := onlyValueError_decodeTrigger _ hread
        exact ⟨message, rfl⟩
      | ok trigger =>
        obtain ⟨hdocument, hvalid⟩ := (decodeTrigger_eq_ok (htrigger _ rfl)).1 hread
        refine absurd ⟨Action.ofEntries entries trigger, ?_, hvalid⟩ hnone
        rw [Action.document, Action.entries_ofEntries hkeys hdocument]

/-- **A document is read as an action exactly when it is the document of a valid one.** -/
theorem decodeAction_eq_ok (hv : v.Sorted) {a : Action} :
    decodeAction v = .ok a ↔ v = a.document ∧ a.Valid := by
  obtain ⟨hread, hnone⟩ := decodeAction_eq hv
  constructor
  · intro h
    by_cases hexists : ∃ b : Action, v = b.document ∧ b.trigger.Valid
    · obtain ⟨b, hb, htrigger⟩ := hexists
      rw [hread b hb htrigger] at h
      obtain ⟨_, hvalid, h⟩ := bind_ok.1 h
      cases h
      exact ⟨hb, htrigger, hvalid⟩
    · obtain ⟨message, herror⟩ := hnone hexists
      rw [herror] at h
      cases h
  · rintro ⟨hb, htrigger, hvalid⟩
    rw [hread a hb htrigger, hvalid]
    rfl

/-- **What reading an action raises.** -/
theorem onlyValueError_decodeAction (hv : v.Sorted) : OnlyValueError (decodeAction v) ↔
    ∀ a : Action, v = a.document → a.trigger.Valid → a.Identified → a.direction.Hashable := by
  obtain ⟨hread, hnone⟩ := decodeAction_eq hv
  have hstep : ∀ a : Action, v = a.document → a.trigger.Valid →
      (OnlyValueError (decodeAction v) ↔ (a.Identified → a.direction.Hashable)) := by
    intro a ha htrigger
    rw [hread a ha htrigger, onlyValueError_bind, a.onlyValueError_validate]
    exact ⟨fun h => h.1, fun h => ⟨h, fun _ _ => onlyValueError_ok _⟩⟩
  constructor
  · exact fun h a ha htrigger => (hstep a ha htrigger).1 h
  · intro h
    by_cases hexists : ∃ a : Action, v = a.document ∧ a.trigger.Valid
    · obtain ⟨a, ha, htrigger⟩ := hexists
      exact (hstep a ha htrigger).2 (h a ha htrigger)
    · obtain ⟨message, herror⟩ := hnone hexists
      rw [herror]
      exact onlyValueError_error

/-! ## Images and resets -/

namespace MemoryImage

theorem sorted_fields : fields.Pairwise (· < ·) := by decide

theorem onlyValueError_validate (m : MemoryImage) : OnlyValueError m.validate := by
  unfold validate
  simp only [onlyValueError_ensure_bind, onlyValueError_natural_bind]
  intro _ _ _ _
  cases m.dataHex with
  | text points =>
    refine onlyValueError_ensure_bind.2 fun _ => ?_
    unfold checkHex
    cases fromHex (points.map Char.ofNat) with
    | none => exact onlyValueError_error
    | some data => exact onlyValueError_ensure
  | _ => exact onlyValueError_error

end MemoryImage

/-- The record of an image is the record of the image that is read from it. -/
theorem decodeImage_eq_ok (h : entries.map Prod.fst = MemoryImage.fields) {m : MemoryImage} :
    decodeImage entries = .ok m ↔ entries = m.entries ∧ m.Valid := by
  have hentries : (MemoryImage.ofEntries entries).entries = entries :=
    (entries_eq_fields MemoryImage.sorted_fields h).symm
  rw [decodeImage, bind_ok]
  constructor
  · rintro ⟨_, hvalid, h⟩
    cases h
    exact ⟨hentries.symm, hvalid⟩
  · rintro ⟨rfl, hvalid⟩
    exact ⟨(), hvalid, rfl⟩

theorem onlyValueError_decodeImage : OnlyValueError (decodeImage entries) := by
  rw [decodeImage, onlyValueError_bind]
  exact ⟨MemoryImage.onlyValueError_validate _, fun _ _ => onlyValueError_ok _⟩

namespace ResetAction

theorem sorted_fields : fields.Pairwise (· < ·) := by decide

theorem onlyValueError_validate (r : ResetAction) : OnlyValueError r.validate := by
  unfold validate
  simp only [onlyValueError_ensure_bind, onlyValueError_natural_bind]
  exact fun _ _ _ _ => onlyValueError_ok _

theorem entries_ofEntries (h : entries.map Prod.fst = fields)
    (htrigger : field entries "trigger" = trigger.document) :
    (ofEntries entries trigger).entries = entries := by
  rw [ResetAction.entries, ofEntries, ← htrigger]
  exact (entries_eq_fields sorted_fields h).symm

end ResetAction

/-- **A document is read as a reset exactly when it is the document of a valid one.** -/
theorem decodeReset_eq_ok (hv : v.Sorted) {r : ResetAction} :
    decodeReset v = .ok r ↔ v = r.document ∧ r.Valid := by
  have htrigger : ∀ entries, v = .object entries → (field entries "trigger").Sorted := by
    rintro entries rfl
    exact hv.field "trigger"
  rw [decodeReset, bind_ok]
  constructor
  · rintro ⟨entries, hrecord, h⟩
    obtain ⟨rfl, hkeys⟩ := (record_eq_ok ResetAction.sorted_fields hv).1 hrecord
    obtain ⟨trigger, hread, h⟩ := bind_ok.1 h
    obtain ⟨hdocument, htv⟩ := (decodeTrigger_eq_ok (htrigger _ rfl)).1 hread
    obtain ⟨_, hvalid, h⟩ := bind_ok.1 h
    cases h
    refine ⟨?_, htv, hvalid⟩
    rw [ResetAction.document, ResetAction.entries_ofEntries hkeys hdocument]
  · rintro ⟨rfl, htv, hvalid⟩
    refine ⟨r.entries, (record_eq_ok ResetAction.sorted_fields hv).2 ⟨rfl, rfl⟩,
      bind_ok.2 ⟨r.trigger, (decodeTrigger_eq_ok (htrigger _ rfl)).2 ⟨rfl, htv⟩,
        bind_ok.2 ⟨(), hvalid, rfl⟩⟩⟩

theorem onlyValueError_decodeReset : OnlyValueError (decodeReset v) := by
  rw [decodeReset, onlyValueError_bind]
  refine ⟨onlyValueError_record, fun entries _ => ?_⟩
  rw [onlyValueError_bind]
  refine ⟨onlyValueError_decodeTrigger, fun trigger _ => ?_⟩
  rw [onlyValueError_bind]
  exact ⟨ResetAction.onlyValueError_validate _, fun _ _ => onlyValueError_ok _⟩

/-! ## Documents -/

/-- A traversal by a function that has an inverse. -/
theorem mapM_eq_ok_map {ε : Type} {f : α → Except ε β} {g : β → α} {P : β → Prop} {as : List α}
    (h : ∀ a ∈ as, ∀ b, f a = .ok b ↔ a = g b ∧ P b) {bs : List β} :
    as.mapM f = .ok bs ↔ as = bs.map g ∧ ∀ b ∈ bs, P b := by
  rw [mapM_eq_ok]
  induction as generalizing bs with
  | nil =>
    rw [List.forall₂_nil_left_iff]
    constructor
    · rintro rfl
      exact ⟨rfl, nofun⟩
    · exact fun hbs => List.map_eq_nil_iff.1 hbs.1.symm
  | cons a as ih =>
    have hrest := @ih fun a' ha' => h a' (List.mem_cons_of_mem a ha')
    constructor
    · rintro (_ | ⟨hb, hbs⟩)
      obtain ⟨rfl, hp⟩ := (h a List.mem_cons_self _).1 hb
      obtain ⟨rfl, hps⟩ := hrest.1 hbs
      exact ⟨rfl, List.forall_mem_cons.2 ⟨hp, hps⟩⟩
    · cases bs with
      | nil => exact fun hbs => (by cases hbs.1)
      | cons b bs =>
        rintro ⟨heq, hps⟩
        obtain ⟨ha, has⟩ := List.cons.inj heq
        obtain ⟨hp, hps⟩ := List.forall_mem_cons.1 hps
        exact .cons ((h a List.mem_cons_self b).2 ⟨ha, hp⟩) (hrest.2 ⟨has, hps⟩)

namespace Genome

theorem sorted_allFields : allFields.Pairwise (· < ·) := by decide

theorem sorted_baseFields : baseFields.Pairwise (· < ·) := by decide

theorem sorted_expectedFields (version : JsonValue) : (expectedFields version).Pairwise (· < ·) := by
  unfold expectedFields
  split_ifs
  · exact sorted_allFields
  · exact sorted_baseFields

/-- The entries of a document with the fields of the genome's version. -/
def versionEntries (g : Genome) :
    Entries := if g.encodingVersion.Equals 3 then g.allEntries else g.baseEntries

/-- **The document has the fields of the genome, and the constructors accept its records.** -/
structure ReadFrom (g : Genome) (v : JsonValue) : Prop where
  document : v = .object g.versionEntries
  absent : ¬ g.encodingVersion.Equals 3 → g.resetActions = [] ∧ g.quiesceSteps = .int 0
  actions : ∀ a ∈ g.actions, a.Valid
  images : ∀ m ∈ g.initialImages, m.Valid
  resets : ∀ r ∈ g.resetActions, r.Valid

end Genome

theorem documentEntries_eq_ok (hv : v.Sorted) :
    documentEntries v = .ok entries ↔
      v = .object entries ∧ entries.map Prod.fst = expectedFields (field entries "encoding_version") := by
  cases v with
  | object entries' =>
    unfold documentEntries
    rw [record_eq_ok (sorted_expectedFields _) hv]
    constructor
    · rintro ⟨heq, hkeys⟩
      cases heq
      exact ⟨rfl, hkeys⟩
    · rintro ⟨heq, hkeys⟩
      cases heq
      exact ⟨rfl, hkeys⟩
  | _ => exact ⟨fun h => (by cases h), fun h => (by cases h.1)⟩

theorem onlyValueError_documentEntries : OnlyValueError (documentEntries v) := by
  cases v with
  | object entries =>
    unfold documentEntries
    exact onlyValueError_record
  | _ => exact onlyValueError_error

/-- Records of images, read in two passes. -/
theorem decodeImages_eq_ok {items : List JsonValue} (hitems : ∀ v ∈ items, v.Sorted) {message : String}
    {images : List MemoryImage} :
    (∃ records, items.mapM (record MemoryImage.fields message) = .ok records ∧
      records.mapM decodeImage = .ok images) ↔
      items = images.map MemoryImage.document ∧ ∀ m ∈ images, m.Valid := by
  have hrecords : ∀ records : List Entries, items.mapM (record MemoryImage.fields message) = .ok records ↔
      items = records.map object ∧ ∀ entries ∈ records, entries.map Prod.fst = MemoryImage.fields :=
    fun _ => mapM_eq_ok_map fun v hv _ => record_eq_ok MemoryImage.sorted_fields (hitems v hv)
  constructor
  · rintro ⟨records, hread, himages⟩
    obtain ⟨rfl, hkeys⟩ := (hrecords records).1 hread
    obtain ⟨rfl, hvalid⟩ := (mapM_eq_ok_map fun entries he m =>
      decodeImage_eq_ok (hkeys entries he)).1 himages
    exact ⟨List.map_map, hvalid⟩
  · rintro ⟨rfl, hvalid⟩
    have hkeys : ∀ entries ∈ images.map MemoryImage.entries, entries.map Prod.fst = MemoryImage.fields := by
      intro entries he
      obtain ⟨m, -, rfl⟩ := List.mem_map.1 he
      rfl
    exact ⟨images.map MemoryImage.entries, (hrecords _).2 ⟨List.map_map.symm, hkeys⟩,
      (mapM_eq_ok_map fun entries he m => decodeImage_eq_ok (hkeys entries he)).2 ⟨rfl, hvalid⟩⟩

/-- A key of an object has a value. -/
theorem lookup_of_mem {k : List ℕ} (h : k ∈ entries.map Prod.fst) (v : JsonValue) :
    (lookup k entries).getD v = (lookup k entries).getD .null := by
  cases hget : lookup k entries with
  | none => exact absurd h (lookup_eq_none_iff.1 hget)
  | some w => rfl

/-- What is read of the entries of a genome. -/
theorem Genome.versionEntries_fields (g : Genome)
    (habsent : ¬ g.encodingVersion.Equals 3 → g.resetActions = [] ∧ g.quiesceSteps = .int 0) :
    field g.versionEntries "encoding_version" = g.encodingVersion ∧
    field g.versionEntries "actions" = .list (g.actions.map Action.document) ∧
    field g.versionEntries "schedule_order" = .list g.scheduleOrder ∧
    field g.versionEntries "initial_images" = .list (g.initialImages.map MemoryImage.document) ∧
    (lookup (points "reset_actions") g.versionEntries).getD (.list []) =
      .list (g.resetActions.map ResetAction.document) ∧
    ofEntries g.versionEntries g.scheduleOrder g.actions g.initialImages g.resetActions = g := by
  by_cases hthree : g.encodingVersion.Equals 3
  · rw [versionEntries, if_pos hthree]
    exact ⟨rfl, rfl, rfl, rfl, rfl, rfl⟩
  · obtain ⟨hresets, hquiesce⟩ := habsent hthree
    rw [versionEntries, if_neg hthree, hresets]
    refine ⟨rfl, rfl, rfl, rfl, rfl, ?_⟩
    obtain ⟨_, _, _, _, _, _, _, _, _, _⟩ := g
    obtain rfl : _ = int 0 := hquiesce
    obtain rfl : _ = [] := hresets
    rfl

/-- **A document is read as the fields of a genome exactly when it has these fields.** -/
theorem readFields_eq_ok (hv : v.Sorted) : readFields v = .ok g ↔ g.ReadFrom v := by
  constructor
  · intro hread
    obtain ⟨entries, hentries, h⟩ := bind_ok.1 hread
    obtain ⟨rfl, hkeys⟩ := (documentEntries_eq_ok hv).1 hentries
    obtain ⟨actionItems, hactionItems, actions, hactions, order, horder, h⟩ := bind_ok₃ h
    obtain ⟨imageItems, himageItems, records, hrecords, resetItems, hresetItems, h⟩ := bind_ok₃ h
    obtain ⟨resets, hresets, images, himages, h⟩ := bind_ok₂ h
    cases h
    rw [listOf_eq_ok] at hactionItems horder himageItems hresetItems
    have hsorted : ∀ {name items}, field entries name = .list items → ∀ w ∈ items, w.Sorted := by
      intro name items hitems
      exact (hitems ▸ hv.field name : (list items).Sorted).items
    obtain ⟨rfl, hactionsValid⟩ :=
      (mapM_eq_ok_map fun w hw _ => decodeAction_eq_ok (hsorted hactionItems w hw)).1 hactions
    obtain ⟨rfl, himagesValid⟩ := (decodeImages_eq_ok (hsorted himageItems)).1 ⟨records, hrecords, himages⟩
    by_cases hversion : (field entries "encoding_version").Equals 3
    · rw [expectedFields, if_pos hversion] at hkeys
      have hkey : ∀ k ∈ allFields, k ∈ entries.map Prod.fst := fun k hk => hkeys ▸ hk
      have hquiesce : points "quiesce_steps" ∈ allFields := by decide
      have hreset : points "reset_actions" ∈ allFields := by decide
      rw [lookup_of_mem (hkey _ hreset)] at hresetItems
      obtain ⟨rfl, hresetsValid⟩ :=
        (mapM_eq_ok_map fun w hw _ =>
          decodeReset_eq_ok (@hsorted "reset_actions" _ hresetItems w hw)).1 hresets
      refine ⟨?_, fun hne => absurd hversion hne, hactionsValid, himagesValid, hresetsValid⟩
      refine congrArg object ((entries_eq_fields sorted_allFields hkeys).trans ?_)
      rw [versionEntries, if_pos (show (ofEntries _ _ _ _ _).encodingVersion.Equals 3 from hversion)]
      simp only [allEntries, ofEntries, actionsDocument, orderDocument,
        imagesDocument, resetsDocument, lookup_of_mem (hkey _ hquiesce) (.int 0)]
      rw [← hactionItems, ← horder, ← himageItems, ← hresetItems]
      rfl
    · rw [expectedFields, if_neg hversion] at hkeys
      have hnone : ∀ k, k ∉ baseFields → lookup k entries = none := by
        intro k hk
        exact lookup_eq_none_iff.2 (hkeys ▸ hk)
      rw [hnone _ (by decide)] at hresetItems
      cases hresetItems
      obtain rfl : [] = resets := Except.ok.inj hresets
      refine ⟨?_, fun _ => ⟨rfl, ?_⟩, hactionsValid, himagesValid, List.forall_mem_nil _⟩
      · refine congrArg object ((entries_eq_fields sorted_baseFields hkeys).trans ?_)
        rw [versionEntries,
          if_neg (show ¬ (ofEntries _ _ _ _ _).encodingVersion.Equals 3 from hversion)]
        simp only [baseEntries, ofEntries, actionsDocument, orderDocument,
          imagesDocument]
        rw [← hactionItems, ← horder, ← himageItems]
        rfl
      · exact congrArg (·.getD (.int 0)) (hnone (points "quiesce_steps") (by decide))
  · rintro ⟨rfl, habsent, hactionsValid, himagesValid, hresetsValid⟩
    obtain ⟨hversion, hactions, horder, himages, hresets, hgenome⟩ := g.versionEntries_fields habsent
    have hkeys : g.versionEntries.map Prod.fst =
        expectedFields (field g.versionEntries "encoding_version") := by
      rw [hversion, versionEntries, expectedFields]
      split_ifs <;> rfl
    have hsorted : ∀ {name : String} {items}, field g.versionEntries name = .list items →
        ∀ w ∈ items, w.Sorted := by
      intro name items hitems
      exact (hitems ▸ hv.field name : (list items).Sorted).items
    have hresetsSorted : ∀ w ∈ g.resetActions.map ResetAction.document, w.Sorted := by
      by_cases hthree : g.encodingVersion.Equals 3
      · refine @hsorted "reset_actions" _ ?_
        rw [versionEntries, if_pos hthree]
        rfl
      · rw [(habsent hthree).1]
        exact List.forall_mem_nil _
    obtain ⟨records, hrecords, hread⟩ :=
      (@decodeImages_eq_ok _ (hsorted himages) "unknown or missing memory image fields" _).2
        ⟨rfl, himagesValid⟩
    rw [readFields, (documentEntries_eq_ok hv).2 ⟨rfl, hkeys⟩, ok_bind, listOf_eq_ok.2 hactions, ok_bind,
      (mapM_eq_ok_map fun w hw _ => decodeAction_eq_ok (hsorted hactions w hw)).2 ⟨rfl, hactionsValid⟩,
      ok_bind, listOf_eq_ok.2 horder, ok_bind, listOf_eq_ok.2 himages, ok_bind, hrecords, ok_bind,
      listOf_eq_ok.2 hresets, ok_bind,
      (mapM_eq_ok_map fun w hw _ => decodeReset_eq_ok (hresetsSorted w hw)).2 ⟨rfl, hresetsValid⟩, ok_bind,
      hread, ok_bind, hgenome]
    rfl

/-! ## What is hashed -/

/-- **The direction of an action is hashable, if nothing before it is refused.** -/
def DirectionsHashable (v : JsonValue) : Prop :=
  ∀ (entries : Entries) (before : List Action) (a : Action) (after : List JsonValue), v = .object entries →
    entries.map Prod.fst = Genome.expectedFields (field entries "encoding_version") →
    field entries "actions" = .list (before.map Action.document ++ a.document :: after) →
    (∀ b ∈ before, b.Valid) → a.trigger.Valid → a.Identified → a.direction.Hashable

/-- The records after the actions. -/
theorem onlyValueError_mapM_of_forall {f : α → Except Exn β} (h : ∀ a, OnlyValueError (f a))
    (as : List α) : OnlyValueError (as.mapM f) := onlyValueError_mapM.2 fun _ a _ _ _ => h a

/-- **What reading the fields of a document raises.** -/
theorem onlyValueError_readFields (hv : v.Sorted) : OnlyValueError (readFields v) ↔ DirectionsHashable v := by
  have hactions : ∀ entries items, v = .object entries → field entries "actions" = .list items →
      (OnlyValueError (items.mapM decodeAction) ↔ ∀ (before : List Action) (a : Action) after,
        items = before.map Action.document ++ a.document :: after → (∀ b ∈ before, b.Valid) →
        a.trigger.Valid → a.Identified → a.direction.Hashable) := by
    rintro entries items rfl hitems
    have hsorted : ∀ w ∈ items, w.Sorted := (hitems ▸ hv.field "actions" : (list items).Sorted).items
    rw [onlyValueError_mapM]
    constructor
    · intro h before a after heq hbefore htrigger hid
      have hreturns : ∀ w ∈ before.map Action.document, ∃ b, decodeAction w = .ok b := by
        intro w hw
        obtain ⟨b, hb, rfl⟩ := List.mem_map.1 hw
        have hsorted := hsorted b.document (heq ▸ List.mem_append_left _ hw)
        exact ⟨b, (decodeAction_eq_ok hsorted).2 ⟨rfl, hbefore b hb⟩⟩
      have hsorted := hsorted a.document (heq ▸ List.mem_append_right _ (.head _))
      exact (onlyValueError_decodeAction hsorted).1 (h _ a.document after heq hreturns) a rfl htrigger hid
    · intro h before w after heq hbefore
      have hsorted' : ∀ u ∈ before, u.Sorted := fun u hu => hsorted u (heq ▸ List.mem_append_left _ hu)
      obtain ⟨actions, hread⟩ := exists_mapM_eq_ok hbefore
      obtain ⟨rfl, hvalid⟩ := (mapM_eq_ok_map fun u hu _ => decodeAction_eq_ok (hsorted' u hu)).1 hread
      rw [onlyValueError_decodeAction (hsorted w (heq ▸ List.mem_append_right _ List.mem_cons_self))]
      rintro a rfl
      exact h actions a after heq hvalid
  rw [readFields, onlyValueError_bind]
  constructor
  · rintro ⟨-, h⟩ entries before a after hv' hkeys hitems
    have h := h entries ((documentEntries_eq_ok hv).2 ⟨hv', hkeys⟩)
    rw [hitems, listOf, ok_bind, onlyValueError_bind] at h
    exact (hactions entries _ hv' hitems).1 h.1 before a after rfl
  · intro h
    refine ⟨onlyValueError_documentEntries, fun entries hentries => ?_⟩
    obtain ⟨hv', hkeys⟩ := (documentEntries_eq_ok hv).1 hentries
    refine onlyValueError_bind.2 ⟨onlyValueError_listOf, fun items hitems => ?_⟩
    rw [listOf_eq_ok] at hitems
    refine onlyValueError_bind.2 ⟨(hactions entries items hv' hitems).2 ?_, fun _ _ => ?_⟩
    · exact fun before a after heq => h entries before a after hv' hkeys (heq ▸ hitems)
    · refine onlyValueError_bind.2 ⟨onlyValueError_listOf, fun _ _ => ?_⟩
      refine onlyValueError_bind.2 ⟨onlyValueError_listOf, fun _ _ => ?_⟩
      refine onlyValueError_bind.2 ⟨onlyValueError_mapM_of_forall (fun _ => onlyValueError_record) _,
        fun _ _ => ?_⟩
      refine onlyValueError_bind.2 ⟨onlyValueError_listOf, fun _ _ => ?_⟩
      refine onlyValueError_bind.2 ⟨onlyValueError_mapM_of_forall (fun _ => onlyValueError_decodeReset) _,
        fun _ _ => ?_⟩
      refine onlyValueError_bind.2 ⟨onlyValueError_mapM_of_forall (fun _ => onlyValueError_decodeImage) _,
        fun _ _ => ?_⟩
      exact onlyValueError_ok _

namespace Genome

variable (g : Genome)

/-- The testcase and the path have names. -/
def Named : Prop := g.testcaseId.truthy = true ∧ g.pathId.truthy = true

/-- The schedule has components. -/
def Ordered : Prop := g.scheduleOrder ≠ [] ∧ ∀ item ∈ g.scheduleOrder, item.truthy = true

/-- **What a genome must satisfy before its records are looked at together.** -/
structure Framed : Prop where
  named : g.Named
  direction : IsDirection g.direction
  ordered : g.Ordered
  distinct : Distinct g.scheduleOrder
  maxSteps : ∃ n, g.maxSteps = .int n ∧ 1 ≤ n
  version : g.encodingVersion.Equals 2 ∨ g.encodingVersion.Equals 3
  resets : g.resetActions = [] ∨ g.encodingVersion.Equals 3
  quiesce : ∃ n, g.quiesceSteps = .int n ∧ 0 ≤ n ∧ n ≤ 4096 ∧ (n = 0 ∨ g.encodingVersion.Equals 3)

/-- **What a genome hashes is hashable, if nothing before it is refused.** -/
structure Hashes : Prop where
  direction : g.Named → g.direction.Hashable
  order : g.Named → IsDirection g.direction → g.Ordered → ∀ item ∈ g.scheduleOrder, item.Hashable
  actionIds : g.Framed → ∀ id ∈ g.actionIds, id.Hashable
  resetIds : g.Framed → Distinct g.actionIds → ∀ id ∈ g.resetIds, id.Hashable
  imageIds : g.Framed → Distinct (g.actionIds ++ g.resetIds) → ∀ id ∈ g.imageIds, id.Hashable

theorem onlyValueError_checkClock {delayComponent : JsonValue} {delayText triggerText : String} :
    OnlyValueError (g.checkClock delayComponent trigger delayText triggerText) :=
  onlyValueError_ensure_bind.2 fun _ => onlyValueError_ensure

theorem onlyValueError_checkRecords : OnlyValueError g.checkRecords ↔
    (∀ id ∈ g.actionIds, id.Hashable) ∧ (Distinct g.actionIds → ∀ id ∈ g.resetIds, id.Hashable) ∧
      (Distinct (g.actionIds ++ g.resetIds) → ∀ id ∈ g.imageIds, id.Hashable) := by
  have hrest : OnlyValueError (g.initialImages.forM g.checkImage >>= fun _ =>
      g.actions.forM g.checkAction >>= fun _ => g.resetActions.forM g.checkReset) := by
    refine onlyValueError_bind.2 ⟨onlyValueError_forM fun _ _ => onlyValueError_ensure, fun _ _ => ?_⟩
    refine onlyValueError_bind.2 ⟨onlyValueError_forM fun _ _ => ?_, fun _ _ => ?_⟩
    · exact onlyValueError_ensure_bind.2 fun _ => g.onlyValueError_checkClock
    · exact onlyValueError_forM fun _ _ => g.onlyValueError_checkClock
  have hleft : Distinct (g.actionIds ++ g.resetIds) → Distinct g.actionIds := by
    intro h
    unfold Distinct at h ⊢
    rw [List.map_append] at h
    exact h.of_append_left
  unfold checkRecords
  simp only [onlyValueError_hashAll_bind, onlyValueError_ensure_bind, hrest, implies_true, and_true,
    List.forall_mem_append]
  constructor
  · rintro ⟨hactions, h⟩
    exact ⟨hactions, fun hd => (h hd).1.2, fun hd => (h (hleft hd)).2 hd⟩
  · rintro ⟨hactions, hresets, himages⟩
    exact ⟨hactions, fun hd => ⟨⟨hactions, hresets hd⟩, himages⟩⟩

/-- **What the checks of a genome raise.** -/
theorem onlyValueError_validate : OnlyValueError g.validate ↔ g.Hashes := by
  unfold validate
  simp only [onlyValueError_hashAll_bind, onlyValueError_ensure_bind, onlyValueError_natural_bind,
    List.forall_mem_singleton, onlyValueError_checkRecords]
  constructor
  · intro h
    have hrecords : g.Framed → (∀ id ∈ g.actionIds, id.Hashable) ∧
        (Distinct g.actionIds → ∀ id ∈ g.resetIds, id.Hashable) ∧
          (Distinct (g.actionIds ++ g.resetIds) → ∀ id ∈ g.imageIds, id.Hashable) := by
      intro hf
      obtain ⟨n, hn, hle⟩ := hf.maxSteps
      obtain ⟨q, hq, hnonneg, hbound, hversion⟩ := hf.quiesce
      exact ((h hf.named).2 hf.direction hf.ordered).2 hf.distinct n hn hle hf.version hf.resets q hq hnonneg
        hbound hversion
    exact ⟨fun hnamed => (h hnamed).1, fun hnamed hdirection hordered => ((h hnamed).2 hdirection hordered).1,
      fun hf => (hrecords hf).1, fun hf => (hrecords hf).2.1, fun hf => (hrecords hf).2.2⟩
  · intro h hnamed
    refine ⟨h.direction hnamed, fun hdirection hordered => ⟨h.order hnamed hdirection hordered, ?_⟩⟩
    intro hdistinct n hn hle hversion hresets q hq hnonneg hbound hquiesce
    have hf : g.Framed := ⟨hnamed, hdirection, hordered, hdistinct, ⟨n, hn, hle⟩, hversion, hresets,
      ⟨q, hq, hnonneg, hbound, hquiesce⟩⟩
    exact ⟨h.actionIds hf, h.resetIds hf, h.imageIds hf⟩

end Genome

/-! ## Strict decoding -/

/-- The checks of a genome leave it one of two versions. -/
theorem Genome.version_of_validate (h : g.validate = .ok ()) :
    g.encodingVersion.Equals 2 ∨ g.encodingVersion.Equals 3 := by
  obtain ⟨-, h⟩ := ensure_ok.1 h
  obtain ⟨_, -, h⟩ := bind_ok.1 h
  obtain ⟨-, -, h⟩ := ensure_ok₂ h
  obtain ⟨_, -, h⟩ := bind_ok.1 h
  obtain ⟨-, h⟩ := ensure_ok.1 h
  obtain ⟨_, -, h⟩ := bind_ok.1 h
  exact (ensure_ok.1 h).1

/-- **A document that is accepted is the document of its genome.** -/
theorem decodeDocument_eq_ok (hv : v.Sorted) :
    decodeDocument v = .ok g ↔ g.ReadFrom v ∧ g.validate = .ok () := by
  rw [decodeDocument, bind_ok]
  constructor
  · rintro ⟨g', hread, h⟩
    obtain ⟨_, hvalid, h⟩ := bind_ok.1 h
    cases h
    exact ⟨(readFields_eq_ok hv).1 hread, hvalid⟩
  · rintro ⟨hread, hvalid⟩
    exact ⟨g, (readFields_eq_ok hv).2 hread, bind_ok.2 ⟨(), hvalid, rfl⟩⟩

theorem document_eq (hread : g.ReadFrom v) (hvalid : g.validate = .ok ()) : g.document = v := by
  rw [hread.document, document, versionEntries]
  rcases version_of_validate hvalid with htwo | hthree
  · have hthree : ¬ g.encodingVersion.Equals 3 := fun hthree => absurd (htwo.unique hthree) (by decide)
    rw [if_pos htwo, if_neg hthree]
  · have htwo : ¬ g.encodingVersion.Equals 2 := fun htwo => absurd (htwo.unique hthree) (by decide)
    rw [if_neg htwo, if_pos hthree]

/-- **Decoding raises a `ValueError`, or returns a genome that is written and read back.** -/
def StrictlyDecodes (codec : JsonText) (raw : List UInt8) : Prop :=
  (∃ message, decode codec raw = .error (.valueError message)) ∨
  ∃ g, decode codec raw = .ok g ∧ ∃ text, encode codec g = .ok text ∧ decode codec text = .ok g

/-- **What is hashed is hashable, and what is accepted can be written.** -/
structure Strict (v : JsonValue) : Prop where
  directions : DirectionsHashable v
  hashes : ∀ g : Genome, g.ReadFrom v → g.Hashes
  encodable : ∀ g : Genome, g.ReadFrom v → g.validate = .ok () → v.encodable = true

/-- What decoding a document raises. -/
theorem onlyValueError_decodeDocument (hv : v.Sorted) :
    OnlyValueError (decodeDocument v) ↔ DirectionsHashable v ∧ ∀ g : Genome, g.ReadFrom v → g.Hashes := by
  have hlast : ∀ g : Genome, OnlyValueError (g.validate >>= fun _ => (.ok g : Except Exn Genome)) ↔
    g.Hashes := by
    intro g
    rw [onlyValueError_bind, g.onlyValueError_validate]
    exact ⟨fun h => h.1, fun h => ⟨h, fun _ _ => onlyValueError_ok _⟩⟩
  rw [decodeDocument, onlyValueError_bind, onlyValueError_readFields hv]
  refine and_congr_right fun _ => forall_congr' fun g => ?_
  rw [readFields_eq_ok hv]
  exact imp_congr_right fun _ => hlast g

/-- **Decoding is strict exactly when nothing unhashable is hashed and what is accepted can be written.** -/
theorem strictlyDecodes_iff (codec : JsonText) (raw : List UInt8) :
    StrictlyDecodes codec raw ↔ ∀ v, codec.loads raw = some v → Strict v := by
  have hdecode : ∀ {raw v}, codec.loads raw = some v → decode codec raw = decodeDocument v := by
    intro raw v h
    rw [decode, h]
  constructor
  · intro h v hload
    have hv := codec.sorted_of_loads hload
    rw [StrictlyDecodes, hdecode hload] at h
    have honly : OnlyValueError (decodeDocument v) := by
      rcases h with ⟨message, herror⟩ | ⟨g, hg, -⟩
      · rw [herror]
        exact onlyValueError_error
      · rw [hg]
        exact onlyValueError_ok g
    obtain ⟨hdirections, hhashes⟩ := (onlyValueError_decodeDocument hv).mp honly
    refine ⟨hdirections, hhashes, fun g hread hvalid => ?_⟩
    have hg := (decodeDocument_eq_ok hv).mpr ⟨hread, hvalid⟩
    rcases h with ⟨message, herror⟩ | ⟨g', hg', text, hencode, -⟩
    · rw [hg] at herror
      cases herror
    · cases hg.symm.trans hg'
      -- what was written has an encoding
      by_contra hne
      rw [encode, document_eq hread hvalid, codec.dumps_eq_none (Bool.not_eq_true _ ▸ hne)] at hencode
      cases hencode
  · intro h
    cases hload : codec.loads raw with
    | none =>
      refine .inl ⟨"invalid genome JSON", ?_⟩
      rw [decode, hload]
    | some v =>
      have hv := codec.sorted_of_loads hload
      obtain ⟨hdirections, hhashes, hencodable⟩ := h v hload
      rw [StrictlyDecodes, hdecode hload]
      cases hresult : decodeDocument v with
      | error e =>
        obtain ⟨message, rfl⟩ := (onlyValueError_decodeDocument hv).mpr ⟨hdirections, hhashes⟩ e hresult
        exact .inl ⟨message, rfl⟩
      | ok g =>
        obtain ⟨hread, hvalid⟩ := (decodeDocument_eq_ok hv).mp hresult
        obtain ⟨text, hdumps, hback⟩ := codec.loads_dumps hload (hencodable g hread hvalid)
        refine .inr ⟨g, rfl, text, ?_, (hdecode hback).trans hresult⟩
        rw [encode, document_eq hread hvalid, hdumps]

/-- A genome without records. -/
def bare (direction pathId : JsonValue) : Genome where
  testcaseId := .text (points "t")
  direction := direction
  pathId := pathId
  scheduleOrder := [.text (points "c")]
  maxSteps := .int 1
  actions := []
  initialImages := []
  encodingVersion := .int 2
  resetActions := []
  quiesceSteps := .int 0

theorem sorted_bare {direction pathId : JsonValue} (hdirection : direction.Sorted) (hpath : pathId.Sorted) :
    (bare direction pathId).document.Sorted :=
  ⟨sorted_baseFields, trivial, hdirection, trivial, trivial, trivial, hpath, ⟨trivial, trivial⟩, trivial,
    trivial⟩

/-- The bytes of a text. -/
def ascii (s : String) : List UInt8 := s.toList.map fun c => UInt8.ofNat c.toNat

/-- A text of such a genome. -/
def bareText (direction pathId : String) : List UInt8 :=
  ascii ("\x7b\"actions\":[],\"direction\":" ++ direction ++
    ",\"encoding_version\":2,\"initial_images\":[],\"max_steps\":1,\"path_id\":" ++ pathId ++
    ",\"schedule_order\":[\"c\"],\"testcase_id\":\"t\"\x7d")

/-- A direction that is a list. -/
def listDirection : JsonText :=
  .only (bareText "[]" "\"p\"") _ (@sorted_bare (.list []) (.text (points "p")) trivial trivial)

/-- A path that is no number. -/
def nanPath : JsonText :=
  .only (bareText "\"CPU_TO_IP\"" "NaN") _
    (@sorted_bare (.text (points "CPU_TO_IP")) (.float .nan) trivial trivial)

/-- **A list as a direction escapes as a `TypeError`, and a path `NaN` is accepted but cannot be written.** -/
theorem unhashable_direction_escapes :
    (decode listDirection (bareText "[]" "\"p\"") = .error (.other "TypeError: unhashable type") ∧
      ¬ StrictlyDecodes listDirection (bareText "[]" "\"p\"")) ∧
    ∃ g, decode nanPath (bareText "\"CPU_TO_IP\"" "NaN") = .ok g ∧
      encode nanPath g = .error (.valueError "the document cannot be written") ∧
      ¬ StrictlyDecodes nanPath (bareText "\"CPU_TO_IP\"" "NaN") := by
  have hlist : decode listDirection (bareText "[]" "\"p\"") =
    .error (.other "TypeError: unhashable type") := by
    rw [decode, listDirection, JsonText.loads_only]
    rfl
  have hnan : decode nanPath (bareText "\"CPU_TO_IP\"" "NaN") =
      .ok (bare (.text (points "CPU_TO_IP")) (.float .nan)) := by
    rw [decode, nanPath, JsonText.loads_only]
    rfl
  have hencode : encode nanPath (bare (.text (points "CPU_TO_IP")) (.float .nan)) =
      .error (.valueError "the document cannot be written") := by
    have hnot : (bare (.text (points "CPU_TO_IP")) (.float .nan)).document.encodable = false := by decide
    rw [encode, nanPath.dumps_eq_none hnot]
  refine ⟨⟨hlist, fun h => ?_⟩, _, hnan, hencode, fun h => ?_⟩
  · rcases h with ⟨message, herror⟩ | ⟨g, hg, -⟩
    · rw [hlist] at herror
      cases herror
    · rw [hlist] at hg
      cases hg
  · rcases h with ⟨message, herror⟩ | ⟨g, hg, text, hwritten, -⟩
    · rw [hnan] at herror
      cases herror
    · cases hnan.symm.trans hg
      rw [hencode] at hwritten
      cases hwritten

end JsonGenome

end MyFuzz
