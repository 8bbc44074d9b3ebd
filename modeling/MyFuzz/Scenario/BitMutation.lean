import MyFuzz.Scenario.Mutation

/-!
# Scenario/BitMutation — a mutation flips one bit, and flips it back

`mutateGenome` looks for the first action, or the first image, that holds the bit and rewrites that one:

    before ++ action :: after   ──▸   before ++ flipped :: after

Which one it finds depends on no value, so the same call finds it again in the result and flips the bit
back; every check in between is one of the plan.
-/

namespace MyFuzz

open Outcome MemoryImage List

/-! ## Numbers -/

theorem testBit_flipBit (value : ℤ) (bit i : ℕ) :
    (flipBit value bit).testBit i = ((value.testBit i) ^^ decide (i = bit)) := by
  rw [flipBit, Int.testBit_lxor]
  congr 1
  change (2 ^ bit).testBit i = decide (i = bit)
  rw [Nat.testBit_two_pow]
  exact decide_eq_decide.2 eq_comm

theorem flipBit_flipBit (value : ℤ) (bit : ℕ) : flipBit (flipBit value bit) bit = value := by
  cases value with
  | ofNat n => exact congrArg Int.ofNat (Nat.xor_xor_cancel_right n (2 ^ bit))
  | negSucc n => exact congrArg Int.negSucc (Nat.xor_xor_cancel_right n (2 ^ bit))

/-! ## Bytes -/

/-- A bit of some bytes, the low bit of a byte first. -/
def dataBit (data : List ℕ) (i : ℕ) : Bool := (data.getD (i / 8) 0).testBit (i % 8)

theorem length_flipByte (data : List ℕ) (bit : ℕ) : (flipByte data bit).length = data.length :=
  length_modify _ _ _

theorem flipByte_flipByte (data : List ℕ) (bit : ℕ) : flipByte (flipByte data bit) bit = data := by
  unfold flipByte
  rw [modify_modify_eq]
  have hid : ((fun byte => byte ^^^ 2 ^ (bit % 8)) ∘ fun byte => byte ^^^ 2 ^ (bit % 8)) = id := by
    funext byte
    exact Nat.xor_xor_cancel_right byte _
  rw [hid, modify_id]

variable {data : List ℕ} {bit : ℕ} {m : MemoryImage} {source : FuzzableSource}

theorem dataBit_flipByte (hbit : bit < data.length * 8) (i : ℕ) :
    dataBit (flipByte data bit) i = (dataBit data i ^^ decide (i = bit)) := by
  unfold dataBit flipByte
  rw [getD_eq_getElem?_getD, getD_eq_getElem?_getD, getElem?_modify]
  by_cases hbyte : bit / 8 = i / 8
  · have hlt : i / 8 < data.length := by omega
    rw [getElem?_eq_getElem hlt, Option.map_eq_map, Option.map_some, Option.getD_some,
      Option.getD_some, if_pos hbyte, Nat.testBit_xor, Nat.testBit_two_pow]
    congr 1
    exact decide_eq_decide.2 ⟨fun h => by omega, fun h => by omega⟩
  · have hne : i ≠ bit := fun h => hbyte (by rw [h])
    rw [decide_eq_false hne, Bool.xor_false]
    congr 2
    cases data[i / 8]? with
    | none => rfl
    | some byte => exact congrArg some (if_neg hbyte)

theorem flipByte_lt (h : ∀ b ∈ data, b < 256) (bit : ℕ) : ∀ b ∈ flipByte data bit, b < 256 := by
  intro b hb
  obtain ⟨i, hi, rfl⟩ := mem_iff_getElem.1 hb
  unfold flipByte at hi ⊢
  rw [getElem_modify]
  rw [length_modify] at hi
  have hlt := h _ (getElem_mem hi)
  split_ifs
  · exact Nat.xor_lt_two_pow hlt (Nat.pow_lt_pow_right (by decide) (Nat.mod_lt bit (by decide)))
  · exact hlt

theorem hexDigit?_lt {c : Char} {n : ℕ} (h : hexDigit? c = some n) : n < 16 := by
  unfold hexDigit? at h
  have hval : ∀ {d : Char}, c ≤ d → c.toNat ≤ d.toNat := fun h => h
  split_ifs at h with hdigit hlower hupper
  · cases h
    have := hval hdigit.2
    simp at this
    omega
  · cases h
    have := hval hlower.2
    simp at this
    omega
  · cases h
    have := hval hupper.2
    simp at this
    omega

/-- What is read from a text are bytes. -/
theorem fromHex_lt {text : List Char} {bytes : List ℕ} (h : fromHex text = some bytes) :
    ∀ b ∈ bytes, b < 256 := by
  induction text using fromHex.induct generalizing bytes with
  | case1 =>
    rw [← Option.some.inj h]
    exact nofun
  | case2 c rest hspace ih =>
    unfold fromHex at h
    rw [if_pos hspace] at h
    exact ih h
  | case3 c hspace =>
    rw [fromHex.eq_def] at h
    dsimp only at h
    rw [if_neg hspace] at h
    cases h
  | case4 c hspace d rest ih =>
    rw [fromHex, if_neg hspace] at h
    obtain ⟨high, hhigh, h⟩ := Option.bind_eq_some_iff.1 h
    obtain ⟨low, hlow, h⟩ := Option.bind_eq_some_iff.1 h
    obtain ⟨rest', hrest, h⟩ := Option.bind_eq_some_iff.1 h
    rw [← Option.some.inj h]
    have hhigh := hexDigit?_lt hhigh
    have hlow := hexDigit?_lt hlow
    rintro b hb
    rcases mem_cons.1 hb with rfl | hb
    · omega
    · exact ih hrest b hb

/-! ## Images -/

/-- An image whose text is the canonical one of its bytes. -/
theorem MemoryImage.Valid.toHex_data (h : m.Valid) :
    toHex m.data = m.dataHex.toList ∧ ∀ b ∈ m.data, b < 256 := by
  obtain ⟨-, h⟩ := ensure_ok.1 h
  obtain ⟨_, -, h⟩ := bind_ok.1 h
  obtain ⟨-, h⟩ := ensure_ok.1 h
  unfold data
  cases hdata : fromHex m.dataHex.toList with
  | none => rw [hdata] at h; cases h
  | some data =>
    rw [hdata] at h
    exact ⟨ensure_eq_ok.1 h, fromHex_lt hdata⟩

/-- An image with one bit flipped. -/
def MemoryImage.flipped (m : MemoryImage) (bit : ℕ) : MemoryImage :=
  { m with dataHex := String.ofList (toHex (flipByte m.data bit)) }

theorem MemoryImage.data_flipped (h : m.Valid) (bit : ℕ) : (m.flipped bit).data = flipByte m.data bit := by
  have hbytes := flipByte_lt h.toHex_data.2 bit
  unfold data flipped
  rw [String.toList_ofList, fromHex_toHex hbytes]
  rfl

theorem MemoryImage.flipped_flipped (h : m.Valid) (bit : ℕ) : (m.flipped bit).flipped bit = m := by
  have hhex : String.ofList (toHex (flipByte (m.flipped bit).data bit)) = m.dataHex := by
    rw [data_flipped h, flipByte_flipByte, h.toHex_data.1, String.ofList_toList]
  rw [flipped, hhex]
  rfl

/-- The image a source names. -/
def FuzzableSource.Names (source : FuzzableSource) (m : MemoryImage) : Prop :=
  m.imageId = source.port ∧ m.component = source.component

theorem mutateImage_eq_ok {m' : MemoryImage} :
    mutateImage source bit m = .ok m' ↔ source.bitOffset + source.width ≤ m.data.length * 8 ∧
      (m.flipped bit).Valid ∧ m' = m.flipped bit := by
  unfold mutateImage
  rw [ensure_ok, bind_ok]
  refine and_congr_right fun _ => ⟨?_, ?_⟩
  · rintro ⟨_, hvalid, h⟩
    exact ⟨hvalid, (Except.ok.inj h).symm⟩
  · rintro ⟨hvalid, rfl⟩
    exact ⟨(), hvalid, rfl⟩

/-- **The image that is rewritten is the first one the source names.** -/
theorem mutateImages_eq_ok {images result : List MemoryImage} :
    mutateImages source bit images = .ok result ↔ ∃ before m after, images = before ++ m :: after ∧
      (∀ m' ∈ before, ¬ source.Names m') ∧ source.Names m ∧
      source.bitOffset + source.width ≤ m.data.length * 8 ∧ (m.flipped bit).Valid ∧
      result = before ++ m.flipped bit :: after := by
  induction images generalizing result with
  | nil =>
    constructor
    · intro h
      cases h
    · rintro ⟨before, m, after, h, -⟩
      exact absurd h.symm (append_ne_nil_of_right_ne_nil before (cons_ne_nil m after))
  | cons m images ih =>
    rw [mutateImages]
    by_cases hname : source.Names m
    · rw [if_neg (by rintro (h | h) <;> [exact h hname.1; exact h hname.2]), bind_ok]
      simp only [mutateImage_eq_ok]
      constructor
      · rintro ⟨_, ⟨hfits, hvalid, rfl⟩, h⟩
        exact ⟨[], m, images, rfl, nofun, hname, hfits, hvalid, (Except.ok.inj h).symm⟩
      · rintro ⟨before, m', after, hsplit, hbefore, -, hfits, hvalid, rfl⟩
        cases before with
        | nil =>
          cases hsplit
          exact ⟨_, ⟨hfits, hvalid, rfl⟩, rfl⟩
        | cons first before =>
          cases hsplit
          exact absurd hname (hbefore m (.head _))
    · rw [if_pos (by rw [← not_and_or]; exact hname), bind_ok]
      simp only [ih]
      constructor
      · rintro ⟨_, ⟨before, m', after, rfl, hbefore, hname', hfits, hvalid, rfl⟩, h⟩
        exact ⟨m :: before, m', after, rfl, forall_mem_cons.2 ⟨hname, hbefore⟩, hname', hfits,
          hvalid, (Except.ok.inj h).symm⟩
      · rintro ⟨before, m', after, hsplit, hbefore, hname', hfits, hvalid, rfl⟩
        cases before with
        | nil =>
          cases hsplit
          exact absurd hname' hname
        | cons first before =>
          cases hsplit
          exact ⟨_, ⟨before, m', after, rfl, (forall_mem_cons.1 hbefore).2, hname', hfits, hvalid,
            rfl⟩, rfl⟩

/-! ## Actions -/

/-- An action with one bit of its value flipped. -/
def Action.flipped (action : Action) (bit : ℤ) : Action :=
  { action with value := flipBit action.value (bit - action.bitOffset).toNat }

theorem Action.flipped_flipped (action : Action) (bit : ℤ) : (action.flipped bit).flipped bit = action := by
  have hvalue : flipBit (flipBit action.value (bit - action.bitOffset).toNat)
      (bit - action.bitOffset).toNat = action.value := flipBit_flipBit _ _
  exact congrArg (fun value => { action with value := value }) hvalue

section Actions

variable {ownership : OwnershipMap} {source : FuzzableSource} {direction : Direction} {bit : ℤ}
  {actionId : Option String}

/-- The action is one that may be named. -/
def Named (actionId : Option String) (action : Action) : Prop := ∀ id ∈ actionId, action.actionId = id

/-- The action is not the one that is rewritten. -/
def Passed (ownership : OwnershipMap) (source : FuzzableSource) (direction : Direction) (bit : ℤ)
    (actionId : Option String) (action : Action) : Prop :=
  ¬ Named actionId action ∨ ∃ width, actionWidth ownership action = .ok width ∧
    ¬ action.Drives source direction bit width

/-- The action drives the bit and is rewritten, when it comes first. -/
def Chosen (ownership : OwnershipMap) (source : FuzzableSource) (direction : Direction) (bit : ℤ)
    (actionId : Option String) (action : Action) : Prop :=
  Named actionId action ∧ ∃ width, actionWidth ownership action = .ok width ∧
    action.Drives source direction bit width

theorem Chosen.not_passed {action : Action} (h : Chosen ownership source direction bit actionId action) :
    ¬ Passed ownership source direction bit actionId action := by
  obtain ⟨hnamed, width, hwidth, hdrives⟩ := h
  rintro (hnot | ⟨width', hwidth', hnot⟩)
  · exact hnot hnamed
  · cases hwidth.symm.trans hwidth'
    exact hnot hdrives

/-- **The action that is rewritten is the first one that is chosen.** -/
theorem mutateActions_eq_ok {actions result : List Action} :
    mutateActions ownership source direction bit actionId actions = .ok result ↔
      ∃ before action after, actions = before ++ action :: after ∧
        (∀ a ∈ before, Passed ownership source direction bit actionId a) ∧
        Chosen ownership source direction bit actionId action ∧
        (action.flipped bit).validate = .ok () ∧ result = before ++ action.flipped bit :: after := by
  induction actions generalizing result with
  | nil =>
    constructor
    · intro h
      cases h
    · rintro ⟨before, action, after, h, -⟩
      exact absurd h.symm (append_ne_nil_of_right_ne_nil before (cons_ne_nil action after))
  | cons action actions ih =>
    -- the rest is searched when this one is passed
    have hpass : Passed ownership source direction bit actionId action →
        ((mutateActions ownership source direction bit actionId actions >>= fun actions =>
          (pure (action :: actions) : Except Exn (List Action))) = .ok result ↔
        ∃ before action' after, action :: actions = before ++ action' :: after ∧
          (∀ a ∈ before, Passed ownership source direction bit actionId a) ∧
          Chosen ownership source direction bit actionId action' ∧
          (action'.flipped bit).validate = .ok () ∧ result = before ++ action'.flipped bit :: after) := by
      intro hpassed
      rw [bind_ok]
      simp only [ih]
      constructor
      · rintro ⟨_, ⟨before, action', after, rfl, hbefore, hchosen, hvalid, rfl⟩, h⟩
        exact ⟨action :: before, action', after, rfl, forall_mem_cons.2 ⟨hpassed, hbefore⟩,
          hchosen, hvalid, (Except.ok.inj h).symm⟩
      · rintro ⟨before, action', after, hsplit, hbefore, hchosen, hvalid, rfl⟩
        cases before with
        | nil =>
          cases hsplit
          exact absurd hpassed hchosen.not_passed
        | cons first before =>
          cases hsplit
          exact ⟨_, ⟨before, action', after, rfl, (forall_mem_cons.1 hbefore).2, hchosen, hvalid,
            rfl⟩, rfl⟩
    rw [mutateActions]
    by_cases hnamed : Named actionId action
    · have hnot : ¬ ∃ id ∈ actionId, action.actionId ≠ id := by
        rintro ⟨id, hid, hne⟩
        exact hne (hnamed id hid)
      rw [if_neg hnot]
      cases hwidth : actionWidth ownership action with
      | error e =>
        constructor
        · intro h
          cases h
        · rintro ⟨before, action', after, hsplit, hbefore, hchosen, -⟩
          have hno : ∀ {width}, actionWidth ownership action ≠ .ok width := by
            intro width hok
            rw [hwidth] at hok
            cases hok
          cases before with
          | nil =>
            cases hsplit
            obtain ⟨-, width, hok, -⟩ := hchosen
            exact absurd hok hno
          | cons first before =>
            cases hsplit
            rcases hbefore action mem_cons_self with hunnamed | ⟨width, hok, -⟩
            · exact absurd hnamed hunnamed
            · exact absurd hok hno
      | ok width =>
        rw [ok_bind]
        by_cases hdrives : action.Drives source direction bit width
        · rw [if_pos hdrives, bind_ok]
          constructor
          · rintro ⟨_, hvalid, h⟩
            exact ⟨[], action, actions, rfl, forall_mem_nil _,
              ⟨hnamed, width, hwidth, hdrives⟩, hvalid, (Except.ok.inj h).symm⟩
          · rintro ⟨before, action', after, hsplit, hbefore, hchosen, hvalid, rfl⟩
            cases before with
            | nil =>
              cases hsplit
              exact ⟨(), hvalid, rfl⟩
            | cons first before =>
              cases hsplit
              have hthis : Chosen ownership source direction bit actionId action :=
                ⟨hnamed, width, hwidth, hdrives⟩
              exact absurd (hbefore action (.head _)) hthis.not_passed
        · rw [if_neg hdrives]
          exact hpass (.inr ⟨width, hwidth, hdrives⟩)
    · have hother : ∃ id ∈ actionId, action.actionId ≠ id := by
        by_contra hall
        refine hnamed fun id hid => ?_
        by_contra hne
        exact hall ⟨id, hid, hne⟩
      rw [if_pos hother]
      exact hpass (.inl hnamed)

end Actions

/-! ## The checks of a call -/

section Calls

variable {graph : DependencyGraph} {ownership : OwnershipMap} {genome result : ScenarioGenome}
  {plan : MutationPlan} {source : FuzzableSource} {bit bitIndex : ℤ} {actionId : Option String}
  {compiled : Bool} {target : Option MutationTarget} {authorization : Option MutationAuthorization}

/-- What a plan must meet; a compiled one has met the first and the third before. -/
theorem checkPlan_eq_ok : checkPlan graph genome plan compiled = .ok () ↔
    (compiled = false → plan.path.edges ≠ [] →
      ∃ document, graph.authenticate plan.path plan.direction = .ok document) ∧
    (genome.direction = plan.direction ∧ plan.target = plan.path.target) ∧
    (compiled = false → plan.path.edges = [] →
      ∃ paths, graph.pathsTo plan.target plan.direction 16 64 = .ok paths ∧ plan.path ∈ paths) ∧
    plan.focusSource ∈ plan.path.sourceIds := by
  cases compiled with
  | true =>
    unfold checkPlan
    rw [if_neg (by simp), if_neg (by simp)]
    simp only [ensure_ok, ensure_eq_ok, Bool.true_eq_false, false_imp_iff, true_and]
  | false =>
    by_cases hedges : plan.path.edges = []
    · unfold checkPlan
      rw [if_neg (by simp [hedges]), if_pos ⟨rfl, hedges⟩]
      constructor
      · intro h
        obtain ⟨hgenome, h⟩ := ensure_ok.1 h
        obtain ⟨paths, hpaths, h⟩ := bind_ok.1 h
        obtain ⟨hmem, h⟩ := ensure_ok.1 h
        exact ⟨fun _ hne => absurd hedges hne, hgenome, fun _ _ => ⟨paths, hpaths, hmem⟩, ensure_eq_ok.1 h⟩
      · rintro ⟨-, hgenome, hpath, hfocus⟩
        obtain ⟨paths, hpaths, hmem⟩ := hpath rfl hedges
        exact ensure_ok.2 ⟨hgenome, bind_ok.2 ⟨paths, hpaths,
          ensure_ok.2 ⟨hmem, ensure_eq_ok.2 hfocus⟩⟩⟩
    · unfold checkPlan
      rw [if_pos ⟨rfl, hedges⟩, if_neg (by simp [hedges])]
      constructor
      · intro h
        obtain ⟨document, hdocument, h⟩ := bind_ok.1 h
        obtain ⟨hgenome, h⟩ := ensure_ok.1 h
        exact ⟨fun _ _ => ⟨document, hdocument⟩, hgenome, fun _ hnil => absurd hnil hedges, ensure_eq_ok.1 h⟩
      · rintro ⟨hproof, hgenome, -, hfocus⟩
        obtain ⟨document, hdocument⟩ := hproof rfl hedges
        exact bind_ok.2 ⟨document, hdocument, ensure_ok.2 ⟨hgenome, ensure_eq_ok.2 hfocus⟩⟩

/-- A genome that is checked before it is handed over. -/
theorem validated_eq_ok {g : ScenarioGenome} :
    (g.validate >>= fun _ => pure g) = Except.ok result ↔ g.validate = .ok () ∧ result = g := by
  rw [bind_ok]
  constructor
  · rintro ⟨_, hvalid, h⟩
    exact ⟨hvalid, (Except.ok.inj h).symm⟩
  · rintro ⟨hvalid, rfl⟩
    exact ⟨(), hvalid, rfl⟩

/-- What writing a bit of an image asks for, and what it writes. -/
theorem writeBit_image_eq_ok (hkind : source.kind = .memoryImage) :
    writeBit ownership genome plan source bit actionId compiled = .ok result ↔ ∃ images,
      mutateImages source bit.toNat genome.initialImages = .ok images ∧
      ({ genome with initialImages := images } : ScenarioGenome).validate = .ok () ∧
      result = { genome with initialImages := images } := by
  unfold writeBit
  rw [hkind]
  exact bind_ok.trans (exists_congr fun images => and_congr_right fun _ => validated_eq_ok)

/-- What writing a bit of an action asks for, and what it writes. -/
theorem writeBit_source_eq_ok (hkind : source.kind = .source) :
    writeBit ownership genome plan source bit actionId compiled = .ok result ↔
      (compiled = false → ∃ owner, ownership.mutationSource source.component source.port
        source.bitOffset source.width = .ok owner) ∧ ∃ actions,
      mutateActions ownership source plan.direction bit actionId genome.actions = .ok actions ∧
      ({ genome with actions := actions } : ScenarioGenome).validate = .ok () ∧
      result = { genome with actions := actions } := by
  have hwrite : (mutateActions ownership source plan.direction bit actionId genome.actions >>= fun actions =>
      ({ genome with actions := actions } : ScenarioGenome).validate >>= fun _ =>
        pure { genome with actions := actions }) = Except.ok result ↔ ∃ actions,
      mutateActions ownership source plan.direction bit actionId genome.actions = .ok actions ∧
      ({ genome with actions := actions } : ScenarioGenome).validate = .ok () ∧
      result = { genome with actions := actions } :=
    bind_ok.trans (exists_congr fun actions => and_congr_right fun _ => validated_eq_ok)
  unfold writeBit
  rw [hkind, ← hwrite]
  cases compiled with
  | true =>
    refine Iff.trans ?_ (and_iff_right fun h => absurd h Bool.false_ne_true.symm).symm
    exact Iff.rfl
  | false =>
    rw [if_pos rfl, bind_ok]
    constructor
    · rintro ⟨owner, howner, h⟩
      exact ⟨fun _ => ⟨owner, howner⟩, h⟩
    · rintro ⟨howner, h⟩
      obtain ⟨owner, howner⟩ := howner rfl
      exact ⟨owner, howner, h⟩

/-- The action a target names, or the one that was asked for. -/
def namedAction (target : MutationTarget) (actionId : Option String) : Option String :=
  if target.kind = .genomeAction ∧ target.identifier ≠ "" then some target.identifier else actionId

/-- The checks of a call that are about its plan, its source and its bit; no value of the genome is
read. -/
structure Focus (graph : DependencyGraph) (plan : MutationPlan) (bitIndex : ℤ) (actionId : Option String)
    (target : Option MutationTarget) (authorization : Option MutationAuthorization)
    (source : FuzzableSource) : Prop where
  target_genome : ∀ t ∈ target, ¬ t.kind.IsRuntime
  authorized : ∀ a ∈ authorization, a.plan = plan
  source_eq : graph.sources.get? plan.focusSource = some source
  target_source : checkTarget source actionId (target.getD (defaultTarget source actionId)) = .ok ()
  bit : 0 ≤ bitIndex ∧ bitIndex < source.width
  owners : authorization.isSome = true ∨ bitOwners graph source (source.bitOffset + bitIndex) = 1

/-- **What a call asks for, and what it returns.** -/
theorem mutateGenome_eq_ok :
    mutateGenome graph ownership genome plan bitIndex actionId target authorization = .ok result ↔
      checkPlan graph genome plan authorization.isSome = .ok () ∧
      ∃ source, Focus graph plan bitIndex actionId target authorization source ∧
        writeBit ownership genome plan source (source.bitOffset + bitIndex)
          (namedAction (target.getD (defaultTarget source actionId)) actionId) authorization.isSome
          = .ok result := by
  unfold mutateGenome
  rw [ensure_ok, ensure_ok, bind_ok]
  constructor
  · rintro ⟨htarget, hauthorized, _, hplan, h⟩
    cases hsource : graph.sources.get? plan.focusSource with
    | none => rw [hsource] at h; cases h
    | some source =>
      rw [hsource] at h
      obtain ⟨_, hcheck, h⟩ := bind_ok.1 h
      obtain ⟨hbit, howners, h⟩ := ensure_ok₂ h
      exact ⟨hplan, source, ⟨htarget, hauthorized, hsource, hcheck, hbit, howners⟩, h⟩
  · rintro ⟨hplan, source, hfocus, h⟩
    refine ⟨hfocus.target_genome, hfocus.authorized, (), hplan, ?_⟩
    rw [hfocus.source_eq]
    exact bind_ok.2 ⟨(), hfocus.target_source, ensure_ok.2 ⟨hfocus.bit,
      ensure_ok.2 ⟨hfocus.owners, h⟩⟩⟩

/-! ## One bit, and back -/

/-- Two genomes differ in one bit of the port of a source: that of an action's value, at its place in the
port, or that of an image. -/
inductive OneBitApart (source : FuzzableSource) (direction : Direction) (bit : ℤ)
    (g g' : ScenarioGenome) : Prop
  | action (before after : List Action) (a a' : Action) (kind : source.kind = .source)
      (actions : g.actions = before ++ a :: after) (others : g' = { g with actions := before ++ a' :: after })
      (fields : a' = { a with value := a'.value })
      (drives : a.component = source.component ∧ a.port = source.port ∧ a.direction = direction)
      (inside : 0 ≤ a.bitOffset ∧ a.bitOffset ≤ bit)
      (bits : ∀ i : ℕ, a'.value.testBit i = (a.value.testBit i ^^ decide (a.bitOffset + i = bit)))
  | image (before after : List MemoryImage) (m m' : MemoryImage) (kind : source.kind = .memoryImage)
      (images : g.initialImages = before ++ m :: after)
      (others : g' = { g with initialImages := before ++ m' :: after })
      (fields : m' = { m with dataHex := m'.dataHex }) (names : source.Names m)
      (length : m'.data.length = m.data.length) (inside : 0 ≤ bit ∧ bit < m.data.length * 8)
      (bits : ∀ i : ℕ, dataBit m'.data i = (dataBit m.data i ^^ decide ((i : ℤ) = bit)))

/-- A bit of a source of a graph is at a place of its port. -/
theorem Focus.range (h : Focus graph plan bitIndex actionId target authorization source) :
    0 ≤ source.bitOffset + bitIndex ∧ source.bitOffset + bitIndex < source.bitOffset + source.width := by
  have hvalid := graph.sources_valid _ _ h.source_eq
  unfold FuzzableSource.Valid FuzzableSource.validate at hvalid
  have hoffset : 0 ≤ source.bitOffset := by
    cases hkind : source.kind <;> rw [hkind] at hvalid
    all_goals
      obtain ⟨-, -, hvalid⟩ := ensure_ok₂ hvalid
      exact (ensure_ok.1 hvalid).1.1
  have hbit := h.bit
  omega

theorem bitOffset_nonneg {a : Action} (h : a.Valid) : 0 ≤ a.bitOffset := by
  obtain ⟨-, h⟩ := h
  obtain ⟨-, h⟩ := ensure_ok.1 h
  obtain ⟨_, -, _, -, _, hoffset, -⟩ := bind_ok₃ h
  exact genomeNatural_eq_ok.1 hoffset

/-- **A mutation flips one bit of the source it focuses on.** -/
theorem oneBitApart_of_mutateGenome (hgenome : genome.Valid)
    (h : mutateGenome graph ownership genome plan bitIndex actionId target authorization = .ok result) :
    ∃ source, graph.sources.get? plan.focusSource = some source ∧
      OneBitApart source plan.direction (source.bitOffset + bitIndex) genome result := by
  obtain ⟨-, source, hfocus, h⟩ := mutateGenome_eq_ok.1 h
  refine ⟨source, hfocus.source_eq, ?_⟩
  have hrange := hfocus.range
  cases hkind : source.kind with
  | memoryImage =>
    obtain ⟨_, himages, -, rfl⟩ := (writeBit_image_eq_ok hkind).1 h
    obtain ⟨before, m, after, hsplit, -, hnames, hfits, -, rfl⟩ := mutateImages_eq_ok.1 himages
    have hvalid : m.Valid := hgenome.images m (by rw [hsplit]; simp)
    refine .image before after m (m.flipped (source.bitOffset + bitIndex).toNat) hkind hsplit rfl rfl
      hnames ?_ (by omega) fun i => ?_
    · rw [data_flipped hvalid, length_flipByte]
    · rw [data_flipped hvalid, dataBit_flipByte (by omega)]
      congr 1
      exact decide_eq_decide.2 (by omega)
  | source =>
    obtain ⟨-, _, hactions, -, rfl⟩ := (writeBit_source_eq_ok hkind).1 h
    obtain ⟨before, a, after, hsplit, -, ⟨-, width, -, hdrives⟩, -, rfl⟩ := mutateActions_eq_ok.1 hactions
    have hoffset := bitOffset_nonneg (hgenome.actions a (by rw [hsplit]; simp))
    obtain ⟨hcomponent, hport, hdirection, hle, -⟩ := hdrives
    refine .action before after a (a.flipped (source.bitOffset + bitIndex)) hkind hsplit rfl rfl
      ⟨hcomponent, hport, hdirection⟩ ⟨hoffset, hle⟩ fun i => ?_
    refine (testBit_flipBit a.value _ i).trans ?_
    congr 1
    exact decide_eq_decide.2 (by omega)

/-- **The same call flips the bit back.** -/
theorem mutateGenome_back (hgenome : genome.Valid)
    (h : mutateGenome graph ownership genome plan bitIndex actionId target authorization = .ok result) :
    mutateGenome graph ownership result plan bitIndex actionId target authorization = .ok genome := by
  obtain ⟨hplan, source, hfocus, h⟩ := mutateGenome_eq_ok.1 h
  refine mutateGenome_eq_ok.2 ⟨?_, source, hfocus, ?_⟩
  · have hdirection : result.direction = genome.direction := by
      cases hkind : source.kind with
      | memoryImage =>
        obtain ⟨_, -, -, rfl⟩ := (writeBit_image_eq_ok hkind).1 h
        rfl
      | source =>
        obtain ⟨-, _, -, -, rfl⟩ := (writeBit_source_eq_ok hkind).1 h
        rfl
    rw [checkPlan_eq_ok] at hplan ⊢
    rwa [hdirection]
  · cases hkind : source.kind with
    | memoryImage =>
      rw [writeBit_image_eq_ok hkind] at h ⊢
      obtain ⟨_, himages, -, rfl⟩ := h
      obtain ⟨before, m, after, hsplit, hbefore, hnames, hfits, -, rfl⟩ := mutateImages_eq_ok.1 himages
      have hvalid : m.Valid := hgenome.images m (by rw [hsplit]; simp)
      have hback := flipped_flipped hvalid (source.bitOffset + bitIndex).toNat
      have hsame : ({ genome with initialImages := before ++ m :: after } : ScenarioGenome) = genome := by
        rw [← hsplit]
      refine ⟨before ++ m :: after, mutateImages_eq_ok.2 ⟨before, _, after, rfl, hbefore, hnames, ?_,
        ?_, ?_⟩, ?_, ?_⟩
      · rw [data_flipped hvalid, length_flipByte]
        exact hfits
      · rw [hback]
        exact hvalid
      · rw [hback]
      · exact (congrArg ScenarioGenome.validate hsame).trans hgenome.genome
      · exact hsame.symm
    | source =>
      rw [writeBit_source_eq_ok hkind] at h ⊢
      obtain ⟨howner, _, hactions, -, rfl⟩ := h
      obtain ⟨before, a, after, hsplit, hbefore, hchosen, -, rfl⟩ := mutateActions_eq_ok.1 hactions
      have hvalid : a.Valid := hgenome.actions a (by rw [hsplit]; simp)
      have hback := Action.flipped_flipped a (source.bitOffset + bitIndex)
      have hsame : ({ genome with actions := before ++ a :: after } : ScenarioGenome) = genome := by
        rw [← hsplit]
      refine ⟨howner, before ++ a :: after, mutateActions_eq_ok.2 ⟨before, _, after, rfl, hbefore,
        hchosen, ?_, ?_⟩, ?_, ?_⟩
      · rw [hback]
        exact hvalid.2
      · rw [hback]
      · exact (congrArg ScenarioGenome.validate hsame).trans hgenome.genome
      · exact hsame.symm

end Calls

end MyFuzz
