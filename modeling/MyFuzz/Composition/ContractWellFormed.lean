import MyFuzz.Composition.ContractPlan

/-!
# Composition/ContractWellFormed — what a compiled plan promises

Compilation checks windows one by one and compares neighbours in their order.  Because the windows are
sorted by their bases, that is enough for all of them to lie apart:

    v₀ ends before v₁,  v₁ ends before v₂, …   ⟹   every window ends before every later one
-/

namespace MyFuzz

namespace Contract

open Outcome List

/-! ## Windows -/

/-- A window of a plan: beat-aligned, not empty, inside the address space. -/
structure WindowOk (addressWidth byteCount : ℕ) (w : MemoryWindow) : Prop where
  base_dvd : byteCount ∣ w.base
  size_dvd : byteCount ∣ w.size
  size_pos : 0 < w.size
  inside : w.base + w.size ≤ 2 ^ addressWidth

variable {addressWidth dataWidth : ℕ} {w : MemoryWindow} {ws : List MemoryWindow}
  {images : List (String × List ℕ)} {plan : ContractTransducerPlan}

theorem windowOk_of_normalizeWindow {byteCount : ℕ} {raw : RawWindow}
    (h : normalizeWindow addressWidth byteCount raw = .ok w) :
    WindowOk addressWidth byteCount w := by
  obtain ⟨-, ⟨hbase, hsize, hinside⟩, ⟨hbaseDvd, hsizeDvd⟩, h⟩ := ensure_ok₃ h
  split at h
  · cases h
  · obtain ⟨-, h⟩ := ensure_ok.1 h
    obtain ⟨policy, -, h⟩ := bind_ok.1 h
    obtain ⟨-, h⟩ := ensure_ok.1 h
    cases h
    refine ⟨Nat.dvd_of_mod_eq_zero hbaseDvd, Nat.dvd_of_mod_eq_zero hsizeDvd, ?_, ?_⟩
    · dsimp only
      omega
    · zify
      rw [Int.toNat_of_nonneg hbase, Int.toNat_of_nonneg hsize.le]
      exact_mod_cast hinside

/-- Neighbours that lie apart lie apart from all that follow. -/
theorem pairwise_of_neighbours
    (h : ∀ pair ∈ ws.zip ws.tail, pair.1.base + pair.1.size ≤ pair.2.base) :
    ws.Pairwise fun v w => v.base + v.size ≤ w.base := by
  induction ws with
  | nil => exact .nil
  | cons v ws ih =>
    cases ws with
    | nil => exact pairwise_singleton _ _
    | cons w ws =>
      rw [tail_cons, zip_cons_cons, forall_mem_cons] at h
      have hrest := ih h.2
      refine pairwise_cons.2 ⟨forall_mem_cons.2 ⟨h.1, fun u hu => ?_⟩, hrest⟩
      have hwu := (pairwise_cons.1 hrest).1 u hu
      have hvw : v.base + v.size ≤ w.base := h.1
      omega

/-- Windows of one physical memory have one size and one policy. -/
def OnePhysical (ws : List MemoryWindow) : Prop :=
  ∀ v ∈ ws, ∀ w ∈ ws, v.physicalMemoryId = w.physicalMemoryId →
    v.size = w.size ∧ v.initializationPolicy = w.initializationPolicy

theorem onePhysical_of_checkPhysical {physical final : Dict String (ℕ × InitializationPolicy)}
    (h : ws.foldlM checkPhysical physical = .ok final) :
    (∀ k v, physical.get? k = some v → final.get? k = some v) ∧
      ∀ w ∈ ws, final.get? w.physicalMemoryId = some (w.size, w.initializationPolicy) := by
  induction ws generalizing physical with
  | nil =>
    cases h
    exact ⟨fun _ _ hk => hk, nofun⟩
  | cons w ws ih =>
    rw [foldlM_cons] at h
    obtain ⟨next, hnext, hrest⟩ := bind_ok.1 h
    obtain ⟨hkept, hall⟩ := ih hrest
    unfold checkPhysical at hnext
    split_ifs at hnext with hconflict
    cases hnext
    have hw := hkept w.physicalMemoryId _ (Dict.get?_set_self ..)
    refine ⟨fun k v hk => ?_, forall_mem_cons.2 ⟨hw, hall⟩⟩
    by_cases hkw : k = w.physicalMemoryId
    · subst hkw
      by_contra hne
      refine hconflict ⟨v, hk, fun heq => hne ?_⟩
      rw [heq, hw]
    · exact hkept k v ((Dict.get?_set_of_ne _ hkw _).trans hk)

/-- **The windows of a plan.** -/
structure WindowsOk (addressWidth byteCount : ℕ) (mode : MemoryMode) (ws : List MemoryWindow) : Prop where
  each : ∀ w ∈ ws, WindowOk addressWidth byteCount w
  apart : ws.Pairwise fun v w => v.base + v.size ≤ w.base
  physical : OnePhysical ws
  mode_iff : mode = .declaredWindows ↔ ws ≠ []

theorem windowsOk_of_normalize {raws : List RawWindow} {mode : MemoryMode}
    (h : normalizeMemoryWindows raws addressWidth dataWidth mode = .ok ws) :
    WindowsOk addressWidth (dataWidth / 8) mode ws := by
  obtain ⟨records, hrecords, h⟩ := bind_ok.1 h
  obtain ⟨hapart, h⟩ := ensure_ok.1 h
  obtain ⟨final, hfinal, h⟩ := bind_ok.1 h
  obtain ⟨hdeclared, hspace, h⟩ := ensure_ok₂ h
  cases h
  obtain ⟨-, hall⟩ := onePhysical_of_checkPhysical hfinal
  refine ⟨fun w hw => ?_, pairwise_of_neighbours hapart, fun v hv w hw heq => ?_, hdeclared, fun hne => ?_⟩
  · obtain ⟨raw, -, hraw⟩ := mem_of_mapM_eq_ok hrecords (mem_insertionSort _ |>.mp hw)
    exact windowOk_of_normalizeWindow hraw
  · have hv := hall v hv
    rw [heq, hall w hw] at hv
    exact ⟨(congrArg Prod.fst (Option.some.inj hv)).symm, (congrArg Prod.snd (Option.some.inj hv)).symm⟩
  · by_contra hmode
    refine hne (hspace ?_)
    cases mode with
    | addressSpace => rfl
    | declaredWindows => exact absurd rfl hmode

/-! ## Images -/

/-- An image of a plan: bytes that fit a window that is loaded. -/
def ImageOk (ws : List MemoryWindow) (image : String × List ℕ) : Prop :=
  ∃ w ∈ ws, w.physicalMemoryId = image.1 ∧ w.initializationPolicy.loaded = true ∧
    image.2.length ≤ w.size ∧ ∀ byte ∈ image.2, byte < 256

theorem mem_physicalWindows {k : String} (h : (physicalWindows ws).get? k = some w) :
    w ∈ ws ∧ w.physicalMemoryId = k := by
  suffices hall : ∀ d : Dict String MemoryWindow,
      (d.update (ws.map fun w => (w.physicalMemoryId, w))).get? k = some w →
      d.get? k = some w ∨ w ∈ ws ∧ w.physicalMemoryId = k by
    exact (hall Dict.empty h).resolve_left fun hempty => by cases hempty
  clear h
  induction ws with
  | nil => exact fun d hd => .inl hd
  | cons v ws ih =>
    intro d hd
    rw [map_cons, Dict.update_cons] at hd
    rcases ih _ hd with hget | ⟨hmem, hid⟩
    · rw [Dict.get?_set] at hget
      split_ifs at hget with hk
      · cases hget
        exact .inr ⟨.head _, hk.symm⟩
      · exact .inl hget
    · exact .inr ⟨.tail _ hmem, hid⟩

theorem imageOk_of_normalizeImage {raw : String × List ℤ} {image : String × List ℕ}
    (h : normalizeImage (physicalWindows ws) raw = .ok image) :
    ImageOk ws image ∧ image.1 = raw.1 := by
  unfold normalizeImage at h
  split at h
  · cases h
  · rename_i w hw
    obtain ⟨hmem, hid⟩ := mem_physicalWindows hw
    obtain ⟨hloaded, hbytes, hlength, h⟩ := ensure_ok₃ h
    cases h
    refine ⟨⟨w, hmem, hid, hloaded, by rwa [length_map], ?_⟩, rfl⟩
    rw [forall_mem_map]
    intro value hvalue
    have := hbytes value hvalue
    omega

/-- Images keep their names. -/
theorem map_fst_of_normalizeImage {raws : List (String × List ℤ)}
    (h : List.Forall₂ (fun raw image => normalizeImage (physicalWindows ws) raw = .ok image) raws images) :
    images.map Prod.fst = raws.map Prod.fst := by
  induction h with
  | nil => rfl
  | cons hhead _ ih => rw [map_cons, map_cons, ih, (imageOk_of_normalizeImage hhead).2]

/-- **The images of a plan.** -/
structure ImagesOk (ws : List MemoryWindow) (byteCount capacity : ℕ) (images : List (String × List ℕ)) :
    Prop where
  each : ∀ image ∈ images, ImageOk ws image
  nodup : (images.map Prod.fst).Nodup
  fits : (images.map fun e => populatedBeats byteCount e.2).sum ≤ capacity

theorem imagesOk_of_normalize {raws : Dict String (List ℤ)} {capacity : ℕ}
    (h : normalizeMemoryImages raws ws dataWidth capacity = .ok images) :
    ImagesOk ws (dataWidth / 8) capacity images := by
  unfold normalizeMemoryImages at h
  dsimp only at h
  split at h
  · cases h
  · obtain ⟨normalized, hnormalized, h⟩ := bind_ok.1 h
    obtain ⟨hfits, h⟩ := ensure_ok.1 h
    cases h
    have hperm := perm_insertionSort (fun a b : String × List ℕ => a.1 ≤ b.1) normalized
    refine ⟨fun image himage => ?_, ?_, ?_⟩
    · obtain ⟨raw, -, hraw⟩ := mem_of_mapM_eq_ok hnormalized (hperm.mem_iff.1 himage)
      exact (imageOk_of_normalizeImage hraw).1
    · rw [(hperm.map Prod.fst).nodup_iff]
      rw [map_fst_of_normalizeImage (mapM_eq_ok.1 hnormalized)]
      exact raws.nodup
    · rwa [(hperm.map _).sum_eq]

/-! ## Plans -/

/-- **A plan that was compiled.** -/
structure WellFormed (plan : ContractTransducerPlan) : Prop where
  dataWidth_eq : plan.dataWidth = 32 ∨ plan.dataWidth = 64
  addressWidth_le : plan.addressWidth ≤ 64
  wait_pos : 0 < plan.maxWaitCycles
  windows : WindowsOk plan.addressWidth plan.byteCount plan.memoryMode plan.memoryWindows
  images : ImagesOk plan.memoryWindows plan.byteCount plan.memoryCapacityEntries plan.memoryImages
  layout : plan.cycleLayout = buildLayout plan.instruction.contract plan.dataWidth plan.externalInputs

/-- **Compilation gives a well-formed plan.** -/
theorem wellFormed_of_compile {r : ContractRequest} (h : compileContractTransducer r = .ok plan) :
    WellFormed plan := by
  obtain ⟨-, haddress, hdata, h⟩ := ensure_ok₃ h
  obtain ⟨-, -, -, h⟩ := ensure_ok₃ h
  obtain ⟨-, -, h⟩ := ensure_ok₂ h
  obtain ⟨windows, hwindows, images, himages, h⟩ := bind_ok₂ h
  split_ifs at h with hisa
  · obtain ⟨hwait, h⟩ := ensure_ok.1 h
    cases h
    refine ⟨?_, ?_, ?_, windowsOk_of_normalize hwindows, imagesOk_of_normalize himages, rfl⟩ <;>
      dsimp only <;> omega

theorem WellFormed.byteCount_eq (h : WellFormed plan) : plan.byteCount = 4 ∨ plan.byteCount = 8 := by
  unfold ContractTransducerPlan.byteCount
  rcases h.dataWidth_eq with hw | hw <;> rw [hw]
  · exact .inl rfl
  · exact .inr rfl

theorem WellFormed.dataWidth_eq_mul (h : WellFormed plan) : plan.dataWidth = 8 * plan.byteCount := by
  unfold ContractTransducerPlan.byteCount
  rcases h.dataWidth_eq with hw | hw <;> rw [hw]

end Contract

end MyFuzz
