import MyFuzz.Composition.RuntimeLaw

/-!
# Composition/RuntimeReach — which legal values are reached

The slice of a field is masked before it selects a candidate, so a table is read at the remainders of masked
sources only:

    source ──mask──▸ source &&& mask ──% candidates.length──▸ position in the table

A legal value is reached when its position is one of them and its gate can open; a field without a
table reaches every legal value by the value itself.
-/

namespace MyFuzz

namespace Composition

open BitField Outcome LayoutField List

namespace LayoutField

variable {field : LayoutField} {alignment mask : ℕ} {low high : ℤ}

theorem declared_alignment (h : field.readAlignment = .ok alignment) :
    alignment = 1 ∨ field.constraint.get? "alignment" = some (.int alignment) := by
  unfold readAlignment at h
  rw [Dict.getD] at h
  cases hget : field.constraint.get? "alignment" with
  | none =>
    rw [hget] at h
    simp only [Option.getD_none] at h
    split_ifs at h
    cases h
    exact .inl rfl
  | some value =>
    rw [hget] at h
    cases value with
    | int n =>
      simp only [Option.getD_some] at h
      split_ifs at h with hn
      cases h
      rw [Int.toNat_of_nonneg hn.1.le]
      exact .inr rfl
    | _ => cases h

theorem declared_mask (h : field.readMask = .ok (some mask)) :
    field.constraint.get? "mask" = some (.int mask) := by
  unfold readMask at h
  cases hvalue : field.constraint.getD "mask" .none with
  | int n =>
    rw [hvalue] at h
    simp only at h
    split_ifs at h with hn
    cases h
    rw [Int.toNat_of_nonneg hn.1]
    exact get?_of_getD (fun h => by cases h) hvalue
  | _ => rw [hvalue] at h; cases h

theorem declared_range (h : field.readRange alignment = .ok (some (low, high))) :
    field.constraint.get? "range" = some (.sequence [some low, some high]) := by
  unfold readRange at h
  split at h
  · cases h
  · rename_i hvalue
    split_ifs at h
    cases h
    exact get?_of_getD (fun h => by cases h) hvalue
  · cases h

end LayoutField

namespace RuntimeField

variable {fields : List LayoutField} {isa : Option IsaContract} {f : RuntimeField} {value : ℕ}
  {transducer : Option RiscvInstructionTransducer}

/-- **The constraint of a field is a declared one.** -/
structure Declares (f : RuntimeField) : Prop where
  alignment : f.constraint.alignment = 1 ∨
    f.field.constraint.get? "alignment" = some (.int f.constraint.alignment)
  mask : ∀ mask, f.constraint.mask = some mask → f.field.constraint.get? "mask" = some (.int mask)
  range : ∀ low high, f.constraint.bounds = some (low, high) →
    f.field.constraint.get? "range" = some (.sequence [some low, some high])

/-- A field has a table of candidates. -/
abbrev HasTable (f : RuntimeField) : Prop :=
  f.constraint.enum.isSome ∨ f.constraint.bounds.isSome ∧ f.constraint.mask.isSome

/-- **What satisfies the declared constraints can be selected.** -/
theorem selectable_of_satisfies (hf : f.Checked fields isa) (hd : f.Declares) (hpos : 0 < f.field.width)
    (hvalue : value < 2 ^ f.field.width) (h : f.Satisfies transducer value) :
    f.Selectable (f.number value) := by
  refine ⟨⟨number_mem hpos hvalue, ?_, fun b hb => h.range _ _ (hd.range _ _ hb), fun m hm => ?_⟩,
    fun _ e he => ?_⟩
  · rcases hd.alignment with hone | hget
    · rw [hone]
      exact one_dvd _
    · exact h.aligned _ hget
  · rw [Checked.bits_number hvalue]
    exact clear_eq_zero_iff_and.2 (h.masked _ (hd.mask m hm))
  · obtain ⟨items, hget, hitems⟩ := hf.declaresEnum e he
    exact (mem_integers hitems).2 (h.enum items hget)

section

variable (hf : f.Checked fields isa) (hpos : 0 < f.field.width)

include hf hpos

/-- A table has no more values than the field. -/
theorem length_candidates_le (htable : f.HasTable) :
    f.candidates.length ≤ 2 ^ f.field.width := by
  have hcandidates := (hf.candidates htable).2
  have hinj : (f.candidates.map f.field.bits).Nodup := by
    refine hf.nodup_candidates.map_on fun a ha b hb heq => ?_
    obtain ⟨⟨hmin, hmax⟩, -⟩ := hcandidates a ha
    obtain ⟨⟨hmin', hmax'⟩, -⟩ := hcandidates b hb
    rw [← number_bits hpos hmin hmax, heq, number_bits hpos hmin' hmax']
  have hsub : f.candidates.map f.field.bits ⊆ List.range (2 ^ f.field.width) := by
    intro n hn
    obtain ⟨value, -, rfl⟩ := mem_map.1 hn
    exact mem_range.2 (bits_lt value)
  have hle := (subperm_of_subset hinj hsub).length_le
  rwa [length_map, length_range] at hle

/-- **A table is read at a position.** -/
theorem select_eq_iff (htable : f.HasTable)
    (hvalue : value < 2 ^ f.field.width) (source : ℕ) :
    f.select source = value ↔
      f.masked source % f.candidates.length = f.candidates.idxOf (f.number value) := by
  obtain ⟨hne, hcandidates⟩ := hf.candidates htable
  have hlt : f.masked source % f.candidates.length < f.candidates.length :=
    Nat.mod_lt _ (length_pos_iff.2 hne)
  rw [select, if_pos htable, candidate, getElem?_eq_getElem hlt, Option.getD_some]
  constructor
  · intro h
    obtain ⟨⟨hmin, hmax⟩, -⟩ := hcandidates _ (getElem_mem hlt)
    rw [← h, number_bits hpos hmin hmax, hf.nodup_candidates.idxOf_getElem]
  · intro h
    have hget : f.candidates[f.masked source % f.candidates.length] = f.number value := by
      simp only [h, getElem_idxOf]
    rw [hget, Checked.bits_number hvalue]

/-- A field without a table selects a legal value by itself. -/
theorem select_self (htable : ¬ f.HasTable)
    (hvalue : value < 2 ^ f.field.width) (h : f.Candidate (f.number value)) : f.select value = value := by
  have hmasked := Checked.masked_bits h
  have halign := hf.align_candidate hpos h
  rw [Checked.bits_number hvalue] at hmasked halign
  rw [select, if_neg htable, hmasked, halign, Checked.bits_number hvalue]

end

end RuntimeField

namespace RuntimeProjector

variable {p : RuntimeProjector} {isa : Option IsaContract} {f : RuntimeField}

/-- **Every legal value of a field of bits is reached**, with its gate open. -/
def ReachesLegal (p : RuntimeProjector) : Prop :=
  ∀ f ∈ p.fields, f.field.encoding = "bits" → ∀ value < 2 ^ f.field.width,
    f.Satisfies p.transducer value → ∃ raw : ℕ, raw < 2 ^ p.rawWidth ∧ ∃ result,
      p.project raw = .ok result ∧ f.slice result = value ∧ p.Active result f

/-- **The masks leave the tables readable**: where there is a legal value, the gate can open, and a
mask beside a table has a source whose remainder is the position of the value. -/
def SpreadsTables (p : RuntimeProjector) : Prop :=
  ∀ f ∈ p.fields, f.field.encoding = "bits" → ∀ value < 2 ^ f.field.width,
    f.Satisfies p.transducer value → p.CanOpen f ∧
      ∀ mask, f.constraint.mask = some mask → f.HasTable → ∃ source < 2 ^ f.field.width,
        (source &&& mask) % f.candidates.length = f.candidates.idxOf (f.number value)

theorem declares_of_new {layout : InputLayout} {requireCompilerProvenance : Bool}
    (h : RuntimeProjector.new layout isa requireCompilerProvenance = .ok p) (hf : f ∈ p.fields) :
      f.Declares := by
  obtain ⟨-, h⟩ := ensure_ok.1 h
  obtain ⟨_, -, h⟩ := bind_ok.1 h
  obtain ⟨-, h⟩ := ensure_ok.1 h
  obtain ⟨fields, hfields, _, -, h⟩ := bind_ok₂ h
  cases h
  obtain ⟨field, -, hcheck⟩ := mem_of_mapM_eq_ok hfields hf
  obtain ⟨rfl, -, halignment, hmask, hbounds, -⟩ := reads_of_check hcheck
  exact ⟨declared_alignment halignment,
    fun m hm => declared_mask (hm ▸ hmask),
    fun low high hb => declared_range (hb ▸ hbounds)⟩

/-- What an active field of bits holds is what its slice selects. -/
theorem Accepted.slice_of_active (hp : p.Accepted isa) (hf : f ∈ p.fields) (hbits : f.field.encoding = "bits")
    {raw : ℕ} (h : p.Active (p.projected raw) f) : f.slice (p.projected raw) = f.select (f.slice raw) := by
  have hencoding : f.field.encoding ≠ "riscv_imc" := by
    rw [hbits]
    decide
  rw [hp.slice_projected hf, (hp.final_of_active hf h).1, (hp.value_eq hf raw).2.2.2 hencoding]

/-- **Every legal value is reached exactly when the masks leave the tables readable.** -/
theorem reachesLegal_iff {layout : InputLayout} {requireCompilerProvenance : Bool}
    (h : RuntimeProjector.new layout isa requireCompilerProvenance = .ok p) :
    p.ReachesLegal ↔ p.SpreadsTables := by
  obtain ⟨hp, -, -⟩ := accepted h
  have hselectable : ∀ f ∈ p.fields, ∀ value < 2 ^ f.field.width, f.Satisfies p.transducer value →
      f.Selectable (f.number value) := fun f hf value hvalue hlegal =>
    RuntimeField.selectable_of_satisfies (hp.checked f hf) (declares_of_new h hf)
      (hp.width_pos f hf) hvalue hlegal
  constructor
  · intro hreach f hf hbits value hvalue hlegal
    obtain ⟨raw, hraw, result, hproject, hslice, hactive⟩ := hreach f hf hbits value hvalue hlegal
    obtain rfl := Except.ok.inj ((hp.project_eq hraw).symm.trans hproject)
    refine ⟨(hp.final_of_active hf hactive).2, fun mask hmask htable =>
      ⟨f.slice raw, readSegment_lt _ _ _, ?_⟩⟩
    rw [hp.slice_of_active hf hbits hactive,
      RuntimeField.select_eq_iff (hp.checked f hf) (hp.width_pos f hf) htable hvalue] at hslice
    rwa [RuntimeField.masked, hmask] at hslice
  · intro hspread f hf hbits value hvalue hlegal
    obtain ⟨hopen, hmasked⟩ := hspread f hf hbits value hvalue hlegal
    have hchecked := hp.checked f hf
    have hpos := hp.width_pos f hf
    have hvalid := hselectable f hf value hvalue hlegal
    obtain ⟨source, hsource, hselect⟩ : ∃ source < 2 ^ f.field.width, f.select source = value := by
      by_cases htable : f.HasTable
      · have hmem := hchecked.mem_candidates htable hvalid
        simp only [RuntimeField.select_eq_iff hchecked hpos htable hvalue, RuntimeField.masked]
        cases hmask : f.constraint.mask with
        | some mask => exact hmasked mask hmask htable
        | none =>
          -- without a mask the position itself is a source
          have hlt := List.idxOf_lt_length_of_mem hmem
          exact ⟨_, hlt.trans_le (RuntimeField.length_candidates_le hchecked hpos htable),
            Nat.mod_eq_of_lt hlt⟩
      · exact ⟨value, hvalue, RuntimeField.select_self hchecked hpos htable hvalue hvalid.1⟩
    obtain ⟨raw, hraw, hslice, hactive⟩ := hp.exists_active hf hopen hsource
    exact ⟨raw, hraw, _, hp.project_eq hraw,
      by rw [hp.slice_of_active hf hbits hactive, hslice, hselect], hactive⟩

/-- Modes under a mask. -/
def maskedModes (modes : List (Option ℤ)) (mask : ℤ) : Dict String ConstraintValue :=
  (Dict.empty.set "enum" (.sequence modes)).set "mask" (.int mask)

/-- A mask of both bits leaves two modes readable. -/
theorem freeModes_reached : ∃ p : RuntimeProjector,
    RuntimeProjector.new ⟨2, [modeField (maskedModes [some 1, some 2] 3)]⟩ none false = .ok p ∧
      p.ReachesLegal := by
  have hnew : RuntimeProjector.new ⟨2, [modeField (maskedModes [some 1, some 2] 3)]⟩ none false =
      .ok ⟨2, [⟨modeField (maskedModes [some 1, some 2] 3), ⟨1, some 3, none, some [1, 2], none⟩,
        [1, 2]⟩], none⟩ :=
    rfl
  refine ⟨_, hnew, (reachesLegal_iff hnew).mpr ?_⟩
  intro f hf _ value hvalue hlegal
  obtain rfl := List.mem_singleton.mp hf
  refine ⟨fun _ h => (by cases h), fun mask hmask _ => ?_⟩
  cases hmask
  have hin := hlegal.enum _ rfl
  change value < 4 at hvalue
  revert hin
  interval_cases value <;> decide

/-- **Of the modes 0 and 2 under the mask 2, no raw sample reaches 2.** -/
theorem masked_mode_unreached : ∃ p : RuntimeProjector,
    RuntimeProjector.new ⟨2, [modeField (maskedModes [some 0, some 2] 2)]⟩ none false = .ok p ∧
      ¬ p.ReachesLegal := by
  refine ⟨⟨2, [⟨modeField (maskedModes [some 0, some 2] 2), ⟨1, some 2, none, some [0, 2], none⟩,
    [0, 2]⟩], none⟩,
    rfl, fun hreach => ?_⟩
  obtain ⟨raw, hraw, result, hproject, hslice, -⟩ := hreach _ (.head _) rfl 2 (by decide)
    ⟨fun _ _ h => (by cases h), fun _ h => (by cases h), fun items h => by cases h; decide,
      fun n h => by cases h; decide, fun h => absurd h (by decide)⟩
  change raw < 4 at hraw
  have hzero : ∀ raw : ℕ, raw < 4 →
    (⟨2, [⟨modeField (maskedModes [some 0, some 2] 2), ⟨1, some 2, none, some [0, 2], none⟩,
      [0, 2]⟩], none⟩ : RuntimeProjector).project raw = .ok 0 := by decide
  obtain rfl := Except.ok.inj ((hzero raw hraw).symm.trans hproject)
  revert hslice
  decide

end RuntimeProjector

end Composition

end MyFuzz
