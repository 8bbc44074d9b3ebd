import MyFuzz.Composition.ContractRuntime
import MyFuzz.Composition.ContractWellFormed
import MyFuzz.Isa.Repair

/-!
# Composition/InstructionBeat — a beat of repaired parcels

A compiled plan has every field that its cycles are read for, and an operation of every width that its
beats are divided into.  So the parcels of a beat are repaired without a failure, and side by side they
fill the beat and no more.
-/

namespace MyFuzz

open Outcome RiscvInstructionTransducer List

namespace RiscvInstructionTransducer

variable {x : RiscvInstructionTransducer}

/-! ## The width of a repaired word -/

/-- A legal word fits its width. -/
theorem lt_of_isLegalWord {p : RiscvInstructionProvider} {w : ℕ} {compressed : Bool}
    (h : p.isLegalWord w compressed = true) : w < if compressed then 2 ^ 16 else 2 ^ 32 := by
  unfold RiscvInstructionProvider.isLegalWord at h
  rw [Int.toNat_natCast] at h
  split_ifs at h with hneg hsupports hcompressed hwide
  · rw [if_pos hcompressed]
    by_contra hge
    have hfalse : p.compressedLegal w = false := by
      exact if_pos (.inr (.inr (.inl (by omega))))
    rw [hfalse] at h
    cases h
  · rw [if_neg hcompressed]
    have hle := (not_or.1 hwide).1
    omega

/-- **Repair returns a word of its width.** -/
theorem repair_lt {width : ℤ} (havailable : ∃ t ∈ x.templates, t.width = width) {selector : ℤ}
    (hselector : 0 ≤ selector ∧ selector < 2 ^ selectorWidth) (payload : ℕ) (illegal : Bool)
    (hwidth : width = 16 ∨ width = 32) :
    ∃ choice, x.repair selector payload illegal width = .ok choice ∧ choice.word < 2 ^ width.toNat := by
  obtain ⟨choice, hmem, hrepair⟩ := x.repair_eq hselector hwidth havailable illegal
  rcases mem_choices hmem with ⟨t, ht, htw, rfl⟩ | ⟨rfl, -⟩
  · obtain ⟨repaired, heq, hkept, hname⟩ := repaired_template ht payload
    refine ⟨repaired, (hrepair payload).trans heq, ?_⟩
    have hlegal : repaired.legal = true := hkept.legal_iff.2 (hname ▸ name_ne_illegal ht)
    have hlt := lt_of_isLegalWord (hkept.decoded.trans hlegal)
    have hrepaired : (repaired.width : ℤ) = width := hkept.width_eq.trans htw
    rcases hwidth with rfl | rfl
    · have hsixteen : repaired.width = 16 := by omega
      rw [decide_eq_true hsixteen] at hlt
      exact hlt
    · have hne : ¬ repaired.width = 16 := by omega
      rw [decide_eq_false hne] at hlt
      exact hlt
  · rcases hwidth with rfl | rfl
    · refine ⟨_, (hrepair payload).trans (illegalChoice_compressed payload), ?_⟩
      exact Nat.lt_of_le_of_lt Nat.and_le_right (by decide)
    · refine ⟨_, (hrepair payload).trans (illegalChoice_wide payload), ?_⟩
      have hmasked : payload &&& (2 ^ 32 - 1) < 2 ^ 32 := Nat.and_lt_two_pow payload (by decide)
      refine Nat.or_lt_two_pow ?_ (by decide)
      exact Nat.xor_lt_two_pow hmasked (Nat.lt_of_le_of_lt Nat.and_le_left hmasked)

/-- There is always an operation of 32 bits. -/
theorem exists_wide (x : RiscvInstructionTransducer) : ∃ t ∈ x.templates, t.width = (32 : ℤ) := by
  refine ⟨baseTemplate "ADDI" "I" 0x13 (some 0) none 0 0, ?_, rfl⟩
  iterate 10 refine mem_append_left _ ?_
  exact .head _

/-- With compressed parcels there is an operation of 16 bits. -/
theorem exists_compressed (h : "C" ∈ x.contract.extensions ∧ x.contract.instructionAlignment = 2) :
    ∃ t ∈ x.templates, t.width = (16 : ℤ) := by
  refine ⟨compressedTemplate "C.ADDI4SPN" 0 0 0 0, ?_, rfl⟩
  unfold templates
  rw [if_pos h]
  exact mem_append_right _ (by unfold cTemplates; exact mem_append_left _ (by simp))

end RiscvInstructionTransducer

namespace Contract

variable {plan : ContractTransducerPlan}

/-! ## The fields of a cycle -/

variable {name : FieldName} {layout : CycleInputLayout} {isa : IsaContract} {dataWidth : ℕ}
  {externals : List (String × ℕ)}

/-- A field that is declared has a value of its width. -/
theorem exists_fieldValue (h : name ∈ layout.map Prod.fst) (raw : ℕ) :
    ∃ width value, fieldValue name layout raw = some value ∧ (name, width) ∈ layout ∧ value < 2 ^ width := by
  induction layout generalizing raw with
  | nil => cases h
  | cons e layout ih =>
    obtain ⟨n, width⟩ := e
    rw [fieldValue]
    split_ifs with hn
    · subst hn
      exact ⟨width, _, rfl, .head _, Nat.mod_lt _ (Nat.two_pow_pos width)⟩
    · have hrest : name ∈ layout.map Prod.fst := by
        rw [map_cons, mem_cons] at h
        exact h.resolve_left fun heq => hn heq.symm
      obtain ⟨width', value, hvalue, hmem, hlt⟩ := ih hrest (raw >>> width)
      exact ⟨width', value, hvalue, .tail _ hmem, hlt⟩

theorem fieldValue_eq_none {raw : ℕ} (h : name ∉ layout.map Prod.fst) :
    fieldValue name layout raw = none := by
  induction layout generalizing raw with
  | nil => rfl
  | cons e layout ih =>
    rw [map_cons, mem_cons, not_or] at h
    rw [fieldValue, if_neg fun heq => h.1 heq.symm]
    exact ih h.2

/-- The width of a field in a built layout. -/
def widthOk (dataWidth : ℕ) : FieldName × ℕ → Prop
  | (.instructionSelector _, w) => w = RiscvInstructionTransducer.selectorWidth
  | (.instructionPayload, w) => w = dataWidth
  | (.instructionCompressed, w) => w = 1
  | (.responseChoice, w) => w = 3
  | (.responseData, w) => w = dataWidth
  | (.external _, _) => True

theorem widthOk_of_mem {e : FieldName × ℕ} (h : e ∈ buildLayout isa dataWidth externals) :
    widthOk dataWidth e := by
  unfold buildLayout at h
  simp only [mem_append, mem_map, mem_cons] at h
  rcases h with (⟨index, -, rfl⟩ | rfl | h) | rfl | rfl | ⟨x, -, rfl⟩
  · rfl
  · rfl
  · split_ifs at h
    · rw [mem_singleton.1 h]
      rfl
    · cases h
  · rfl
  · rfl
  · exact trivial

/-- **A declared field is read.** -/
theorem exists_fieldOf (hplan : WellFormed plan)
    (h : name ∈ (buildLayout plan.instruction.contract plan.dataWidth plan.externalInputs).map Prod.fst)
    (raw : ℕ) :
    ∃ width value, fieldOf plan raw name = .ok value ∧ widthOk plan.dataWidth (name, width) ∧
      value < 2 ^ width := by
  obtain ⟨width, value, hvalue, hmem, hlt⟩ := exists_fieldValue h raw
  refine ⟨width, value, ?_, widthOk_of_mem hmem, hlt⟩
  unfold fieldOf
  rw [hplan.layout, hvalue]

theorem exists_responseData (hplan : WellFormed plan) (raw : ℕ) :
    ∃ data, fieldOf plan raw .responseData = .ok data ∧ data < 2 ^ plan.dataWidth := by
  obtain ⟨_, data, hdata, rfl, hlt⟩ := exists_fieldOf hplan (show .responseData ∈ _ by simp [buildLayout]) raw
  exact ⟨data, hdata, hlt⟩

theorem exists_responseChoice (hplan : WellFormed plan) (raw : ℕ) :
    ∃ choice, fieldOf plan raw .responseChoice = .ok choice := by
  obtain ⟨_, choice, hchoice, -, -⟩ :=
    exists_fieldOf hplan (show .responseChoice ∈ _ by simp [buildLayout]) raw
  exact ⟨choice, hchoice⟩

theorem external_mem_layout {e : String × ℕ} (he : e ∈ externals) :
    .external e.1 ∈ (buildLayout isa dataWidth externals).map Prod.fst := by
  rw [mem_map]
  refine ⟨(.external e.1, e.2), ?_, rfl⟩
  unfold buildLayout
  simp only [mem_append, mem_map, mem_cons]
  exact .inr (.inr (.inr ⟨e, he, rfl⟩))

/-- The fields that every step reads. -/
theorem exists_stepFields (hplan : WellFormed plan) (raw : ℕ) :
    ∃ external choice data, stepFields plan raw = .ok (external, choice, data) ∧
      fieldOf plan raw .responseChoice = .ok choice ∧ fieldOf plan raw .responseData = .ok data ∧
      data < 2 ^ plan.dataWidth := by
  obtain ⟨choice, hchoice⟩ := exists_responseChoice hplan raw
  obtain ⟨data, hdata, hlt⟩ := exists_responseData hplan raw
  have hexternal : ∀ e ∈ plan.externalInputs, ∃ b, (do
      let value ← fieldOf plan raw (.external e.1)
      return (e.1, value) : Except Exn (String × ℕ)) = .ok b := by
    intro e he
    obtain ⟨_, value, hvalue, -, -⟩ := exists_fieldOf hplan (external_mem_layout he) raw
    exact ⟨(e.1, value), by rw [hvalue]; rfl⟩
  obtain ⟨external, hexternal⟩ := exists_mapM_eq_ok hexternal
  refine ⟨external, choice, data, ?_, hchoice, hdata, hlt⟩
  unfold stepFields
  rw [hexternal, ok_bind, hchoice, ok_bind, hdata]
  rfl

/-! ## Parcels -/

/-- A beat is divided into parcels of a width that the plan has operations and selectors for. -/
theorem slotWidth_ok (hplan : WellFormed plan) (header : TestHeader) (raw address : ℕ) :
    ∃ slotWidth : ℕ, (if compressedBeat plan header raw address then 16 else 32) = slotWidth ∧
      (slotWidth = 16 ∨ slotWidth = 32) ∧ (∃ t ∈ plan.instruction.templates, t.width = (slotWidth : ℤ)) ∧
      ∀ index < plan.dataWidth / slotWidth, .instructionSelector index ∈
        (buildLayout plan.instruction.contract plan.dataWidth plan.externalInputs).map Prod.fst := by
  have hselector : ∀ index, (index < plan.dataWidth /
      if compressedFields plan.instruction.contract then 16 else 32) → .instructionSelector index ∈
        (buildLayout plan.instruction.contract plan.dataWidth plan.externalInputs).map Prod.fst := by
    intro index hindex
    rw [mem_map]
    refine ⟨(.instructionSelector index, selectorWidth), ?_, rfl⟩
    unfold buildLayout
    simp only [mem_append, mem_map, mem_range]
    exact .inl (.inl ⟨index, hindex, rfl⟩)
  cases hcompressed : compressedBeat plan header raw address with
  | true =>
    have hfields : compressedFields plan.instruction.contract := by
      by_contra hnot
      have hnone : fieldValue .instructionCompressed plan.cycleLayout raw = none := by
        refine fieldValue_eq_none fun hmem => ?_
        rw [hplan.layout] at hmem
        simp [buildLayout, hnot] at hmem
      unfold compressedBeat at hcompressed
      rw [hnone] at hcompressed
      cases hcompressed
    refine ⟨16, if_pos rfl, .inl rfl, exists_compressed hfields,
      fun index hindex => hselector index ?_⟩
    rwa [if_pos hfields]
  | false =>
    refine ⟨32, rfl, .inr rfl, exists_wide _, fun index hindex =>
      hselector index (Nat.lt_of_lt_of_le hindex (Nat.div_le_div_left ?_ ?_))⟩ <;> split_ifs <;> omega

/-- One parcel, at its place in the beat. -/
theorem exists_repairSlot (hplan : WellFormed plan) {slotWidth index : ℕ}
    (hwidth : slotWidth = 16 ∨ slotWidth = 32)
    (htemplate : ∃ t ∈ plan.instruction.templates, t.width = (slotWidth : ℤ))
    (hselector : .instructionSelector index ∈
      (buildLayout plan.instruction.contract plan.dataWidth plan.externalInputs).map Prod.fst)
    (hindex : index < plan.dataWidth / slotWidth) (illegal : Bool) (raw payload : ℕ) :
    ∃ slot, repairSlot plan illegal raw slotWidth payload index = .ok slot ∧ slot < 2 ^ plan.dataWidth := by
  obtain ⟨_, selector, hvalue, rfl, hlt⟩ := exists_fieldOf hplan hselector raw
  have hrange : (0 : ℤ) ≤ (selector : ℤ) ∧ (selector : ℤ) < 2 ^ selectorWidth :=
    ⟨Int.natCast_nonneg _, by exact_mod_cast hlt⟩
  obtain ⟨choice, hrepair, hword⟩ := repair_lt htemplate hrange
    ((payload >>> (index * slotWidth)) % 2 ^ slotWidth) illegal (by omega)
  refine ⟨choice.word <<< (index * slotWidth), ?_, ?_⟩
  · unfold repairSlot
    rw [hvalue, ok_bind, hrepair]
    rfl
  · rw [Int.toNat_natCast] at hword
    rw [Nat.shiftLeft_eq]
    have hfits : slotWidth + index * slotWidth ≤ plan.dataWidth := by
      have hle := Nat.div_mul_le_self plan.dataWidth slotWidth
      have hstep : (index + 1) * slotWidth ≤ plan.dataWidth / slotWidth * slotWidth :=
        Nat.mul_le_mul_right _ hindex
      rw [Nat.add_mul, Nat.one_mul] at hstep
      omega
    calc choice.word * 2 ^ (index * slotWidth) < 2 ^ slotWidth * 2 ^ (index * slotWidth) :=
          Nat.mul_lt_mul_of_pos_right hword (Nat.two_pow_pos _)
      _ = 2 ^ (slotWidth + index * slotWidth) := (pow_add ..).symm
      _ ≤ 2 ^ plan.dataWidth := Nat.pow_le_pow_right (by decide) hfits

/-- **An instruction beat is always repaired**, and fits the data. -/
theorem exists_instructionData (hplan : WellFormed plan) (header : TestHeader) (raw address : ℕ) :
    ∃ word, instructionData plan header raw address = .ok word ∧ word < 2 ^ plan.dataWidth := by
  obtain ⟨_, payload, hpayload, -, -⟩ := exists_fieldOf hplan
    (show .instructionPayload ∈ _ by simp [buildLayout]) raw
  obtain ⟨slotWidth, hslot, hwidth, htemplate, hselector⟩ := slotWidth_ok hplan header raw address
  have hfold : ∀ (indices : List ℕ) (word : ℕ), (∀ index ∈ indices, index < plan.dataWidth / slotWidth) →
      word < 2 ^ plan.dataWidth → ∃ result, indices.foldlM (fun word index => do
        let slot ← repairSlot plan header.illegalInstruction raw slotWidth payload index
        return word ||| slot) word = .ok result ∧ result < 2 ^ plan.dataWidth := by
    intro indices
    induction indices with
    | nil => exact fun word _ hword => ⟨word, rfl, hword⟩
    | cons index indices ih =>
      intro word hindices hword
      have hindex := hindices index (.head _)
      obtain ⟨slot, hrepair, hlt⟩ := exists_repairSlot hplan hwidth htemplate (hselector index hindex)
        hindex header.illegalInstruction raw payload
      obtain ⟨result, hresult, hbound⟩ := ih (word ||| slot)
        (fun j hj => hindices j (.tail _ hj)) (Nat.or_lt_two_pow hword hlt)
      refine ⟨result, ?_, hbound⟩
      rw [foldlM_cons, hrepair, ok_bind]
      exact hresult
  obtain ⟨word, hword, hlt⟩ := hfold (List.range (plan.dataWidth / slotWidth)) 0
    (fun index hindex => mem_range.1 hindex) (Nat.two_pow_pos _)
  refine ⟨word, ?_, hlt⟩
  unfold instructionData
  rw [hpayload, ok_bind]
  rw [hslot]
  exact hword

end Contract

end MyFuzz
