import MyFuzz.Isa.LegalWords

/-!
# Isa/Repair — a repaired word is legal, and repairing it again changes nothing

The converse of `LegalWords`: a word with the fixed bits of a template and no repair pending is legal.
The repairs set bits outside the fixed bits and end in a word that needs none:

    raw ──fixed bits──▸ word ──repairFields──▸ word' ──repairFields──▸ word'
                                                 └── isLegalWord
-/

namespace MyFuzz

open BitField Outcome RiscvInstructionProvider IsaContract RepairedWord List

variable {w : ℕ} {p : RiscvInstructionProvider}

/-! ## The fields of a word that matches -/

variable {t : InstructionTemplate} {m s opcode mask : ℕ} {extension : String}

/-- **The fields under the fixed bits are those of the template.** -/
theorem InstructionTemplate.Matches.field (h : t.Matches w)
    (hm : m <<< s &&& t.fixedMask = m <<< s) : w >>> s &&& m = t.fixedValue >>> s &&& m := by
  have hmask : w &&& m <<< s = t.fixedValue &&& m <<< s := by
    rw [← hm, Nat.and_comm (m <<< s), ← Nat.and_assoc, ← h, Nat.and_assoc, Nat.and_assoc,
      ← Nat.and_assoc t.fixedMask, Nat.and_self]
  have hshift : ∀ v, v &&& m <<< s = (v >>> s &&& m) <<< s := by
    intro v
    exact (and_shiftLeft_eq_iff s).2 rfl
  rw [hshift, hshift, Nat.shiftLeft_eq, Nat.shiftLeft_eq] at hmask
  exact Nat.mul_right_cancel (Nat.two_pow_pos s) hmask

theorem InstructionTemplate.Matches.low (h : t.Matches w) (hm : m &&& t.fixedMask = m) :
    w &&& m = t.fixedValue &&& m := h.field (s := 0) hm

/-- **The fields of a form with a first function field.** -/
theorem fields_of_funct3Form {forms : List (String × ℕ)}
    (hforms : ∀ form ∈ forms, opcode &&& 0x7F = opcode ∧ form.2 <<< 12 &&& 0x7F = 0 ∧
      opcode >>> 12 &&& 7 = 0 ∧ form.2 <<< 12 >>> 12 &&& 7 = form.2)
    (ht : t ∈ funct3Forms extension opcode forms) (h : t.Matches w) :
    w &&& 0x7F = opcode ∧ w >>> 12 &&& 7 ∈ forms.map Prod.snd := by
  obtain ⟨form, hform, rfl⟩ := mem_map.1 ht
  obtain ⟨hopcode, hlow, hhigh, hfunct3⟩ := hforms form hform
  have hop := h.low (show 0x7F &&& (opcodeMask ||| 0 ||| funct3Mask) = 0x7F by decide)
  have h3 := h.field
    (show 7 <<< 12 &&& (opcodeMask ||| 0 ||| funct3Mask) = 7 <<< 12 by decide)
  change w &&& 0x7F = (opcode ||| 0 ||| form.2 <<< 12) &&& 0x7F at hop
  change w >>> 12 &&& 7 = (opcode ||| 0 ||| form.2 <<< 12) >>> 12 &&& 7 at h3
  rw [Nat.or_zero] at hop h3
  rw [Nat.and_or_distrib_right, hopcode, hlow, Nat.or_zero] at hop
  rw [Nat.shiftRight_or_distrib, Nat.and_or_distrib_right, hhigh, hfunct3, Nat.zero_or] at h3
  exact ⟨hop, mem_map.2 ⟨form, hform, h3.symm⟩⟩

/-- **The fields of a form with both function fields.** -/
theorem fields_of_funct7Form {forms : List (String × ℕ × ℕ)}
    (hforms : ∀ form ∈ forms, (opcode ||| 0 ||| form.2.1 <<< 12 ||| form.2.2 <<< 25) &&& 0x7F = opcode ∧
      (opcode ||| 0 ||| form.2.1 <<< 12 ||| form.2.2 <<< 25) >>> 12 &&& 7 = form.2.1 ∧
      (opcode ||| 0 ||| form.2.1 <<< 12 ||| form.2.2 <<< 25) >>> 25 &&& 0x7F = form.2.2)
    (ht : t ∈ funct7Forms extension opcode forms) (h : t.Matches w) :
    w &&& 0x7F = opcode ∧ (w >>> 12 &&& 7, w >>> 25 &&& 0x7F) ∈ forms.map Prod.snd := by
  obtain ⟨form, hform, rfl⟩ := mem_map.1 ht
  obtain ⟨hopcode, hfunct3, hfunct7⟩ := hforms form hform
  have hop := h.low
    (show 0x7F &&& (opcodeMask ||| 0 ||| funct3Mask ||| funct7Mask) = 0x7F by decide)
  have h3 := h.field
    (show 7 <<< 12 &&& (opcodeMask ||| 0 ||| funct3Mask ||| funct7Mask) = 7 <<< 12 by decide)
  have h7 := h.field
    (show 0x7F <<< 25 &&& (opcodeMask ||| 0 ||| funct3Mask ||| funct7Mask) = 0x7F <<< 25 by decide)
  refine ⟨hop.trans hopcode, mem_map.2 ⟨form, hform, ?_⟩⟩
  exact Prod.ext (h3.trans hfunct3).symm (h7.trans hfunct7).symm

/-! ## The base set -/

section Base

theorem legal_opImm (ht : t ∈ funct3Forms "I" 0x13 opImmForms) (h : t.Matches w) : p.baseLegal w = true := by
  obtain ⟨hop, h3⟩ := fields_of_funct3Form (by decide) ht h
  simp only [baseLegal, hop, if_true]
  exact if_pos h3

/-- The bits above a shift amount, as the decoder reads them. -/
theorem shiftField {k : ℕ} (hw : w < 2 ^ 32) (h : t.Matches w)
    (hmask : shiftMask p.contract &&& t.fixedMask = shiftMask p.contract)
    (hvalue : t.fixedValue &&& shiftMask p.contract = (k * 2) <<< 25) :
    if p.contract.xlen = 64 then w >>> 26 = k else w >>> 25 &&& 0x7F = k * 2 := by
  have hlow := (h.low hmask).trans hvalue
  unfold shiftMask at hlow
  rcases p.contract.xlen_eq with hx | hx
  · rw [if_pos hx] at hlow
    rw [if_neg (by omega)]
    exact (and_shiftLeft_eq_iff 25).1 hlow
  · rw [if_neg (by omega)] at hlow
    rw [if_pos hx]
    have hfield : w >>> 26 &&& 0x3F = k := by
      refine (and_shiftLeft_eq_iff 26).1 (hlow.trans ?_)
      rw [Nat.shiftLeft_eq, Nat.shiftLeft_eq]
      omega
    have hlt : w >>> 26 < 2 ^ 6 := by
      rw [Nat.shiftRight_eq_div_pow]
      omega
    rw [← hfield]
    exact (and_full hlt).symm

theorem legal_shift (hw : w < 2 ^ 32) (ht : t ∈ shiftTemplates p.contract) (h : t.Matches w) :
    p.baseLegal w = true := by
  have hmask : shiftMask p.contract = funct7Mask ∨ shiftMask p.contract = 0x3F <<< 26 := by
    unfold shiftMask
    split
    · exact .inl rfl
    · exact .inr rfl
  -- the mask of a shift, and what its function fields select
  have hfields : ∀ {name : String} {funct3 extraValue k : ℕ},
      (baseTemplate name "I" 0x13 (some funct3) none (shiftMask p.contract) extraValue).Matches w →
      (0x13 ||| extraValue ||| funct3 <<< 12) &&& 0x7F = 0x13 →
      (0x13 ||| extraValue ||| funct3 <<< 12) >>> 12 &&& 7 = funct3 →
      (0x13 ||| extraValue ||| funct3 <<< 12) &&& shiftMask p.contract = (k * 2) <<< 25 →
      w &&& 0x7F = 0x13 ∧ w >>> 12 &&& 7 = funct3 ∧
        if p.contract.xlen = 64 then w >>> 26 = k else w >>> 25 &&& 0x7F = k * 2 := by
    intro name funct3 extraValue k hmatch hopcode hfunct3 hk
    refine ⟨(hmatch.low ?_).trans hopcode, (hmatch.field ?_).trans hfunct3, shiftField hw hmatch ?_ hk⟩
    all_goals
      change _ &&& (opcodeMask ||| shiftMask p.contract ||| funct3Mask) = _
      rcases hmask with hmask | hmask <;> rw [hmask] <;> decide
  have hvalue : ∀ {v k : ℕ}, v &&& funct7Mask = (k * 2) <<< 25 →
      v &&& 0x3F <<< 26 = (k * 2) <<< 25 → v &&& shiftMask p.contract = (k * 2) <<< 25 := by
    intro v k h₁ h₂
    rcases hmask with hmask | hmask
    · rw [hmask, h₁]
    · rw [hmask, h₂]
  unfold shiftTemplates at ht
  simp only [mem_cons, not_mem_nil, or_false] at ht
  rcases ht with rfl | rfl | rfl
  · obtain ⟨hop, h3, hshift⟩ := hfields (k := 0) h (by decide) (by decide) (hvalue (by decide) (by decide))
    simp only [baseLegal, hop, if_true, h3]
    rw [if_neg (by decide)]
    split_ifs at hshift ⊢ <;> exact decide_eq_true hshift
  · obtain ⟨hop, h3, hshift⟩ := hfields (k := 0) h (by decide) (by decide) (hvalue (by decide) (by decide))
    simp only [baseLegal, hop, if_true, h3]
    rw [if_neg (by decide), if_neg (by decide)]
    split_ifs at hshift ⊢ <;> rw [hshift] <;> rfl
  · obtain ⟨hop, h3, hshift⟩ := hfields (k := 0x10) h (by decide) (by decide)
      (hvalue (by decide) (by decide))
    simp only [baseLegal, hop, if_true, h3]
    rw [if_neg (by decide), if_neg (by decide)]
    split_ifs at hshift ⊢ <;> rw [hshift] <;> rfl

theorem legal_op (ht : t ∈ funct7Forms "I" 0x33 opForms) (h : t.Matches w) : p.baseLegal w = true := by
  obtain ⟨hop, hfields⟩ := fields_of_funct7Form (by decide) ht h
  simp only [baseLegal, hop, Nat.reduceEqDiff, reduceIte]
  simp only [opForms, map_cons, map_nil, mem_cons, Prod.mk.injEq, not_mem_nil,
    or_false] at hfields
  rcases hfields with h | h | h | h | h | h | h | h | h | h <;> rw [h.2, h.1] <;> rfl

theorem legal_mul (hM : "M" ∈ p.contract.extensions) (ht : t ∈ funct7Forms "M" 0x33 mulForms)
    (h : t.Matches w) : p.baseLegal w = true := by
  obtain ⟨hop, hfields⟩ := fields_of_funct7Form (by decide) ht h
  have h7 : w >>> 25 &&& 0x7F = 1 := by
    have hall : ∀ f ∈ mulForms.map Prod.snd, f.2 = 1 := by decide
    exact hall _ hfields
  simp only [baseLegal, hop, Nat.reduceEqDiff, reduceIte, h7]
  exact decide_eq_true hM

theorem legal_load (ht : t ∈ funct3Forms "I" 0x03 (loadForms p.contract)) (h : t.Matches w) :
    p.baseLegal w = true := by
  unfold loadForms at ht
  rcases p.contract.xlen_eq with hx | hx
  all_goals
    rw [hx] at ht
    obtain ⟨hop, h3⟩ := fields_of_funct3Form (by decide) ht h
    simp only [baseLegal, hop, Nat.reduceEqDiff, reduceIte, hx]
    refine decide_eq_true ?_
    simp at h3 ⊢
    omega

theorem legal_store (ht : t ∈ funct3Forms "I" 0x23 (storeForms p.contract)) (h : t.Matches w) :
    p.baseLegal w = true := by
  unfold storeForms at ht
  rcases p.contract.xlen_eq with hx | hx
  all_goals
    rw [hx] at ht
    obtain ⟨hop, h3⟩ := fields_of_funct3Form (by decide) ht h
    simp only [baseLegal, hop, Nat.reduceEqDiff, reduceIte, hx]
    exact decide_eq_true h3

theorem legal_branch (ht : t ∈ funct3Forms "I" 0x63 branchForms) (h : t.Matches w) :
    p.baseLegal w = true := by
  obtain ⟨hop, h3⟩ := fields_of_funct3Form (by decide) ht h
  simp only [baseLegal, hop, Nat.reduceEqDiff, reduceIte]
  exact decide_eq_true h3

theorem legal_jump (ht : t ∈ jumpTemplates) (h : t.Matches w) : p.baseLegal w = true := by
  have hupper : ∀ opcode ∈ [0x17, 0x37, 0x6F], w &&& 0x7F = opcode → p.baseLegal w = true := by
    intro opcode hmem hop
    simp only [baseLegal, hop]
    simp only [mem_cons, not_mem_nil, or_false] at hmem
    rcases hmem with rfl | rfl | rfl <;> rfl
  unfold jumpTemplates at ht
  simp only [mem_cons, not_mem_nil, or_false] at ht
  rcases ht with rfl | rfl | rfl | rfl | rfl
  · exact hupper 0x17 (by decide) (h.low (by decide))
  · exact hupper 0x37 (by decide) (h.low (by decide))
  · exact hupper 0x6F (by decide) (h.low (by decide))
  · have hop : w &&& 0x7F = 0x67 := h.low (by decide)
    have h3 : w >>> 12 &&& 7 = 0 := h.field (by decide)
    simp only [baseLegal, hop, h3]
    rfl
  · have hop : w &&& 0x7F = 0x0F := h.low (by decide)
    have h3 : w >>> 12 &&& 7 = 0 := h.field (by decide)
    have hrd : w >>> 7 &&& 0x1F = 0 := h.field (by decide)
    have hrs1 : w >>> 15 &&& 0x1F = 0 := h.field (by decide)
    have hmode : w >>> 28 &&& 0xF = 0 := h.field (by decide)
    simp only [baseLegal, hop, h3, hrd, hrs1, hmode]
    rfl

/-- The fields of a system word. -/
theorem legal_system (ht : t ∈ wordTemplates (systemWords p.contract)) (h : t.Matches w) :
    p.baseLegal w = true := by
  obtain ⟨⟨name, word⟩, hword, rfl⟩ := mem_map.1 ht
  have hfield : ∀ {m s : ℕ}, m <<< s &&& 0xFFFFFFFF = m <<< s → w >>> s &&& m = word >>> s &&& m :=
    fun hm => h.field hm
  have hop : w &&& 0x7F = word &&& 0x7F := hfield (show 0x7F <<< 0 &&& 0xFFFFFFFF = 0x7F <<< 0 by decide)
  have h3 := hfield (show 7 <<< 12 &&& 0xFFFFFFFF = 7 <<< 12 by decide)
  have hrd := hfield (show 0x1F <<< 7 &&& 0xFFFFFFFF = 0x1F <<< 7 by decide)
  have hrs1 := hfield (show 0x1F <<< 15 &&& 0xFFFFFFFF = 0x1F <<< 15 by decide)
  have himm := hfield (show 0xFFF <<< 20 &&& 0xFFFFFFFF = 0xFFF <<< 20 by decide)
  simp only [baseLegal, hop, h3, hrd, hrs1, himm]
  unfold systemWords at hword
  simp only [mem_append, mem_cons, not_mem_nil, or_false] at hword
  rcases hword with ((hword | hword | hword) | hword) | hword
  · cases hword
    rfl
  · cases hword
    rfl
  · cases hword
    rfl
  · split_ifs at hword with hmode
    · cases mem_singleton.1 hword
      exact decide_eq_true hmode
    · cases hword
  · split_ifs at hword with hmode
    · cases mem_singleton.1 hword
      exact decide_eq_true hmode
    · cases hword

theorem legal_op32 (hx : p.contract.xlen = 64) (ht : t ∈ funct7Forms "I" 0x3B op32Forms)
    (h : t.Matches w) : p.baseLegal w = true := by
  obtain ⟨hop, hfields⟩ := fields_of_funct7Form (by decide) ht h
  simp only [baseLegal, hop, Nat.reduceEqDiff, reduceIte, hx, ne_eq,
    not_true_eq_false]
  simp only [op32Forms, map_cons, map_nil, mem_cons, Prod.mk.injEq, not_mem_nil,
    or_false] at hfields
  rcases hfields with h | h | h | h | h <;> rw [h.2, h.1] <;> rfl

theorem legal_mul32 (hx : p.contract.xlen = 64) (hM : "M" ∈ p.contract.extensions)
    (ht : t ∈ funct7Forms "M" 0x3B mul32Forms) (h : t.Matches w) : p.baseLegal w = true := by
  obtain ⟨hop, hfields⟩ := fields_of_funct7Form (by decide) ht h
  have hall : ∀ f ∈ mul32Forms.map Prod.snd, f.2 = 1 ∧ f.1 ∈ [0, 4, 5, 6, 7] := by decide
  obtain ⟨h7, h3⟩ := hall _ hfields
  dsimp only at h7 h3
  simp only [baseLegal, hop, Nat.reduceEqDiff, reduceIte, hx, ne_eq,
    not_true_eq_false, h7]
  exact decide_eq_true ⟨trivial, h3, hM⟩

theorem legal_wide (hx : p.contract.xlen = 64) (ht : t ∈ wideTemplates) (h : t.Matches w) :
    p.baseLegal w = true := by
  rcases mem_append.1 ht with ht | ht
  swap
  · exact legal_op32 hx ht h
  simp only [mem_cons, not_mem_nil, or_false] at ht
  have hlegal : ∀ {f3 f7 : ℕ}, w &&& 0x7F = 0x1B → w >>> 12 &&& 7 = f3 → w >>> 25 &&& 0x7F = f7 →
      (f3 = 0 ∨ f3 = 1 ∧ f7 = 0 ∨ f3 = 5 ∧ (f7 = 0 ∨ f7 = 0x20)) → p.baseLegal w = true := by
    intro f3 f7 hop h3 h7 hform
    simp only [baseLegal, hop, Nat.reduceEqDiff, reduceIte, hx, ne_eq,
      not_true_eq_false, h3, h7]
    rcases hform with rfl | ⟨rfl, rfl⟩ | ⟨rfl, rfl | rfl⟩ <;> rfl
  rcases ht with rfl | rfl | rfl | rfl
  · exact hlegal (h.low (by decide)) (h.field (by decide)) rfl (.inl rfl)
  · exact hlegal (h.low (by decide)) (h.field (by decide)) (h.field (by decide)) (.inr (.inl ⟨rfl, rfl⟩))
  · exact hlegal (h.low (by decide)) (h.field (by decide)) (h.field (by decide))
      (.inr (.inr ⟨rfl, .inl rfl⟩))
  · exact hlegal (h.low (by decide)) (h.field (by decide)) (h.field (by decide))
      (.inr (.inr ⟨rfl, .inr rfl⟩))

/-- **A word that matches a template of 32 bits is legal.** -/
theorem baseLegal_of_matches (hw : w < 2 ^ 32) (ht : t ∈ baseTemplates p.contract)
    (h : t.Matches w) : p.baseLegal w = true := by
  unfold baseTemplates iTemplates at ht
  simp only [mem_append] at ht
  rcases ht with
    ((((((((ht | ht) | ht) | ht) | ht) | ht) | ht) | ht) | ht) | ht
  · exact legal_opImm ht h
  · exact legal_shift hw ht h
  · exact legal_op ht h
  · exact legal_load ht h
  · exact legal_store ht h
  · exact legal_branch ht h
  · exact legal_jump ht h
  · exact legal_system ht h
  · split_ifs at ht with hx
    · exact legal_wide hx ht h
    · cases ht
  · split_ifs at ht with hM
    · rcases mem_append.1 ht with ht | ht
      · exact legal_mul hM ht h
      · split_ifs at ht with hx
        · exact legal_mul32 hx hM ht h
        · cases ht
    · cases ht

end Base

/-! ## Compressed instructions -/

section Compressed

open RepairedWord

/-- A field that the repair wants is not zero. -/
theorem shiftRight_ne_zero (h : w &&& m <<< s ≠ 0) : w >>> s &&& m ≠ 0 := by
  intro h0
  refine h ?_
  rw [and_shiftLeft_of_eq h0, Nat.zero_shiftLeft]

/-- The contract declares compressed instructions. -/
def IsaContract.Compressed (c : IsaContract) : Prop :=
  "C" ∈ c.extensions ∧ c.instructionAlignment = 2

/-- The decoder looks at the fields of a compressed word. -/
theorem compressed_open (hc : p.contract.Compressed) (hw : w < 2 ^ 16) (hq : w &&& 3 ≠ 3) :
    ¬ ("C" ∉ p.contract.extensions ∨ p.contract.instructionAlignment ≠ 2 ∨ 0xFFFF < w ∨
      w &&& 0b11 = 0b11) := by
  rintro (h | h | h | h)
  · exact h hc.1
  · exact h hc.2
  · omega
  · exact hq h

variable {f b : ℕ} {r : RepairedWord} {name : String}

/-- A word of the first quadrant by its function field. -/
theorem legal_quadrant0 (hc : p.contract.Compressed) (hw : w < 2 ^ 16) (hq : w &&& 3 = 0)
    (h3 : w >>> 13 &&& 7 = f) (h : f = 0 ∧ w &&& cAddi4spnImmediateMask ≠ 0 ∨ f = 2 ∨ f = 6 ∨
      (f = 3 ∨ f = 7) ∧ p.contract.xlen = 64) : p.compressedLegal w = true := by
  rw [compressedLegal, if_neg (compressed_open hc hw (by omega))]
  simp only [hq, h3]
  rcases h with ⟨rfl, himm⟩ | rfl | rfl | ⟨rfl | rfl, hx⟩
  · refine decide_eq_true ?_
    rw [← Nat.and_or_distrib_left, ← Nat.and_or_distrib_left, ← Nat.and_or_distrib_left]
    exact himm
  · rfl
  · rfl
  · exact decide_eq_true ⟨by decide, hx⟩
  · exact decide_eq_true ⟨by decide, hx⟩

/-- The top bit of a shift amount is free, or zero by the template. -/
theorem shift_of_and_shiftAmountMask (h : w &&& shiftAmountMask p.contract = 0) :
    p.contract.xlen = 64 ∨ ((w >>> 2 &&& 0x1F) ||| (w >>> 12 &&& 1) <<< 5) &&& 0x20 = 0 := by
  unfold shiftAmountMask at h
  rcases p.contract.xlen_eq with hx | hx
  · rw [if_pos hx] at h
    have hbit : w >>> 12 &&& 1 = 0 := (and_shiftLeft_eq_iff 12).1 (h.trans (Nat.zero_shiftLeft 12).symm)
    refine .inr ?_
    rw [hbit, Nat.zero_shiftLeft, Nat.or_zero, Nat.and_assoc]
    exact Nat.and_zero _
  · exact .inl hx

section

variable (hc : p.contract.Compressed) (hw : w < 2 ^ 16)

include hc hw

/-- A word of the second quadrant by its function field. -/
theorem legal_quadrant1 (hq : w &&& 3 = 1)
    (h3 : w >>> 13 &&& 7 = f) (h : f = 0 ∧ ¬ (w &&& cRdMask = 0 ∧ w &&& cImmediateMask ≠ 0) ∨
      f = 1 ∧ (p.contract.xlen = 32 ∨ w &&& cRdMask ≠ 0) ∨ f = 2 ∧ w &&& cRdMask ≠ 0 ∨
      f = 3 ∧ w &&& cRdMask ≠ 0 ∧ w &&& cImmediateMask ≠ 0 ∨ f = 5 ∨ f = 6 ∨ f = 7) :
    p.compressedLegal w = true := by
  have hrd : w &&& cRdMask ≠ 0 → w >>> 7 &&& 0x1F ≠ 0 := shiftRight_ne_zero
  rw [compressedLegal, if_neg (compressed_open hc hw (by omega))]
  simp only [hq, h3]
  rcases h with ⟨rfl, hadd⟩ | ⟨rfl, hjump⟩ | ⟨rfl, hli⟩ | ⟨rfl, hlui, himm⟩ | rfl | rfl | rfl
  · refine decide_eq_true ?_
    rw [← and_cImmediateMask_eq_zero]
    by_cases hzero : w &&& cRdMask = 0
    · exact .inr (not_not.1 fun himm => hadd ⟨hzero, himm⟩)
    · exact .inl (hrd hzero)
  · exact decide_eq_true (hjump.imp_right hrd)
  · exact decide_eq_true (hrd hli)
  · simp only [Nat.reduceEqDiff, reduceIte]
    split_ifs with hsp
    · refine decide_eq_true ?_
      rw [← Nat.and_or_distrib_left, ← Nat.and_or_distrib_left, ← Nat.and_or_distrib_left,
        ← Nat.and_or_distrib_left]
      exact himm
    · refine decide_eq_true ⟨?_, ?_⟩
      · simp only [mem_cons, not_mem_nil, or_false, not_or]
        exact ⟨hrd hlui, hsp⟩
      · exact mt and_cImmediateMask_eq_zero.2 himm
  · rfl
  · rfl
  · rfl

/-- The arithmetic of the second quadrant. -/
theorem legal_arithmetic (hq : w &&& 3 = 1)
    (h3 : w >>> 13 &&& 7 = 4) (h : (w >>> 10 &&& 3 = 0 ∨ w >>> 10 &&& 3 = 1) ∧ w &&& cImmediateMask ≠ 0 ∧
        w &&& shiftAmountMask p.contract = 0 ∨ w >>> 10 &&& 3 = 2 ∨
      w >>> 10 &&& 3 = 3 ∧ (w >>> 12 &&& 1 = 0 ∨ p.contract.xlen = 64 ∧
        (w >>> 5 &&& 3 = 0 ∨ w >>> 5 &&& 3 = 1))) : p.compressedLegal w = true := by
  rw [compressedLegal, if_neg (compressed_open hc hw (by omega))]
  simp only [hq, h3, Nat.reduceEqDiff, reduceIte, ne_eq, not_true_eq_false]
  rcases h with ⟨hop, himm, hshift⟩ | hop | ⟨hop, hbit⟩
  · have hlegal : decide (((w >>> 2 &&& 0x1F) ||| (w >>> 12 &&& 1) <<< 5) ≠ 0 ∧ (p.contract.xlen = 64 ∨
          ((w >>> 2 &&& 0x1F) ||| (w >>> 12 &&& 1) <<< 5) &&& 0x20 = 0)) = true :=
      decide_eq_true ⟨mt and_cImmediateMask_eq_zero.2 himm, shift_of_and_shiftAmountMask hshift⟩
    rcases hop with hop | hop
    · rw [hop]
      exact hlegal
    · rw [hop]
      exact hlegal
  · rw [hop]
    rfl
  · rw [hop]
    simp only [not_true_eq_false, if_false]
    have hle : w >>> 5 &&& 3 ≤ 3 := Nat.and_le_right
    have hlisted : w >>> 5 &&& 3 ∈ [0, 1, 2, 3] := by
      simp only [mem_cons, not_mem_nil, or_false]
      omega
    have hne : ∀ x ∈ ([5, 6, 7] : List ℕ), x ≠ 4 := by decide
    rw [if_neg fun h4 => hne 4 h4 rfl]
    split
    · rename_i hone
      obtain ⟨hx, hlow⟩ := hbit.resolve_left hone
      refine decide_eq_true ⟨hx, ?_⟩
      simpa using hlow
    · exact decide_eq_true hlisted

/-- A word of the third quadrant by its function field. -/
theorem legal_quadrant2 (hq : w &&& 3 = 2)
    (h3 : w >>> 13 &&& 7 = f) (h : f = 0 ∧ w &&& cRdMask ≠ 0 ∧ w &&& cImmediateMask ≠ 0 ∧
        w &&& shiftAmountMask p.contract = 0 ∨
      f = 2 ∧ w &&& cRdMask ≠ 0 ∨ f = 3 ∧ p.contract.xlen = 64 ∧ w &&& cRdMask ≠ 0 ∨
      f = 4 ∧ (w &&& cRdMask ≠ 0 ∨ w >>> 12 &&& 1 = 1 ∧ w >>> 2 &&& 0x1F = 0) ∨ f = 6 ∨
      f = 7 ∧ p.contract.xlen = 64) : p.compressedLegal w = true := by
  have hrd : w &&& cRdMask ≠ 0 → w >>> 7 &&& 0x1F ≠ 0 := shiftRight_ne_zero
  rw [compressedLegal, if_neg (compressed_open hc hw (by omega))]
  simp only [hq, h3]
  rcases h with ⟨rfl, hne, himm, hshift⟩ | ⟨rfl, hne⟩ | ⟨rfl, hx, hne⟩ | ⟨rfl, hjump⟩ | rfl | ⟨rfl, hx⟩
  · exact decide_eq_true ⟨hrd hne, mt and_cImmediateMask_eq_zero.2 himm,
      shift_of_and_shiftAmountMask hshift⟩
  · exact decide_eq_true (hrd hne)
  · exact decide_eq_true ⟨hx, hrd hne⟩
  · simp only [Nat.reduceEqDiff, reduceIte]
    rcases hjump with hne | ⟨hbit, hrs2⟩
    · split
      · exact decide_eq_true (hrd hne)
      · rw [if_neg (hrd hne)]
    · rw [if_neg (by omega)]
      split
      · exact decide_eq_true hrs2
      · rfl
  · rfl
  · exact decide_eq_true ⟨rfl, hx⟩

end

/-! ## Settled words -/

/-- No repair of the operation applies to the word. -/
def Settled (name : String) (w : ℕ) : Prop :=
  if name = "C.ADDI4SPN" then w &&& cAddi4spnImmediateMask ≠ 0
  else if name = "C.ADDI" then ¬ (w &&& cRdMask = 0 ∧ w &&& cImmediateMask ≠ 0)
  else if name ∈ ["C.LI", "C.ADDIW", "C.LWSP", "C.LDSP", "C.JR", "C.JALR"] then w &&& cRdMask ≠ 0
  else if name = "C.ADDI16SP" then w &&& cImmediateMask ≠ 0
  else if name = "C.LUI" then w &&& cRdMask ∉ [0, 2 <<< 7] ∧ w &&& cImmediateMask ≠ 0
  else if name ∈ ["C.SRLI", "C.SRAI", "C.SLLI"] then
    (name = "C.SLLI" → w &&& cRdMask ≠ 0) ∧ w &&& cImmediateMask ≠ 0
  else if name ∈ ["C.MV", "C.ADD"] then w &&& cRdMask ≠ 0 ∧ w &&& cRs2Mask ≠ 0
  else True

theorem repairFields_of_settled (h : Settled name r.word) : r.repairFields name = r := by
  unfold Settled at h
  unfold repairFields
  split_ifs at h ⊢ with _ _ _ _ _ hrd _ hslli
  · exact ensureNonzero_of_ne h
  · rfl
  · exact ensureNonzero_of_ne h
  · exact ensureNonzero_of_ne h
  · exact absurd hrd h.1
  · exact ensureNonzero_of_ne h.2
  · rw [ensureNonzero_of_ne (h.1 hslli), ensureNonzero_of_ne h.2]
  · exact ensureNonzero_of_ne h.2
  · rw [ensureNonzero_of_ne h.1, ensureNonzero_of_ne h.2]
  · rfl

theorem and_or_ne_zero (h : b &&& m ≠ 0) : (w ||| b) &&& m ≠ 0 := by
  rw [Nat.and_or_distrib_right]
  exact fun h0 => h (Nat.or_eq_zero_iff.1 h0).2

/-- A field that is not zero stays so. -/
theorem and_or_ne_zero_left (h : w &&& m ≠ 0) : (w ||| b) &&& m ≠ 0 := by
  rw [Nat.or_comm]
  exact and_or_ne_zero h

theorem ensureNonzero_and_ne_zero (h : lowestBit mask &&& mask ≠ 0) :
    (r.ensureNonzero mask).word &&& mask ≠ 0 := by
  unfold ensureNonzero
  split_ifs with hne
  · exact and_or_ne_zero h
  · exact hne

theorem ensureNonzero_keeps (h : r.word &&& m ≠ 0) : (r.ensureNonzero mask).word &&& m ≠ 0 := by
  unfold ensureNonzero
  split
  · exact and_or_ne_zero_left h
  · exact h

/-- Setting a bit outside a field leaves the field. -/
theorem ensureNonzero_and_of_apart (h : lowestBit mask &&& m = 0) :
    (r.ensureNonzero mask).word &&& m = r.word &&& m := by
  unfold ensureNonzero
  split
  · change (r.word ||| lowestBit mask) &&& m = r.word &&& m
    rw [Nat.and_or_distrib_right, h, Nat.or_zero]
  · rfl

theorem settled_repairLui (r : RepairedWord) : Settled "C.LUI" (r.repairFields "C.LUI").word := by
  have hrepair : r.repairFields "C.LUI" = (if r.word &&& cRdMask ∈ [0, 2 <<< 7] then r.setBit (1 <<< 7)
    else r).ensureNonzero cImmediateMask := rfl
  refine ⟨?_, ?_⟩
  · rw [hrepair, ensureNonzero_and_of_apart (by decide)]
    split_ifs with hrd
    · change (r.word ||| 1 <<< 7) &&& cRdMask ∉ [0, 2 <<< 7]
      rw [Nat.and_or_distrib_right]
      rcases mem_pair.1 hrd with hrd | hrd
      · rw [hrd]
        decide
      · rw [hrd]
        decide
    · exact hrd
  · rw [hrepair]
    exact ensureNonzero_and_ne_zero (by decide)

theorem settled_of_notMem (h : name ∉ repairedNames) : Settled name w := by
  simp only [repairedNames, mem_cons, not_mem_nil, or_false, not_or] at h
  simp [Settled, h]

theorem settled_repairMove (r : RepairedWord) :
    ((r.ensureNonzero cRdMask).ensureNonzero cRs2Mask).word &&& cRdMask ≠ 0 ∧
      ((r.ensureNonzero cRdMask).ensureNonzero cRs2Mask).word &&& cRs2Mask ≠ 0 :=
  ⟨ensureNonzero_keeps (ensureNonzero_and_ne_zero (by decide)), ensureNonzero_and_ne_zero (by decide)⟩

theorem settled_repairAddi (r : RepairedWord) : Settled "C.ADDI" (r.repairFields "C.ADDI").word := by
  have hrepair : r.repairFields "C.ADDI" =
    if r.word &&& cRdMask = 0 ∧ r.word &&& cImmediateMask ≠ 0 then r.setBit (1 <<< 7) else r := rfl
  rw [hrepair]
  split_ifs with h
  · exact fun h => and_or_ne_zero (by decide) h.1
  · exact h

/-- **A repaired word is settled.** -/
theorem settled_repairFields (r : RepairedWord) (name : String) :
    Settled name (r.repairFields name).word := by
  have hrd : (r.ensureNonzero cRdMask).word &&& cRdMask ≠ 0 := ensureNonzero_and_ne_zero (by decide)
  have himm : (r.ensureNonzero cImmediateMask).word &&& cImmediateMask ≠ 0 :=
    ensureNonzero_and_ne_zero (by decide)
  have haddi4spn : (r.ensureNonzero cAddi4spnImmediateMask).word &&& cAddi4spnImmediateMask ≠ 0 :=
    ensureNonzero_and_ne_zero (by decide)
  by_cases hname : name ∈ repairedNames
  swap
  · exact settled_of_notMem hname
  simp only [repairedNames, mem_cons, not_mem_nil, or_false] at hname
  rcases hname with rfl | rfl | rfl | rfl | rfl | rfl | rfl | rfl | rfl | rfl | rfl | rfl | rfl |
    rfl | rfl
  · exact haddi4spn
  · exact settled_repairAddi r
  · exact hrd
  · exact hrd
  · exact hrd
  · exact hrd
  · exact hrd
  · exact hrd
  · exact himm
  · exact settled_repairLui r
  · exact ⟨fun h => absurd h (by decide), himm⟩
  · exact ⟨fun h => absurd h (by decide), himm⟩
  · exact ⟨fun _ => ensureNonzero_keeps hrd, ensureNonzero_and_ne_zero (by decide)⟩
  · exact settled_repairMove r
  · exact settled_repairMove r

/-- The operations of every word length. -/
theorem legal_shared (hc : p.contract.Compressed) (hw : w < 2 ^ 16)
    (ht : t ∈ [compressedTemplate "C.ADDI4SPN" 0 0 0 0, compressedTemplate "C.LW" 0 2 0 0,
      compressedTemplate "C.SW" 0 6 0 0, compressedTemplate "C.ADDI" 1 0 0 0])
    (h : t.Matches w) (hs : Settled t.name w) : p.compressedLegal w = true := by
  simp only [mem_cons, not_mem_nil, or_false] at ht
  rcases ht with rfl | rfl | rfl | rfl
  · exact legal_quadrant0 hc hw (h.low (by decide)) (h.field (by decide)) (.inl ⟨rfl, hs⟩)
  · exact legal_quadrant0 hc hw (h.low (by decide)) (h.field (by decide)) (.inr (.inl rfl))
  · exact legal_quadrant0 hc hw (h.low (by decide)) (h.field (by decide)) (.inr (.inr (.inl rfl)))
  · exact legal_quadrant1 hc hw (h.low (by decide)) (h.field (by decide)) (.inl ⟨rfl, hs⟩)

/-- The operations of 64-bit words. -/
theorem legal_double (hc : p.contract.Compressed) (hx : p.contract.xlen = 64) (hw : w < 2 ^ 16)
    (ht : t ∈ [compressedTemplate "C.LD" 0 3 0 0, compressedTemplate "C.SD" 0 7 0 0,
      compressedTemplate "C.ADDIW" 1 1 0 0,
      compressedTemplate "C.SUBW" 1 4 cRegisterMask (1 <<< 12 ||| 3 <<< 10),
      compressedTemplate "C.ADDW" 1 4 cRegisterMask (1 <<< 12 ||| 3 <<< 10 ||| 1 <<< 5),
      compressedTemplate "C.LDSP" 2 3 0 0, compressedTemplate "C.SDSP" 2 7 0 0])
    (h : t.Matches w) (hs : Settled t.name w) : p.compressedLegal w = true := by
  simp only [mem_cons, not_mem_nil, or_false] at ht
  rcases ht with rfl | rfl | rfl | rfl | rfl | rfl | rfl
  · exact legal_quadrant0 hc hw (h.low (by decide)) (h.field (by decide))
      (.inr (.inr (.inr ⟨.inl rfl, hx⟩)))
  · exact legal_quadrant0 hc hw (h.low (by decide)) (h.field (by decide))
      (.inr (.inr (.inr ⟨.inr rfl, hx⟩)))
  · exact legal_quadrant1 hc hw (h.low (by decide)) (h.field (by decide))
      (.inr (.inl ⟨rfl, .inr hs⟩))
  · exact legal_arithmetic hc hw (h.low (by decide)) (h.field (by decide))
      (.inr (.inr ⟨h.field (by decide), .inr ⟨hx, .inl (h.field (by decide))⟩⟩))
  · exact legal_arithmetic hc hw (h.low (by decide)) (h.field (by decide))
      (.inr (.inr ⟨h.field (by decide), .inr ⟨hx, .inr (h.field (by decide))⟩⟩))
  · exact legal_quadrant2 hc hw (h.low (by decide)) (h.field (by decide))
      (.inr (.inr (.inl ⟨rfl, hx, hs⟩)))
  · exact legal_quadrant2 hc hw (h.low (by decide)) (h.field (by decide))
      (.inr (.inr (.inr (.inr (.inr ⟨rfl, hx⟩)))))

/-- The compressed shifts. -/
theorem legal_compressedShift (hc : p.contract.Compressed) (hw : w < 2 ^ 16)
    (ht : t ∈ [compressedTemplate "C.SRLI" 1 4 (0x3 <<< 10 ||| shiftAmountMask p.contract) 0,
      compressedTemplate "C.SRAI" 1 4 (0x3 <<< 10 ||| shiftAmountMask p.contract) (1 <<< 10),
      compressedTemplate "C.SLLI" 2 0 (shiftAmountMask p.contract) 0])
    (h : t.Matches w) (hs : Settled t.name w) : p.compressedLegal w = true := by
  -- the reserved bit of the amount is fixed or there is none
  have hmask : ∃ mask, shiftAmountMask p.contract = mask ∧ (mask = 1 <<< 12 ∨ mask = 0) := by
    refine ⟨_, rfl, ?_⟩
    unfold shiftAmountMask
    split
    · exact .inl rfl
    · exact .inr rfl
  obtain ⟨mask, hmask, hcases⟩ := hmask
  rw [hmask] at ht
  simp only [mem_cons, not_mem_nil, or_false] at ht
  rcases ht with rfl | rfl | rfl
  · refine legal_arithmetic hc hw ?_ ?_ (.inl ⟨.inl ?_, hs.2, ?_⟩)
    · rcases hcases with rfl | rfl <;> exact h.low (by decide)
    · rcases hcases with rfl | rfl <;> exact h.field (by decide)
    · rcases hcases with rfl | rfl <;> exact h.field (by decide)
    · rw [hmask]
      rcases hcases with rfl | rfl <;> exact h.low (by decide)
  · refine legal_arithmetic hc hw ?_ ?_ (.inl ⟨.inr ?_, hs.2, ?_⟩)
    · rcases hcases with rfl | rfl <;> exact h.low (by decide)
    · rcases hcases with rfl | rfl <;> exact h.field (by decide)
    · rcases hcases with rfl | rfl <;> exact h.field (by decide)
    · rw [hmask]
      rcases hcases with rfl | rfl <;> exact h.low (by decide)
  · refine legal_quadrant2 hc hw ?_ ?_ (.inl ⟨rfl, hs.1 rfl, hs.2, ?_⟩)
    · rcases hcases with rfl | rfl <;> exact h.low (by decide)
    · rcases hcases with rfl | rfl <;> exact h.field (by decide)
    · rw [hmask]
      rcases hcases with rfl | rfl <;> exact h.low (by decide)

/-- **A settled word that matches a template of 16 bits is legal.** -/
theorem compressedLegal_of_settled (hc : p.contract.Compressed) (hw : w < 2 ^ 16)
    (ht : t ∈ cTemplates p.contract) (h : t.Matches w) (hs : Settled t.name w) :
    p.compressedLegal w = true := by
  have hjump : w &&& 3 = 2 → w >>> 13 &&& 7 = 4 → w &&& cRdMask ≠ 0 → p.compressedLegal w = true :=
    fun hq h3 hrd => legal_quadrant2 hc hw hq h3 (.inr (.inr (.inr (.inl ⟨rfl, .inl hrd⟩))))
  have hregister : w &&& 3 = 1 → w >>> 13 &&& 7 = 4 → w >>> 10 &&& 3 = 3 → w >>> 12 &&& 1 = 0 →
      p.compressedLegal w = true :=
    fun hq h3 hop hbit => legal_arithmetic hc hw hq h3 (.inr (.inr ⟨hop, .inl hbit⟩))
  unfold cTemplates at ht
  simp only [mem_append] at ht
  rcases ht with ((ht | ht) | ht) | ht
  · exact legal_shared hc hw ht h hs
  · split_ifs at ht with hx
    · obtain rfl := mem_singleton.1 ht
      exact legal_quadrant1 hc hw (h.low (by decide)) (h.field (by decide))
        (.inr (.inl ⟨rfl, .inl hx⟩))
    · cases ht
  swap
  · split_ifs at ht with hx
    · cases ht
    · exact legal_double hc (p.contract.xlen_eq.resolve_left hx) hw ht h hs
  simp only [mem_cons, not_mem_nil, or_false] at ht
  rcases ht with rfl | rfl | rfl | rfl | rfl | rfl | rfl | rfl | rfl | rfl | rfl | rfl | rfl | rfl |
    rfl | rfl | rfl | rfl | rfl | rfl | rfl
  · exact legal_quadrant1 hc hw (h.low (by decide)) (h.field (by decide))
      (.inr (.inr (.inl ⟨rfl, hs⟩)))
  · refine legal_quadrant1 hc hw (h.low (by decide)) (h.field (by decide))
      (.inr (.inr (.inr (.inl ⟨rfl, ?_, hs⟩))))
    have hrd : w &&& cRdMask = 2 <<< 7 := h.low (by decide)
    rw [hrd]
    decide
  · refine legal_quadrant1 hc hw (h.low (by decide)) (h.field (by decide))
      (.inr (.inr (.inr (.inl ⟨rfl, ?_, hs.2⟩))))
    exact fun hrd => hs.1 (mem_cons.2 (.inl hrd))
  · exact legal_compressedShift hc hw (by simp) h hs
  · exact legal_compressedShift hc hw (by simp) h hs
  · exact legal_arithmetic hc hw (h.low (by decide)) (h.field (by decide))
      (.inr (.inl (h.field (by decide))))
  · exact hregister (h.low (by decide)) (h.field (by decide)) (h.field (by decide)) (h.field (by decide))
  · exact hregister (h.low (by decide)) (h.field (by decide)) (h.field (by decide)) (h.field (by decide))
  · exact hregister (h.low (by decide)) (h.field (by decide)) (h.field (by decide)) (h.field (by decide))
  · exact hregister (h.low (by decide)) (h.field (by decide)) (h.field (by decide)) (h.field (by decide))
  · exact legal_quadrant1 hc hw (h.low (by decide)) (h.field (by decide))
      (.inr (.inr (.inr (.inr (.inl rfl)))))
  · exact legal_quadrant1 hc hw (h.low (by decide)) (h.field (by decide))
      (.inr (.inr (.inr (.inr (.inr (.inl rfl))))))
  · exact legal_quadrant1 hc hw (h.low (by decide)) (h.field (by decide))
      (.inr (.inr (.inr (.inr (.inr (.inr rfl))))))
  · exact legal_compressedShift hc hw (by simp) h hs
  · exact legal_quadrant2 hc hw (h.low (by decide)) (h.field (by decide)) (.inr (.inl ⟨rfl, hs⟩))
  · exact hjump (h.low (by decide)) (h.field (by decide)) hs
  · exact hjump (h.low (by decide)) (h.field (by decide)) hs.1
  · exact legal_quadrant2 hc hw (h.low (by decide)) (h.field (by decide)) (.inr (.inr (.inr (.inl
      ⟨rfl, .inr ⟨h.field (by decide), h.field (by decide)⟩⟩))))
  · exact hjump (h.low (by decide)) (h.field (by decide)) hs
  · exact hjump (h.low (by decide)) (h.field (by decide)) hs.1
  · exact legal_quadrant2 hc hw (h.low (by decide)) (h.field (by decide))
      (.inr (.inr (.inr (.inr (.inl rfl)))))

end Compressed

/-! ## What a repair may change -/

namespace RepairedWord

/-- The bits a repair of the operation may set. -/
def repairBits (name : String) : ℕ :=
  if name = "C.ADDI4SPN" then 1 <<< 5
  else if name ∈ ["C.ADDI", "C.LI", "C.ADDIW", "C.LWSP", "C.LDSP", "C.JR", "C.JALR"] then 1 <<< 7
  else if name ∈ ["C.ADDI16SP", "C.SRLI", "C.SRAI"] then 1 <<< 2
  else if name ∈ ["C.LUI", "C.SLLI", "C.MV", "C.ADD"] then 1 <<< 7 ||| 1 <<< 2
  else 0

/-- Some of the allowed bits have been set, and are on record. -/
def Extends (allowed : ℕ) (r r' : RepairedWord) : Prop :=
  ∃ bits, bits &&& allowed = bits ∧ r'.word = r.word ||| bits ∧ r'.repairedMask = r.repairedMask ||| bits

variable {r r' r'' : RepairedWord} {allowed : ℕ}

theorem Extends.refl (allowed : ℕ) (r : RepairedWord) : r.Extends allowed r :=
  ⟨0, Nat.zero_and _, (Nat.or_zero _).symm, (Nat.or_zero _).symm⟩

theorem Extends.trans (h : r.Extends allowed r') (h' : r'.Extends allowed r'') : r.Extends allowed r'' := by
  obtain ⟨bits, hbits, hword, hmask⟩ := h
  obtain ⟨bits', hbits', hword', hmask'⟩ := h'
  refine ⟨bits ||| bits', ?_, ?_, ?_⟩
  · rw [Nat.and_or_distrib_right, hbits, hbits']
  · rw [hword', hword, Nat.or_assoc]
  · rw [hmask', hmask, Nat.or_assoc]

theorem extends_setBit {bit : ℕ} (h : bit &&& allowed = bit) : r.Extends allowed (r.setBit bit) :=
  ⟨bit, h, rfl, rfl⟩

theorem extends_ensureNonzero (h : lowestBit mask &&& allowed = lowestBit mask) :
    r.Extends allowed (r.ensureNonzero mask) := by
  unfold ensureNonzero
  split
  · exact extends_setBit h
  · exact Extends.refl allowed r

theorem extends_ite {p : Prop} [Decidable p] (h : r.Extends allowed r') :
    r.Extends allowed (if p then r' else r) := by
  split
  · exact h
  · exact Extends.refl allowed r

/-- **A repair sets bits of its operation only.** -/
theorem extends_repairFields (r : RepairedWord) (name : String) :
    r.Extends (repairBits name) (r.repairFields name) := by
  by_cases hname : name ∈ repairedNames
  swap
  · rw [repairFields_of_notMem hname]
    exact Extends.refl _ r
  simp only [repairedNames, mem_cons, not_mem_nil, or_false] at hname
  rcases hname with rfl | rfl | rfl | rfl | rfl | rfl | rfl | rfl | rfl | rfl | rfl | rfl | rfl |
    rfl | rfl
  · exact extends_ensureNonzero (by decide)
  · exact extends_ite (extends_setBit (by decide))
  · exact extends_ensureNonzero (by decide)
  · exact extends_ensureNonzero (by decide)
  · exact extends_ensureNonzero (by decide)
  · exact extends_ensureNonzero (by decide)
  · exact extends_ensureNonzero (by decide)
  · exact extends_ensureNonzero (by decide)
  · exact extends_ensureNonzero (by decide)
  · exact (extends_ite (extends_setBit (by decide))).trans (extends_ensureNonzero (by decide))
  · exact extends_ensureNonzero (by decide)
  · exact extends_ensureNonzero (by decide)
  · exact (extends_ensureNonzero (by decide)).trans (extends_ensureNonzero (by decide))
  · exact (extends_ensureNonzero (by decide)).trans (extends_ensureNonzero (by decide))
  · exact (extends_ensureNonzero (by decide)).trans (extends_ensureNonzero (by decide))

end RepairedWord

/-- **The repairs of an operation are inside its word and outside its fixed bits.** -/
theorem IsaContract.repairBits_full (xlen : ℕ) (h : xlen = 32 ∨ xlen = 64) :
    ∀ t ∈ (full xlen h).allTemplates, repairBits t.name &&& t.fixedMask = 0 ∧
        repairBits t.name < 2 ^ t.width ∧ t.fixedValue < 2 ^ t.width ∧
        t.fixedValue &&& t.fixedMask = t.fixedValue := by
  rcases h with rfl | rfl <;> decide +kernel

/-- A template of 32 bits fixes the two bits that tell it from a compressed one. -/
theorem IsaContract.lowBits_full (xlen : ℕ) (h : xlen = 32 ∨ xlen = 64) :
    ∀ t ∈ iTemplates (full xlen h) ++ mTemplates (full xlen h),
      0b11 &&& t.fixedMask = 0b11 ∧ t.fixedValue &&& 0b11 = 0b11 := by
  rcases h with rfl | rfl <;> decide +kernel

namespace RiscvInstructionTransducer

variable {x : RiscvInstructionTransducer} {t : InstructionTemplate}

theorem repairBits_templates (ht : t ∈ x.templates) :
    repairBits t.name &&& t.fixedMask = 0 ∧
      repairBits t.name < 2 ^ t.width ∧ t.fixedValue < 2 ^ t.width ∧
      t.fixedValue &&& t.fixedMask = t.fixedValue :=
  repairBits_full _ _ t ((sublist_templates x).subset ht)

/-- The word an operation makes of a payload. -/
def repairedWord (t : InstructionTemplate) (payload : ℕ) : RepairedWord :=
  RepairedWord.repairFields ⟨(clear payload t.fixedMask ||| t.fixedValue) &&& (2 ^ t.width - 1), 0⟩
    t.name

/-- **The repaired word** has the width and the fixed bits of its template, is settled, and has the
bits of the payload where nothing was fixed or repaired. -/
theorem repairedWord_spec (ht : t ∈ x.templates) (payload : ℕ) :
    (repairedWord t payload).word < 2 ^ t.width ∧ t.Matches (repairedWord t payload).word ∧
      Settled t.name (repairedWord t payload).word ∧ (repairedWord t payload).word &&&
          clear (2 ^ t.width - 1) (t.fixedMask ||| (repairedWord t payload).repairedMask) =
        payload &&& clear (2 ^ t.width - 1) (t.fixedMask ||| (repairedWord t payload).repairedMask) := by
  obtain ⟨hapart, hwidth, hvalue, hfixed⟩ := repairBits_templates ht
  obtain ⟨bits, hbits, hword, hmask⟩ := extends_repairFields
    ⟨(clear payload t.fixedMask ||| t.fixedValue) &&& (2 ^ t.width - 1), 0⟩ t.name
  change (repairedWord t payload).word = _ at hword
  change (repairedWord t payload).repairedMask = _ at hmask
  rw [Nat.zero_or] at hmask
  have hbitsFixed : bits &&& t.fixedMask = 0 := by
    rw [← hbits, Nat.and_assoc, hapart, Nat.and_zero]
  have hbitsLt : bits < 2 ^ t.width := by
    rw [← hbits]
    exact lt_of_le_of_lt Nat.and_le_right hwidth
  refine ⟨?_, ?_, settled_repairFields _ _, ?_⟩
  · rw [hword]
    exact Nat.or_lt_two_pow (Nat.and_lt_two_pow _ (by have := Nat.two_pow_pos t.width; omega)) hbitsLt
  · unfold InstructionTemplate.Matches
    rw [hword, Nat.and_or_distrib_right, hbitsFixed, Nat.or_zero, Nat.and_right_comm, clear_or_and hfixed]
    exact and_full hvalue
  · rw [hword, hmask]
    refine Nat.eq_of_testBit_eq fun i => ?_
    simp only [Nat.testBit_and, Nat.testBit_or, testBit_clear, Nat.testBit_two_pow_sub_one]
    have hbit : t.fixedMask.testBit i = false → t.fixedValue.testBit i = false := by
      intro hm
      rw [← hfixed, Nat.testBit_and, hm, Bool.and_false]
    cases hf : t.fixedMask.testBit i <;> cases hb : bits.testBit i <;>
      by_cases hi : i < t.width <;> simp [hf, hi, hbit]

/-- **A settled word of a template is legal.** -/
theorem isLegalWord_of_settled (ht : t ∈ x.templates) (hw : w < 2 ^ t.width) (h : t.Matches w)
    (hs : Settled t.name w) : x.provider.isLegalWord w (t.width = 16) = true := by
  have hsupports : ¬ ¬ x.provider.contract.SupportsLegalInstructionValidation := not_not.2 x.supports
  have hnonneg : ¬ (w : ℤ) < 0 := not_lt.2 (Int.natCast_nonneg w)
  unfold isLegalWord
  rw [if_neg hnonneg, if_neg hsupports, Int.toNat_natCast]
  rcases mem_append.1 ht with hbase | hcompressed
  · change t ∈ baseTemplates x.provider.contract at hbase
    obtain ⟨hwidth, -⟩ := width_baseTemplates hbase
    obtain ⟨hmask, hvalue⟩ := lowBits_full _ _ t ((sublist_baseTemplates _).subset hbase)
    rw [hwidth] at hw ⊢
    have hlow : w &&& 0b11 = 0b11 := (h.low hmask).trans hvalue
    rw [if_neg (by decide), if_neg (by push Not; exact ⟨by omega, hlow⟩)]
    exact baseLegal_of_matches hw hbase h
  · split_ifs at hcompressed with hc
    · have hwidth := width_cTemplates hcompressed
      rw [hwidth] at hw ⊢
      rw [if_pos (by decide)]
      exact compressedLegal_of_settled (p := x.provider) hc hw hcompressed h hs
    · cases hcompressed

/-- **Every operation makes an instruction of every payload.** -/
theorem repairTemplate_eq (ht : t ∈ x.templates) (payload : ℕ) :
    x.repairTemplate t payload = .ok ⟨t.name, t.width, (repairedWord t payload).word,
      clear (2 ^ t.width - 1) (t.fixedMask ||| (repairedWord t payload).repairedMask), true⟩ := by
  obtain ⟨hw, hmatches, hs, -⟩ := repairedWord_spec ht payload
  have hlegal := isLegalWord_of_settled ht hw hmatches hs
  unfold repairTemplate InstructionTemplate.repair
  rw [ensure_of (Int.natCast_nonneg payload), ok_bind, Int.toNat_natCast]
  change (do
    ensure (x.provider.isLegalWord (repairedWord t payload).word (t.width = 16)) _
    Except.ok _) = _
  rw [ensure_of hlegal, ok_bind]
  rfl

/-- A repaired word is repaired to itself. -/
theorem repairedWord_word (ht : t ∈ x.templates) (payload : ℕ) :
    (repairedWord t (repairedWord t payload).word).word = (repairedWord t payload).word := by
  obtain ⟨hw, hmatches, hs, -⟩ := repairedWord_spec ht payload
  have hrepair := InstructionTemplate.repair_of_matches hw hmatches
  unfold InstructionTemplate.repair at hrepair
  rw [ensure_of (Int.natCast_nonneg _), ok_bind, Int.toNat_natCast] at hrepair
  have hfixed := Except.ok.inj hrepair
  have hsettled : repairFields ⟨(repairedWord t payload).word, 0⟩ t.name =
    ⟨(repairedWord t payload).word, 0⟩ := repairFields_of_settled hs
  conv_lhs => rw [repairedWord]
  rw [hfixed, hsettled]

/-! ## The illegal choice -/

/-- Opcode 0x4B is no instruction. -/
theorem isLegalWord_wide_false (payload : ℕ) : x.provider.isLegalWord
    (clear (payload &&& (2 ^ 32 - 1)) opcodeMask ||| 0x4B : ℕ) false = false := by
  set word := clear (payload &&& (2 ^ 32 - 1)) opcodeMask ||| 0x4B with hword
  have hop : word &&& 0x7F = 0x4B := clear_or_and (by decide)
  unfold isLegalWord
  split
  · rfl
  split
  · rfl
  rw [if_neg (by decide)]
  split
  · rfl
  rw [Int.toNat_natCast]
  simp only [baseLegal, hop]
  rfl

/-- A parcel of zeros but for its destination is no instruction. -/
theorem isLegalWord_compressed_false (payload : ℕ) :
    x.provider.isLegalWord (payload &&& 0x7 <<< 2 : ℕ) true = false := by
  set word := payload &&& 0x7 <<< 2 with hword
  have hpart : ∀ m, 0x7 <<< 2 &&& m = 0 → word &&& m = 0 := fun m hm => by
    rw [hword, Nat.and_assoc, hm, Nat.and_zero]
  have hq : word &&& 3 = 0 := hpart 3 (by decide)
  have h3 : word >>> 13 &&& 7 = 0 :=
    (and_shiftLeft_eq_iff 13).1 ((hpart (7 <<< 13) (by decide)).trans (Nat.zero_shiftLeft 13).symm)
  unfold isLegalWord
  split
  · rfl
  split
  · rfl
  rw [if_pos rfl, Int.toNat_natCast]
  by_cases hopen : "C" ∉ x.provider.contract.extensions ∨
      x.provider.contract.instructionAlignment ≠ 2 ∨ 0xFFFF < word ∨ word &&& 0b11 = 0b11
  · rw [compressedLegal, if_pos hopen]
  rw [compressedLegal, if_neg hopen]
  simp only [hq, h3, reduceIte]
  refine decide_eq_false (not_not.2 ?_)
  rw [hpart _ (by decide), hpart _ (by decide), hpart _ (by decide), hpart _ (by decide)]
  rfl

theorem illegalChoice_wide (payload : ℕ) : x.illegalChoice payload 32 =
    .ok ⟨"ILLEGAL", 32, clear (payload &&& (2 ^ 32 - 1)) opcodeMask ||| 0x4B,
      clear (2 ^ 32 - 1) opcodeMask, false⟩ := by
  unfold illegalChoice
  rw [ensure_of (Int.natCast_nonneg payload), ok_bind, if_neg (by decide), Int.toNat_natCast]
  exact congrArg Except.ok (congrArg (InstructionChoice.mk "ILLEGAL" 32 _ _)
    (isLegalWord_wide_false payload))

theorem illegalChoice_compressed (payload : ℕ) : x.illegalChoice payload 16 =
    .ok ⟨"ILLEGAL", 16, payload &&& 0x7 <<< 2, 0x7 <<< 2, false⟩ := by
  unfold illegalChoice
  rw [ensure_of (Int.natCast_nonneg payload), ok_bind, if_pos rfl, Int.toNat_natCast]
  exact congrArg Except.ok (congrArg (InstructionChoice.mk "ILLEGAL" 16 _ _)
    (isLegalWord_compressed_false payload))

/-! ## Selection -/

/-- A selector below its bound selects a choice. -/
theorem selectBalanced_ok {α : Type} {choices : List α} (hne : choices ≠ []) {raw : ℕ}
    (h : raw < 2 ^ selectorWidth) : ∃ choice ∈ choices,
      selectBalanced raw selectorWidth choices = .ok choice := by
  have hpos : 0 < choices.length := length_pos_iff.2 hne
  have hlt : min (choices.length - 1) (raw * choices.length / 2 ^ selectorWidth) < choices.length := by
    omega
  refine ⟨_, getElem_mem hlt, ?_⟩
  unfold selectBalanced
  rw [getElem?_eq_getElem hlt]
  exact if_pos ⟨by decide, h⟩

variable {width : ℤ} {v : ℕ}

/-- What a selection returns does not depend on the payload. -/
theorem repair_eq {selector : ℤ} (hselector : 0 ≤ selector ∧ selector < 2 ^ selectorWidth)
    (hwidth : width = 16 ∨ width = 32) (havailable : ∃ t ∈ x.templates, t.width = width)
    (illegal : Bool) : ∃ choice ∈ x.choices illegal width, ∀ payload,
      x.repair selector payload illegal width = match choice with
        | none => x.illegalChoice payload width.toNat
        | some template => x.repairTemplate template payload := by
  obtain ⟨t, ht, htw⟩ := havailable
  have hfilter : (x.templates.filter fun t => (t.width : ℤ) = width) ≠ [] :=
    ne_nil_of_mem (mem_filter.2 ⟨ht, decide_eq_true htw⟩)
  have hchoices : x.choices illegal width ≠ [] := by
    unfold choices
    simp [hfilter]
  have hraw : selector.toNat < 2 ^ selectorWidth := by
    have h := hselector.2
    unfold selectorWidth at h ⊢
    omega
  obtain ⟨choice, hmem, hselect⟩ := selectBalanced_ok hchoices hraw
  refine ⟨choice, hmem, fun payload => ?_⟩
  unfold repair
  rw [ensure_of hselector, ok_bind, ensure_of hwidth, ok_bind, ensure_of hfilter, ok_bind, hselect]
  cases choice <;> rfl

/-- A choice is an operation of the width or, when asked for, none. -/
theorem mem_choices {illegal : Bool} {choice : Option InstructionTemplate}
    (h : choice ∈ x.choices illegal width) :
    (∃ t ∈ x.templates, t.width = width ∧ choice = some t) ∨ choice = none ∧ illegal = true := by
  rcases mem_append.1 h with h | h
  · obtain ⟨t, ht, rfl⟩ := mem_map.1 h
    obtain ⟨ht, hwidth⟩ := mem_filter.1 ht
    exact .inl ⟨t, ht, of_decide_eq_true hwidth, rfl⟩
  · split_ifs at h with hillegal
    · exact .inr ⟨mem_singleton.1 h, hillegal⟩
    · cases h

/-- **What a repair promises**: the payload's bits where the mask is free, a legal word of a named
operation that is repaired to itself, or an illegal word of no operation. -/
structure Repaired (x : RiscvInstructionTransducer) (payload : ℕ) (width : ℤ)
    (choice : InstructionChoice) : Prop where
  width_eq : choice.width = width
  agrees : choice.word &&& choice.freeMask = payload &&& choice.freeMask
  legal_iff : choice.legal = true ↔ choice.operation ≠ "ILLEGAL"
  decoded : x.provider.isLegalWord choice.word (choice.width = 16) = choice.legal
  named : choice.operation ≠ "ILLEGAL" → ∃ again,
    x.repairForOperation choice.operation choice.word = .ok again ∧
      again.operation = choice.operation ∧ again.word = choice.word
  unnamed : choice.operation = "ILLEGAL" → ∃ again,
    x.illegalChoice choice.word choice.width = .ok again ∧ again.word = choice.word

theorem name_ne_illegal (ht : t ∈ x.templates) : t.name ≠ "ILLEGAL" := by
  have hall : ∀ (xlen : ℕ) (h : xlen = 32 ∨ xlen = 64),
      ∀ t ∈ (full xlen h).allTemplates, t.name ≠ "ILLEGAL" := by
    intro xlen h
    rcases h with rfl | rfl <;> decide +kernel
  exact hall _ _ t ((sublist_templates x).subset ht)

/-- A repaired template keeps every promise. -/
theorem repaired_template (ht : t ∈ x.templates) (payload : ℕ) :
    ∃ choice, x.repairTemplate t payload = .ok choice ∧ x.Repaired payload t.width choice ∧
      choice.operation = t.name := by
  obtain ⟨hw, hmatches, hs, hagrees⟩ := repairedWord_spec ht payload
  refine ⟨_, repairTemplate_eq ht payload, ⟨rfl, hagrees, ?_,
    isLegalWord_of_settled ht hw hmatches hs, fun _ => ?_, fun h => absurd h (name_ne_illegal ht)⟩, rfl⟩
  · exact ⟨fun _ => name_ne_illegal ht, fun _ => rfl⟩
  · have hagain : x.repairForOperation t.name (repairedWord t payload).word =
        x.repairTemplate t (repairedWord t payload).word := by
      unfold repairForOperation
      simp only [get?_byName ht]
    exact ⟨_, hagain.trans (repairTemplate_eq ht _), rfl, repairedWord_word ht payload⟩

/-- A field set under a word mask leaves the payload's bits outside the field. -/
theorem clear_or_and_clear (h : v &&& m = v) (p mask : ℕ) :
    (clear (p &&& mask) m ||| v) &&& clear mask m = p &&& clear mask m := by
  refine Nat.eq_of_testBit_eq fun i => ?_
  simp only [Nat.testBit_and, Nat.testBit_or, testBit_clear]
  cases hv : v.testBit i with
  | true => simp [testBit_imp_of_and_eq h hv]
  | false => cases p.testBit i <;> cases mask.testBit i <;> cases m.testBit i <;> rfl

/-- Setting a field under a word mask a second time changes nothing. -/
theorem clear_or_idem (h : v &&& m = v) (hmask : v &&& mask = v) (p : ℕ) :
    clear ((clear (p &&& mask) m ||| v) &&& mask) m ||| v = clear (p &&& mask) m ||| v := by
  set word := clear (p &&& mask) m ||| v with hword
  have hin : word &&& mask = word := by
    refine Nat.eq_of_testBit_eq fun i => ?_
    simp only [hword, Nat.testBit_and, Nat.testBit_or, testBit_clear]
    cases hv : v.testBit i with
    | true => simp [testBit_imp_of_and_eq hmask hv]
    | false => cases p.testBit i <;> cases mask.testBit i <;> cases m.testBit i <;> rfl
  have hfield : word &&& m = v := clear_or_and h
  calc clear (word &&& mask) m ||| v
      = clear word m ||| (word &&& m) := by rw [hin, hfield]
    _ = word := clear_or_and_self word m

/-- The illegal choice keeps every promise. -/
theorem repaired_illegal (hwidth : width = 16 ∨ width = 32) (payload : ℕ) :
    ∃ choice, x.illegalChoice payload width.toNat = .ok choice ∧ x.Repaired payload width choice ∧
      choice.operation = "ILLEGAL" := by
  rcases hwidth with rfl | rfl
  · refine ⟨_, illegalChoice_compressed payload, ⟨rfl, ?_, ?_, ?_, fun h => absurd rfl h,
      fun _ => ⟨_, illegalChoice_compressed _, ?_⟩⟩, rfl⟩
    · show payload &&& 0x7 <<< 2 &&& 0x7 <<< 2 = payload &&& 0x7 <<< 2
      rw [Nat.and_assoc, Nat.and_self]
    · exact ⟨fun h => absurd h Bool.false_ne_true, fun h => absurd rfl h⟩
    · exact isLegalWord_compressed_false payload
    · show payload &&& 0x7 <<< 2 &&& 0x7 <<< 2 = payload &&& 0x7 <<< 2
      rw [Nat.and_assoc, Nat.and_self]
  · refine ⟨_, illegalChoice_wide payload, ⟨rfl, ?_, ?_, ?_, fun h => absurd rfl h,
      fun _ => ⟨_, illegalChoice_wide _, ?_⟩⟩, rfl⟩
    · exact clear_or_and_clear (by decide) payload _
    · exact ⟨fun h => absurd h Bool.false_ne_true, fun h => absurd rfl h⟩
    · exact isLegalWord_wide_false payload
    · exact clear_or_idem (by decide) (by decide) payload

/-- **Repair never fails and is minimal**: it returns for every width it has an operation for, keeps
every bit of the free mask, is legal exactly under a name, and repairs its own word to itself. -/
theorem repair_total {width : ℤ} (havailable : ∃ t ∈ x.templates, t.width = width) {selector : ℤ}
    (hselector : 0 ≤ selector ∧ selector < 256) (payload : ℕ) (illegal : Bool) :
    ∃ choice, x.repair selector payload illegal width = .ok choice ∧
      x.Repaired payload width choice ∧ (choice.operation = "ILLEGAL" → illegal = true) := by
  have hwidth : width = 16 ∨ width = 32 := by
    obtain ⟨t, ht, rfl⟩ := havailable
    have hmem := (valid_templates x t ht).2.2.1
    simp only [List.mem_cons, List.not_mem_nil, or_false] at hmem
    omega
  obtain ⟨choice, hmem, hrepair⟩ := x.repair_eq hselector hwidth havailable illegal
  rcases mem_choices hmem with ⟨t, ht, rfl, rfl⟩ | ⟨rfl, hillegal⟩
  · obtain ⟨repaired, heq, hkept, hname⟩ := repaired_template ht payload
    exact ⟨repaired, (hrepair payload).trans heq, hkept,
      fun h => absurd (hname.symm.trans h) (name_ne_illegal ht)⟩
  · obtain ⟨repaired, heq, hkept, -⟩ := repaired_illegal hwidth payload
    exact ⟨repaired, (hrepair payload).trans heq, hkept, fun _ => hillegal⟩

/-- Selector 20 of the parcels of RV64IMC, under a payload of zeros. -/
theorem zero_parcel_repaired : ∃ choice,
    (⟨IsaContract.full 64 (.inr rfl), by decide⟩ : RiscvInstructionTransducer).repair 20 (0 : ℕ) true 16 =
      .ok choice ∧
    (⟨IsaContract.full 64 (.inr rfl), by decide⟩ : RiscvInstructionTransducer).Repaired 0 16 choice ∧
    (choice.operation = "ILLEGAL" → true = true) :=
  repair_total (by decide +kernel) (by decide) 0 true

end RiscvInstructionTransducer

end MyFuzz
