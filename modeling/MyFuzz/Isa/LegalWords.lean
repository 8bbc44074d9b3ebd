import MyFuzz.Isa.Transducer

/-!
# Isa/LegalWords — the templates emit the legal words

A template emits a word unchanged when the word has its fixed bits and no repair of the operation
applies.  `baseLegal` and `compressedLegal` are read branch by branch, and every branch that accepts
a word names the template that emits it:

    isLegalWord w  ──branch──▸  t ∈ templates, t.Matches w, no repair  ──▸  repairForOperation t.name w = w
-/

namespace MyFuzz

open BitField Outcome RepairedWord RiscvInstructionProvider IsaContract List

variable {w : ℕ}

variable {t : InstructionTemplate} {m s opcode extraMask extraValue funct3 : ℕ} {extension name : String}

namespace InstructionTemplate

/-- The word has the fixed bits of the template. -/
def Matches (t : InstructionTemplate) (w : ℕ) : Prop := w &&& t.fixedMask = t.fixedValue

/-- The word comes out of the template as it went in. -/
def Emits (t : InstructionTemplate) (w : ℕ) : Prop :=
  t.Matches w ∧ (RepairedWord.repairFields ⟨w, 0⟩ t.name).word = w

theorem repair_of_matches (hw : w < 2 ^ t.width) (h : t.Matches w) : t.repair w = .ok w := by
  unfold repair
  rw [ensure_of (Int.natCast_nonneg w), ok_bind, Int.toNat_natCast, ← h, clear_or_and_self, and_full hw]
  rfl

end InstructionTemplate

/-! ## Fields of a template -/

theorem and_or_of_eq {m₁ m₂ v₁ v₂ : ℕ} (h₁ : w &&& m₁ = v₁) (h₂ : w &&& m₂ = v₂) :
    w &&& (m₁ ||| m₂) = v₁ ||| v₂ := by
  rw [Nat.and_or_distrib_left, h₁, h₂]

theorem and_shiftLeft_of_eq {v : ℕ} (h : w >>> s &&& m = v) : w &&& m <<< s = v <<< s :=
  (and_shiftLeft_eq_iff s).2 h

theorem matches_opcode (hop : w &&& opcodeMask = opcode) :
    (baseTemplate name extension opcode none none 0 0).Matches w :=
  and_or_of_eq hop (Nat.and_zero w)

theorem matches_extra (hop : w &&& opcodeMask = opcode) (h3 : w >>> 12 &&& 7 = funct3)
    (he : w &&& extraMask = extraValue) :
    (baseTemplate name extension opcode (some funct3) none extraMask extraValue).Matches w :=
  and_or_of_eq (and_or_of_eq hop he) (and_shiftLeft_of_eq h3)

theorem matches_funct7 {funct7 : ℕ} (hop : w &&& opcodeMask = opcode) (h3 : w >>> 12 &&& 7 = funct3)
    (h7 : w >>> 25 &&& 0x7F = funct7) :
    (baseTemplate name extension opcode (some funct3) (some funct7) 0 0).Matches w :=
  and_or_of_eq (and_or_of_eq (and_or_of_eq hop (Nat.and_zero w)) (and_shiftLeft_of_eq h3))
    (and_shiftLeft_of_eq h7)

/-- **A listed first function field is a form.** -/
theorem exists_funct3Form {forms : List (String × ℕ)} (hop : w &&& opcodeMask = opcode)
    (h3 : w >>> 12 &&& 7 ∈ forms.map Prod.snd) :
    ∃ t ∈ funct3Forms extension opcode forms, t.Matches w := by
  obtain ⟨form, hform, hf⟩ := mem_map.1 h3
  exact ⟨_, mem_map_of_mem hform, matches_extra hop hf.symm (Nat.and_zero w)⟩

/-- **A listed pair of function fields is a form.** -/
theorem exists_funct7Form {forms : List (String × ℕ × ℕ)} (hop : w &&& opcodeMask = opcode)
    (h : (w >>> 12 &&& 7, w >>> 25 &&& 0x7F) ∈ forms.map Prod.snd) :
    ∃ t ∈ funct7Forms extension opcode forms, t.Matches w := by
  obtain ⟨form, hform, hf⟩ := mem_map.1 h
  obtain ⟨h3, h7⟩ := Prod.ext_iff.1 hf
  exact ⟨_, mem_map_of_mem hform, matches_funct7 hop h3.symm h7.symm⟩

theorem funct3_lt (w s : ℕ) : w >>> s &&& 7 < 8 := Nat.lt_succ_of_le Nat.and_le_right

/-- The fields of a system word are the word. -/
theorem and_system {immediate : ℕ} (hop : w &&& 0x7F = 0x73) (hrd : w >>> 7 &&& 0x1F = 0)
    (h3 : w >>> 12 &&& 7 = 0) (hrs1 : w >>> 15 &&& 0x1F = 0) (himm : w >>> 20 &&& 0xFFF = immediate) :
    w &&& 0xFFFFFFFF = 0x73 ||| immediate <<< 20 := by
  have h := and_or_of_eq (and_or_of_eq (and_or_of_eq (and_or_of_eq hop (and_shiftLeft_of_eq hrd))
    (and_shiftLeft_of_eq h3)) (and_shiftLeft_of_eq hrs1)) (and_shiftLeft_of_eq himm)
  exact h

/-! ## The base set -/

section Base

variable {p : RiscvInstructionProvider}

/-- The templates of 32 bits of a contract. -/
def baseTemplates (contract : IsaContract) : List InstructionTemplate :=
  iTemplates contract ++ if "M" ∈ contract.extensions then mTemplates contract else []

theorem exists_shift (hop : w &&& opcodeMask = 0x13)
    (h : w >>> 12 &&& 7 = 1 ∧ w &&& shiftMask p.contract = 0 ∨
      w >>> 12 &&& 7 = 5 ∧ (w &&& shiftMask p.contract = 0 ∨ w &&& shiftMask p.contract = 0x20 <<< 25)) :
    ∃ t ∈ shiftTemplates p.contract, t.Matches w := by
  rcases h with ⟨h3, he⟩ | ⟨h3, he | he⟩
  · exact ⟨_, .head _, matches_extra hop h3 he⟩
  · exact ⟨_, .tail _ (.head _), matches_extra hop h3 he⟩
  · exact ⟨_, .tail _ (.tail _ (.head _)), matches_extra hop h3 he⟩

/-- **The bits above a shift amount are fixed by the template.** -/
theorem and_shiftMask (hw : w < 2 ^ 32) {k : ℕ}
    (h : if p.contract.xlen = 64 then w >>> 26 = k else w >>> 25 &&& 0x7F = k * 2) :
    w &&& shiftMask p.contract = (k * 2) <<< 25 := by
  unfold shiftMask
  rcases p.contract.xlen_eq with hx | hx
  · rw [hx, if_neg (by decide)] at h
    rw [hx, if_pos rfl]
    exact and_shiftLeft_of_eq h
  · rw [hx, if_pos rfl] at h
    rw [hx, if_neg (by decide)]
    have hfull : w >>> 26 &&& 0x3F = k := by
      have hlt : w >>> 26 < 2 ^ 6 := by
        rw [Nat.shiftRight_eq_div_pow]
        omega
      rw [← h]
      exact and_full hlt
    rw [and_shiftLeft_of_eq hfull, Nat.shiftLeft_eq, Nat.shiftLeft_eq]
    omega

theorem exists_of_opImm (hw : w < 2 ^ 32) (hop : w &&& 0x7F = 0x13) (h : p.baseLegal w = true) :
    (∃ t ∈ funct3Forms "I" 0x13 opImmForms, t.Matches w) ∨ ∃ t ∈ shiftTemplates p.contract, t.Matches w := by
  simp only [baseLegal, hop, if_true] at h
  split at h
  · next h3 => exact .inl (exists_funct3Form hop h3)
  · refine .inr (exists_shift hop ?_)
    split at h
    · next h3 =>
      refine .inl ⟨h3, and_shiftMask (k := 0) hw ?_⟩
      split_ifs at h ⊢ <;> exact of_decide_eq_true h
    · split at h
      · next h3 =>
        refine .inr ⟨h3, ?_⟩
        have hk : (if p.contract.xlen = 64 then w >>> 26 = 0 else w >>> 25 &&& 0x7F = 0 * 2) ∨
            if p.contract.xlen = 64 then w >>> 26 = 0x10 else w >>> 25 &&& 0x7F = 0x10 * 2 := by
          split_ifs at h ⊢ <;> simpa using h
        exact hk.imp (and_shiftMask (k := 0) hw) (and_shiftMask (k := 0x10) hw)
      · exact absurd h Bool.false_ne_true

theorem exists_of_wide (hop : w &&& 0x7F = 0x1B) (h : p.baseLegal w = true) :
    p.contract.xlen = 64 ∧ ∃ t ∈ wideTemplates, t.Matches w := by
  simp only [baseLegal, hop, Nat.reduceEqDiff, reduceIte] at h
  split_ifs at h with hx h3 h3'
  · exact ⟨not_not.1 hx, _, .head _, matches_extra hop h3 (Nat.and_zero w)⟩
  · exact ⟨not_not.1 hx, _, .tail _ (.head _), matches_funct7 hop h3' (of_decide_eq_true h)⟩
  · refine ⟨not_not.1 hx, ?_⟩
    simp only [mem_cons, not_mem_nil, or_false, decide_eq_true_eq] at h
    rcases h with ⟨h5, h7 | h7⟩
    · exact ⟨_, .tail _ (.tail _ (.head _)), matches_funct7 hop h5 h7⟩
    · exact ⟨_, .tail _ (.tail _ (.tail _ (.head _))), matches_funct7 hop h5 h7⟩

theorem exists_of_op32 (hop : w &&& 0x7F = 0x3B) (h : p.baseLegal w = true) :
    p.contract.xlen = 64 ∧ ((∃ t ∈ funct7Forms "I" 0x3B op32Forms, t.Matches w) ∨
      "M" ∈ p.contract.extensions ∧ ∃ t ∈ funct7Forms "M" 0x3B mul32Forms, t.Matches w) := by
  simp only [baseLegal, hop, Nat.reduceEqDiff, reduceIte, mem_cons,
    not_mem_nil, or_false] at h
  split_ifs at h with hx h7 h7'
  · refine ⟨not_not.1 hx, .inl (exists_funct7Form hop ?_)⟩
    simpa [op32Forms, h7] using h
  · refine ⟨not_not.1 hx, .inl (exists_funct7Form hop ?_)⟩
    simpa [op32Forms, h7'] using h
  · obtain ⟨h1, h3, hM⟩ := of_decide_eq_true h
    refine ⟨not_not.1 hx, .inr ⟨hM, exists_funct7Form hop ?_⟩⟩
    simpa [mul32Forms, h1] using h3

variable {f : ℕ}

/-- Every first function field is a form of the operations without a second one. -/
theorem mem_opForms (hf : f < 8) : (f, 0) ∈ opForms.map Prod.snd := by
  interval_cases f <;> decide

theorem mem_mulForms (hf : f < 8) : (f, 1) ∈ mulForms.map Prod.snd := by
  interval_cases f <;> decide

theorem exists_of_op (hop : w &&& 0x7F = 0x33) (h : p.baseLegal w = true) :
    (∃ t ∈ funct7Forms "I" 0x33 opForms, t.Matches w) ∨
      "M" ∈ p.contract.extensions ∧ ∃ t ∈ funct7Forms "M" 0x33 mulForms, t.Matches w := by
  simp only [baseLegal, hop, Nat.reduceEqDiff, reduceIte] at h
  split_ifs at h with h1 h0
  · refine .inr ⟨of_decide_eq_true h, exists_funct7Form hop ?_⟩
    rw [h1]
    exact mem_mulForms (funct3_lt w 12)
  · refine .inl (exists_funct7Form hop ?_)
    rw [h0]
    exact mem_opForms (funct3_lt w 12)
  · obtain ⟨h7, h3⟩ := of_decide_eq_true h
    refine .inl (exists_funct7Form hop ?_)
    rcases mem_pair.1 h3 with h3 | h3
    · rw [h3, h7]
      decide
    · rw [h3, h7]
      decide

theorem exists_of_load (hop : w &&& 0x7F = 0x03) (h : p.baseLegal w = true) :
    ∃ t ∈ funct3Forms "I" 0x03 (loadForms p.contract), t.Matches w := by
  simp only [baseLegal, hop, Nat.reduceEqDiff, reduceIte] at h
  refine exists_funct3Form hop ?_
  unfold loadForms
  have h3 := of_decide_eq_true h
  rcases p.contract.xlen_eq with hx | hx
  · rw [if_pos hx] at h3
    simpa [hx] using h3
  · rw [if_neg (by omega)] at h3
    simp only [hx, if_true, map_append, mem_append, map_cons, map_nil,
      mem_cons, not_mem_nil, or_false] at h3 ⊢
    omega

theorem exists_of_store (hop : w &&& 0x7F = 0x23) (h : p.baseLegal w = true) :
    ∃ t ∈ funct3Forms "I" 0x23 (storeForms p.contract), t.Matches w := by
  simp only [baseLegal, hop, Nat.reduceEqDiff, reduceIte] at h
  refine exists_funct3Form hop ?_
  unfold storeForms
  have h3 := of_decide_eq_true h
  rcases p.contract.xlen_eq with hx | hx
  · rw [if_pos hx] at h3
    simpa [hx] using h3
  · rw [if_neg (by omega)] at h3
    simpa [hx] using h3

theorem exists_of_branch (hop : w &&& 0x7F = 0x63) (h : p.baseLegal w = true) :
    ∃ t ∈ funct3Forms "I" 0x63 branchForms, t.Matches w := by
  simp only [baseLegal, hop, Nat.reduceEqDiff, reduceIte] at h
  exact exists_funct3Form hop (of_decide_eq_true h)

theorem exists_of_upper (hop : w &&& 0x7F ∈ [0x17, 0x37, 0x6F]) : ∃ t ∈ jumpTemplates, t.Matches w := by
  simp only [mem_cons, not_mem_nil, or_false] at hop
  rcases hop with hop | hop | hop
  · exact ⟨_, .head _, matches_opcode hop⟩
  · exact ⟨_, .tail _ (.head _), matches_opcode hop⟩
  · exact ⟨_, .tail _ (.tail _ (.head _)), matches_opcode hop⟩

theorem exists_of_jalr (hop : w &&& 0x7F = 0x67) (h : p.baseLegal w = true) :
    ∃ t ∈ jumpTemplates, t.Matches w := by
  simp only [baseLegal, hop, Nat.reduceEqDiff, reduceIte, mem_cons,
    not_mem_nil, or_false] at h
  exact ⟨_, .tail _ (.tail _ (.tail _ (.head _))), matches_extra hop (of_decide_eq_true h) (Nat.and_zero w)⟩

theorem exists_of_fence (hop : w &&& 0x7F = 0x0F) (h : p.baseLegal w = true) :
    ∃ t ∈ jumpTemplates, t.Matches w := by
  simp only [baseLegal, hop, Nat.reduceEqDiff, reduceIte, mem_cons,
    not_mem_nil, or_false] at h
  obtain ⟨h3, hrd, hrs1, hmode⟩ := of_decide_eq_true h
  exact ⟨_, .tail _ (.tail _ (.tail _ (.tail _ (.head _)))), matches_extra hop h3
    (and_or_of_eq (and_or_of_eq (and_shiftLeft_of_eq hmode) (and_shiftLeft_of_eq hrs1))
      (and_shiftLeft_of_eq hrd))⟩

theorem exists_word {word : ℕ} {words : List (String × ℕ)} (hmem : (name, word) ∈ words)
    (h : w &&& 0xFFFFFFFF = word) : ∃ t ∈ wordTemplates words, t.Matches w :=
  ⟨_, mem_map_of_mem hmem, h⟩

theorem exists_of_system (hop : w &&& 0x7F = 0x73) (h : p.baseLegal w = true) :
    ∃ t ∈ wordTemplates (systemWords p.contract), t.Matches w := by
  simp only [baseLegal, hop, Nat.reduceEqDiff, reduceIte, mem_cons,
    not_mem_nil, or_false] at h
  split_ifs at h with hfields himm hmret hsret
  all_goals
    push Not at hfields
    obtain ⟨h3, hrd, hrs1⟩ := hfields
  · rcases himm with himm | himm
    · have hmem : ("ECALL", 0x73) ∈ systemWords p.contract := by simp [systemWords]
      exact exists_word hmem (and_system hop hrd h3 hrs1 himm)
    · have hmem : ("EBREAK", 0x100073) ∈ systemWords p.contract := by simp [systemWords]
      exact exists_word hmem (and_system hop hrd h3 hrs1 himm)
  · have hmem : ("MRET", 0x30200073) ∈ systemWords p.contract := by
      simp [systemWords, of_decide_eq_true h]
    exact exists_word hmem (and_system hop hrd h3 hrs1 hmret)
  · have hmem : ("SRET", 0x10200073) ∈ systemWords p.contract := by
      simp [systemWords, of_decide_eq_true h]
    exact exists_word hmem (and_system hop hrd h3 hrs1 hsret)
  · have hmem : ("WFI", 0x10500073) ∈ systemWords p.contract := by simp [systemWords]
    exact exists_word hmem (and_system hop hrd h3 hrs1 (of_decide_eq_true h))

theorem mem_iTemplates {contract : IsaContract}
    (h : t ∈ funct3Forms "I" 0x13 opImmForms ∨ t ∈ shiftTemplates contract ∨
      t ∈ funct7Forms "I" 0x33 opForms ∨ t ∈ funct3Forms "I" 0x03 (loadForms contract) ∨
      t ∈ funct3Forms "I" 0x23 (storeForms contract) ∨ t ∈ funct3Forms "I" 0x63 branchForms ∨
      t ∈ jumpTemplates ∨ t ∈ wordTemplates (systemWords contract) ∨
      contract.xlen = 64 ∧ t ∈ wideTemplates) : t ∈ iTemplates contract := by
  simp only [iTemplates, mem_append]
  split_ifs with hx
  · tauto
  · tauto

/-- The opcodes that have legal words. -/
theorem opcode_of_baseLegal (h : p.baseLegal w = true) :
    w &&& 0x7F = 0x13 ∨ w &&& 0x7F = 0x1B ∨ w &&& 0x7F = 0x3B ∨ w &&& 0x7F = 0x33 ∨
      w &&& 0x7F = 0x03 ∨ w &&& 0x7F = 0x23 ∨ w &&& 0x7F = 0x63 ∨
      w &&& 0x7F ∈ [0x17, 0x37, 0x6F] ∨ w &&& 0x7F = 0x67 ∨ w &&& 0x7F = 0x0F ∨ w &&& 0x7F = 0x73 := by
  by_contra hnot
  push Not at hnot
  obtain ⟨h1, h2, h3, h4, h5, h6, h7, h8, h9, h10, h11⟩ := hnot
  unfold baseLegal at h
  dsimp only at h
  rw [if_neg h1, if_neg h2, if_neg h3, if_neg h4, if_neg h5, if_neg h6, if_neg h7, if_neg h8,
    if_neg h9, if_neg h10, if_neg h11] at h
  exact Bool.false_ne_true h

/-- **A legal word of 32 bits has a template.** -/
theorem exists_of_baseLegal (hw : w < 2 ^ 32) (h : p.baseLegal w = true) :
    ∃ t ∈ baseTemplates p.contract, t.Matches w := by
  have hi : ∀ {t}, t ∈ iTemplates p.contract → t ∈ baseTemplates p.contract :=
    fun ht => mem_append_left _ ht
  have hm : ∀ {t}, "M" ∈ p.contract.extensions → t ∈ mTemplates p.contract →
      t ∈ baseTemplates p.contract := by
    intro t hM ht
    refine mem_append_right _ ?_
    rw [if_pos hM]
    exact ht
  rcases opcode_of_baseLegal h with hop | hop | hop | hop | hop | hop | hop | hop | hop | hop | hop
  · rcases exists_of_opImm hw hop h with ⟨t, ht, hmatch⟩ | ⟨t, ht, hmatch⟩
    · exact ⟨t, hi (mem_iTemplates (by tauto)), hmatch⟩
    · exact ⟨t, hi (mem_iTemplates (by tauto)), hmatch⟩
  · obtain ⟨hx, t, ht, hmatch⟩ := exists_of_wide hop h
    exact ⟨t, hi (mem_iTemplates (by tauto)), hmatch⟩
  · obtain ⟨hx, ⟨t, ht, hmatch⟩ | ⟨hM, t, ht, hmatch⟩⟩ := exists_of_op32 hop h
    · have hwide : t ∈ wideTemplates := mem_append_right _ ht
      exact ⟨t, hi (mem_iTemplates (by tauto)), hmatch⟩
    · refine ⟨t, hm hM (mem_append_right _ ?_), hmatch⟩
      rw [if_pos hx]
      exact ht
  · obtain ⟨t, ht, hmatch⟩ | ⟨hM, t, ht, hmatch⟩ := exists_of_op hop h
    · exact ⟨t, hi (mem_iTemplates (by tauto)), hmatch⟩
    · exact ⟨t, hm hM (mem_append_left _ ht), hmatch⟩
  · obtain ⟨t, ht, hmatch⟩ := exists_of_load hop h
    exact ⟨t, hi (mem_iTemplates (by tauto)), hmatch⟩
  · obtain ⟨t, ht, hmatch⟩ := exists_of_store hop h
    exact ⟨t, hi (mem_iTemplates (by tauto)), hmatch⟩
  · obtain ⟨t, ht, hmatch⟩ := exists_of_branch hop h
    exact ⟨t, hi (mem_iTemplates (by tauto)), hmatch⟩
  · obtain ⟨t, ht, hmatch⟩ := exists_of_upper hop
    exact ⟨t, hi (mem_iTemplates (by tauto)), hmatch⟩
  · obtain ⟨t, ht, hmatch⟩ := exists_of_jalr hop h
    exact ⟨t, hi (mem_iTemplates (by tauto)), hmatch⟩
  · obtain ⟨t, ht, hmatch⟩ := exists_of_fence hop h
    exact ⟨t, hi (mem_iTemplates (by tauto)), hmatch⟩
  · obtain ⟨t, ht, hmatch⟩ := exists_of_system hop h
    exact ⟨t, hi (mem_iTemplates (by tauto)), hmatch⟩

end Base

/-! ## Compressed instructions -/

section Compressed

variable {p : RiscvInstructionProvider}

theorem and_shiftLeft_ne_zero (h : w >>> s &&& m ≠ 0) : w &&& m <<< s ≠ 0 := by
  intro h0
  rw [← Nat.zero_shiftLeft s] at h0
  exact h ((and_shiftLeft_eq_iff s).1 h0)

/-- The immediate of a compressed word, in one piece or under its mask. -/
theorem and_cImmediateMask_eq_zero :
    w &&& cImmediateMask = 0 ↔ (w >>> 2 &&& 0x1F) ||| (w >>> 12 &&& 1) <<< 5 = 0 := by
  have hlow : w &&& 0x1F <<< 2 = 0 ↔ w >>> 2 &&& 0x1F = 0 := and_shiftLeft_eq_iff (v := 0) 2
  have hhigh : w &&& 1 <<< 12 = 0 ↔ w >>> 12 &&& 1 = 0 := and_shiftLeft_eq_iff (v := 0) 12
  unfold cImmediateMask
  rw [Nat.and_or_distrib_left, Nat.or_eq_zero_iff, Nat.or_eq_zero_iff, hlow, hhigh,
    Nat.shiftLeft_eq_zero_iff, and_comm]

theorem matches_compressed {quadrant : ℕ} (hq : w &&& 3 = quadrant) (h3 : w >>> 13 &&& 7 = funct3)
    (he : w &&& extraMask = extraValue) :
    (compressedTemplate name quadrant funct3 extraMask extraValue).Matches w :=
  and_or_of_eq (and_or_of_eq (and_shiftLeft_of_eq h3) hq) he

namespace RepairedWord

variable {r : RepairedWord}

theorem ensureNonzero_of_ne {mask : ℕ} (h : r.word &&& mask ≠ 0) : r.ensureNonzero mask = r := if_neg h

/-- The operations with reserved encodings. -/
def repairedNames : List String :=
  ["C.ADDI4SPN", "C.ADDI", "C.LI", "C.ADDIW", "C.LWSP", "C.LDSP", "C.JR", "C.JALR", "C.ADDI16SP",
    "C.LUI", "C.SRLI", "C.SRAI", "C.SLLI", "C.MV", "C.ADD"]

theorem repairFields_of_notMem (h : name ∉ repairedNames) : r.repairFields name = r := by
  simp only [repairedNames, mem_cons, not_mem_nil, or_false, not_or] at h
  simp [repairFields, h]

end RepairedWord

open RepairedWord

theorem emits_of_notMem (h : t.Matches w) (hn : t.name ∉ repairedNames) : t.Emits w := by
  refine ⟨h, ?_⟩
  rw [repairFields_of_notMem hn]

/-- An operation that needs a destination register. -/
theorem emits_of_rd (h : t.Matches w)
    (hn : t.name ∈ ["C.LI", "C.ADDIW", "C.LWSP", "C.LDSP", "C.JR", "C.JALR"])
    (hrd : w >>> 7 &&& 0x1F ≠ 0) : t.Emits w := by
  have hrepair : repairFields ⟨w, 0⟩ t.name
      = ensureNonzero ⟨w, 0⟩ cRdMask := by
    simp only [mem_cons, not_mem_nil, or_false] at hn
    rcases hn with hn | hn | hn | hn | hn | hn <;> rw [hn] <;> rfl
  exact ⟨h, congrArg word
    (hrepair.trans (ensureNonzero_of_ne (and_shiftLeft_ne_zero hrd)))⟩

variable {quadrant : ℕ}

/-- An operation without reserved encodings emits what its template matches. -/
theorem exists_plain (name : String) (hq : w &&& 3 = quadrant) (h3 : w >>> 13 &&& 7 = funct3)
    (he : w &&& extraMask = extraValue)
    (hmem : compressedTemplate name quadrant funct3 extraMask extraValue ∈ cTemplates p.contract)
    (hn : name ∉ repairedNames) : ∃ t ∈ cTemplates p.contract, t.Emits w :=
  ⟨_, hmem, emits_of_notMem (matches_compressed hq h3 he) hn⟩

theorem exists_rd (name : String) (hq : w &&& 3 = quadrant) (h3 : w >>> 13 &&& 7 = funct3)
    (he : w &&& extraMask = extraValue)
    (hmem : compressedTemplate name quadrant funct3 extraMask extraValue ∈ cTemplates p.contract)
    (hn : name ∈ ["C.LI", "C.ADDIW", "C.LWSP", "C.LDSP", "C.JR", "C.JALR"])
    (hrd : w >>> 7 &&& 0x1F ≠ 0) : ∃ t ∈ cTemplates p.contract, t.Emits w :=
  ⟨_, hmem, emits_of_rd (matches_compressed hq h3 he) hn hrd⟩

/-- **A legal compressed word of the first quadrant has a template.** -/
theorem exists_of_quadrant0 (hq : w &&& 3 = 0) (h : p.compressedLegal w = true) :
    ∃ t ∈ cTemplates p.contract, t.Emits w := by
  simp only [compressedLegal, hq, Nat.reduceEqDiff, reduceIte,
    mem_cons, not_mem_nil, or_false] at h
  split_ifs at h with hno h3 h3'
  · have himm : w &&& cAddi4spnImmediateMask ≠ 0 := by
      intro h0
      refine of_decide_eq_true h ?_
      rw [← Nat.and_or_distrib_left, ← Nat.and_or_distrib_left, ← Nat.and_or_distrib_left]
      exact h0
    refine ⟨compressedTemplate "C.ADDI4SPN" 0 0 0 0, by simp [cTemplates],
      matches_compressed hq h3 (Nat.and_zero w), ?_⟩
    exact congrArg word (ensureNonzero_of_ne himm)
  · rcases h3' with h3' | h3'
    · exact exists_plain "C.LW" hq h3' (Nat.and_zero w) (by simp [cTemplates]) (by decide)
    · exact exists_plain "C.SW" hq h3' (Nat.and_zero w) (by simp [cTemplates]) (by decide)
  · obtain ⟨h3 | h3, hx⟩ := of_decide_eq_true h
    · exact exists_plain "C.LD" hq h3 (Nat.and_zero w) (by simp [cTemplates, hx]) (by decide)
    · exact exists_plain "C.SD" hq h3 (Nat.and_zero w) (by simp [cTemplates, hx]) (by decide)

/-- The top bit of a shift amount is free or reserved. -/
theorem and_shiftAmountMask
    (h : p.contract.xlen = 64 ∨ ((w >>> 2 &&& 0x1F) ||| (w >>> 12 &&& 1) <<< 5) &&& 0x20 = 0) :
    w &&& shiftAmountMask p.contract = 0 := by
  unfold shiftAmountMask
  rcases p.contract.xlen_eq with hx | hx
  · rw [if_pos hx]
    have h0 := h.resolve_left (by omega)
    refine and_shiftLeft_of_eq (v := 0) ?_
    have hbit : (w >>> 12 &&& 1) <<< 5 &&& 1 <<< 5 = 0 := by
      rw [Nat.and_or_distrib_right] at h0
      exact (Nat.or_eq_zero_iff.1 h0).2
    rw [← Nat.shiftLeft_and_distrib, Nat.shiftLeft_eq_zero_iff, Nat.and_assoc, Nat.and_self] at hbit
    exact hbit
  · rw [if_neg (by omega)]
    exact Nat.and_zero w

/-- The compressed operations on registers. -/
theorem exists_of_compressedRegister (hq : w &&& 3 = 1) (h3 : w >>> 13 &&& 7 = 4) (hop : w >>> 10 &&& 3 = 3)
    (h : w >>> 12 &&& 1 = 1 ∧ p.contract.xlen = 64 ∧ (w >>> 5 &&& 3 = 0 ∨ w >>> 5 &&& 3 = 1) ∨
      w >>> 12 &&& 1 = 0) :
    ∃ t ∈ cTemplates p.contract, t.Emits w := by
  have hextra : ∀ {b o : ℕ}, w >>> 12 &&& 1 = b → w >>> 5 &&& 3 = o →
      w &&& cRegisterMask = b <<< 12 ||| 3 <<< 10 ||| o <<< 5 := fun hb ho =>
    and_or_of_eq (and_or_of_eq (and_shiftLeft_of_eq hb) (and_shiftLeft_of_eq hop))
      (and_shiftLeft_of_eq ho)
  rcases h with ⟨hb, hx, ho | ho⟩ | hb
  · exact exists_plain "C.SUBW" hq h3 (hextra hb ho) (by simp [cTemplates, hx]) (by decide)
  · exact exists_plain "C.ADDW" hq h3 (hextra hb ho) (by simp [cTemplates, hx]) (by decide)
  · have hlt : w >>> 5 &&& 3 ≤ 3 := Nat.and_le_right
    obtain ho | ho | ho | ho : w >>> 5 &&& 3 = 0 ∨ w >>> 5 &&& 3 = 1 ∨ w >>> 5 &&& 3 = 2 ∨
        w >>> 5 &&& 3 = 3 := by omega
    · exact exists_plain "C.SUB" hq h3 (hextra hb ho) (by simp [cTemplates]) (by decide)
    · exact exists_plain "C.XOR" hq h3 (hextra hb ho) (by simp [cTemplates]) (by decide)
    · exact exists_plain "C.OR" hq h3 (hextra hb ho) (by simp [cTemplates]) (by decide)
    · exact exists_plain "C.AND" hq h3 (hextra hb ho) (by simp [cTemplates]) (by decide)

/-- The compressed shifts to the right. -/
theorem exists_of_compressedShift (hq : w &&& 3 = 1) (h3 : w >>> 13 &&& 7 = 4)
    (hop : w >>> 10 &&& 3 = 0 ∨ w >>> 10 &&& 3 = 1) (himm : w &&& cImmediateMask ≠ 0)
    (hshift : w &&& shiftAmountMask p.contract = 0) :
    ∃ t ∈ cTemplates p.contract, t.Emits w := by
  rcases hop with hop | hop
  · refine ⟨compressedTemplate "C.SRLI" 1 4 (0x3 <<< 10 ||| shiftAmountMask p.contract) 0,
      by simp [cTemplates],
      matches_compressed hq h3 (and_or_of_eq (and_shiftLeft_of_eq (v := 0) hop) hshift), ?_⟩
    exact congrArg word (ensureNonzero_of_ne himm)
  · refine ⟨compressedTemplate "C.SRAI" 1 4 (0x3 <<< 10 ||| shiftAmountMask p.contract) (1 <<< 10),
      by simp [cTemplates],
      matches_compressed hq h3 (and_or_of_eq (and_shiftLeft_of_eq (v := 1) hop) hshift), ?_⟩
    exact congrArg word (ensureNonzero_of_ne himm)

/-- The compressed upper immediates. -/
theorem exists_of_compressedUpper (hq : w &&& 3 = 1) (h3 : w >>> 13 &&& 7 = 3)
    (hrd : w >>> 7 &&& 0x1F ≠ 0) (himm : w &&& cImmediateMask ≠ 0) :
    ∃ t ∈ cTemplates p.contract, t.Emits w := by
  by_cases hsp : w >>> 7 &&& 0x1F = 2
  · refine ⟨compressedTemplate "C.ADDI16SP" 1 3 cRdMask (2 <<< 7), by simp [cTemplates],
      matches_compressed hq h3 (and_shiftLeft_of_eq hsp), ?_⟩
    exact congrArg word (ensureNonzero_of_ne himm)
  · refine ⟨compressedTemplate "C.LUI" 1 3 0 0, by simp [cTemplates],
      matches_compressed hq h3 (Nat.and_zero w), ?_⟩
    have hkeep : w &&& cRdMask ∉ [0, 2 <<< 7] := by
      simp only [mem_cons, not_mem_nil, or_false, not_or]
      exact ⟨and_shiftLeft_ne_zero hrd, fun h2 => hsp ((and_shiftLeft_eq_iff 7).1 h2)⟩
    have hrepair : repairFields ⟨w, 0⟩ "C.LUI"
        = ensureNonzero ⟨w, 0⟩ cImmediateMask := by
      change ensureNonzero (if w &&& cRdMask ∈ [0, 2 <<< 7] then _ else _) _ = _
      rw [if_neg hkeep]
    exact congrArg word (hrepair.trans (ensureNonzero_of_ne himm))

/-- **A legal compressed word of the second quadrant has a template.** -/
theorem exists_of_quadrant1 (hq : w &&& 3 = 1) (h : p.compressedLegal w = true) :
    ∃ t ∈ cTemplates p.contract, t.Emits w := by
  simp only [compressedLegal, hq, Nat.reduceEqDiff, reduceIte,
    mem_cons, not_mem_nil, or_false] at h
  split_ifs at h with hno h0 h1 h2 h3 hsp h5 h4 hop hshift hbit
  · refine ⟨compressedTemplate "C.ADDI" 1 0 0 0, by simp [cTemplates],
      matches_compressed hq h0 (Nat.and_zero w), ?_⟩
    have hkeep : ¬ (w &&& cRdMask = 0 ∧ w &&& cImmediateMask ≠ 0) := by
      rintro ⟨hrd, himm⟩
      rcases of_decide_eq_true h with hrd' | himm'
      · exact and_shiftLeft_ne_zero hrd' hrd
      · exact himm (and_cImmediateMask_eq_zero.2 himm')
    exact congrArg word (if_neg hkeep)
  · rcases p.contract.xlen_eq with hx | hx
    · exact exists_plain "C.JAL" hq h1 (Nat.and_zero w) (by simp [cTemplates, hx]) (by decide)
    · have hrd := (of_decide_eq_true h).resolve_left (by omega)
      exact exists_rd "C.ADDIW" hq h1 (Nat.and_zero w) (by simp [cTemplates, hx]) (by decide) hrd
  · exact exists_rd "C.LI" hq h2 (Nat.and_zero w) (by simp [cTemplates]) (by decide) (of_decide_eq_true h)
  · refine exists_of_compressedUpper hq h3 (by omega) fun himm => of_decide_eq_true h ?_
    rw [← Nat.and_or_distrib_left, ← Nat.and_or_distrib_left, ← Nat.and_or_distrib_left,
      ← Nat.and_or_distrib_left]
    exact himm
  · obtain ⟨hrd, himm⟩ := of_decide_eq_true h
    exact exists_of_compressedUpper hq h3 (fun hrd' => hrd (.inl hrd'))
      (mt and_cImmediateMask_eq_zero.1 himm)
  · rcases h5 with h5 | h5 | h5
    · exact exists_plain "C.J" hq h5 (Nat.and_zero w) (by simp [cTemplates]) (by decide)
    · exact exists_plain "C.BEQZ" hq h5 (Nat.and_zero w) (by simp [cTemplates]) (by decide)
    · exact exists_plain "C.BNEZ" hq h5 (Nat.and_zero w) (by simp [cTemplates]) (by decide)
  · obtain ⟨himm, htop⟩ := of_decide_eq_true h
    exact exists_of_compressedShift hq (not_not.1 h4) hshift
      (mt and_cImmediateMask_eq_zero.1 himm) (and_shiftAmountMask htop)
  · have hlt : w >>> 10 &&& 3 ≤ 3 := Nat.and_le_right
    have hand : w >>> 10 &&& 3 = 2 := by omega
    exact exists_plain "C.ANDI" hq (not_not.1 h4) (and_shiftLeft_of_eq hand)
      (by simp [cTemplates]) (by decide)
  · have hle : w >>> 12 &&& 1 ≤ 1 := Nat.and_le_right
    exact exists_of_compressedRegister hq (not_not.1 h4) (not_not.1 hop)
      (.inl ⟨by omega, of_decide_eq_true h⟩)
  · exact exists_of_compressedRegister hq (not_not.1 h4) (not_not.1 hop) (.inr (not_not.1 hbit))

/-- The compressed jumps and moves. -/
theorem exists_of_compressedJump (hq : w &&& 3 = 2) (h4 : w >>> 13 &&& 7 = 4)
    (h : w >>> 12 &&& 1 = 0 ∧ w >>> 7 &&& 0x1F ≠ 0 ∨ w >>> 12 &&& 1 = 1 ∧
      (w >>> 7 &&& 0x1F = 0 → w >>> 2 &&& 0x1F = 0)) :
    ∃ t ∈ cTemplates p.contract, t.Emits w := by
  have hmove : w >>> 7 &&& 0x1F ≠ 0 → w >>> 2 &&& 0x1F ≠ 0 →
      ensureNonzero (ensureNonzero ⟨w, 0⟩ cRdMask) cRs2Mask = ⟨w, 0⟩ := by
    intro hrd hrs2
    have hkeep : ensureNonzero ⟨w, 0⟩ cRdMask = ⟨w, 0⟩ :=
      ensureNonzero_of_ne (and_shiftLeft_ne_zero hrd)
    rw [hkeep]
    exact ensureNonzero_of_ne (and_shiftLeft_ne_zero hrs2)
  have hextra : ∀ {b : ℕ}, w >>> 12 &&& 1 = b → w >>> 2 &&& 0x1F = 0 →
      w &&& (1 <<< 12 ||| cRs2Mask) = b <<< 12 ||| 0 <<< 2 := fun hb hrs2 =>
    and_or_of_eq (and_shiftLeft_of_eq hb) (and_shiftLeft_of_eq hrs2)
  by_cases hrs2 : w >>> 2 &&& 0x1F = 0
  · rcases h with ⟨hb, hrd⟩ | ⟨hb, hrd⟩
    · exact exists_rd "C.JR" hq h4 (hextra hb hrs2) (by simp [cTemplates]) (by decide) hrd
    · by_cases hrd' : w >>> 7 &&& 0x1F = 0
      · have hword := and_or_of_eq (and_or_of_eq (and_or_of_eq (and_or_of_eq (and_shiftLeft_of_eq h4)
          hq) (and_shiftLeft_of_eq hb)) (and_shiftLeft_of_eq hrd')) (and_shiftLeft_of_eq hrs2)
        exact ⟨⟨"C.EBREAK", 16, "C", 0xFFFF, 0x9002⟩, by simp [cTemplates], emits_of_notMem hword (by decide)⟩
      · exact exists_rd "C.JALR" hq h4 (hextra hb hrs2) (by simp [cTemplates]) (by decide) hrd'
  · rcases h with ⟨hb, hrd⟩ | ⟨hb, hrd⟩
    · exact ⟨compressedTemplate "C.MV" 2 4 (1 <<< 12) 0, by simp [cTemplates],
        matches_compressed hq h4 (and_shiftLeft_of_eq (v := 0) hb),
        congrArg word (hmove hrd hrs2)⟩
    · exact ⟨compressedTemplate "C.ADD" 2 4 (1 <<< 12) (1 <<< 12), by simp [cTemplates],
        matches_compressed hq h4 (and_shiftLeft_of_eq (v := 1) hb),
        congrArg word (hmove (mt hrd hrs2) hrs2)⟩

/-- **A legal compressed word of the third quadrant has a template.** -/
theorem exists_of_quadrant2 (hq : w &&& 3 = 2) (h : p.compressedLegal w = true) :
    ∃ t ∈ cTemplates p.contract, t.Emits w := by
  simp only [compressedLegal, hq, Nat.reduceEqDiff, reduceIte] at h
  split_ifs at h with hno h0 h2 h3 h4 hbit hrd h6
  · obtain ⟨hrd, himm, htop⟩ := of_decide_eq_true h
    refine ⟨compressedTemplate "C.SLLI" 2 0 (shiftAmountMask p.contract) 0, by simp [cTemplates],
      matches_compressed hq h0 (and_shiftAmountMask htop), ?_⟩
    have hkeep : ensureNonzero ⟨w, 0⟩ cRdMask = ⟨w, 0⟩ :=
      ensureNonzero_of_ne (and_shiftLeft_ne_zero hrd)
    have hrepair : repairFields ⟨w, 0⟩ "C.SLLI" = ⟨w, 0⟩ := by
      change ensureNonzero (ensureNonzero ⟨w, 0⟩ cRdMask)
        cImmediateMask = _
      rw [hkeep]
      exact ensureNonzero_of_ne (mt and_cImmediateMask_eq_zero.1 himm)
    exact congrArg word hrepair
  · exact exists_rd "C.LWSP" hq h2 (Nat.and_zero w) (by simp [cTemplates]) (by decide) (of_decide_eq_true h)
  · obtain ⟨hx, hrd⟩ := of_decide_eq_true h
    exact exists_rd "C.LDSP" hq h3 (Nat.and_zero w) (by simp [cTemplates, hx]) (by decide) hrd
  · exact exists_of_compressedJump hq h4 (.inl ⟨hbit, of_decide_eq_true h⟩)
  · have hle : w >>> 12 &&& 1 ≤ 1 := Nat.and_le_right
    exact exists_of_compressedJump hq h4 (.inr ⟨by omega, fun _ => of_decide_eq_true h⟩)
  · have hle : w >>> 12 &&& 1 ≤ 1 := Nat.and_le_right
    exact exists_of_compressedJump hq h4 (.inr ⟨by omega, fun hrd' => absurd hrd' hrd⟩)
  · exact exists_plain "C.SWSP" hq h6 (Nat.and_zero w) (by simp [cTemplates]) (by decide)
  · obtain ⟨h7, hx⟩ := of_decide_eq_true h
    exact exists_plain "C.SDSP" hq h7 (Nat.and_zero w) (by simp [cTemplates, hx]) (by decide)

/-- **A legal word of 16 bits has a template.** -/
theorem exists_of_compressedLegal (h : p.compressedLegal w = true) :
    ("C" ∈ p.contract.extensions ∧ p.contract.instructionAlignment = 2) ∧ w < 2 ^ 16 ∧
      ∃ t ∈ cTemplates p.contract, t.Emits w := by
  have hpre : ¬ ("C" ∉ p.contract.extensions ∨ p.contract.instructionAlignment ≠ 2 ∨ 0xFFFF < w ∨
      w &&& 0b11 = 0b11) := by
    intro hno
    rw [compressedLegal, if_pos hno] at h
    exact Bool.false_ne_true h
  push Not at hpre
  obtain ⟨hC, ha, hw, hq⟩ := hpre
  refine ⟨⟨hC, ha⟩, by omega, ?_⟩
  have hle : w &&& 3 ≤ 3 := Nat.and_le_right
  obtain hq' | hq' | hq' : w &&& 3 = 0 ∨ w &&& 3 = 1 ∨ w &&& 3 = 2 := by omega
  · exact exists_of_quadrant0 hq' h
  · exact exists_of_quadrant1 hq' h
  · exact exists_of_quadrant2 hq' h

end Compressed

/-! ## Names -/

namespace IsaContract

/-- The contract with every implemented extension and privilege mode. -/
def full (xlen : ℕ) (h : xlen = 32 ∨ xlen = 64) : IsaContract :=
  ⟨xlen, ["I", "M", "C"], ["M", "S"], 2, h, by simp, by decide, by simp, .inl rfl, by simp, by simp⟩

/-- Every template of a contract. -/
def allTemplates (contract : IsaContract) : List InstructionTemplate :=
  iTemplates contract ++ mTemplates contract ++ cTemplates contract

/-- The templates of a contract as data: every one passes its constructor, those of the base set and
of `M` have 32 bits and no repair, those of `C` have 16 bits, and no name is used twice. -/
theorem allTemplates_full (xlen : ℕ) (h : xlen = 32 ∨ xlen = 64) :
    (∀ t ∈ (full xlen h).allTemplates, t.Valid) ∧ (∀ t ∈ iTemplates (full xlen h) ++ mTemplates (full xlen h),
        t.width = 32 ∧ t.name ∉ repairedNames) ∧
      (∀ t ∈ cTemplates (full xlen h), t.width = 16) ∧
      ((full xlen h).allTemplates.map InstructionTemplate.name).Nodup := by
  rcases h with rfl | rfl <;> decide +kernel

theorem sublist_ite {α : Type} {p : Prop} [Decidable p] (l : List α) : (if p then l else []).Sublist l := by
  split_ifs
  · exact List.Sublist.refl l
  · exact nil_sublist l

theorem sublist_systemWords (c : IsaContract) :
    (systemWords c).Sublist (systemWords (full c.xlen c.xlen_eq)) :=
  ((List.Sublist.refl _).append (sublist_ite _)).append (sublist_ite _)

theorem sublist_iTemplates (c : IsaContract) : (iTemplates c).Sublist (iTemplates (full c.xlen c.xlen_eq)) :=
  ((List.Sublist.refl _).append ((sublist_systemWords c).map _)).append (List.Sublist.refl _)

end IsaContract

namespace RiscvInstructionTransducer

variable {x : RiscvInstructionTransducer}

theorem sublist_baseTemplates (c : IsaContract) : (baseTemplates c).Sublist
    (iTemplates (full c.xlen c.xlen_eq) ++ mTemplates (full c.xlen c.xlen_eq)) :=
  (sublist_iTemplates c).append (sublist_ite _)

theorem sublist_templates (x : RiscvInstructionTransducer) : x.templates.Sublist
    (full x.contract.xlen x.contract.xlen_eq).allTemplates :=
  (sublist_baseTemplates x.contract).append (sublist_ite _)

/-- **Every template passes the checks of its constructor.** -/
theorem valid_templates (x : RiscvInstructionTransducer) : ∀ t ∈ x.templates, t.Valid :=
  fun t ht => (allTemplates_full _ _).1 t ((sublist_templates x).subset ht)

/-- **No two operations share a name.** -/
theorem nodup_names (x : RiscvInstructionTransducer) : (x.templates.map InstructionTemplate.name).Nodup :=
  (allTemplates_full _ _).2.2.2.sublist ((sublist_templates x).map _)

theorem get?_byName (ht : t ∈ x.templates) : x.byName.get? t.name = some t := by
  refine Dict.get?_update_of_mem ?_ _ (mem_map_of_mem ht)
  rw [map_map]
  exact nodup_names x

/-- **A word that a template emits is returned for its operation.** -/
theorem repairForOperation_of_emits (ht : t ∈ x.templates) (hw : w < 2 ^ t.width) (h : t.Emits w)
    (hlegal : x.provider.isLegalWord w (t.width = 16) = true) :
    ∃ choice, x.repairForOperation t.name w = .ok choice ∧ choice.word = w := by
  unfold repairForOperation
  rw [get?_byName ht]
  simp only [repairTemplate]
  rw [InstructionTemplate.repair_of_matches hw h.1, ok_bind, h.2, ensure_of hlegal, ok_bind]
  exact ⟨_, rfl, rfl⟩

/-- **What an operation returns is legal.** -/
theorem isLegalWord_of_repairForOperation (ht : t ∈ x.templates) {raw : ℤ}
    {choice : InstructionChoice} (h : x.repairForOperation t.name raw = .ok choice) :
    x.provider.isLegalWord choice.word (t.width = 16) = true := by
  unfold repairForOperation at h
  rw [get?_byName ht] at h
  obtain ⟨word, -, h⟩ := bind_ok.1 h
  obtain ⟨hlegal, h⟩ := ensure_ok.1 h
  cases h
  exact hlegal

variable {c : IsaContract}

theorem width_baseTemplates (ht : t ∈ baseTemplates c) : t.width = 32 ∧ t.name ∉ repairedNames :=
  (allTemplates_full _ _).2.1 t ((sublist_baseTemplates c).subset ht)

theorem width_cTemplates (ht : t ∈ cTemplates c) : t.width = 16 :=
  (allTemplates_full c.xlen c.xlen_eq).2.2.1 t ht

theorem exists_of_legal {w : ℕ} (hw : w < 2 ^ 32) (h : x.provider.isLegalWord w false = true) :
    ∃ t ∈ x.templates, t.width = 32 ∧ t.Emits w := by
  have hbase : x.provider.baseLegal w = true := by
    simp only [isLegalWord, Int.toNat_natCast, Bool.false_eq_true, if_false] at h
    split_ifs at h
    exact h
  obtain ⟨t, ht, hmatch⟩ := exists_of_baseLegal hw hbase
  obtain ⟨hwidth, hname⟩ := width_baseTemplates ht
  exact ⟨t, mem_append_left _ ht, hwidth, emits_of_notMem hmatch hname⟩

theorem exists_of_legal_compressed {w : ℕ} (h : x.provider.isLegalWord w true = true) :
    ∃ t ∈ x.templates, t.width = 16 ∧ t.Emits w := by
  have hcompressed : x.provider.compressedLegal w = true := by
    simp only [isLegalWord, Int.toNat_natCast] at h
    split_ifs at h
    exact h
  obtain ⟨hC, -, t, ht, hemits⟩ := exists_of_compressedLegal hcompressed
  refine ⟨t, mem_append_right _ ?_, width_cTemplates ht, hemits⟩
  exact (if_pos hC).symm ▸ ht

/-- **The templates emit exactly the legal words.**  A word of 32 bits, or one of 16 bits, is legal
under a contract exactly when the transducer of the contract returns it for the operation of some
template of that width. -/
theorem legal_iff_emitted (x : RiscvInstructionTransducer) :
    (∀ w : BitVec 32, x.provider.isLegalWord w.toNat false = true ↔
      ∃ t ∈ x.templates, t.width = 32 ∧ ∃ choice,
        x.repairForOperation t.name w.toNat = .ok choice ∧ choice.word = w.toNat) ∧
    (∀ w : BitVec 16, x.provider.isLegalWord w.toNat true = true ↔ ∃ t ∈ x.templates, t.width = 16 ∧ ∃ choice,
        x.repairForOperation t.name w.toNat = .ok choice ∧ choice.word = w.toNat) := by
  refine ⟨fun w => ⟨fun h => ?_, ?_⟩, fun w => ⟨fun h => ?_, ?_⟩⟩
  · obtain ⟨t, ht, hwidth, hemits⟩ := exists_of_legal w.isLt h
    refine ⟨t, ht, hwidth, repairForOperation_of_emits ht (by rw [hwidth]; exact w.isLt) hemits ?_⟩
    rw [hwidth]
    exact h
  · rintro ⟨t, ht, hwidth, choice, hok, hword⟩
    have h := isLegalWord_of_repairForOperation ht hok
    rw [hwidth, hword] at h
    exact h
  · obtain ⟨t, ht, hwidth, hemits⟩ := exists_of_legal_compressed h
    refine ⟨t, ht, hwidth, repairForOperation_of_emits ht (by rw [hwidth]; exact w.isLt) hemits ?_⟩
    rw [hwidth]
    exact h
  · rintro ⟨t, ht, hwidth, choice, hok, hword⟩
    have h := isLegalWord_of_repairForOperation ht hok
    rw [hwidth, hword] at h
    exact h

end RiscvInstructionTransducer

end MyFuzz
