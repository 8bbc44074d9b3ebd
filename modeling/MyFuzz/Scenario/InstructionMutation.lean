import MyFuzz.Scenario.FragmentDecoding

/-!
# Scenario/InstructionMutation — one operand of an instruction is changed

Entropy chooses a field, and with it a register, a shift amount or an immediate:

    entropy ──▸ field, register, immediate ──▸ the operation's branch ──▸ constructor

The last branch was written for stores.  It also takes the register logic, which has a destination and no
immediate, so there the constructor may refuse what the branch hands it.
-/

namespace MyFuzz

open Outcome Rv32iInstruction Operation List

/-! ## The mutation -/

/-- The field that entropy selects. -/
def entropyField (entropy : List UInt8) : ℕ := (entropy.getD 0 0).toNat % 3

/-- The twelve bits of an immediate. -/
def entropyBits (entropy : List UInt8) : ℕ := Bytes.readLe ((entropy.drop 1).take 2) &&& 0xfff

/-- The register, or the shift amount. -/
def entropyRegister (entropy : List UInt8) : ℕ := (entropy.getD 3 0).toNat &&& 31

/-- An offset without its two low bits, `value & ~3`. -/
def wordOffset (value : ℤ) : ℤ := value - value % 4

/-- **Change one operand of an instruction.** -/
def mutateInstruction (seed : Rv32iInstruction) (entropy : List UInt8) : Except Exn Rv32iInstruction := do
  ensure (4 ≤ entropy.length) (reject .decodeMalformedEntropy
    "instruction seed and at least four entropy bytes are required" "mutation.entropy")
  let field := entropyField entropy
  let signed := signExtend12 (entropyBits entropy)
  let register : ℤ := entropyRegister entropy
  match seed.operation with
  | .nop => return seed
  | .lui =>
      let immediate : ℤ := (Bytes.readLe (entropy.take 4) &&& 0xfffff : ℕ)
      Rv32iInstruction.new .lui (if field = 0 then register else seed.rd) 0 0
        (if field ≠ 0 then immediate else seed.immediate)
  | .slli | .srli | .srai =>
      Rv32iInstruction.new seed.operation (if field = 0 then register else seed.rd)
        (if field = 1 then register else seed.rs1) 0 (if field = 2 then register else seed.immediate)
  | .addi | .xori | .ori | .andi | .lw =>
      let immediate := if seed.operation = .lw then wordOffset signed else signed
      Rv32iInstruction.new seed.operation (if field = 0 then register else seed.rd)
        (if field = 1 ∧ seed.operation ≠ .lw then register else seed.rs1) 0
        (if field = 2 then immediate else seed.immediate)
  | .sw | .sb | .and | .or =>
      let immediate := if seed.operation = .sw then wordOffset signed else signed
      Rv32iInstruction.new seed.operation 0 seed.rs1 (if field = 0 then register else seed.rs2)
        (if field ≠ 0 then immediate else seed.immediate)

/-! ## Inside the class of an instruction -/

namespace Rv32iInstruction

/-- How many operands two instructions differ in. -/
def changes (seed mutant : Rv32iInstruction) : ℕ :=
  (if mutant.rd = seed.rd then 0 else 1) + (if mutant.rs1 = seed.rs1 then 0 else 1) +
    (if mutant.rs2 = seed.rs2 then 0 else 1) + (if mutant.immediate = seed.immediate then 0 else 1)

/-- A mutant of the same operation, with at most one other operand and its base register, that is accepted. -/
structure Mutates (seed mutant : Rv32iInstruction) : Prop where
  operation : mutant.operation = seed.operation
  changes : seed.changes mutant ≤ 1
  base : seed.operation ∈ Operation.memory → mutant.rs1 = seed.rs1
  accepted : validateInstructionBytes (Bytes.leBytes 4 mutant.word) none = .ok ()

end Rv32iInstruction

/-- **The mutation stays inside the instruction class.** -/
def StaysInClass (seed : Rv32iInstruction) (entropy : List UInt8) : Prop :=
  ∃ mutant, mutateInstruction seed entropy = .ok mutant ∧ seed.Mutates mutant

variable {seed : Rv32iInstruction} {entropy : List UInt8}

/-- The word of an instruction is accepted. -/
theorem validate_word (i : Rv32iInstruction) :
    validateInstructionBytes (Bytes.leBytes 4 i.word) none = .ok () := by
  have hfragment : fragmentBytes [i] = .ok (Bytes.leBytes 4 i.word) := by
    unfold fragmentBytes
    rw [ensure_of (cons_ne_nil _ _), ok_bind, flatMap_singleton]
    rfl
  exact (validate_fragmentBytes hfragment).1

/-- Operands in which a mutant differs from its seed. -/
def operandChanges (seed : Rv32iInstruction) (rd rs1 rs2 immediate : ℤ) : ℕ :=
  (if rd = seed.rd then 0 else 1) + (if rs1 = seed.rs1 then 0 else 1) +
    (if rs2 = seed.rs2 then 0 else 1) + (if immediate = seed.immediate then 0 else 1)

variable {immediate rd rs1 rs2 : ℤ} {operation : Operation}

/-- **What a constructed instruction changes.** -/
theorem changes_of_new {mutant : Rv32iInstruction}
    (h : new seed.operation rd rs1 rs2 immediate = .ok mutant) :
    seed.changes mutant = operandChanges seed rd rs1 rs2 immediate := by
  obtain ⟨-, hrd, hrs1, hrs2, himmediate⟩ := new_eq_ok h
  have hcast (r r' : Fin 32) : ((r : ℤ) = r') ↔ r = r' := by
    rw [Fin.ext_iff]
    exact Nat.cast_inj
  unfold changes operandChanges
  simp only [← hrd, ← hrs1, ← hrs2, ← himmediate, hcast]

/-- **Operands that fit and change little make a mutant.** -/
theorem exists_mutant (hrd : 0 ≤ rd ∧ rd < 32) (hrs1 : 0 ≤ rs1 ∧ rs1 < 32)
    (hrs2 : 0 ≤ rs2 ∧ rs2 < 32) (hoperands : seed.operation.Operands rd rs1 rs2 immediate)
    (hchanges : operandChanges seed rd rs1 rs2 immediate ≤ 1)
    (hbase : seed.operation ∈ memory → rs1 = seed.rs1) :
    ∃ mutant, new seed.operation rd rs1 rs2 immediate = .ok mutant ∧ seed.Mutates mutant := by
  obtain ⟨mutant, hnew⟩ := exists_new hrd hrs1 hrs2 hoperands
  refine ⟨mutant, hnew, (new_eq_ok hnew).1, ?_, fun hmem => ?_, validate_word mutant⟩
  · rwa [changes_of_new hnew]
  · have hrs1 := (new_eq_ok hnew).2.2.1.trans (hbase hmem)
    exact Fin.ext (by exact_mod_cast hrs1)

/-! ## The branches -/

theorem register_bounds (r : Fin 32) : (0 : ℤ) ≤ (r : ℕ) ∧ ((r : ℕ) : ℤ) < 32 := by
  have := r.isLt
  omega

theorem entropyRegister_bounds (entropy : List UInt8) :
    (0 : ℤ) ≤ entropyRegister entropy ∧ (entropyRegister entropy : ℤ) < 32 := and_31 _

theorem ite_bounds {p : Prop} [Decidable p] {lower upper a b : ℤ} (ha : lower ≤ a ∧ a < upper)
    (hb : lower ≤ b ∧ b < upper) : lower ≤ (if p then a else b) ∧ (if p then a else b) < upper := by
  split_ifs
  · exact ha
  · exact hb

/-- An offset without its low bits fits twelve bits if the offset does. -/
theorem wordOffset_bounds {value : ℤ} (h : -2 ^ 11 ≤ value ∧ value < 2 ^ 11) :
    (-2 ^ 11 ≤ wordOffset value ∧ wordOffset value < 2 ^ 11) ∧ wordOffset value % 4 = 0 := by
  unfold wordOffset
  omega

theorem mutateInstruction_of_length (h : 4 ≤ entropy.length) : mutateInstruction seed entropy =
    match seed.operation with
    | .nop => .ok seed
    | .lui =>
        new .lui (if entropyField entropy = 0 then (entropyRegister entropy : ℤ) else seed.rd) 0 0
          (if entropyField entropy ≠ 0 then ((Bytes.readLe (entropy.take 4) &&& 0xfffff : ℕ) : ℤ)
            else seed.immediate)
    | .slli | .srli | .srai =>
        new seed.operation
          (if entropyField entropy = 0 then (entropyRegister entropy : ℤ) else seed.rd)
          (if entropyField entropy = 1 then (entropyRegister entropy : ℤ) else seed.rs1) 0
          (if entropyField entropy = 2 then (entropyRegister entropy : ℤ) else seed.immediate)
    | .addi | .xori | .ori | .andi | .lw =>
        new seed.operation
          (if entropyField entropy = 0 then (entropyRegister entropy : ℤ) else seed.rd)
          (if entropyField entropy = 1 ∧
            seed.operation ≠ .lw then (entropyRegister entropy : ℤ) else seed.rs1) 0
          (if entropyField entropy = 2 then
            if seed.operation = .lw then wordOffset (signExtend12 (entropyBits entropy))
            else signExtend12 (entropyBits entropy)
          else seed.immediate)
    | .sw | .sb | .and | .or =>
        new seed.operation 0 seed.rs1
          (if entropyField entropy = 0 then (entropyRegister entropy : ℤ) else seed.rs2)
          (if entropyField entropy ≠ 0 then
            if seed.operation = .sw then wordOffset (signExtend12 (entropyBits entropy))
            else signExtend12 (entropyBits entropy)
          else seed.immediate) := by
  unfold mutateInstruction
  rw [ensure_of h, ok_bind]
  rfl

/-- The operands of the register and immediate operations, and of loads. -/
theorem immediate_operands (hop : operation ∈ [.addi, .xori, .ori, .andi, .lw]) :
    operation.Operands rd rs1 rs2 immediate ↔
      (-2 ^ 11 ≤ immediate ∧ immediate < 2 ^ 11) ∧ rs2 = 0 ∧ (operation = .lw → immediate % 4 = 0) := by
  simp only [mem_cons, not_mem_nil, or_false] at hop
  rcases hop with rfl | rfl | rfl | rfl | rfl <;> simp [Operation.Operands]

/-- The operands of shifts. -/
theorem shift_operands (hop : operation ∈ [.slli, .srli, .srai]) :
    operation.Operands rd rs1 rs2 immediate ↔ (0 ≤ immediate ∧ immediate < 32) ∧ rs2 = 0 := by
  simp only [mem_cons, not_mem_nil, or_false] at hop
  rcases hop with rfl | rfl | rfl <;> rfl

/-- The operands of stores. -/
theorem store_operands (hop : operation ∈ [.sw, .sb]) : operation.Operands rd rs1 rs2 immediate ↔
      (-2 ^ 11 ≤ immediate ∧ immediate < 2 ^ 11) ∧ rd = 0 ∧ (operation = .sw → immediate % 4 = 0) := by
  rcases mem_pair.1 hop with rfl | rfl <;> simp [Operation.Operands]

section Branches

variable (field : ℕ) {register immediate : ℤ}

theorem exists_immediate_mutant (hop : seed.operation ∈ [.addi, .xori, .ori, .andi, .lw])
    (hregister : 0 ≤ register ∧ register < 32) (hrange : -2 ^ 11 ≤ immediate ∧ immediate < 2 ^ 11)
    (haligned : seed.operation = .lw → immediate % 4 = 0) :
    ∃ mutant, new seed.operation (if field = 0 then register else seed.rd)
      (if field = 1 ∧ seed.operation ≠ .lw then register else seed.rs1) 0
      (if field = 2 then immediate else seed.immediate) = .ok mutant ∧ seed.Mutates mutant := by
  obtain ⟨hseed, hrs2, hseedAligned⟩ := (immediate_operands hop).1 seed.operands
  refine exists_mutant (ite_bounds hregister (register_bounds _)) (ite_bounds hregister (register_bounds _))
    (by decide) ((immediate_operands hop).2 ⟨ite_bounds hrange hseed, rfl, fun hload => ?_⟩) ?_ fun hmem => ?_
  · split_ifs
    · exact haligned hload
    · exact hseedAligned hload
  · unfold operandChanges
    rw [if_pos hrs2.symm]
    split_ifs <;> omega
  · have hload : seed.operation = .lw := by
      simp only [memory, mem_cons, not_mem_nil, or_false] at hop hmem
      rcases hmem with hload | hstore | hstore
      · exact hload
      · simp [hstore] at hop
      · simp [hstore] at hop
    rw [if_neg fun h => h.2 hload]

theorem exists_shift_mutant (hop : seed.operation ∈ [.slli, .srli, .srai])
    (hregister : 0 ≤ register ∧ register < 32) :
    ∃ mutant, new seed.operation (if field = 0 then register else seed.rd)
      (if field = 1 then register else seed.rs1) 0
        (if field = 2 then register else seed.immediate) = .ok mutant ∧
        seed.Mutates mutant := by
  obtain ⟨hseed, hrs2⟩ := (shift_operands hop).1 seed.operands
  refine exists_mutant (ite_bounds hregister (register_bounds _)) (ite_bounds hregister (register_bounds _))
    (by decide) ((shift_operands hop).2 ⟨ite_bounds hregister hseed, rfl⟩) ?_ fun hmem => ?_
  · unfold operandChanges
    rw [if_pos hrs2.symm]
    split_ifs <;> omega
  · simp only [memory, mem_cons, not_mem_nil, or_false] at hop hmem
    rcases hmem with h | h | h <;> simp [h] at hop

theorem exists_store_mutant (hop : seed.operation ∈ [.sw, .sb])
    (hregister : 0 ≤ register ∧ register < 32) (hrange : -2 ^ 11 ≤ immediate ∧ immediate < 2 ^ 11)
    (haligned : seed.operation = .sw → immediate % 4 = 0) :
    ∃ mutant, new seed.operation 0 seed.rs1 (if field = 0 then register else seed.rs2)
      (if field ≠ 0 then immediate else seed.immediate) = .ok mutant ∧ seed.Mutates mutant := by
  obtain ⟨hseed, hrd, hseedAligned⟩ := (store_operands hop).1 seed.operands
  refine exists_mutant (by decide) (register_bounds _) (ite_bounds hregister (register_bounds _))
    ((store_operands hop).2 ⟨ite_bounds hrange hseed, rfl, fun hstore => ?_⟩) ?_ fun _ => rfl
  · split_ifs
    · exact haligned hstore
    · exact hseedAligned hstore
  · unfold operandChanges
    rw [if_pos hrd.symm]
    split_ifs <;> omega

theorem exists_lui_mutant (hop : seed.operation = .lui) (hregister : 0 ≤ register ∧ register < 32)
    (hrange : 0 ≤ immediate ∧ immediate < 2 ^ 20) :
    ∃ mutant, new .lui (if field = 0 then register else seed.rd) 0 0
      (if field ≠ 0 then immediate else seed.immediate) = .ok mutant ∧ seed.Mutates mutant := by
  have hoperands := seed.operands
  rw [hop] at hoperands
  obtain ⟨hseed, hrs1, hrs2⟩ := hoperands
  have hfits : seed.operation.Operands (if field = 0 then register else seed.rd) 0 0
      (if field ≠ 0 then immediate else seed.immediate) := by
    rw [hop]
    exact ⟨ite_bounds hrange hseed, rfl, rfl⟩
  rw [← hop]
  refine exists_mutant (ite_bounds hregister (register_bounds _)) (by decide) (by decide) hfits ?_
    fun hmem => ?_
  · unfold operandChanges
    rw [if_pos hrs1.symm, if_pos hrs2.symm]
    split_ifs <;> omega
  · rw [hop] at hmem
    exact absurd hmem (by decide)

end Branches

/-- **Everything but register logic stays in its class.** -/
theorem staysInClass_of_ne (h : 4 ≤ entropy.length) (hand : seed.operation ≠ .and)
    (hor : seed.operation ≠ .or) :
    StaysInClass seed entropy := by
  unfold StaysInClass
  rw [mutateInstruction_of_length h]
  have hregister := entropyRegister_bounds entropy
  have hsigned := signExtend12_bounds (Bytes.readLe ((entropy.drop 1).take 2))
  have hword := wordOffset_bounds hsigned
  -- a word access gets an offset without its low bits, and every other operation the offset itself
  have hoffset (word : Operation) :
      (-2 ^ 11 ≤ (if seed.operation = word then wordOffset (signExtend12 (entropyBits entropy))
          else signExtend12 (entropyBits entropy)) ∧
        (if seed.operation = word then wordOffset (signExtend12 (entropyBits entropy))
          else signExtend12 (entropyBits entropy)) < 2 ^ 11) ∧
      (seed.operation = word → (if seed.operation = word then wordOffset (signExtend12 (entropyBits entropy))
          else signExtend12 (entropyBits entropy)) % 4 = 0) := by
    refine ⟨ite_bounds hword.1 hsigned, fun h => ?_⟩
    rw [if_pos h]
    exact hword.2
  have himmediate (hop : seed.operation ∈ [.addi, .xori, .ori, .andi, .lw]) :=
    exists_immediate_mutant (entropyField entropy) hop hregister (hoffset .lw).1 (hoffset .lw).2
  have hshift (hop : seed.operation ∈ [.slli, .srli, .srai]) :=
    exists_shift_mutant (entropyField entropy) hop hregister
  have hstore (hop : seed.operation ∈ [.sw, .sb]) :=
    exists_store_mutant (entropyField entropy) hop hregister (hoffset .sw).1 (hoffset .sw).2
  cases hop : seed.operation with
  | and => exact absurd hop hand
  | or => exact absurd hop hor
  | nop => exact ⟨seed, rfl, rfl, by simp [changes], fun _ => rfl, validate_word seed⟩
  | lui => exact exists_lui_mutant (entropyField entropy) hop hregister (and_fffff _)
  | slli | srli | srai =>
    rw [hop] at hshift
    exact hshift (by decide)
  | addi | xori | ori | andi | lw =>
    rw [hop] at himmediate
    exact himmediate (by decide)
  | sw | sb =>
    rw [hop] at hstore
    exact hstore (by decide)

/-! ## Register logic -/

/-- Register logic keeps its class if a register is changed and the destination is zero already or
the register is not new, or if the immediate is zero. -/
def LogicFits (seed : Rv32iInstruction) (entropy : List UInt8) : Prop :=
  if entropyField entropy = 0 then seed.rd = 0 ∨ (entropyRegister entropy : ℤ) = seed.rs2
  else entropyBits entropy = 0

theorem signExtend12_eq_zero_iff {value : ℕ} : signExtend12 (value &&& 0xfff) = 0 ↔ value &&& 0xfff = 0 := by
  have hlt : value &&& 0xfff < 2 ^ 12 := Nat.and_lt_two_pow _ (by decide)
  unfold signExtend12
  split_ifs with hsign
  · refine ⟨fun h => by omega, fun h => absurd ?_ hsign⟩
    rw [h]
    rfl
  · exact Int.natCast_eq_zero

theorem logic_operands (hop : operation ∈ [.and, .or]) :
    operation.Operands rd rs1 rs2 immediate ↔ immediate = 0 := by
  rcases mem_pair.1 hop with rfl | rfl <;> rfl

theorem mutateInstruction_logic (h : 4 ≤ entropy.length) (hop : seed.operation ∈ [.and, .or]) :
    mutateInstruction seed entropy = new seed.operation 0 seed.rs1
      (if entropyField entropy = 0 then (entropyRegister entropy : ℤ) else seed.rs2)
      (if entropyField entropy ≠ 0 then signExtend12 (entropyBits entropy) else seed.immediate) := by
  rw [mutateInstruction_of_length h]
  rcases mem_pair.1 hop with hop | hop <;> simp only [hop, reduceCtorEq, if_false]

/-- **Register logic through the branch of stores.** -/
theorem staysInClass_logic_iff (h : 4 ≤ entropy.length) (hop : seed.operation ∈ [.and, .or]) :
    StaysInClass seed entropy ↔ LogicFits seed entropy := by
  have hseed : seed.immediate = 0 := (logic_operands hop).1 seed.operands
  have hrd : (0 : ℤ) = (seed.rd : ℕ) ↔ seed.rd = 0 := by
    rw [eq_comm, Nat.cast_eq_zero, Fin.val_eq_zero_iff]
  unfold StaysInClass LogicFits
  rw [mutateInstruction_logic h hop]
  by_cases hfield : entropyField entropy = 0
  · rw [if_pos hfield, if_pos hfield, if_neg (not_not.2 hfield)]
    have hlittle : operandChanges seed 0 seed.rs1 (entropyRegister entropy) seed.immediate ≤ 1 ↔
        seed.rd = 0 ∨ (entropyRegister entropy : ℤ) = seed.rs2 := by
      unfold operandChanges
      rw [if_pos rfl, if_pos rfl, ← hrd]
      split_ifs <;> omega
    rw [← hlittle]
    constructor
    · rintro ⟨mutant, hnew, hmutant⟩
      rw [← changes_of_new hnew]
      exact hmutant.changes
    · intro hchanges
      exact exists_mutant (by decide) (register_bounds _) (entropyRegister_bounds entropy)
        ((logic_operands hop).2 hseed) hchanges fun _ => rfl
  · rw [if_neg hfield, if_neg hfield, if_pos hfield]
    constructor
    · rintro ⟨mutant, hnew, hmutant⟩
      have hzero : mutant.immediate = 0 := (logic_operands (hmutant.operation ▸ hop)).1 mutant.operands
      rw [(new_eq_ok hnew).2.2.2.2] at hzero
      exact signExtend12_eq_zero_iff.1 hzero
    · intro hbits
      have hzero : signExtend12 (entropyBits entropy) = 0 := signExtend12_eq_zero_iff.2 hbits
      refine exists_mutant (by decide) (register_bounds _) (register_bounds _)
        ((logic_operands hop).2 hzero) ?_
        fun _ => rfl
      unfold operandChanges
      rw [hzero, hseed, if_pos rfl, if_pos rfl, if_pos rfl]
      split_ifs <;> omega

/-- **The mutation stays inside its class exactly on other operations, or where the branch of stores
fits.** -/
theorem staysInClass_iff (seed : Rv32iInstruction) (h : 4 ≤ entropy.length) :
    StaysInClass seed entropy ↔ (seed.operation ∈ [.and, .or] → LogicFits seed entropy) := by
  by_cases hop : seed.operation ∈ [.and, .or]
  · rw [staysInClass_logic_iff h hop]
    exact ⟨fun hfits _ => hfits, fun hfits => hfits hop⟩
  · refine ⟨fun _ hlogic => absurd hlogic hop, fun _ => staysInClass_of_ne h (fun hand => ?_) fun hor => ?_⟩
    · exact hop (by rw [hand]; decide)
    · exact hop (by rw [hor]; decide)

/-- `AND x1, x2, x3`. -/
def andSeed : Rv32iInstruction := ⟨.and, 1, 2, 3, 0, rfl⟩

theorem addiSeed_operands : addi.Operands 1 2 0 0 := ⟨⟨by decide, by decide⟩, rfl⟩

/-- `ADDI x1, x2, 0`. -/
def addiSeed : Rv32iInstruction := ⟨.addi, 1, 2, 0, 0, addiSeed_operands⟩

/-- An immediate operation keeps its class. -/
theorem addi_staysInClass : StaysInClass addiSeed [1, 1, 0, 0] :=
  (staysInClass_iff addiSeed (by decide)).2 fun h => absurd h (by decide)

/-- The constructor refuses the immediate that a mutation gives to register logic. -/
theorem and_refused :
    mutateInstruction andSeed [1, 1, 0, 0] = .error (reject .fieldBadImmediate
      "register logic instructions have no immediate" "instruction.immediate") ∧
    ¬ StaysInClass andSeed [1, 1, 0, 0] := by
  have hrefused : mutateInstruction andSeed [1, 1, 0, 0] = .error (reject .fieldBadImmediate
      "register logic instructions have no immediate" "instruction.immediate") := rfl
  refine ⟨hrefused, ?_⟩
  rintro ⟨mutant, hmutant, -⟩
  rw [hrefused] at hmutant
  cases hmutant

end MyFuzz
