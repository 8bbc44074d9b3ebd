import MyFuzz.Riscv.EncodedWords
import MyFuzz.Riscv.Program

/-!
# Riscv/ProgramEmission — what can be drawn

Generation never fails once its options are accepted: whatever is drawn, the operands of an entry are
ones the encoder takes.  `Emission` lists the cases, one for each layout of a pool, with the operands,
the address and the word.

    spec ∈ pool   ⟹   Returns (emit32 spec …) fun item => Emission spec item.operands item.address item.word
-/

namespace MyFuzz

open Outcome List

/-! ## The entries of a pool -/

/-- The layouts of 32 bits that are generated. -/
def wideKinds : List InstructionKind :=
  [.r, .i, .shift, .load, .store, .u, .fence, .fencei, .lr, .amo]

/-- The operands of a generated layout. -/
def InstructionKind.operands : InstructionKind → List OperandName
  | .r | .amo => [.rd, .rs1, .rs2]
  | .i | .load => [.rd, .rs1, .imm]
  | .shift => [.rd, .rs1, .shamt]
  | .store => [.rs2, .rs1, .imm]
  | .u => [.rd, .imm]
  | .fence => [.pred, .succ]
  | .lr => [.rd, .rs1]
  | _ => []

theorem operands_specs : ∀ spec ∈ specs, spec.kind ∈ wideKinds →
    spec.operands = spec.kind.operands ∧ (spec.writesRd ↔ .rd ∈ spec.kind.operands) ∧ ¬ spec.immNonzero := by
  decide +kernel

/-- An immediate of an operation, a load or a store has twelve signed bits; an upper one is not aligned,
an access to one, two, four or eight bytes. -/
theorem immediate_specs : ∀ spec ∈ specs,
    (spec.kind ∈ [.i, .load, .store] → spec.immSigned = true ∧ spec.immBits = 12 ∧
      (spec.kind = .i → spec.controlFlow = false → spec.immAlign = 1)) ∧
    (spec.kind = .u → spec.immAlign = 1) ∧
    (spec.kind = .load ∨ spec.kind = .store → spec.immAlign ∈ [1, 2, 4, 8]) := by
  decide +kernel

/-- The compressed entries of a pool. -/
theorem compressed_specs : ∀ spec ∈ specs, spec.compressed → spec.f1Safe →
    (spec.kind = .ci ∧ spec.operands = [.rd, .imm] ∧ spec.immSigned ∧ spec.immBits = 6 ∧
      spec.immAlign = 1 ∧ (spec.immNonzero ↔ spec.name = "C.LUI")) ∨
    (spec.kind = .candi ∧ spec.operands = [.rd, .imm] ∧ spec.immSigned ∧ spec.immBits = 6 ∧
      spec.immAlign = 1 ∧ ¬ spec.immNonzero) ∨
    (spec.kind = .cshift ∧ spec.operands = [.rd, .shamt]) ∨
    ((spec.kind = .cr ∨ spec.kind = .ca) ∧ spec.operands = [.rd, .rs2]) := by
  decide +kernel

/-- The layouts of the entries of 32 bits. -/
theorem wide_specs : ∀ spec ∈ specs, ¬ spec.compressed → ¬ spec.controlFlow →
    ¬ spec.kind.unsupported → spec.kind ∈ wideKinds := by
  decide +kernel

/-- The fields of a generated layout stay clear of the opcode, and of the function field where there is
one. -/
theorem wide_layouts (xlen : ℕ) (h : xlen = 32 ∨ xlen = 64) :
    ∀ spec ∈ specs, spec.kind ∈ wideKinds → spec.layoutMask xlen &&& 0x7f = 0 ∧
      (spec.kind ∉ [.u, .fence, .fencei] → spec.layoutMask xlen &&& 7 <<< 12 = 0) ∧
      spec.layoutMask xlen < 2 ^ 32 ∧ spec.fixed < 2 ^ 32 ∧ spec.fixed &&& 3 = 3 := by
  rcases h with rfl | rfl <;> decide +kernel

/-- No operands yet. -/
abbrev noOperands : Dict OperandName ℤ := Dict.empty

section

variable (profile : RiscvProfile) (options : ProgramOptions) (reserved : List ℕ) (baseReg : ℕ)
  (spec : InstructionSpec)

/-- **The draws of one instruction of 32 bits**: its operands, its address and its word. -/
inductive Emission : Dict OperandName ℤ → Option ℕ → ℕ → Prop where
  | r {d s₁ s₂ : ℕ} (kind : spec.kind = .r) (hd : d ∈ destinations profile reserved)
      (h₁ : s₁ < profile.registerCount) (h₂ : s₂ < profile.registerCount) :
      Emission (((noOperands.set .rd d).set .rs1 s₁).set .rs2 s₂) none
        (spec.fixed ||| d <<< 7 ||| s₁ <<< 15 ||| s₂ <<< 20)
  | i {d s₁ : ℕ} {imm : ℤ} (kind : spec.kind = .i) (hd : d ∈ destinations profile reserved)
      (h₁ : s₁ < profile.registerCount) (himm : -2048 ≤ imm ∧ imm < 2048) :
      Emission (((noOperands.set .rd d).set .rs1 s₁).set .imm imm) none
        (spec.fixed ||| d <<< 7 ||| s₁ <<< 15 ||| intField imm 0 12 <<< 20)
  | shift {d s₁ shamt : ℕ} (kind : spec.kind = .shift) (hd : d ∈ destinations profile reserved)
      (h₁ : s₁ < profile.registerCount) (hshamt : shamt ≤ spec.shamtLimit profile.xlen)
      (hf1 : options.includeNonF1 = false → shamt ≤ 31) :
      Emission (((noOperands.set .rd d).set .rs1 s₁).set .shamt shamt) none
        (spec.fixed ||| d <<< 7 ||| s₁ <<< 15 ||| shamt <<< 20)
  | load {d offset : ℕ} (kind : spec.kind = .load) (hd : d ∈ destinations profile reserved)
      (hoffset : offset ≤ 2044) (halign : offset % accessAlign spec = 0)
      (hwindow : offset + accessAlign spec ≤ options.ramSize) :
      Emission (((noOperands.set .rd d).set .rs1 baseReg).set .imm offset)
        (some (options.ramBase + offset))
        (spec.fixed ||| d <<< 7 ||| baseReg <<< 15 ||| intField offset 0 12 <<< 20)
  | store {s₂ offset : ℕ} (kind : spec.kind = .store) (h₂ : s₂ < profile.registerCount)
      (hoffset : offset ≤ 2044) (halign : offset % accessAlign spec = 0)
      (hwindow : offset + accessAlign spec ≤ options.ramSize) :
      Emission (((noOperands.set .rs1 baseReg).set .rs2 s₂).set .imm offset)
        (some (options.ramBase + offset))
        (spec.fixed ||| baseReg <<< 15 ||| s₂ <<< 20 ||| storeBits offset)
  | u {d imm : ℕ} (kind : spec.kind = .u) (hd : d ∈ destinations profile reserved)
      (himm : imm < 2 ^ 20) :
      Emission ((noOperands.set .rd d).set .imm imm) none (spec.fixed ||| d <<< 7 ||| imm <<< 12)
  | fence (kind : spec.kind = .fence) :
      Emission ((noOperands.set .pred 0xF).set .succ 0xF) none
        (spec.fixed ||| 0xF <<< 24 ||| 0xF <<< 20)
  | fencei (kind : spec.kind = .fencei) : Emission noOperands none spec.fixed
  | lr {d : ℕ} (kind : spec.kind = .lr) (hd : d ∈ destinations profile reserved) :
      Emission ((noOperands.set .rd d).set .rs1 baseReg) (some options.ramBase)
        (spec.fixed ||| d <<< 7 ||| baseReg <<< 15 ||| 0 <<< 25)
  | amo {d s₂ : ℕ} (kind : spec.kind = .amo) (hd : d ∈ destinations profile reserved)
      (h₂ : s₂ < profile.registerCount) :
      Emission (((noOperands.set .rd d).set .rs1 baseReg).set .rs2 s₂) (some options.ramBase)
        (spec.fixed ||| d <<< 7 ||| baseReg <<< 15 ||| s₂ <<< 20 ||| 0 <<< 25)

/-- **The draws of one instruction of 16 bits.** -/
inductive CompressedEmission : Dict OperandName ℤ → ℕ → Prop where
  | ci {d : ℕ} {imm : ℤ} (kind : spec.kind = .ci) (hd : d ∈ primes profile reserved)
      (himm : -32 ≤ imm ∧ imm ≤ 31) (hlui : spec.name = "C.LUI" → imm ≠ 0) :
      CompressedEmission ((noOperands.set .rd d).set .imm imm)
        (spec.fixed ||| d <<< 7 ||| intField imm 0 5 <<< 2 ||| intField imm 5 1 <<< 12)
  | candi {d : ℕ} {imm : ℤ} (kind : spec.kind = .candi) (hd : d ∈ primes profile reserved)
      (himm : -32 ≤ imm ∧ imm ≤ 31) :
      CompressedEmission ((noOperands.set .rd d).set .imm imm)
        (spec.fixed ||| (d - 8) <<< 7 ||| intField imm 0 5 <<< 2 ||| intField imm 5 1 <<< 12)
  | cshift {d shamt : ℕ} (kind : spec.kind = .cshift) (hd : d ∈ primes profile reserved)
      (hshamt : 1 ≤ shamt ∧ shamt ≤ spec.shamtLimit profile.xlen) :
      CompressedEmission ((noOperands.set .rd d).set .shamt shamt)
        (spec.fixed ||| (if spec.name = "C.SLLI" then d else d - 8) <<< 7 |||
          intField shamt 0 5 <<< 2 ||| intField shamt 5 1 <<< 12)
  | cr {d s₂ : ℕ} (kind : spec.kind = .cr) (hd : d ∈ primes profile reserved)
      (h₂ : s₂ ∈ primes profile reserved) :
      CompressedEmission ((noOperands.set .rd d).set .rs2 s₂)
        (spec.fixed ||| d <<< 7 ||| s₂ <<< 2)
  | ca {d s₂ : ℕ} (kind : spec.kind = .ca) (hd : d ∈ primes profile reserved)
      (h₂ : s₂ ∈ primes profile reserved) :
      CompressedEmission ((noOperands.set .rd d).set .rs2 s₂)
        (spec.fixed ||| (d - 8) <<< 7 ||| (s₂ - 8) <<< 2)

end

/-! ## Accepted by the encoder -/

variable {profile : RiscvProfile} {options : ProgramOptions} {reserved : List ℕ} {baseReg : ℕ}
  {spec : InstructionSpec} {operands : Dict OperandName ℤ} {address : Option ℕ} {word : ℕ}

/-- A profile has 16 or 32 registers. -/
theorem RiscvProfile.registerCount_le (profile : RiscvProfile) :
    16 ≤ profile.registerCount ∧ profile.registerCount ≤ 32 := by
  rw [profile.registerCount_eq]
  split_ifs <;> omega

variable {d : ℕ} {name : OperandName} {field : String} {value : Option ℤ} {imm : ℤ} {draw : Draw ℕ}

theorem mem_destinations (h : d ∈ destinations profile reserved) :
    1 ≤ d ∧ d < profile.registerCount ∧ d ∉ reserved := by
  obtain ⟨hd, hr⟩ := mem_filter.1 h
  rw [mem_range'_1] at hd
  have := profile.registerCount_le
  exact ⟨hd.1, by omega, of_decide_eq_true hr⟩

theorem mem_primes (h : d ∈ primes profile reserved) :
    12 ≤ d ∧ d ≤ 15 ∧ d < profile.registerCount ∧ d ∉ reserved := by
  obtain ⟨hd, hr⟩ := mem_filter.1 h
  obtain ⟨hlt, hnot⟩ := of_decide_eq_true hr
  simp only [mem_cons, not_mem_nil, or_false] at hd
  exact ⟨by omega, by omega, hlt, hnot⟩

theorem checkOperands_of_subset (h : spec.operands ⊆ operands.keys)
    (h' : operands.keys ⊆ spec.operands) : checkOperands spec operands = .ok () := by
  unfold checkOperands
  dsimp only
  by_cases hfence : spec.kind = .fence ∧ operands.keys ⊆ [.pred, .succ]
  · rw [if_pos hfence]
  · rw [if_neg hfence]
    exact ensure_of ⟨h, fun a ha => mem_append_left _ (h' ha)⟩ _

/-- An entry's word is what its name encodes to. -/
theorem encode_of_word {xlen : ℕ} (hspec : spec ∈ specs) (hxlen : spec.minXlen ≤ xlen)
    (hkeys : spec.operands ⊆ operands.keys ∧ operands.keys ⊆ spec.operands)
    (h : encodeWord spec operands xlen = .ok word) : encode spec.name xlen operands = .ok word := by
  unfold encode specFor
  rw [catalog_of_mem hspec]
  exact ensure_ok.2 ⟨hxlen, bind_ok.2
    ⟨(), checkOperands_of_subset hkeys.1 hkeys.2, h⟩⟩

/-- A register operand that is set passes its check. -/
theorem reg_of_get? (h : operands.get? name = some (d : ℤ)) (hd : d < profile.registerCount) :
    reg (operands.get? name) field = .ok d := by
  have := profile.registerCount_le
  exact reg_eq_ok.2 ⟨h, by omega, by omega⟩

/-- A signed immediate of so many bits. -/
theorem immOperand_signed {bits : ℕ} (hsigned : spec.immSigned = true) (hbits : spec.immBits = bits)
    (himm : -2 ^ (bits - 1) ≤ imm ∧ imm ≤ 2 ^ (bits - 1) - 1) (halign : imm % spec.immAlign = 0)
    (hnonzero : spec.immNonzero = true → imm ≠ 0) : immOperand spec (some imm) = .ok imm := by
  refine immOperand_eq_ok.2 ⟨rfl, ?_, ?_, halign, hnonzero⟩ <;> rw [hsigned, hbits, if_pos rfl]
  · exact himm.1
  · exact himm.2

/-- An offset into the window is an immediate of its entry. -/
theorem immOperand_of_offset {offset : ℕ} (hspec : spec ∈ specs)
    (hkind : spec.kind = .load ∨ spec.kind = .store) (hvalue : value = some (offset : ℤ))
    (hoffset : offset ≤ 2044) (halign : offset % accessAlign spec = 0) :
    immOperand spec value = .ok offset := by
  have hmem : spec.kind ∈ [.i, .load, .store] := by
    rcases hkind with h | h <;> rw [h] <;> decide
  have hwide : spec.kind ∈ wideKinds := by rcases hkind with h | h <;> rw [h] <;> decide
  obtain ⟨himmediate, -, haccess⟩ := immediate_specs spec hspec
  obtain ⟨hsigned, hbits, -⟩ := himmediate hmem
  have hnonzero := (operands_specs spec hspec hwide).2.2
  have haligned := haccess hkind
  rw [hvalue]
  refine immOperand_signed hsigned hbits (by omega) ?_ fun h => absurd h hnonzero
  unfold accessAlign at halign
  simp only [mem_cons, not_mem_nil, or_false] at haligned
  rcases haligned with h | h | h | h <;> rw [h] at halign ⊢ <;> simp at halign ⊢ <;> omega

/-- **The encoder takes what is drawn.** -/
theorem encodeWord_of_emission (hspec : spec ∈ specs) (hbase : baseReg < profile.registerCount)
    (hflow : spec.controlFlow = false)
    (h : Emission profile options reserved baseReg spec operands address word) :
    encodeWord spec operands profile.xlen = .ok word := by
  unfold encodeWord
  cases h with
  | @r d s₁ s₂ kind hd h₁ h₂ =>
    simp only [kind]
    exact bind_ok.2 ⟨d, reg_of_get? rfl (mem_destinations hd).2.1, bind_ok.2
      ⟨s₁, reg_of_get? rfl h₁, bind_ok.2 ⟨s₂, reg_of_get? rfl h₂, rfl⟩⟩⟩
  | @i d s₁ imm kind hd h₁ himm =>
    obtain ⟨hsigned, hbits, halign⟩ := (immediate_specs spec hspec).1 (by rw [kind]; decide)
    have hnonzero := (operands_specs spec hspec (by rw [kind]; decide)).2.2
    have hok : immOperand spec (some imm) = .ok imm :=
      immOperand_signed hsigned hbits (by omega) (by rw [halign kind hflow]; simp)
        fun h => absurd h hnonzero
    simp only [kind]
    exact bind_ok.2 ⟨d, reg_of_get? rfl (mem_destinations hd).2.1, bind_ok.2
      ⟨s₁, reg_of_get? rfl h₁, bind_ok.2 ⟨imm, hok, rfl⟩⟩⟩
  | @shift d s₁ shamt kind hd h₁ hshamt hf1 =>
    simp only [kind]
    exact bind_ok.2 ⟨shamt, shamtOperand_eq_ok.2 ⟨rfl, by omega, by omega⟩, bind_ok.2
      ⟨d, reg_of_get? rfl (mem_destinations hd).2.1, bind_ok.2
      ⟨s₁, reg_of_get? rfl h₁, rfl⟩⟩⟩
  | @load d offset kind hd hoffset halign hwindow =>
    simp only [kind]
    exact bind_ok.2 ⟨d, reg_of_get? rfl (mem_destinations hd).2.1, bind_ok.2
      ⟨baseReg, reg_of_get? rfl hbase, bind_ok.2
      ⟨offset, immOperand_of_offset hspec (.inl kind) rfl hoffset halign, rfl⟩⟩⟩
  | @store s₂ offset kind h₂ hoffset halign hwindow =>
    simp only [kind]
    exact bind_ok.2 ⟨baseReg, reg_of_get? rfl hbase, bind_ok.2
      ⟨s₂, reg_of_get? rfl h₂, bind_ok.2
      ⟨offset, immOperand_of_offset hspec (.inr kind) rfl hoffset halign, rfl⟩⟩⟩
  | @u d imm kind hd himm =>
    obtain ⟨hbits, hsigned⟩ := upper_specs spec hspec kind
    have hnonzero := (operands_specs spec hspec (by rw [kind]; decide)).2.2
    have hok : immOperand spec (some (imm : ℤ)) = .ok (imm : ℤ) := by
      refine immOperand_eq_ok.2 ⟨rfl, ?_, ?_, ?_, fun h => absurd h hnonzero⟩
      · rw [hsigned]
        simp
      · rw [hsigned, hbits]
        simp only [Bool.false_eq_true, if_false]
        omega
      · rw [(immediate_specs spec hspec).2.1 kind]
        simp
    simp only [kind]
    exact bind_ok.2 ⟨d, reg_of_get? rfl (mem_destinations hd).2.1, bind_ok.2 ⟨imm, hok, rfl⟩⟩
  | fence kind | fencei kind =>
    simp only [kind]
    rfl
  | @lr d kind hd =>
    simp only [kind]
    exact bind_ok.2 ⟨0, rfl, bind_ok.2 ⟨d, reg_of_get? rfl (mem_destinations hd).2.1,
      bind_ok.2 ⟨baseReg, reg_of_get? rfl hbase, rfl⟩⟩⟩
  | @amo d s₂ kind hd h₂ =>
    simp only [kind]
    exact bind_ok.2 ⟨0, rfl, bind_ok.2 ⟨d, reg_of_get? rfl (mem_destinations hd).2.1,
      bind_ok.2 ⟨baseReg, reg_of_get? rfl hbase, bind_ok.2 ⟨s₂, reg_of_get? rfl h₂, rfl⟩⟩⟩⟩

/-- The operands that are drawn are the entry's. -/
theorem keys_of_emission (hspec : spec ∈ specs)
    (h : Emission profile options reserved baseReg spec operands address word) :
    spec.operands ⊆ operands.keys ∧ operands.keys ⊆ spec.operands := by
  have hoperands : spec.kind ∈ wideKinds → spec.operands = spec.kind.operands :=
    fun hk => (operands_specs spec hspec hk).1
  cases h with
  | r kind | i kind | shift kind | load kind | store kind | u kind | fence kind | fencei kind
  | lr kind | amo kind =>
    rw [hoperands (by rw [kind]; decide), kind]
    first
    | exact ⟨List.Subset.refl _, List.Subset.refl _⟩
    | exact ⟨show [OperandName.rs2, .rs1, .imm] ⊆ [.rs1, .rs2, .imm] by decide,
        show [OperandName.rs1, .rs2, .imm] ⊆ [.rs2, .rs1, .imm] by decide⟩

theorem primeReg_of_mem (hvalue : value = some (d : ℤ)) (hd : d ∈ primes profile reserved) :
    primeReg value field = .ok d := by
  obtain ⟨hlow, hhigh, -, -⟩ := mem_primes hd
  exact primeReg_eq_ok.2 ⟨hvalue, by omega, by omega⟩

theorem nonzeroReg_of_mem (hvalue : value = some (d : ℤ)) (hd : d ∈ primes profile reserved) :
    nonzeroReg value field = .ok d := by
  obtain ⟨hlow, hhigh, -, -⟩ := mem_primes hd
  exact nonzeroReg_eq_ok.2 ⟨hvalue, by omega, by omega⟩

/-- **The encoder takes what is drawn for a compressed instruction.** -/
theorem encodeWord_of_compressed (hspec : spec ∈ specs) (hcompressed : spec.compressed = true)
    (hsafe : spec.f1Safe = true) (h : CompressedEmission profile reserved spec operands word) :
    encodeWord spec operands profile.xlen = .ok word := by
  have hcases := compressed_specs spec hspec hcompressed hsafe
  cases h with
  | @ci d imm kind hd himm hlui =>
    obtain ⟨hlow, hhigh, -, -⟩ := mem_primes hd
    simp only [kind, reduceCtorEq, true_and, false_and, or_false] at hcases
    obtain ⟨-, hsigned, hbits, halign, hnonzero⟩ := hcases
    have hok : immOperand spec (some imm) = .ok imm :=
      immOperand_signed hsigned hbits (by omega) (by rw [halign]; simp) fun h => hlui (hnonzero.1 h)
    have hrd : ciRegister spec ((noOperands.set .rd d).set .imm imm) = .ok (d : ℤ) := by
      refine ciRegister_eq_ok.2 ⟨⟨rfl, by omega, by omega⟩, ?_⟩
      split_ifs <;> omega
    unfold encodeWord encodeCompressed
    simp only [kind]
    exact bind_ok.2 ⟨d, hrd, bind_ok.2 ⟨imm, hok, rfl⟩⟩
  | @candi d imm kind hd himm =>
    obtain ⟨hlow, hhigh, -, -⟩ := mem_primes hd
    simp only [kind, reduceCtorEq, true_and, false_and, or_false, false_or] at hcases
    obtain ⟨-, hsigned, hbits, halign, hnonzero⟩ := hcases
    have hok : immOperand spec (some imm) = .ok imm :=
      immOperand_signed hsigned hbits (by omega) (by rw [halign]; simp) fun h => absurd h hnonzero
    have hsub : ((d : ℤ) - 8).toNat = d - 8 := by omega
    unfold encodeWord encodeCompressed
    simp only [kind]
    refine bind_ok.2 ⟨imm, hok, bind_ok.2 ⟨d, primeReg_of_mem rfl hd, ?_⟩⟩
    rw [hsub]
    rfl
  | @cshift d shamt kind hd hshamt =>
    obtain ⟨hlow, hhigh, -, -⟩ := mem_primes hd
    have hsub : ((d : ℤ) - 8).toNat = d - 8 := by omega
    unfold encodeWord encodeCompressed
    simp only [kind]
    refine bind_ok.2 ⟨shamt, shamtOperand_eq_ok.2 ⟨rfl, by omega, by omega⟩, ?_⟩
    by_cases hname : spec.name = "C.SLLI"
    · rw [if_pos hname, if_pos hname]
      exact bind_ok.2 ⟨d, nonzeroReg_of_mem rfl hd, rfl⟩
    · rw [if_neg hname, if_neg hname]
      refine bind_ok.2 ⟨d, primeReg_of_mem rfl hd, ?_⟩
      rw [hsub]
      rfl
  | @cr d s₂ kind hd h₂ =>
    obtain ⟨hlow, hhigh, -, -⟩ := mem_primes h₂
    unfold encodeWord encodeCompressed
    simp only [kind]
    exact bind_ok.2 ⟨d, nonzeroReg_of_mem rfl hd, bind_ok.2
      ⟨s₂, reg_eq_ok.2 ⟨rfl, by omega, by omega⟩, rfl⟩⟩
  | @ca d s₂ kind hd h₂ =>
    obtain ⟨hlow, hhigh, -, -⟩ := mem_primes hd
    have hsub : ((d : ℤ) - 8).toNat = d - 8 := by omega
    have hsub₂ : ((s₂ : ℤ) - 8).toNat = s₂ - 8 := by omega
    unfold encodeWord encodeCompressed
    simp only [kind]
    refine bind_ok.2 ⟨d, primeReg_of_mem rfl hd, bind_ok.2
      ⟨s₂, primeReg_of_mem rfl h₂, ?_⟩⟩
    rw [hsub, hsub₂]
    rfl

theorem keys_of_compressed (hspec : spec ∈ specs) (hcompressed : spec.compressed = true)
    (hsafe : spec.f1Safe = true) (h : CompressedEmission profile reserved spec operands word) :
    spec.operands ⊆ operands.keys ∧ operands.keys ⊆ spec.operands := by
  have hcases := compressed_specs spec hspec hcompressed hsafe
  cases h with
  | ci kind | candi kind | cshift kind | cr kind | ca kind =>
    simp only [kind, reduceCtorEq, true_and, false_and, or_false, false_or, or_true] at hcases
    first
    | rw [hcases.1]
      exact ⟨List.Subset.refl _, List.Subset.refl _⟩
    | rw [hcases]
      exact ⟨List.Subset.refl _, List.Subset.refl _⟩

/-! ## Drawn operands are read back -/

section Read

open InstructionSpec Scatter BitField

variable {p : Piece OperandName} {v : ℤ}

theorem read_of_emission (hspec : spec ∈ specs) (hbase : baseReg < profile.registerCount)
    (hflow : spec.controlFlow = false)
    (h : Emission profile options reserved baseReg spec operands address word) (hp : p ∈ spec.layout)
    (hv : operands.get? p.operand = some v) (hn : p.source + p.width ≤ 32) :
    readSegment word p.target p.width = intField v p.source p.width := by
  have hkeys := keys_of_emission hspec h
  exact read_encodeWord hspec (checkOperands_of_subset hkeys.1 hkeys.2)
    (encodeWord_of_emission hspec hbase hflow h) hp hv hn

theorem read_of_compressed (hspec : spec ∈ specs) (hcompressed : spec.compressed = true)
    (hsafe : spec.f1Safe = true) (h : CompressedEmission profile reserved spec operands word)
    (hp : p ∈ spec.layout) (hv : operands.get? p.operand = some v) (hn : p.source + p.width ≤ 32) :
    readSegment word p.target p.width = intField v p.source p.width := by
  have hkeys := keys_of_compressed hspec hcompressed hsafe h
  exact read_encodeWord hspec (checkOperands_of_subset hkeys.1 hkeys.2)
    (encodeWord_of_compressed hspec hcompressed hsafe h) hp hv hn

end Read

/-! ## Draws -/

open Draw

variable {written : List ℕ}

/-- The registers that are kept from being written: at most the last one. -/
def ReservedFor (profile : RiscvProfile) (reserved : List ℕ) : Prop :=
  reserved = [] ∨ reserved = [profile.registerCount - 1]

theorem notMem_reserved (h : ReservedFor profile reserved) (hd : d < 15) : d ∉ reserved := by
  have := profile.registerCount_le
  rcases h with rfl | rfl
  · exact not_mem_nil
  · rw [mem_singleton]
    omega

theorem returns_pickDest (h : ReservedFor profile reserved) :
    Returns (pickDest profile reserved) (· ∈ destinations profile reserved) := by
  have hne : destinations profile reserved ≠ [] := by
    have := profile.registerCount_le
    refine ne_nil_of_mem (a := 1) (mem_filter.2 ⟨?_, ?_⟩)
    · rw [mem_range'_1]
      omega
    · exact decide_eq_true (notMem_reserved h (by decide))
  unfold pickDest
  rw [if_neg hne]
  exact Returns.choice hne fun _ ha => ha

theorem returns_pickSource : Returns (pickSource profile written) (· < profile.registerCount) := by
  have hne : sources profile written ≠ [] := by
    have := profile.registerCount_le
    refine ne_nil_of_mem (a := 0) (mem_filter.2 ⟨?_, ?_⟩)
    · rw [mem_range]
      omega
    · exact decide_eq_true (.inl rfl)
  exact Returns.choice hne fun _ ha => mem_range.1 (mem_filter.1 ha).1

/-- What an operand becomes when it is drawn, if the entry has it. -/
theorem returns_pickOperand {P : ℕ → Prop} (hdraw : Returns draw P) :
    Returns (pickOperand spec name draw operands) fun result =>
      ∃ reg : ℕ, P reg ∧ result = if name ∈ spec.operands then operands.set name reg else operands := by
  unfold pickOperand
  split_ifs
  · exact hdraw.bind fun reg hreg => Returns.pure ⟨reg, hreg, rfl⟩
  · obtain ⟨reg, -, -, hreg⟩ := hdraw fun _ => 0
    exact Returns.pure ⟨reg, hreg, rfl⟩

theorem accessAlign_eq (hspec : spec ∈ specs) (hkind : spec.kind = .load ∨ spec.kind = .store) :
    accessAlign spec = 4 ∨ accessAlign spec = 8 := by
  have halign := (immediate_specs spec hspec).2.2 hkind
  simp only [mem_cons, not_mem_nil, or_false] at halign
  unfold accessAlign
  omega

/-- An offset into the window is reached by 12 bits, aligned, and leaves room for the access. -/
def OffsetFits (align ramSize : ℕ) (v : ℤ) : Prop :=
  ∃ offset : ℕ, v = offset ∧ offset ≤ 2044 ∧ offset % align = 0 ∧ offset + align ≤ ramSize

theorem returns_windowOffset {align ramSize : ℕ} (halign : align = 4 ∨ align = 8)
    (hsize : align ≤ ramSize) : Returns (windowOffset align ramSize) (OffsetFits align ramSize) := by
  refine (Returns.randrange ?_).bind fun v hv => Returns.pure ?_
  · rcases halign with rfl | rfl <;> omega
  · obtain ⟨hlow, hhigh⟩ := hv
    refine ⟨(v * align).toNat, ?_, ?_, ?_, ?_⟩
    all_goals rcases halign with rfl | rfl <;> push_cast at * <;> omega

/-- The entry is in the pool of 32 bits. -/
structure InPool (profile : RiscvProfile) (options : ProgramOptions) (spec : InstructionSpec) : Prop where
  mem : spec ∈ specs
  flow : spec.controlFlow = false
  kind : spec.kind ∈ wideKinds
  xlen : spec.minXlen ≤ profile.xlen
  safe : options.includeNonF1 = false → spec.f1Safe = true
  window : spec.kind.isMemory = true → accessAlign spec ≤ options.ramSize
  available : extensionAvailable profile spec

theorem inPool_of_mem (h : spec ∈ pool profile options false) : InPool profile options spec := by
  obtain ⟨hmem, hspec⟩ := mem_filter.1 h
  obtain ⟨hc, hflow, -, havailable, hsafe, hwindow⟩ := of_decide_eq_true hspec
  simp only [not_or, Bool.not_eq_true] at hflow
  refine ⟨hmem, hflow.1, wide_specs spec hmem (by simp [hc]) (by simp [hflow.1]) (by simp [hflow.2]),
    havailable.1, fun hn => ?_, fun hm => ?_, havailable⟩
  · by_contra hs
    exact hsafe ⟨by simp [hn], hs⟩
  · by_contra hs
    exact hwindow ⟨hm, .inr (by omega)⟩

/-- The operands and the address that are drawn for an entry make an instruction. -/
def Completes (profile : RiscvProfile) (options : ProgramOptions) (reserved : List ℕ) (baseReg : ℕ)
    (spec : InstructionSpec) (operands : Dict OperandName ℤ) : Prop :=
  Returns (pickRest spec profile options operands) fun result =>
    ∃ word, Emission profile options reserved baseReg spec result.1 result.2 word

/-- What `rs1` is: the base register of a memory instruction, else any register. -/
def FirstSource (profile : RiscvProfile) (baseReg : ℕ) (kind : InstructionKind) (s : ℕ) : Prop :=
  if kind.isMemory then s = baseReg else s < profile.registerCount

theorem returns_firstSource (kind : InstructionKind) :
    Returns (if kind.isMemory then pure baseReg else pickSource profile written)
      (FirstSource profile baseReg kind) := by
  unfold FirstSource
  split_ifs
  · exact Returns.pure rfl
  · exact returns_pickSource

/-- The registers of an entry, in the order of the draws. -/
theorem returns_registers (hreserved : ReservedFor profile reserved) :
    Returns (pickRegisters spec profile written reserved baseReg) fun o => ∃ d s₁ s₂ : ℕ,
      d ∈ destinations profile reserved ∧ FirstSource profile baseReg spec.kind s₁ ∧
        s₂ < profile.registerCount ∧
        o = [(.rd, d), (.rs1, s₁), (.rs2, s₂)].foldl (fun (o : Dict OperandName ℤ) x =>
          if x.1 ∈ spec.operands then o.set x.1 (x.2 : ℕ) else o) noOperands := by
  refine (returns_pickOperand (returns_pickDest hreserved)).bind fun o ⟨d, hd, ho⟩ => ?_
  refine (returns_pickOperand (returns_firstSource spec.kind)).bind fun o' ⟨s₁, h₁, ho'⟩ => ?_
  refine (returns_pickOperand returns_pickSource).mono fun o'' ⟨s₂, h₂, ho''⟩ => ?_
  subst ho ho' ho''
  exact ⟨d, s₁, s₂, hd, h₁, h₂, rfl⟩

/-- **Whatever is drawn, the operands of a pool's entry make an instruction.** -/
theorem returns_pickRegisters (hspec : InPool profile options spec)
    (hreserved : ReservedFor profile reserved) :
    Returns (pickRegisters spec profile written reserved baseReg)
      (Completes profile options reserved baseReg spec) := by
  obtain ⟨hops, -, -⟩ := operands_specs spec hspec.mem hspec.kind
  have hkind := hspec.kind
  simp only [wideKinds, mem_cons, not_mem_nil, or_false] at hkind
  unfold Completes pickRest
  refine (returns_registers hreserved).mono ?_
  rintro _ ⟨d, s₁, s₂, hd, h₁, h₂, rfl⟩
  rcases hkind with kind | kind | kind | kind | kind | kind | kind | kind | kind | kind <;>
    rw [kind] at hops h₁ <;>
    simp only [kind, hops, InstructionKind.operands, foldl_cons, foldl_nil, mem_cons, not_mem_nil,
      reduceCtorEq, or_self, or_true, or_false, if_false, if_true]
  · exact Returns.pure ⟨_, .r kind hd h₁ h₂⟩
  · exact (Returns.randrange (by decide)).bind fun imm himm =>
      Returns.pure ⟨_, .i kind hd h₁ himm⟩
  · refine (Returns.randint (by omega)).bind fun shamt hshamt => Returns.pure ?_
    obtain ⟨hlow, hhigh⟩ := hshamt
    lift shamt to ℕ using hlow
    refine ⟨_, .shift kind hd h₁ ?_ fun hf1 => ?_⟩
    · split_ifs at hhigh <;> omega
    · simp only [hf1, Bool.false_eq_true, if_false] at hhigh
      omega
  · obtain rfl : s₁ = baseReg := h₁
    refine (returns_windowOffset (accessAlign_eq hspec.mem (.inl kind))
      (hspec.window (by rw [kind]; rfl))).bind ?_
    rintro _ ⟨offset, rfl, hoffset, halign, hwindow⟩
    exact Returns.pure ⟨_, .load kind hd hoffset halign hwindow⟩
  · obtain rfl : s₁ = baseReg := h₁
    refine (returns_windowOffset (accessAlign_eq hspec.mem (.inr kind))
      (hspec.window (by rw [kind]; rfl))).bind ?_
    rintro _ ⟨offset, rfl, hoffset, halign, hwindow⟩
    exact Returns.pure ⟨_, .store kind h₂ hoffset halign hwindow⟩
  · refine (Returns.randrange (by decide)).bind fun imm himm => Returns.pure ?_
    obtain ⟨hlow, hhigh⟩ := himm
    lift imm to ℕ using hlow
    exact ⟨_, .u kind hd (by omega)⟩
  · exact Returns.pure ⟨_, .fence kind⟩
  · exact Returns.pure ⟨_, .fencei kind⟩
  · obtain rfl : s₁ = baseReg := h₁
    exact Returns.pure ⟨_, .lr kind hd⟩
  · obtain rfl : s₁ = baseReg := h₁
    exact Returns.pure ⟨_, .amo kind hd h₂⟩

/-! ## Instructions -/

/-- An instruction of 32 bits that was drawn for a place. -/
structure Wide (profile : RiscvProfile) (options : ProgramOptions) (reserved : List ℕ) (baseReg pc : ℕ)
    (item : ProgramInstruction) : Prop where
  pc_eq : item.pc = pc
  width_eq : item.width = 4
  drawn : ∃ spec, InPool profile options spec ∧
    Emission profile options reserved baseReg spec item.operands item.address item.word

/-- The entry is in the pool of 16 bits. -/
structure InCompressedPool (profile : RiscvProfile) (spec : InstructionSpec) : Prop where
  mem : spec ∈ specs
  compressed : spec.compressed = true
  safe : spec.f1Safe = true
  available : extensionAvailable profile spec

/-- An instruction of 16 bits that was drawn for a place. -/
structure Narrow (profile : RiscvProfile) (reserved : List ℕ) (pc : ℕ) (item : ProgramInstruction) :
    Prop where
  pc_eq : item.pc = pc
  width_eq : item.width = 2
  address_eq : item.address = none
  drawn : ∃ spec, InCompressedPool profile spec ∧
    CompressedEmission profile reserved spec item.operands item.word

theorem inCompressedPool_of_mem (h : spec ∈ pool profile options true) : InCompressedPool profile spec := by
  obtain ⟨hmem, hspec⟩ := mem_filter.1 h
  obtain ⟨hc, -, hsafe, havailable, -, -⟩ := of_decide_eq_true hspec
  refine ⟨hmem, hc, ?_, havailable⟩
  by_contra hs
  exact hsafe ⟨hc, hs⟩

/-- An instruction of 32 bits with an entry's layout. -/
structure WideOf (profile : RiscvProfile) (options : ProgramOptions) (reserved : List ℕ)
    (baseReg pc : ℕ) (spec : InstructionSpec) (item : ProgramInstruction) : Prop where
  pc_eq : item.pc = pc
  width_eq : item.width = 4
  emission : Emission profile options reserved baseReg spec item.operands item.address item.word

/-- **Whatever is drawn, an instruction of 32 bits is emitted.** -/
theorem returns_emit32 (hspec : InPool profile options spec)
    (hreserved : ReservedFor profile reserved) (hbase : baseReg < profile.registerCount) (pc : ℕ) :
    Returns (emit32 spec profile options written reserved baseReg pc) fun result =>
      WideOf profile options reserved baseReg pc spec result.1 := by
  refine (returns_pickRegisters hspec hreserved).bind fun operands hcompletes => ?_
  refine Returns.bind hcompletes fun result hresult => ?_
  obtain ⟨operands, address⟩ := result
  obtain ⟨word, hword⟩ := hresult
  refine Returns.bind (P := (· = word)) (Returns.lift (encode_of_word hspec.mem hspec.xlen
    (keys_of_emission hspec.mem hword)
    (encodeWord_of_emission hspec.mem hbase hspec.flow hword)) rfl) ?_
  rintro _ rfl
  exact Returns.pure ⟨rfl, rfl, hword⟩

theorem WideOf.wide {pc : ℕ} {item : ProgramInstruction} (hspec : InPool profile options spec)
    (h : WideOf profile options reserved baseReg pc spec item) :
    Wide profile options reserved baseReg pc item :=
  ⟨h.pc_eq, h.width_eq, spec, hspec, h.emission⟩

theorem returns_choice_primes (h : ReservedFor profile reserved) :
    primes profile reserved ≠ [] ∧
      Returns (choice (primes profile reserved)) (· ∈ primes profile reserved) := by
  have hne : primes profile reserved ≠ [] := by
    have := profile.registerCount_le
    refine ne_nil_of_mem (a := 12) (mem_filter.2 ⟨by decide, ?_⟩)
    exact decide_eq_true ⟨by omega, notMem_reserved h (by decide)⟩
  exact ⟨hne, Returns.choice hne fun _ ha => ha⟩

/-- The immediates of `c.lui`. -/
theorem mem_luiImmediates (h : imm ∈ luiImmediates) : (-32 ≤ imm ∧ imm ≤ 31) ∧ imm ≠ 0 := by
  rcases mem_append.1 h with h | h
  · obtain ⟨i, hi, rfl⟩ := mem_map.1 h
    rw [mem_range] at hi
    omega
  · obtain ⟨i, hi, rfl⟩ := mem_map.1 h
    rw [mem_range'_1] at hi
    omega

/-- The operands of a compressed entry make an instruction. -/
theorem returns_pickCompressedRest (hspec : InCompressedPool profile spec)
    (hreserved : ReservedFor profile reserved) (hd : d ∈ primes profile reserved) :
    Returns (pickOperand spec .rs2 (choice (primes profile reserved)) (noOperands.set .rd d))
      fun operands => Returns (pickCompressedRest spec profile operands) fun result =>
        ∃ word, CompressedEmission profile reserved spec result word := by
  have hcases := compressed_specs spec hspec.mem hspec.compressed hspec.safe
  unfold pickCompressedRest
  refine (returns_pickOperand (returns_choice_primes hreserved).2).mono ?_
  rintro _ ⟨s₂, h₂, rfl⟩
  rcases hcases with ⟨kind, hops, -⟩ | ⟨kind, hops, -⟩ | ⟨kind, hops⟩ | ⟨kind | kind, hops⟩ <;>
    simp only [kind, hops, mem_cons, not_mem_nil, reduceCtorEq, or_self, if_false, if_true]
  · split_ifs with hname
    · refine (Returns.choice (cons_ne_nil _ _) fun _ ha => mem_luiImmediates ha).bind ?_
      rintro imm ⟨himm, hne⟩
      exact Returns.pure ⟨_, .ci kind hd himm fun _ => hne⟩
    · refine (Returns.randint (by decide)).bind fun imm himm => ?_
      exact Returns.pure ⟨_, .ci kind hd himm fun h => absurd h hname⟩
  · exact (Returns.randint (by decide)).bind fun imm himm => Returns.pure ⟨_, .candi kind hd himm⟩
  · have hlimit := spec.shamtLimit_eq profile.xlen
    refine (Returns.randint (by omega)).bind fun shamt hshamt => Returns.pure ?_
    obtain ⟨hlow, hhigh⟩ := hshamt
    lift shamt to ℕ using (by omega)
    exact ⟨_, .cshift kind hd ⟨by omega, by omega⟩⟩
  · exact Returns.pure ⟨_, .cr kind hd h₂⟩
  · exact Returns.pure ⟨_, .ca kind hd h₂⟩

/-- **Whatever is drawn, an instruction of 16 bits is emitted.** -/
theorem returns_emitCompressed (hspec : InCompressedPool profile spec)
    (hreserved : ReservedFor profile reserved) (pc : ℕ) :
    Returns (emitCompressed spec profile written reserved pc) fun result =>
      Narrow profile reserved pc result.1 := by
  obtain ⟨hne, hchoice⟩ := returns_choice_primes hreserved
  unfold emitCompressed
  dsimp only
  rw [if_neg hne]
  refine hchoice.bind fun d hd => ?_
  refine (returns_pickCompressedRest hspec hreserved hd).bind fun operands hrest => ?_
  refine Returns.bind hrest fun operands ⟨word, hword⟩ => ?_
  refine Returns.bind (P := (· = word)) (Returns.lift (encode_of_word hspec.mem hspec.available.1
    (keys_of_compressed hspec.mem hspec.compressed hspec.safe hword)
    (encodeWord_of_compressed hspec.mem hspec.compressed hspec.safe hword)) rfl) ?_
  rintro _ rfl
  exact Returns.pure ⟨rfl, rfl, rfl, spec, hspec, hword⟩

end MyFuzz
