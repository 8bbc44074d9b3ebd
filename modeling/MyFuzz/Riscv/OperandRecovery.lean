import MyFuzz.Riscv.EncodedWords

/-!
# Riscv/OperandRecovery — no operand is lost

The pieces of an accepted word keep apart and cover the operands, so each operand is read back, an
immediate with its sign:

    operands ──encode──▸ word = scatter fixed layout operands ──decode──▸ operands
-/

namespace MyFuzz

open Outcome BitField Scatter

section Fields

variable {v : ℤ} {n : ℕ}

/-- **A signed number is its low bits, sign-extended.** -/
theorem signed_intField_of_range (hn : 0 < n) (hlow : -2 ^ (n - 1) ≤ v) (hhigh : v < 2 ^ (n - 1)) :
    Machine.signed (intField v 0 n) n = v := by
  have hdouble : (2 : ℤ) ^ n = 2 * 2 ^ (n - 1) := by
    rw [← pow_succ', Nat.sub_add_cancel hn]
  have hpos : (0 : ℤ) < 2 ^ (n - 1) := by positivity
  unfold Machine.signed
  rcases lt_or_ge v 0 with hneg | hpos'
  · have hbits : (intField v 0 n : ℤ) = v + 2 ^ n := by
      rw [coe_intField, pow_zero, Int.ediv_one, ← Int.add_emod_right, Int.emod_eq_of_lt (by omega) (by omega)]
    rw [if_neg fun h => ?_, hbits]
    · exact Int.add_sub_cancel v _
    · have : (intField v 0 n : ℤ) < 2 ^ (n - 1) := by exact_mod_cast h
      omega
  · have hbits : (intField v 0 n : ℤ) = v := coe_intField_of_lt hpos' (by omega)
    rw [if_pos, hbits]
    have : (intField v 0 n : ℤ) < 2 ^ (n - 1) := by omega
    exact_mod_cast this

end Fields

namespace InstructionSpec

variable {spec : InstructionSpec} {operands : Dict OperandName ℤ} {o : OperandName} {v : ℤ} {w : ℕ}

/-! ## Reading operands back -/

/-- The low bits of what is scattered. -/
theorem operandValue_mod (hv : spec.filled operands o = some v) {n : ℕ} (hn : n ≤ 32) :
    spec.operandValue operands o % 2 ^ n = intField v 0 n := by
  have hsegment := readSegment_intField (v := v) (s := 0) (n := n) (m := 32) (by omega)
  rw [readSegment, Nat.and_two_pow_sub_one_eq_mod, Nat.shiftRight_zero] at hsegment
  rw [operandValue, hv, Option.getD_some, hsegment]

theorem bits_le (o : OperandName) : o.bits ≤ 32 := by
  unfold OperandName.bits
  split <;> decide

/-- **An immediate is read back with its sign.** -/
theorem decode_imm (hspec : spec ∈ specs) (h : spec.Spells operands spec.layout w)
    (hmem : .imm ∈ spec.layout.map Piece.operand) (hv : spec.filled operands .imm = some v)
    (hfits : spec.ImmFits v) :
    spec.decode w .imm = v := by
  obtain ⟨p, hp, himm⟩ := List.mem_map.1 hmem
  obtain ⟨hapart, hcovers, -⟩ := specs_layout spec hspec
  obtain ⟨halign, hlow, hpos, hbits, hsigned, hreach⟩ := specs_immediate spec hspec hmem
  have hcover := hcovers p hp
  rw [himm] at hcover
  have haligned : spec.operandValue operands .imm % 2 ^ spec.operandLow .imm = 0 := by
    have hmod := hfits.aligned
    rw [halign] at hmod
    push_cast at hmod
    have hfield := coe_intField v 0 (spec.operandLow .imm)
    rw [pow_zero, Int.ediv_one, hmod] at hfield
    rw [operandValue_mod hv hlow]
    exact_mod_cast hfield
  have hgather := gather_scatter hapart hcover haligned
  have hwidth : spec.operandBits .imm = spec.immBits := if_pos rfl
  rw [← h.word, hwidth, operandValue_mod hv hbits] at hgather
  have hrange := And.intro hfits.low hfits.high
  rw [hsigned] at hrange
  unfold decode
  dsimp only
  rw [if_pos rfl, hgather, hreach]
  cases hunsigned : spec.unsignedImmediate with
  | true =>
    rw [hunsigned] at hrange
    rw [if_pos rfl]
    exact coe_intField_of_lt hrange.1 (Int.lt_of_le_sub_one hrange.2)
  | false =>
    rw [hunsigned] at hrange
    rw [if_neg Bool.false_ne_true]
    exact signed_intField_of_range hpos hrange.1 (Int.lt_of_le_sub_one hrange.2)

/-- **A number is read back.** -/
theorem decode_number (hspec : spec ∈ specs) (h : spec.Spells operands spec.layout w) {p : Piece OperandName}
    (hp : p ∈ spec.layout) (hne : p.operand ≠ .imm) (hv : spec.filled operands p.operand = some v)
    (hfits : spec.Fits p.operand v) : spec.decode w p.operand = v := by
  obtain ⟨hapart, hcovers, -⟩ := specs_layout spec hspec
  have hlow : spec.operandValue operands p.operand % 2 ^ spec.operandLow p.operand = 0 := by
    unfold operandLow
    rw [if_neg hne, pow_zero, Nat.mod_one]
  have hgather := gather_scatter hapart (hcovers p hp) hlow
  rw [← h.word] at hgather
  unfold Fits at hfits
  unfold operandBits at hgather
  rw [if_neg hne] at hfits hgather
  unfold decode
  dsimp only
  rw [if_neg hne, hgather]
  by_cases hprimed : spec.primed p.operand = true
  · rw [if_pos hprimed] at hfits ⊢
    rw [if_pos hprimed, operandValue_mod hv (by decide), coe_intField]
    omega
  · rw [if_neg hprimed] at hfits ⊢
    rw [if_neg hprimed, operandValue_mod hv (bits_le _)]
    exact coe_intField_of_lt hfits.1 hfits.2

/-- **Every operand of the format is read back.** -/
theorem Spells.filled_eq (h : spec.Spells operands spec.layout w) (hspec : spec ∈ specs)
    (hmem : o ∈ spec.layout.map Piece.operand) : spec.filled operands o = some (spec.decode w o) := by
  obtain ⟨p, hp, rfl⟩ := List.mem_map.1 hmem
  obtain ⟨v, hv, hfits⟩ := h.fits p hp
  rw [hv]
  by_cases himm : p.operand = .imm
  · rw [himm] at hmem hv hfits ⊢
    exact congrArg some (decode_imm hspec h hmem hv hfits).symm
  · exact congrArg some (decode_number hspec h hp himm hv hfits).symm

/-- The operands of a fence are in its format. -/
theorem mem_layout_fence (hkind : spec.kind = .fence) (ho : o = .pred ∨ o = .succ) :
    o ∈ spec.layout.map Piece.operand := by
  have hlayout : spec.layout = [⟨.pred, 0, 4, 24⟩, ⟨.succ, 0, 4, 20⟩] := by
    unfold layout
    rw [hkind]
  rw [hlayout]
  rcases ho with rfl | rfl <;> decide

/-- **An accepted assignment has the operands of its format only.** -/
theorem mem_layout_of_filled (hspec : spec ∈ specs) (hcheck : checkOperands spec operands = .ok ())
    (hfilled : (spec.filled operands o).isSome) : o ∈ spec.layout.map Piece.operand := by
  obtain ⟨-, -, hallowed⟩ := specs_layout spec hspec
  by_cases hget : (operands.get? o).isSome
  · have hkey : o ∈ operands.keys := Dict.mem_keys_iff.2 hget
    unfold checkOperands at hcheck
    dsimp only at hcheck
    by_cases hfence : spec.kind = .fence ∧ operands.keys ⊆ [.pred, .succ]
    · have ho := hfence.2 hkey
      simp only [List.mem_cons, List.not_mem_nil, or_false] at ho
      exact mem_layout_fence hfence.1 ho
    · rw [if_neg hfence] at hcheck
      exact hallowed o ((ensure_eq_ok.1 hcheck).2 hkey)
  · have hdefault : (spec.default o).isSome := by
      unfold filled at hfilled
      rwa [Option.not_isSome_iff_eq_none.1 hget] at hfilled
    unfold default at hdefault
    split_ifs at hdefault with hfence hatomic
    · exact mem_layout_fence hfence.1 hfence.2
    · refine hallowed o ?_
      unfold allowed
      rw [if_pos hatomic.1, hatomic.2]
      exact List.mem_append_right _ (.head _)
    · cases hdefault

/-- **An accepted assignment is what its word decodes to.** -/
theorem filled_of_encode {name : String} (hspec : catalog name = some spec)
    (h : encode name xlen operands = .ok w) (o : OperandName) :
    spec.filled operands o = if o ∈ spec.layout.map Piece.operand then some (spec.decode w o) else none := by
  obtain ⟨hmem, -⟩ := mem_of_catalog hspec
  unfold encode specFor at h
  rw [hspec] at h
  obtain ⟨found, hfound, h⟩ := bind_ok.1 h
  cases hfound
  obtain ⟨-, h⟩ := ensure_ok.1 h
  obtain ⟨u, hcheck, h⟩ := bind_ok.1 h
  have hspells := spells_encodeWord hmem h
  rw [written_of_check hcheck] at hspells
  split_ifs with ho
  · exact hspells.filled_eq hmem ho
  · refine Option.not_isSome_iff_eq_none.1 fun hfilled => ho ?_
    exact mem_layout_of_filled hmem hcheck hfilled

end InstructionSpec

/-- **Encoding loses no operand.**  Equal words come from equal operands, defaults filled in, and
the immediate is the one that its format has in the word. -/
theorem encode_loses_no_operand {name : String} {spec : InstructionSpec} (hspec : catalog name = some spec)
    (xlen : ℕ) :
    (∀ (a b : Dict OperandName ℤ) (w : ℕ), encode name xlen a = .ok w → encode name xlen b = .ok w →
      ∀ o, spec.filled a o = spec.filled b o) ∧
    ∀ (a : Dict OperandName ℤ) (w : ℕ) (imm : ℤ), encode name xlen a = .ok w → a.get? .imm = some imm →
      spec.decode w .imm = imm := by
  refine ⟨fun a b w ha hb o => ?_, fun a w imm ha himm => ?_⟩
  · exact (spec.filled_of_encode hspec ha o).trans (spec.filled_of_encode hspec hb o).symm
  · have hfilled : spec.filled a .imm = some imm := InstructionSpec.filled_of_get? himm
    have hdecode := spec.filled_of_encode hspec ha .imm
    rw [hfilled] at hdecode
    split_ifs at hdecode with hmem
    exact (Option.some.inj hdecode).symm

/-- `beq x1, x2, -4` branches back by four bytes. -/
theorem beq_recovers_offset : (InstructionSpec.ofBranch "BEQ" 0).decode 0xFE208EE3 .imm = -4 := by
  have hspec : catalog "BEQ" = some (InstructionSpec.ofBranch "BEQ" 0) := by decide +kernel
  have hword : encode "BEQ" 32 ⟨[(.rs1, 1), (.rs2, 2), (.imm, -4)], by decide⟩ = .ok 0xFE208EE3 :=
    by decide +kernel
  exact (encode_loses_no_operand hspec 32).2 _ _ _ hword rfl

end MyFuzz
