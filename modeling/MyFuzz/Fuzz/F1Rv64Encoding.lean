import MyFuzz.Foundations.BitField
import MyFuzz.Fuzz.F1Rv64Generator
import MyFuzz.Fuzz.F1Rv64Words

/-!
# Fuzz/F1Rv64Encoding — decoding what was encoded

Encoding puts the operands of an instruction side by side and cuts the immediate to its field. 
Decoding returns every
operand but the immediate as it was, and the immediate as far as the field keeps it:

    decode (encode d)  =  d with d.keptImm
-/

namespace MyFuzz

open Rv32i

namespace F1Rv64

open Rv32i (field signed layout Fields)

/-! ## Words of the generator -/

/-- **The operands of one instruction**: what its form has, in the fields it has. -/
inductive Decoded.Form : Decoded → Prop
  | upper (rd : ℕ) (imm : ℤ) (hrd : rd < 32) : Form { name := .lui, rd := rd, imm := imm }
  | immediate {name : Name} (rd rs1 : ℕ) (imm : ℤ) (hname : name ∈ [Name.addi, .addiw, .ld]) (hrd : rd < 32)
      (hrs1 : rs1 < 32) : Form { name := name, rd := rd, rs1 := rs1, imm := imm }
  | register {name : Name} (rd rs1 rs2 : ℕ)
      (hname : name ∈ [Name.add, .sub, .and, .or, .xor, .addw]) (hrd : rd < 32)
      (hrs1 : rs1 < 32) (hrs2 : rs2 < 32) : Form { name := name, rd := rd, rs1 := rs1, rs2 := some rs2 }
  | shift {name : Name} (rd rs1 shamt : ℕ) (hname : name ∈ [Name.slliw, .srliw, .sraiw]) (hrd : rd < 32)
      (hrs1 : rs1 < 32) (hshamt : shamt < 32) : Form { name := name, rd := rd, rs1 := rs1, shamt := shamt }
  | store (rs1 rs2 : ℕ) (imm : ℤ) (hrs1 : rs1 < 32) (hrs2 : rs2 < 32) :
      Form { name := .sd, rd := 0, rs1 := rs1, rs2 := some rs2, imm := imm }

/-- The immediate that the field of a form keeps. -/
def Decoded.keptImm (decoded : Decoded) : ℤ :=
  match decoded.name with
  | .lui => (mask32 decoded.imm &&& 0xFFFFF000 : ℕ)
  | .addi | .addiw | .ld | .sd => sext (mask32 decoded.imm &&& 0xFFF) 12
  | _ => decoded.imm

/-- The operands that a word keeps. -/
def Decoded.kept (decoded : Decoded) : Decoded := { decoded with imm := decoded.keptImm }

/-! ## Fields -/

theorem mask32_and (imm : ℤ) (len : ℕ) (hlen : len ≤ 32) : mask32 imm &&& (2 ^ len - 1) =
    (imm % 2 ^ len).toNat := by
  rw [Nat.and_two_pow_sub_one_eq_mod, mask32]
  have hdvd : (2 : ℤ) ^ len ∣ 2 ^ 32 := pow_dvd_pow 2 hlen
  have hpos : (0 : ℤ) < 2 ^ len := by positivity
  apply Int.natCast_inj.1
  rw [Int.toNat_of_nonneg (Int.emod_nonneg _ hpos.ne'), Int.natCast_emod,
    Int.toNat_of_nonneg (Int.emod_nonneg _ (by decide))]
  exact Int.emod_emod_of_dvd imm hdvd

/-- Twelve bits are a signed number again when they held one. -/
theorem sext_mask32 (imm : ℤ) : sext (mask32 imm &&& 0xFFF) 12 = if imm % 2 ^ 12 < 2 ^ 11 then imm %
    2 ^ 12 else imm % 2 ^ 12 - 2 ^ 12 := by
  have hmask := mask32_and imm 12 (by decide)
  rw [show mask32 imm &&& 0xFFF = (imm % 2 ^ 12).toNat from hmask,
    sext_eq_signed (k := 11) (by omega), signed]
  split_ifs <;> omega

section Layout

variable {upper rs1 funct3 rd opcode : ℕ} (h : Fields upper rs1 funct3 rd opcode)

include h

/-- What a decoder reads of a layout. -/
theorem layout_reads : mask32 (layout upper rs1 funct3 rd opcode : ℕ) = layout upper rs1 funct3 rd opcode ∧
    layout upper rs1 funct3 rd opcode &&& 3 = opcode % 4 ∧
      layout upper rs1 funct3 rd opcode &&& 0x7F = opcode ∧
    layout upper rs1 funct3 rd opcode >>> 7 &&& 31 = rd ∧
      layout upper rs1 funct3 rd opcode >>> 12 &&& 7 = funct3 ∧
    layout upper rs1 funct3 rd opcode >>> 15 &&& 31 = rs1 := by
  have hopcode := field_opcode h
  refine ⟨mask32_natCast (layout_lt h), ?_, (shiftRight_and _ 0 7).trans hopcode,
    (shiftRight_and _ 7 5).trans (field_rd h), (shiftRight_and _ 12 3).trans (field_funct3 h),
    (shiftRight_and _ 15 5).trans (field_rs1 h)⟩
  have hlow : layout upper rs1 funct3 rd opcode &&& (2 ^ 2 - 1) = _ := Nat.and_two_pow_sub_one_eq_mod _ 2
  unfold field at hopcode
  rw [show (3 : ℕ) = 2 ^ 2 - 1 from rfl, hlow]
  omega

theorem layout_rs2 : layout upper rs1 funct3 rd opcode >>> 20 &&& 31 = upper % 2 ^ 5 :=
  (shiftRight_and _ 20 5).trans (field_rs2 h)

theorem layout_funct7 : layout upper rs1 funct3 rd opcode >>> 25 &&& 0x7F = upper / 2 ^ 5 :=
  (shiftRight_and _ 25 7).trans (field_funct7 h)

theorem layout_upper : layout upper rs1 funct3 rd opcode >>> 20 &&& 0xFFF = upper :=
  (shiftRight_and _ 20 12).trans (field_upper h)

/-- The word that is encoded is the layout. -/
theorem or_fields : (upper <<< 20 ||| rs1 <<< 15 ||| funct3 <<< 12 ||| rd <<< 7 ||| opcode) &&& 0xFFFFFFFF =
    layout upper rs1 funct3 rd opcode := by
  rw [or_eq_layout h]
  exact BitField.and_full (n := 32) (layout_lt h)

end Layout

variable {funct7 low rd rs1 : ℕ} {name : Name}

/-- A function field beside a field of five bits. -/
theorem exists_upper (hfunct7 : funct7 < 2 ^ 7) (hlow : low < 2 ^ 5) : ∃ upper < 2 ^ 12,
    funct7 <<< 25 ||| low <<< 20 = upper <<< 20 ∧ upper % 2 ^ 5 = low ∧ upper / 2 ^ 5 = funct7 := by
  refine ⟨funct7 * 2 ^ 5 + low, by omega, ?_, by omega, by omega⟩
  rw [← shiftLeft_or_eq_add hlow, Nat.shiftLeft_or_distrib, ← Nat.shiftLeft_add]

/-- **The word of a register form and its fields.** -/
theorem exists_register_layout {funct3 : ℕ} (opcode : ℕ) (hfunct7 : funct7 < 2 ^ 7) (hlow : low < 2 ^ 5)
    (hrs1 : rs1 < 2 ^ 5) (hfunct3 : funct3 < 2 ^ 3) (hrd : rd < 2 ^ 5) (hopcode : opcode < 2 ^ 7) :
    ∃ upper, Fields upper rs1 funct3 rd opcode ∧
      (funct7 <<< 25 ||| low <<< 20 ||| rs1 <<< 15 ||| funct3 <<< 12 ||| rd <<< 7 ||| opcode) &&& 0xFFFFFFFF =
        layout upper rs1 funct3 rd opcode ∧
      layout upper rs1 funct3 rd opcode >>> 20 &&& 31 = low ∧
      layout upper rs1 funct3 rd opcode >>> 25 &&& 0x7F = funct7 := by
  obtain ⟨upper, hupper, hor, hmod, hdiv⟩ := exists_upper hfunct7 hlow
  have hfields : Fields upper rs1 funct3 rd opcode := ⟨hupper, hrs1, hfunct3, hrd, hopcode⟩
  exact ⟨upper, hfields, by rw [hor, or_fields hfields], (layout_rs2 hfields).trans hmod,
    (layout_funct7 hfields).trans hdiv⟩

/-! ## The round trip -/

/-- The twenty bits of an upper immediate lie over three fields. -/
theorem exists_upper_layout (hrd : rd < 32) (imm : ℤ) :
    ∃ upper rs1 funct3, Fields upper rs1 funct3 rd 0x37 ∧
    encode { name := .lui, rd := rd, imm := imm } = layout upper rs1 funct3 rd 0x37 ∧
    layout upper rs1 funct3 rd 0x37 &&& 0xFFFFF000 = mask32 imm &&& 0xFFFFF000 := by
  have himm : field (mask32 imm) 12 20 < 2 ^ 20 := Nat.mod_lt _ (by decide)
  simp only [encode, upper_bits]
  generalize field (mask32 imm) 12 20 = bits at himm ⊢
  have hfields : Fields (bits / 2 ^ 8) (bits / 2 ^ 3 % 2 ^ 5) (bits % 2 ^ 3) rd 0x37 :=
    ⟨by omega, by omega, by omega, hrd, by decide⟩
  refine ⟨_, _, _, hfields, ?_, ?_⟩
  · have hsplit : bits * 2 ^ 12 ||| rd <<< 7 ||| 0x37 =
        layout (bits / 2 ^ 8) (bits / 2 ^ 3 % 2 ^ 5) (bits % 2 ^ 3) rd 0x37 := by
      rw [← Nat.shiftLeft_eq, Nat.or_assoc, shiftLeft_or_eq_add (n := 7) (by decide),
        shiftLeft_or_eq_add (n := 12) (by omega)]
      unfold layout
      omega
    rw [hsplit]
    exact BitField.and_full (n := 32) (layout_lt hfields)
  · unfold layout field
    omega

/-- **A register form** is decoded from its function fields. -/
theorem decode_encode_register {rs2 : ℕ} (hname : name ∈ [Name.add, .sub, .and, .or, .xor, .addw])
    (hrd : rd < 32) (hrs1 : rs1 < 32) (hrs2 : rs2 < 32) :
    decode (encode { name := name, rd := rd, rs1 := rs1, rs2 := some rs2 }) =
      .ok (Decoded.kept { name := name, rd := rd, rs1 := rs1, rs2 := some rs2 }) := by
  have hlayout : ∀ funct7 funct3 opcode, funct7 < 2 ^ 7 → funct3 < 2 ^ 3 → opcode < 2 ^ 7 → _ :=
    fun funct7 funct3 opcode h7 h3 hop => exists_register_layout opcode h7 hrs2 hrs1 h3 hrd hop
  simp only [List.mem_cons, List.not_mem_nil, or_false] at hname
  obtain rfl | rfl | rfl | rfl | rfl | rfl := hname
  all_goals simp only [encode, operationFields, Option.getD_some, Decoded.kept, Decoded.keptImm]
  · obtain ⟨upper, hfields, hword, hlow, hfunct7⟩ := hlayout 0 0 0x33 (by decide) (by decide) (by decide)
    rw [hword]
    simp [decode, layout_reads hfields, hlow, hfunct7]
  · obtain ⟨upper, hfields, hword, hlow, hfunct7⟩ := hlayout 0x20 0 0x33 (by decide) (by decide) (by decide)
    rw [hword]
    simp [decode, layout_reads hfields, hlow, hfunct7]
  · obtain ⟨upper, hfields, hword, hlow, hfunct7⟩ := hlayout 0 7 0x33 (by decide) (by decide) (by decide)
    rw [hword]
    simp [decode, layout_reads hfields, hlow, hfunct7]
  · obtain ⟨upper, hfields, hword, hlow, hfunct7⟩ := hlayout 0 6 0x33 (by decide) (by decide) (by decide)
    rw [hword]
    simp [decode, layout_reads hfields, hlow, hfunct7]
  · obtain ⟨upper, hfields, hword, hlow, hfunct7⟩ := hlayout 0 4 0x33 (by decide) (by decide) (by decide)
    rw [hword]
    simp [decode, layout_reads hfields, hlow, hfunct7]
  · obtain ⟨upper, hfields, hword, hlow, hfunct7⟩ := hlayout 0 0 0x3B (by decide) (by decide) (by decide)
    rw [Nat.zero_shiftLeft, Nat.zero_or, Nat.zero_shiftLeft, Nat.or_zero] at hword
    rw [hword]
    simp [decode, layout_reads hfields, hlow, hfunct7]

theorem decode_encode_shift {shamt : ℕ} (hname : name ∈ [Name.slliw, .srliw, .sraiw])
    (hrd : rd < 32) (hrs1 : rs1 < 32) (hshamt : shamt < 32) :
    decode (encode { name := name, rd := rd, rs1 := rs1, shamt := shamt }) =
      .ok (Decoded.kept { name := name, rd := rd, rs1 := rs1, shamt := shamt }) := by
  have hamount : shamt &&& 0x1F = shamt := BitField.and_full (n := 5) hshamt
  have hlayout : ∀ funct7 funct3 opcode, funct7 < 2 ^ 7 → funct3 < 2 ^ 3 → opcode < 2 ^ 7 → _ :=
    fun funct7 funct3 opcode h7 h3 hop => exists_register_layout opcode h7 hshamt hrs1 h3 hrd hop
  simp only [List.mem_cons, List.not_mem_nil, or_false] at hname
  obtain rfl | rfl | rfl := hname
  all_goals simp only [encode, hamount, Decoded.kept, Decoded.keptImm, reduceCtorEq, if_true, if_false]
  · obtain ⟨upper, hfields, hword, hlow, hfunct7⟩ := hlayout 0 1 0x1B (by decide) (by decide) (by decide)
    rw [hword]
    simp [decode, layout_reads hfields, hlow, hfunct7]
  · obtain ⟨upper, hfields, hword, hlow, hfunct7⟩ := hlayout 0 5 0x1B (by decide) (by decide) (by decide)
    rw [hword]
    simp [decode, layout_reads hfields, hlow, hfunct7]
  · obtain ⟨upper, hfields, hword, hlow, hfunct7⟩ := hlayout 0x20 5 0x1B (by decide) (by decide) (by decide)
    rw [hword]
    simp [decode, layout_reads hfields, hlow, hfunct7]

/-- The two fields of a store's offset are its low twelve bits. -/
theorem store_offset (imm : ℤ) :
    (mask32 (imm >>> (5 : ℕ)) &&& 0x7F) <<< 5 ||| (mask32 imm &&& 0x1F) = mask32 imm &&& 0xFFF := by
  have hhigh := mask32_and (imm >>> (5 : ℕ)) 7 (by decide)
  have hlow := mask32_and imm 5 (by decide)
  have hall := mask32_and imm 12 (by decide)
  have hshift := Int.shiftRight_eq_div_pow imm 5
  rw [shiftLeft_or_eq_add (n := 5) (lt_of_le_of_lt Nat.and_le_right (by decide)),
    show mask32 (imm >>> (5 : ℕ)) &&& 0x7F = _ from hhigh, show mask32 imm &&& 0x1F = _ from hlow,
    show mask32 imm &&& 0xFFF = _ from hall]
  omega

/-- **Decoding returns what the word keeps.** -/
theorem decode_encoded {d : Decoded} (h : d.Form) : decode (encode d) = .ok d.kept := by
  cases h with
  | upper rd imm hrd =>
    obtain ⟨upper, rs1, funct3, hfields, hword, hupper⟩ := exists_upper_layout hrd imm
    rw [hword]
    simp [decode, layout_reads hfields, hupper, Decoded.kept, Decoded.keptImm]
  | @immediate name rd rs1 imm hname hrd hrs1 =>
    have himm : mask32 imm &&& 0xFFF < 2 ^ 12 := lt_of_le_of_lt Nat.and_le_right (by decide)
    simp only [List.mem_cons, List.not_mem_nil, or_false] at hname
    obtain rfl | rfl | rfl := hname
    all_goals simp only [encode, Decoded.kept, Decoded.keptImm]
    all_goals generalize mask32 imm &&& 0xFFF = upper at himm ⊢
    · have hfields : Fields upper rs1 0 rd 0x13 := ⟨himm, hrs1, by decide, hrd, by decide⟩
      have hword := or_fields hfields
      rw [Nat.zero_shiftLeft, Nat.or_zero] at hword
      rw [if_pos trivial, hword]
      simp [decode, layout_reads hfields, layout_upper hfields]
    · have hfields : Fields upper rs1 0 rd 0x1B := ⟨himm, hrs1, by decide, hrd, by decide⟩
      have hword := or_fields hfields
      rw [Nat.zero_shiftLeft, Nat.or_zero] at hword
      rw [if_neg (by decide), hword]
      simp [decode, layout_reads hfields, layout_upper hfields]
    · have hfields : Fields upper rs1 3 rd 0x03 := ⟨himm, hrs1, by decide, hrd, by decide⟩
      rw [or_fields hfields]
      simp [decode, layout_reads hfields, layout_upper hfields]
  | @register name rd rs1 rs2 hname hrd hrs1 hrs2 => exact decode_encode_register hname hrd hrs1 hrs2
  | @shift name rd rs1 shamt hname hrd hrs1 hshamt => exact decode_encode_shift hname hrd hrs1 hshamt
  | store rs1 rs2 imm hrs1 hrs2 =>
    have hhigh : mask32 (imm >>> (5 : ℕ)) &&& 0x7F < 2 ^ 7 := lt_of_le_of_lt Nat.and_le_right (by decide)
    have hlow : mask32 imm &&& 0x1F < 2 ^ 5 := lt_of_le_of_lt Nat.and_le_right (by decide)
    have hjoin := store_offset imm
    simp only [encode, Decoded.kept, Decoded.keptImm, Option.getD_some, ← hjoin]
    generalize mask32 (imm >>> (5 : ℕ)) &&& 0x7F = high at hhigh ⊢
    generalize mask32 imm &&& 0x1F = low at hlow ⊢
    obtain ⟨upper, hfields, hword, hrs, hfunct7⟩ :=
      exists_register_layout 0x23 hhigh hrs2 hrs1 (by decide : 3 < 2 ^ 3) hlow (by decide)
    rw [hword]
    simp [decode, layout_reads hfields, hrs, hfunct7]

/-- **A word returns its operands exactly when its field keeps the immediate.** -/
theorem decode_encode_iff {d : Decoded} (h : d.Form) : decode (encode d) = .ok d ↔ d.keptImm = d.imm := by
  rw [decode_encoded h]
  constructor
  · intro heq
    exact congrArg Decoded.imm (Except.ok.inj heq)
  · intro heq
    rw [Decoded.kept, heq]

/-- A field of twelve bits keeps a signed number of twelve bits. -/
theorem sext_mask32_eq_iff (imm : ℤ) : sext (mask32 imm &&& 0xFFF) 12 = imm ↔ -2 ^ 11 ≤ imm ∧
    imm < 2 ^ 11 := by
  rw [sext_mask32]
  split_ifs <;> omega

end F1Rv64

end MyFuzz
