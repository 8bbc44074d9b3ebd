import MyFuzz.Riscv.EncodingAgrees
import MyFuzz.Riscv.ProgramSlots
import MyFuzz.Scenario.Rv32iSources

/-!
# Riscv/ProgramAdmissible — default programs pass the instruction check

A program drawn from the default pool is meant to be fed back slot by slot, so each of its records has
to pass the check of instruction bytes under the contract of its profile.  The pool's flag and the
check's field tests are two lists of one subset; they are compared layout by layout.

    Slot … record items   ⟹   validateInstructionBytes record (some c) = .ok ()
-/

namespace MyFuzz

open Outcome BitField RepairedWord InstructionSpec RiscvInstructionTransducer Bytes Machine List

variable {profile : RiscvProfile} {options : ProgramOptions} {reserved : List ℕ} {baseReg pc w : ℕ}
  {spec : InstructionSpec} {operands : Dict OperandName ℤ} {address : Option ℕ} {c : IsaContract}

/-! ## The contract of a profile -/

/-- A contract with the word length, the integer set and the declared `M` and `C` of a profile. -/
structure ContractOf (profile : RiscvProfile) (c : IsaContract) : Prop where
  xlen_eq : c.xlen = profile.xlen
  extensions_iff : ∀ extension, extension ∈ c.extensions ↔
    extension = "I" ∨ extension ∈ ["M", "C"] ∧ extension ∈ profile.extensions
  alignment_eq : "C" ∈ profile.extensions → c.instructionAlignment = 2

theorem ContractOf.supports (h : ContractOf profile c) : c.SupportsLegalInstructionValidation := by
  refine ⟨(h.extensions_iff "I").2 (.inl rfl), fun extension hmem => ?_⟩
  rcases (h.extensions_iff extension).1 hmem with rfl | ⟨hmem, -⟩
  · decide
  · rcases mem_pair.1 hmem with rfl | rfl <;> decide

/-- The transducer of the contract. -/
def ContractOf.transducer (h : ContractOf profile c) : RiscvInstructionTransducer := ⟨c, h.supports⟩

theorem ContractOf.mem_of_available (h : ContractOf profile c) {extension : String}
    (hmem : extension ∈ ["M", "C"]) (ha : extension ∈ profile.extensions) :
    extension ∈ c.extensions := (h.extensions_iff extension).2 (.inr ⟨hmem, ha⟩)

/-! ## Operations on two registers -/

/-- A default operation on two registers has a template in the integer set or in `M`. -/
theorem register_templates : ∀ spec ∈ specs, spec.kind = .r → spec.f1Safe = true →
    spec.name ∉ ["C.MV", "C.ADD"] ∧ ((∃ t ∈ funct7Forms "I" 0x33 opForms, t.name = spec.name ∧ t.width = 32) ∨
      spec.extension = "M" ∧ ∃ t ∈ funct7Forms "M" 0x33 mulForms, t.name = spec.name ∧ t.width = 32) := by
  decide +kernel

/-- A word of a template without reserved encodings is legal. -/
theorem legal_register {x : RiscvInstructionTransducer} (hspec : spec ∈ specs) (hkind : spec.kind = .r)
    (hsafe : spec.f1Safe = true) (hM : spec.extension = "M" → "M" ∈ x.contract.extensions)
    (hw : encodeWord spec operands x.contract.xlen = .ok w) :
    x.provider.isLegalWord w false = true := by
  obtain ⟨hnames, htemplates⟩ := register_templates spec hspec hkind hsafe
  obtain ⟨t, ht, hname, hwidth⟩ : ∃ t ∈ x.templates, t.name = spec.name ∧ t.width = 32 := by
    rcases htemplates with ⟨t, ht, h⟩ | ⟨hext, t, ht, h⟩
    · refine ⟨t, ?_, h⟩
      simp only [templates, iTemplates, mem_append]
      tauto
    · refine ⟨t, ?_, h⟩
      simp only [templates, mTemplates, mem_append, if_pos (hM hext)]
      tauto
  obtain ⟨hlt, hmatches⟩ := matches_encodeWord ht hspec hname hw
  have hnot : ¬ (spec.name ∈ ["C.MV", "C.ADD"] ∧ operands.get? .rs2 = some 0) := fun h => hnames h.1
  have hsettled := (settled_encodeWord hspec hw).2 hnot
  have hlegal := isLegalWord_of_settled ht hlt hmatches (hname ▸ hsettled)
  rwa [hwidth] at hlegal

/-! ## Words of 32 bits -/

/-- The default entries of 32 bits by opcode and function field. -/
theorem default_specs : ∀ spec ∈ specs, spec.f1Safe = true → spec.kind ∈ wideKinds →
    (spec.kind = .r ∧ spec.fixed &&& 0x7f = 0x33 ∧ spec.extension ∈ ["I", "M"]) ∨
    (spec.kind = .i ∧ spec.fixed &&& 0x7f = 0x13 ∧ spec.fixed >>> 12 &&& 7 ∈ [0, 2, 3, 4, 6, 7]) ∨
    (spec.kind = .shift ∧ spec.fixed &&& 0x7f = 0x13 ∧ spec.fixed >>> 12 &&& 7 ∈ [1, 5] ∧
      (spec.fixed >>> 25 &&& 0x7f = 0 ∨ spec.fixed >>> 12 &&& 7 = 5 ∧ spec.fixed >>> 25 &&& 0x7f = 0x20)) ∨
    (spec.kind = .load ∧ spec.fixed = 0x2003 ∧ spec.immAlign = 4) ∨
    (spec.kind = .store ∧ (spec.fixed = 0x23 ∨ spec.fixed = 0x2023 ∧ spec.immAlign = 4)) ∨
    (spec.kind = .u ∧ spec.fixed = 0x37) := by
  decide +kernel

/-- The opcode and the function field of an accepted word are the entry's. -/
theorem opcode_funct3 (hspec : spec ∈ specs) (hkind : spec.kind ∈ [.r, .i, .shift, .load, .store])
    (hw : encodeWord spec operands profile.xlen = .ok w) :
    w &&& 0x7f = spec.fixed &&& 0x7f ∧ w >>> 12 &&& 7 = spec.fixed >>> 12 &&& 7 := by
  have hwide : spec.kind ∈ wideKinds ∧ spec.kind ∉ [.u, .fence, .fencei] := by
    revert hkind
    cases spec.kind <;> decide
  obtain ⟨hopcode, hfunct3, -⟩ := wide_layouts _ profile.xlen_eq spec hspec hwide.1
  have hfilled := filled_encodeWord profile.xlen_eq hspec hw
  refine ⟨hfilled.and_eq hopcode, (and_shiftLeft_eq_iff 12).1 ?_⟩
  rw [hfilled.and_eq (hfunct3 hwide.2)]
  exact (and_shiftLeft_eq_iff 12).2 rfl

/-- A word is a full one by its opcode. -/
theorem full_of_opcode {n : ℕ} (h : w &&& 0x7f = n) (hn : n &&& 3 = 3) : ¬ w &&& 3 ≠ 3 := by
  rw [← h, Nat.and_assoc] at hn
  exact not_not.2 hn

theorem checkWord_upper (h : w &&& 0x7f = 0x37) : checkWord (some c) w 0 = .ok () := by
  unfold checkWord
  rw [if_neg (full_of_opcode h (by decide))]
  simp only [h, true_or, if_true]

theorem checkWord_immediate (h : w &&& 0x7f = 0x13) (hf : w >>> 12 &&& 7 ∈ [0, 2, 3, 4, 6, 7]) :
    checkWord (some c) w 0 = .ok () := by
  unfold checkWord
  rw [if_neg (full_of_opcode h (by decide))]
  simp only [h]
  rw [if_pos (.inr ⟨trivial, hf⟩)]

theorem checkWord_register (h : w &&& 0x7f = 0x33)
    (hlegal : (RiscvInstructionProvider.mk c).isLegalWord w false = true) :
    checkWord (some c) w 0 = .ok () := by
  unfold checkWord
  rw [if_neg (full_of_opcode h (by decide))]
  simp only [h, Option.getD_some]
  rw [if_neg (by omega), if_pos ⟨trivial, hlegal⟩]

theorem checkWord_shift (h : w &&& 0x7f = 0x13) (hf : w >>> 12 &&& 7 ∈ [1, 5])
    (hreserved : w >>> 25 &&& 0x7f = 0 ∨ w >>> 12 &&& 7 = 5 ∧ w >>> 25 &&& 0x7f = 0x20) :
    checkWord (some c) w 0 = .ok () := by
  have himm : (w >>> 20 &&& 0xfff) >>> 5 = w >>> 25 &&& 0x7f := by
    rw [Nat.shiftRight_and_distrib, ← Nat.shiftRight_add]
    rfl
  unfold checkWord
  rw [if_neg (full_of_opcode h (by decide))]
  simp only [h]
  rw [himm]
  have hnot : ¬ (w >>> 12 &&& 7 ∈ [0, 2, 3, 4, 6, 7]) := by
    simp only [mem_cons, not_mem_nil, or_false] at hf ⊢
    omega
  rw [if_neg (by simp [hnot]), if_neg (by simp), if_pos ⟨trivial, hf⟩]
  exact ensure_of hreserved _

theorem checkWord_load (h : w &&& 0x7f = 0x03) (hf : w >>> 12 &&& 7 = 2)
    (himm : (w >>> 20 &&& 0xfff) % 4 = 0) : checkWord (some c) w 0 = .ok () := by
  unfold checkWord
  rw [if_neg (full_of_opcode h (by decide))]
  simp only [h, hf]
  rw [if_neg (by simp), if_neg (by simp), if_neg (by simp), if_pos ⟨trivial, trivial⟩]
  exact ensure_of himm _

theorem checkWord_store (h : w &&& 0x7f = 0x23) (hf : w >>> 12 &&& 7 ∈ [0, 2])
    (himm : w >>> 12 &&& 7 = 0 ∨ ((w >>> 25) <<< 5 ||| (w >>> 7 &&& 31)) % 4 = 0) :
    checkWord (some c) w 0 = .ok () := by
  unfold checkWord
  rw [if_neg (full_of_opcode h (by decide))]
  simp only [h]
  rw [if_neg (by simp), if_neg (by simp), if_neg (by simp), if_neg (by simp), if_pos ⟨trivial, hf⟩]
  exact ensure_of himm _

variable {d s offset a b : ℕ} {item : ProgramInstruction}

/-- The bits above a shift amount of five bits are the entry's. -/
theorem shift_reserved {shamt fixed : ℕ} (hd : d < 2 ^ 5) (hs : s < 2 ^ 5) (hshamt : shamt < 2 ^ 5) :
    (fixed ||| d <<< 7 ||| s <<< 15 ||| shamt <<< 20) >>> 25 &&& 0x7f = fixed >>> 25 &&& 0x7f := by
  refine (and_shiftLeft_eq_iff 25).1 ?_
  rw [or_field_and hshamt (by decide), or_field_and hs (by decide), or_field_and hd (by decide)]
  exact (and_shiftLeft_eq_iff 25).2 rfl

theorem or_mod_four (ha : a % 4 = 0) (hb : b % 4 = 0) : (a ||| b) % 4 = 0 := by
  rw [show 4 = 2 ^ 2 from rfl, Nat.or_mod_two_pow]
  rw [show 2 ^ 2 = 4 from rfl, ha, hb]
  rfl

/-- **A default instruction of 32 bits passes the check.** -/
theorem checkWord_of_wide (hc : ContractOf profile c) (hdefault : options.includeNonF1 = false)
    (hbase : baseReg < profile.registerCount) (h : Wide profile options reserved baseReg pc item) :
    item.word < 2 ^ 32 ∧ checkWord (some c) item.word 0 = .ok () := by
  obtain ⟨spec, hpool, hemission⟩ := h.drawn
  have hw := encodeWord_of_emission hpool.mem hbase hpool.flow hemission
  have hfilled := filled_encodeWord profile.xlen_eq hpool.mem hw
  have hsafe := hpool.safe hdefault
  have hcount := profile.registerCount_le
  have hlt : item.word < 2 ^ 32 := by
    obtain ⟨-, -, hmask, hfixed, -⟩ := wide_layouts _ profile.xlen_eq spec hpool.mem hpool.kind
    exact hfilled.lt hfixed hmask
  refine ⟨hlt, ?_⟩
  obtain ⟨_, w, _, _, operands, address⟩ := item
  dsimp only at hw hfilled hemission hlt ⊢
  have hread := @fun p v => read_of_emission (p := p) (v := v) hpool.mem hbase hpool.flow hemission
  rcases default_specs spec hpool.mem hsafe hpool.kind with ⟨kind, hop, hext⟩ | ⟨kind, hop, hf⟩ |
    ⟨kind, hop, hf, hreserved⟩ | ⟨kind, hfixed, halign⟩ | ⟨kind, hfixed⟩ | ⟨kind, hfixed⟩
  · obtain ⟨hopcode, -⟩ := opcode_funct3 hpool.mem (by rw [kind]; decide) hw
    refine checkWord_register (hopcode.trans hop) ?_
    refine legal_register (x := hc.transducer) hpool.mem kind hsafe (fun hM => ?_)
      (by rw [← hc.xlen_eq] at hw; exact hw)
    refine hc.mem_of_available (by decide) ?_
    have havailable := hpool.available.2
    rw [hM] at havailable
    exact havailable
  · obtain ⟨hopcode, hfunct3⟩ := opcode_funct3 hpool.mem (by rw [kind]; decide) hw
    exact checkWord_immediate (hopcode.trans hop) (hfunct3 ▸ hf)
  · obtain ⟨hopcode, hfunct3⟩ := opcode_funct3 hpool.mem (by rw [kind]; decide) hw
    cases hemission with
    | shift _ hd h₁ hshamt hf1 =>
      have hd' := (mem_destinations hd).2.1
      have hfive := hf1 hdefault
      refine checkWord_shift (hopcode.trans hop) (hfunct3 ▸ hf) ?_
      rw [hfunct3, shift_reserved (by omega) (by omega) (by omega)]
      exact hreserved
    | r k | i k | load k | store k | u k | fence k | fencei k | lr k | amo k =>
      exact absurd (k.symm.trans kind) (by decide)
  · obtain ⟨hopcode, hfunct3⟩ := opcode_funct3 hpool.mem (by rw [kind]; decide) hw
    rw [hfixed] at hopcode hfunct3
    cases hemission with
    | load _ hd hoffset halign' hwindow =>
      have hd' := (mem_destinations hd).2.1
      refine checkWord_load hopcode hfunct3 ?_
      have himm : _ >>> 20 &&& 0xfff = intField _ 0 12 :=
        hread ⟨.imm, 0, 12, 20⟩ _ (by simp [layout, kind]) rfl (by decide)
      rw [himm, intField_natCast (by omega)]
      unfold accessAlign at halign'
      rw [halign] at halign'
      exact halign'
    | r k | i k | shift k | store k | u k | fence k | fencei k | lr k | amo k =>
      exact absurd (k.symm.trans kind) (by decide)
  · obtain ⟨hopcode, hfunct3⟩ := opcode_funct3 hpool.mem (by rw [kind]; decide) hw
    cases hemission with
    | @store s₂ offset _ h₂ hoffset halign' hwindow =>
      have himm : _ >>> 7 &&& 31 = intField _ 0 5 :=
        hread ⟨.imm, 0, 5, 7⟩ _ (by simp [layout, kind]) rfl (by decide)
      rcases hfixed with hfixed | ⟨hfixed, halign⟩
      · rw [hfixed] at hopcode hfunct3 ⊢
        refine checkWord_store hopcode ?_ (.inl hfunct3)
        rw [hfunct3]
        decide
      · rw [hfixed] at hopcode hfunct3 himm ⊢
        refine checkWord_store hopcode ?_ (.inr (or_mod_four ?_ ?_))
        · rw [hfunct3]
          decide
        · rw [Nat.shiftLeft_eq]
          omega
        · rw [himm]
          unfold accessAlign at halign'
          rw [halign] at halign'
          simp only [max_self] at halign'
          unfold intField
          omega
    | r k | i k | shift k | load k | u k | fence k | fencei k | lr k | amo k =>
      exact absurd (k.symm.trans kind) (by decide)
  · refine checkWord_upper ?_
    have hmask : spec.layoutMask profile.xlen &&& 0x7f = 0 := by
      unfold InstructionSpec.layoutMask
      simp only [kind]
      decide
    rw [hfilled.and_eq hmask, hfixed]
    decide

/-! ## Words of 16 bits -/

/-- A default compressed entry has a template. -/
theorem compressed_templates (xlen : ℕ) (h : xlen = 32 ∨ xlen = 64) :
    ∀ spec ∈ specs, spec.compressed = true → spec.f1Safe = true →
      ∃ t ∈ cTemplates (IsaContract.full xlen h), t.name = spec.name ∧ t.width = 16 := by
  rcases h with rfl | rfl <;> decide +kernel

/-- The fields of a compressed entry stay clear of its function field. -/
theorem clear_compressed (xlen : ℕ) (h : xlen = 32 ∨ xlen = 64) :
    ∀ spec ∈ specs, spec.compressed = true → spec.layoutMask xlen &&& 7 <<< 13 = 0 ∧
      (spec.kind ∈ [.candi, .ca] ∨ spec.kind = .cshift ∧ spec.name ≠ "C.SLLI" →
        spec.layoutMask xlen &&& 3 <<< 10 = 0) := by
  rcases h with rfl | rfl <;> decide +kernel

/-- **The compressed entries** by extension, quadrant, function field and the registers their fixed bits
leave room for. -/
def CompressedFields (spec : InstructionSpec) : Prop :=
  (spec.compressed = true → spec.extension = "C") ∧
  (spec.kind = .ci → spec.fixed &&& 3 = 1 ∧ spec.fixed >>> 13 &&& 7 ∈ [0, 2, 3] ∧
    spec.fixed &&& 31 <<< 7 = 0) ∧
  (spec.kind ∈ [.candi, .cshift] → spec.name ≠ "C.SLLI" → spec.fixed &&& 3 = 1 ∧
    spec.fixed >>> 13 &&& 7 = 4 ∧ spec.fixed >>> 10 &&& 3 ≠ 3 ∧ spec.fixed &&& 7 <<< 7 = 0) ∧
  (spec.name = "C.SLLI" → spec.kind ≠ .candi ∧ spec.fixed &&& 3 = 2 ∧ spec.fixed >>> 13 &&& 7 = 0 ∧
    spec.fixed &&& 31 <<< 7 = 0) ∧
  (spec.kind = .cr → spec.fixed &&& 3 = 2 ∧ spec.fixed >>> 13 &&& 7 = 4 ∧
    spec.fixed &&& 31 <<< 7 = 0 ∧ spec.fixed &&& 31 <<< 2 = 0) ∧
  (spec.kind = .ca → spec.fixed &&& 3 = 1 ∧ spec.fixed >>> 13 &&& 7 = 4 ∧
    spec.fixed &&& 7 <<< 7 = 0 ∧ spec.fixed &&& 7 <<< 2 = 0)

instance : DecidablePred CompressedFields := fun _ => inferInstanceAs (Decidable (_ ∧ _))

theorem compressedFields_specs : ∀ spec ∈ specs, CompressedFields spec := by decide +kernel

/-- A default compressed word is legal. -/
theorem legal_narrow (hc : ContractOf profile c) (h : Narrow profile reserved pc item) :
    "C" ∈ c.extensions ∧ c.instructionAlignment = 2 ∧
      (RiscvInstructionProvider.mk c).isLegalWord item.word true = true := by
  obtain ⟨spec, hpool, hemission⟩ := h.drawn
  have hw := encodeWord_of_compressed hpool.mem hpool.compressed hpool.safe hemission
  have hext := (compressedFields_specs spec hpool.mem).1 hpool.compressed
  have hdeclared : "C" ∈ profile.extensions := by
    have havailable := hpool.available.2
    rw [hext] at havailable
    exact havailable
  have hC := hc.mem_of_available (by decide) hdeclared
  have halign := hc.alignment_eq hdeclared
  refine ⟨hC, halign, ?_⟩
  obtain ⟨t, ht, hname, hwidth⟩ :=
    compressed_templates c.xlen c.xlen_eq spec hpool.mem hpool.compressed hpool.safe
  have htemplate : t ∈ hc.transducer.templates := by
    simp only [templates, mem_append]
    refine .inr ?_
    rw [if_pos ⟨hC, halign⟩]
    exact ht
  rw [← hc.xlen_eq] at hw
  obtain ⟨hlt, hmatches⟩ := matches_encodeWord htemplate hpool.mem hname hw
  have hnot : ¬ (spec.name ∈ ["C.MV", "C.ADD"] ∧ item.operands.get? .rs2 = some 0) := by
    rintro ⟨-, hzero⟩
    obtain ⟨_, w, _, _, operands, address⟩ := item
    cases hemission with
    | cr _ _ h₂ | ca _ _ h₂ =>
      have hlow := (mem_primes h₂).1
      have := Option.some.inj hzero
      omega
    | ci | candi | cshift => cases hzero
  have hsettled := (settled_encodeWord hpool.mem hw).2 hnot
  have hlegal := isLegalWord_of_settled htemplate hlt hmatches
    (hname ▸ hsettled)
  rwa [hwidth] at hlegal

/-- A register field that is read back. -/
theorem register_of_and {m : ℕ} (s : ℕ) (h : w &&& m <<< s = d <<< s) : w >>> s &&& m = d :=
  (and_shiftLeft_eq_iff s).1 h

/-- The registers of a generated compressed word, by its quadrant and function field. -/
inductive NarrowFields (profile : RiscvProfile) (reserved : List ℕ) (w : ℕ) : Prop where
  | immediate (hq : w &&& 3 = 1) (hf : w >>> 13 &&& 7 ∈ [0, 2, 3])
      (hrd : w >>> 7 &&& 31 ∈ primes profile reserved)
  | compact (hq : w &&& 3 = 1) (hf : w >>> 13 &&& 7 = 4)
      (hrd : 8 + (w >>> 7 &&& 7) ∈ primes profile reserved)
      (hrs2 : w >>> 10 &&& 3 ≠ 3 ∨ 8 + (w >>> 2 &&& 7) ∈ primes profile reserved)
  | shift (hq : w &&& 3 = 2) (hf : w >>> 13 &&& 7 = 0)
      (hrd : w >>> 7 &&& 31 ∈ primes profile reserved)
  | move (hq : w &&& 3 = 2) (hf : w >>> 13 &&& 7 = 4)
      (hrd : w >>> 7 &&& 31 ∈ primes profile reserved)
      (hrs2 : w >>> 2 &&& 31 ∈ primes profile reserved)

/-- **The registers of a generated compressed word are drawn ones.** -/
theorem fields_of_narrow (h : Narrow profile reserved pc item) : NarrowFields profile reserved item.word := by
  obtain ⟨spec, hpool, hemission⟩ := h.drawn
  have hw := encodeWord_of_compressed hpool.mem hpool.compressed hpool.safe hemission
  have hfilled := filled_encodeWord profile.xlen_eq hpool.mem hw
  obtain ⟨hfunct3, hten⟩ := clear_compressed _ profile.xlen_eq spec hpool.mem hpool.compressed
  have hq := hfilled.and_eq (compressed_layouts _ profile.xlen_eq spec hpool.mem hpool.compressed).2.2.2
  have hf : item.word >>> 13 &&& 7 = spec.fixed >>> 13 &&& 7 :=
    register_of_and 13 ((hfilled.and_eq hfunct3).trans ((and_shiftLeft_eq_iff 13).2 rfl))
  have hbits : spec.kind ∈ [.candi, .ca] ∨ spec.kind = .cshift ∧ spec.name ≠ "C.SLLI" →
      item.word >>> 10 &&& 3 = spec.fixed >>> 10 &&& 3 := fun hk =>
    register_of_and 10 ((hfilled.and_eq (hten hk)).trans ((and_shiftLeft_eq_iff 10).2 rfl))
  obtain ⟨_, w, _, _, operands, address⟩ := item
  obtain ⟨-, hci, hcb, hslli, hcr, hca⟩ := compressedFields_specs spec hpool.mem
  have hread := @fun p v => read_of_compressed (p := p) (v := v) hpool.mem hpool.compressed
    hpool.safe hemission
  have hwide : ∀ (o : OperandName) {t d : ℕ}, d ∈ primes profile reserved → ⟨o, 0, 5, t⟩ ∈ spec.layout →
      operands.get? o = some (d : ℤ) → w >>> t &&& 31 ∈ primes profile reserved := by
    intro o t d hd hp hv
    have hfield : w >>> t &&& 31 = intField d 0 5 := hread _ _ hp hv (Nat.le_of_ble_eq_true rfl)
    have hlt := (mem_primes hd).2.1
    rwa [hfield, intField_natCast (by omega)]
  have hprime : ∀ (o : OperandName) {t d : ℕ}, d ∈ primes profile reserved → ⟨o, 0, 3, t⟩ ∈ spec.layout →
      operands.get? o = some (d : ℤ) → 8 + (w >>> t &&& 7) ∈ primes profile reserved := by
    intro o t d hd hp hv
    have hfield : w >>> t &&& 7 = intField d 0 3 := hread _ _ hp hv (Nat.le_of_ble_eq_true rfl)
    obtain ⟨hlow, hhigh, -⟩ := mem_primes hd
    have hback : 8 + intField (d : ℤ) 0 3 = d := by
      unfold intField
      omega
    rwa [hfield, hback]
  cases hemission with
  | @ci d imm kind hd himm hlui =>
    obtain ⟨hq1, hf1, -⟩ := hci kind
    exact .immediate (hq.trans hq1) (hf ▸ hf1) (hwide .rd hd (by simp [layout, kind, layoutRd]) rfl)
  | @candi d imm kind hd himm =>
    have hname : spec.name ≠ "C.SLLI" := fun hn => (hslli hn).1 kind
    obtain ⟨hq1, hf4, h10, -⟩ := hcb (by rw [kind]; decide) hname
    refine .compact (hq.trans hq1) (hf.trans hf4) (hprime .rd hd (by simp [layout, kind]) rfl) (.inl ?_)
    rw [hbits (.inl (by rw [kind]; decide))]
    exact h10
  | @cshift d shamt kind hd hshamt =>
    by_cases hname : spec.name ≠ "C.SLLI"
    · obtain ⟨hq1, hf4, h10, -⟩ := hcb (by rw [kind]; decide) hname
      refine .compact (hq.trans hq1) (hf.trans hf4)
        (hprime .rd hd (by simp [layout, kind, hname]) rfl) (.inl ?_)
      rw [hbits (.inr ⟨kind, hname⟩)]
      exact h10
    · obtain ⟨-, hq2, hf0, -⟩ := hslli (not_not.1 hname)
      exact .shift (hq.trans hq2) (hf.trans hf0)
        (hwide .rd hd (by simp [layout, kind, not_not.1 hname, layoutRd]) rfl)
  | @cr d s₂ kind hd h₂ =>
    obtain ⟨hq2, hf4, -⟩ := hcr kind
    exact .move (hq.trans hq2) (hf.trans hf4) (hwide .rd hd (by simp [layout, kind, layoutRd]) rfl)
      (hwide .rs2 h₂ (by simp [layout, kind, layoutRd]) rfl)
  | @ca d s₂ kind hd h₂ =>
    obtain ⟨hq1, hf4, -⟩ := hca kind
    exact .compact (hq.trans hq1) (hf.trans hf4) (hprime .rd hd (by simp [layout, kind]) rfl)
      (.inr (hprime .rs2 h₂ (by simp [layout, kind]) rfl))

/-- **A default compressed word is a safe one.** -/
theorem safeCompressed_of_narrow (h : Narrow profile reserved pc item) : safeCompressed item.word = true := by
  have hrange : ∀ {d : ℕ}, d ∈ primes profile reserved → 12 ≤ d ∧ d ≤ 15 :=
    fun hd => ⟨(mem_primes hd).1, (mem_primes hd).2.1⟩
  refine decide_eq_true ?_
  cases fields_of_narrow h with
  | immediate hq hf hrd => exact .inl ⟨hq, by simpa using hf, hrange hrd⟩
  | compact hq hf hrd hrs2 => exact .inr (.inl ⟨hq, hf, hrange hrd, hrs2.imp_right hrange⟩)
  | shift hq hf hrd => exact .inr (.inr (.inl ⟨hq, hf, hrange hrd⟩))
  | move hq hf hrd hrs2 => exact .inr (.inr (.inr ⟨hq, hf, hrange hrd, hrange hrs2⟩))

/-! ## Records -/

/-- The bytes of one word are checked as the word. -/
theorem validate_leBytes (hlt : w < 2 ^ 32) (h : checkWord (some c) w 0 = .ok ()) :
    validateInstructionBytes (leBytes 4 w) (some c) = .ok () := by
  have hwords : words (leBytes 4 w) = [w] := by
    have hflat : words ([w].flatMap (leBytes 4)) = [w] := words_flatMap (by simpa using hlt)
    simpa using hflat
  have hlength : (leBytes 4 w).length = 4 := rfl
  unfold validateInstructionBytes
  rw [ensure_of ⟨cons_ne_nil _ _, by rw [hlength]⟩, ok_bind, hwords]
  unfold checkWords
  rw [h, ok_bind]
  rfl

/-- The halves of a packed pair. -/
theorem pair_halves (ha : a < 2 ^ 16) (hb : b < 2 ^ 16) :
    (a ||| b <<< 16) < 2 ^ 32 ∧ (a ||| b <<< 16) % 2 ^ 16 = a ∧ (a ||| b <<< 16) / 2 ^ 16 = b := by
  have hadd : a ||| b <<< 16 = 2 ^ 16 * b + a := by
    rw [Nat.or_comm, Nat.shiftLeft_eq, Nat.mul_comm, ← Nat.two_pow_add_eq_or_of_lt ha]
  rw [hadd]
  omega

theorem checkWord_pair {first second : ProgramInstruction} (hc : ContractOf profile c)
    (h₁ : Narrow profile reserved pc first) (h₂ : Narrow profile reserved (pc + 2) second) :
    first.word ||| second.word <<< 16 < 2 ^ 32 ∧
      checkWord (some c) (first.word ||| second.word <<< 16) 0 = .ok () := by
  obtain ⟨hlt₁, hquadrant⟩ := h₁.word_lt
  obtain ⟨hlt₂, -⟩ := h₂.word_lt
  obtain ⟨hlt, hlow, hhigh⟩ := pair_halves hlt₁ hlt₂
  obtain ⟨hC, halign, hlegal₁⟩ := legal_narrow hc h₁
  obtain ⟨-, -, hlegal₂⟩ := legal_narrow hc h₂
  refine ⟨hlt, ?_⟩
  have hlowBits : (first.word ||| second.word <<< 16) &&& 3 = first.word &&& 3 :=
    or_field_and (n := 16) hlt₂ (by decide)
  unfold checkWord
  rw [if_pos (by rw [hlowBits]; exact hquadrant)]
  dsimp only
  rw [ensure_of ⟨hC, halign⟩, ok_bind, hlow, hhigh]
  unfold checkHalf
  rw [ensure_of ⟨safeCompressed_of_narrow h₁, hlegal₁⟩, ok_bind]
  exact ensure_of ⟨safeCompressed_of_narrow h₂, hlegal₂⟩ _

/-- Every record of a run of slots passes the check. -/
theorem validate_slots (hc : ContractOf profile c) (hdefault : options.includeNonF1 = false)
    (hbase : baseReg < profile.registerCount) {records : List (List UInt8)}
    {items : List ProgramInstruction} (h : Slots profile options reserved baseReg pc records items) :
    ∀ record ∈ records, validateInstructionBytes record (some c) = .ok () := by
  induction h with
  | nil => exact nofun
  | cons head tail ih =>
    intro record hmem
    rcases mem_cons.1 hmem with rfl | hmem
    · cases head with
      | wide _ hitem =>
        obtain ⟨hlt, hcheck⟩ := checkWord_of_wide hc hdefault hbase hitem
        exact validate_leBytes hlt hcheck
      | pair h₁ h₂ =>
        obtain ⟨hlt, hcheck⟩ := checkWord_pair hc h₁ h₂
        exact validate_leBytes hlt hcheck
    · exact ih record hmem

theorem lui_fields {hi : ℕ} (hd : d < 32) (hhi : hi < 2 ^ 20) : opcode (luiWord d hi) = 0x37 ∧
    rd (luiWord d hi) = d ∧ luiWord d hi >>> 12 &&& 0xfffff = hi ∧ luiWord d hi < 2 ^ 32 ∧
    luiWord d hi &&& 3 = 3 := by
  unfold luiWord opcode rd
  refine ⟨?_, ?_, ?_, ?_, ?_⟩
  · rw [or_field_and (n := 20) hhi (by decide), or_field_and (n := 5) (by omega) (by decide)]
    decide
  · refine (and_shiftLeft_eq_iff 7).1 ?_
    rw [or_field_and (n := 20) hhi (by decide)]
    exact or_field_self (n := 5) (by omega) (by decide)
  · refine (and_shiftLeft_eq_iff 12).1 (or_field_self (n := 20) hhi ?_)
    rw [or_field_and (n := 5) (by omega) (by decide)]
    decide
  · exact Nat.or_lt_two_pow (Nat.or_lt_two_pow (by decide) (by rw [Nat.shiftLeft_eq]; omega))
      (by rw [Nat.shiftLeft_eq]; omega)
  · rw [or_field_and (n := 20) hhi (by decide), or_field_and (n := 5) (by omega) (by decide)]
    decide

theorem addi_fields (lo : ℤ) (hd : d < 32) : opcode (addiWord d d lo) = 0x13 ∧ funct3 (addiWord d d lo) = 0 ∧
    rd (addiWord d d lo) = d ∧ rs1 (addiWord d d lo) = d ∧
    addiWord d d lo >>> 20 &&& 0xfff = intField lo 0 12 ∧ addiWord d d lo < 2 ^ 32 ∧
    addiWord d d lo &&& 3 = 3 := by
  have hlo := intField_lt lo 0 12
  have hread : ∀ m, (2 ^ 12 - 1) <<< 20 &&& m = 0 → (2 ^ 5 - 1) <<< 15 &&& m = 0 →
      (2 ^ 5 - 1) <<< 7 &&& m = 0 → addiWord d d lo &&& m = 0x13 &&& m := by
    intro m h₁ h₂ h₃
    rw [addiWord, or_field_and hlo h₁, or_field_and (n := 5) (by omega) h₂,
      or_field_and (n := 5) (by omega) h₃]
  refine ⟨hread _ (by decide) (by decide) (by decide),
    (and_shiftLeft_eq_iff 12).1 (hread _ (by decide) (by decide) (by decide)), ?_, ?_, ?_, ?_,
    hread _ (by decide) (by decide) (by decide)⟩
  · refine (and_shiftLeft_eq_iff 7).1 ?_
    rw [addiWord, or_field_and hlo (by decide), or_field_and (n := 5) (by omega) (by decide)]
    exact or_field_self (n := 5) (by omega) (by decide)
  · refine (and_shiftLeft_eq_iff 15).1 ?_
    rw [addiWord, or_field_and hlo (by decide)]
    refine or_field_self (n := 5) (by omega) ?_
    rw [or_field_and (n := 5) (by omega) (by decide)]
    decide
  · refine (and_shiftLeft_eq_iff 20).1 (or_field_self (n := 12) hlo ?_)
    rw [or_field_and (n := 5) (by omega) (by decide), or_field_and (n := 5) (by omega) (by decide)]
    decide
  · exact Nat.or_lt_two_pow (Nat.or_lt_two_pow (Nat.or_lt_two_pow (by decide)
      (by rw [Nat.shiftLeft_eq]; omega)) (by rw [Nat.shiftLeft_eq]; omega))
      (by rw [Nat.shiftLeft_eq]; omega)

/-- The prologue passes the check. -/
theorem validate_prologue (profile : RiscvProfile) (options : ProgramOptions) :
    ∀ item ∈ prologueItems profile options,
      validateInstructionBytes (leBytes 4 item.word) (some c) = .ok () := by
  have hcount := profile.registerCount_le
  have hreg := baseRegister_lt profile options
  have hlui : validateInstructionBytes (leBytes 4 (luiWord (baseRegister profile options)
      (upperHalf options.ramBase))) (some c) = .ok () := by
    obtain ⟨hop, -, -, hlt, -⟩ := lui_fields (d := baseRegister profile options) (by omega)
      (upperHalf_lt options.ramBase)
    exact validate_leBytes hlt (checkWord_upper hop)
  have haddi : validateInstructionBytes (leBytes 4 (addiWord (baseRegister profile options)
      (baseRegister profile options) (lowerHalf options.ramBase))) (some c) = .ok () := by
    obtain ⟨hop, hf3, -, -, -, hlt, -⟩ := addi_fields (d := baseRegister profile options)
      (lowerHalf options.ramBase) (by omega)
    refine validate_leBytes hlt (checkWord_immediate hop ?_)
    change _ >>> 12 &&& 7 = 0 at hf3
    rw [hf3]
    decide
  intro item hmem
  unfold prologueItems at hmem
  dsimp only at hmem
  split_ifs at hmem
  · obtain rfl := mem_singleton.1 hmem
    exact hlui
  · rcases mem_pair.1 hmem with rfl | rfl
    · exact hlui
    · exact haddi
  · cases hmem

/-- **Every record of a default program passes the instruction check**, whatever was drawn. -/
theorem records_admissible (hc : ContractOf profile c) (hdefault : options.includeNonF1 = false)
    {s s' : Rng} {program : Program} (h : generateProgram profile options s = .ok (program, s')) :
    ∀ record ∈ program.records, validateInstructionBytes record (some c) = .ok () := by
  obtain ⟨records, items, hslots, -, hrecords, -⟩ := shaped_generateProgram h
  intro record hmem
  rw [hrecords] at hmem
  rcases List.mem_append.mp hmem with hmem | hmem
  · obtain ⟨item, hitem, rfl⟩ := List.mem_map.mp hmem
    exact validate_prologue profile options item hitem
  · exact validate_slots hc hdefault (baseRegister_lt profile options) hslots record hmem

/-- RV64IMC with the contract of the same name. -/
def rv64imc : RiscvProfile where
  xlen := 64
  extensions := ["I", "M", "C"]
  registerCount := 32
  xlen_eq := .inr rfl
  base := by decide
  embedded := by decide
  registerCount_eq := rfl

theorem contractOf_rv64imc : ContractOf rv64imc (IsaContract.full 64 (.inr rfl)) where
  xlen_eq := rfl
  extensions_iff := by
    intro extension
    show extension ∈ ["I", "M", "C"] ↔ extension = "I" ∨ extension ∈ ["M", "C"] ∧ extension ∈ ["I", "M", "C"]
    simp only [mem_cons, not_mem_nil, or_false]
    tauto
  alignment_eq := fun _ => rfl

/-- Four slots of RV64IMC over a window at `0x1004`. -/
theorem rv64imc_records_admissible : ∃ program s',
    generateProgram rv64imc ⟨4, 0x1004, 64, false, none⟩ (fun i => 7 * i) = .ok (program, s') ∧
      ∀ record ∈ program.records,
        validateInstructionBytes record (some (IsaContract.full 64 (.inr rfl))) = .ok () := by
  have haccepted : Accepted rv64imc ⟨4, 0x1004, 64, false, none⟩ :=
    ⟨by decide +kernel, by decide +kernel, fun h => nomatch h⟩
  obtain ⟨program, s', h, -⟩ := returns_generateProgram haccepted fun i => 7 * i
  exact ⟨program, s', h, records_admissible contractOf_rv64imc rfl h⟩

end MyFuzz
