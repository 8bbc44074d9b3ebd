import MyFuzz.Riscv.ProgramSlots

/-!
# Riscv/ProgramItems — what a generated instruction touches

The machine's reading of a generated word is what generation recorded: the destination is the drawn
register, a memory instruction reads its base register and reaches the recorded address, and nothing
leaves the straight line.
-/

namespace MyFuzz

open Outcome BitField Machine InstructionSpec

variable {profile : RiscvProfile} {options : ProgramOptions} {reserved : List ℕ} {baseReg pc w : ℕ}
  {spec : InstructionSpec} {operands : Dict OperandName ℤ} {address : Option ℕ}

/-! ## Opcodes -/

/-- The opcodes of the generated layouts. -/
theorem opcode_specs : ∀ spec ∈ specs, spec.kind ∈ wideKinds → spec.controlFlow = false →
    opcode spec.fixed ∉ controlOpcodes ∧
      (opcode spec.fixed ∈ writingOpcodes ↔ spec.kind ∉ [.store, .fence, .fencei]) ∧
      (opcode spec.fixed = 0x03 ↔ spec.kind = .load) ∧ (opcode spec.fixed = 0x23 ↔ spec.kind = .store) ∧
      (opcode spec.fixed = 0x2f ↔ spec.kind ∈ [.lr, .amo]) := by
  decide +kernel

/-- A load or store moves no more bytes than its access is aligned to, and eight only on RV64. -/
theorem size_specs : ∀ spec ∈ specs,
    (spec.kind = .load → ∃ size ∈ [1, 2, 4, 8], loadSize spec.fixed = some size ∧
      size ≤ accessAlign spec ∧ (size = 8 → spec.minXlen = 64 ∧ spec.f1Safe = false ∧ accessAlign spec = 8)) ∧
    (spec.kind = .store → ∃ size ∈ [1, 2, 4, 8], storeSize spec.fixed = some size ∧
      size ≤ accessAlign spec ∧ (size = 8 → spec.minXlen = 64 ∧ spec.f1Safe = false ∧ accessAlign spec = 8)) ∧
    (spec.kind ∈ [.lr, .amo] → atomicSize spec.fixed = some 4) := by
  decide +kernel

/-! ## Destinations -/

theorem opcode_of_filled (hspec : spec ∈ specs) (hkind : spec.kind ∈ wideKinds)
    (hw : encodeWord spec operands profile.xlen = .ok w) : opcode w = opcode spec.fixed :=
  (filled_encodeWord profile.xlen_eq hspec hw).and_eq (wide_layouts _ profile.xlen_eq spec hspec hkind).1

/-- A memory layout has a function field. -/
theorem isMemory_kinds (kind : InstructionKind) (h : kind.isMemory = true) :
    kind ∈ wideKinds ∧ kind ∉ [.u, .fence, .fencei] := by
  revert h
  cases kind <;> decide

theorem funct3_of_filled (hspec : spec ∈ specs) (hkind : spec.kind.isMemory = true)
    (hw : encodeWord spec operands profile.xlen = .ok w) : funct3 w = funct3 spec.fixed := by
  have hmem := isMemory_kinds spec.kind hkind
  obtain ⟨-, hclear, -⟩ := wide_layouts _ profile.xlen_eq spec hspec hmem.1
  refine (and_shiftLeft_eq_iff 12).1 ?_
  rw [(filled_encodeWord profile.xlen_eq hspec hw).and_eq (hclear hmem.2)]
  exact (and_shiftLeft_eq_iff 12).2 rfl

variable {d offset : ℕ}

/-- The destination of a generated word is a drawn register. -/
theorem wordDestination_of_emission (hpool : InPool profile options spec)
    (hbase : baseReg < profile.registerCount)
    (h : Emission profile options reserved baseReg spec operands address w)
    (hd : wordDestination w = some d) : d ∈ destinations profile reserved := by
  have hw := encodeWord_of_emission hpool.mem hbase hpool.flow h
  have hop := opcode_of_filled hpool.mem hpool.kind hw
  obtain ⟨-, hwrites, -⟩ := opcode_specs spec hpool.mem hpool.kind hpool.flow
  have hcount := profile.registerCount_le
  unfold wordDestination at hd
  rw [hop] at hd
  split_ifs at hd with hwriting
  cases hd
  have hdrawn : ∀ {d : ℕ}, d ∈ destinations profile reserved → operands.get? .rd = some (d : ℤ) →
      layoutRd ∈ spec.layout → rd w ∈ destinations profile reserved := by
    intro d hd hv hp
    have hlt := (mem_destinations hd).2.1
    have hread : rd w = intField d 0 5 := read_of_emission hpool.mem hbase hpool.flow h hp hv (by decide)
    rwa [hread, intField_natCast (by omega)]
  cases h with
  | r kind hd' | i kind hd' | shift kind hd' | load kind hd' | u kind hd' | lr kind hd' | amo kind hd' =>
    exact hdrawn hd' rfl (by simp [layout, kind])
  | store kind | fence kind | fencei kind =>
    exact absurd (by rw [kind]; decide) (hwrites.1 hwriting)

/-! ## Accesses -/

theorem signed_of_lt {v n : ℕ} (h : v < 2 ^ (n - 1)) : signed v n = v := if_pos h

theorem addressOf_of_lt {xlen base : ℕ} (h : base + offset < 2 ^ xlen) :
    addressOf xlen base offset = base + offset := by
  unfold addressOf
  rw [Int.emod_eq_of_lt (by positivity) (by exact_mod_cast h)]
  omega

/-- What a generated access keeps to. -/
structure AccessFits (options : ProgramOptions) (address : Option ℕ) (a : Machine.Access) : Prop where
  recorded : address = some a.address
  above : options.ramBase ≤ a.address
  below : a.address + a.size ≤ options.ramBase + options.ramSize
  size : a.size ∈ [1, 2, 4, 8]
  aligned : (a.address - options.ramBase) % a.size = 0

theorem accessFits_of_offset {size align : ℕ} (halign : align = 4 ∨ align = 8)
    (hsize : size ∈ [1, 2, 4, 8]) (hle : size ≤ align) (hoffset : offset % align = 0)
    (hwindow : offset + align ≤ options.ramSize) :
    AccessFits options (some (options.ramBase + offset)) ⟨options.ramBase + offset, size⟩ := by
  refine ⟨rfl, Nat.le_add_right _ _, ?_, hsize, ?_⟩
  · dsimp only
    omega
  · dsimp only
    rw [Nat.add_sub_cancel_left]
    simp only [List.mem_cons, List.not_mem_nil, or_false] at hsize
    rcases hsize with rfl | rfl | rfl | rfl <;> rcases halign with rfl | rfl <;> omega

/-- The base register of a memory instruction is read back. -/
theorem rs1_of_emission (hpool : InPool profile options spec) (hmem : spec.kind.isMemory = true)
    (hbase : baseReg < profile.registerCount)
    (h : Emission profile options reserved baseReg spec operands address w) : rs1 w = baseReg := by
  have hcount := profile.registerCount_le
  have hbaseOf : operands.get? .rs1 = some (baseReg : ℤ) → layoutRs1 ∈ spec.layout → rs1 w = baseReg := by
    intro hv hp
    have hread : rs1 w = intField baseReg 0 5 :=
      read_of_emission hpool.mem hbase hpool.flow h hp hv (by decide)
    rwa [intField_natCast (by omega)] at hread
  cases h with
  | load kind | store kind | lr kind | amo kind =>
    exact hbaseOf rfl (by simp [layout, kind])
  | r kind | i kind | shift kind | u kind | fence kind | fencei kind =>
    rw [kind] at hmem
    cases hmem

theorem immI_of_read (hread : readSegment w 20 12 = intField offset 0 12) (hoffset : offset ≤ 2044) :
    immI w = offset := by
  rw [intField_natCast (by omega)] at hread
  rw [immI]
  change signed (readSegment w 20 12) 12 = offset
  rw [hread]
  exact signed_of_lt (by omega)

theorem immS_of_read (hhigh : readSegment w 25 7 = intField offset 5 7)
    (hlow : readSegment w 7 5 = intField offset 0 5) (hoffset : offset ≤ 2044) : immS w = offset := by
  have hsum : intField (offset : ℤ) 5 7 * 32 + intField (offset : ℤ) 0 5 = offset := by
    unfold intField
    omega
  change signed (readSegment w 25 7 * 32 + readSegment w 7 5) 12 = offset
  rw [hhigh, hlow, hsum]
  exact signed_of_lt (by omega)

/-- **A generated word of 32 bits accesses what was recorded**, when its base register holds the
window's base. -/
theorem wordAccess_of_emission (hpool : InPool profile options spec) (hbase : baseReg < profile.registerCount)
    (hwindow : options.ramSize ≠ 0 → options.ramBase + options.ramSize ≤ 2 ^ 32)
    (h : Emission profile options reserved baseReg spec operands address w) {x : ℕ → ℕ}
    (hx : options.ramSize ≠ 0 → x baseReg = options.ramBase) {a : Machine.Access}
    (ha : wordAccess profile.xlen x w = some a) :
    AccessFits options address a ∧
      (a.size = 8 → profile.xlen = 64 ∧ options.includeNonF1 = true ∧ 8 ≤ options.ramSize) := by
  have hw := encodeWord_of_emission hpool.mem hbase hpool.flow h
  have hop := opcode_of_filled hpool.mem hpool.kind hw
  obtain ⟨-, -, hload, hstore, hatomic⟩ := opcode_specs spec hpool.mem hpool.kind hpool.flow
  obtain ⟨hloadSize, hstoreSize, hatomicSize⟩ := size_specs spec hpool.mem
  have hcount := profile.registerCount_le
  have hpow : 2 ^ 32 ≤ 2 ^ profile.xlen := by
    rcases profile.xlen_eq with h | h <;> rw [h]
    decide
  have hsafe : spec.f1Safe = false → options.includeNonF1 = true := fun hs => by
    by_contra hn
    rw [hpool.safe (by simpa using hn)] at hs
    cases hs
  have hxlen : spec.minXlen = 64 → profile.xlen = 64 := fun hm => by
    have := hpool.xlen
    rcases profile.xlen_eq with h | h <;> omega
  have hfour : 4 ≤ accessAlign spec := Nat.le_max_left _ _
  have hrs1 := fun hmem => rs1_of_emission hpool hmem hbase h
  have hread := @fun p v => read_of_emission (p := p) (v := v) hpool.mem hbase hpool.flow h
  unfold wordAccess at ha
  rw [hop] at ha
  by_cases hin : spec.kind ∈ [.lr, .amo]
  · have hmem : spec.kind.isMemory = true := by
      rcases List.mem_pair.1 hin with h | h <;> rw [h] <;> rfl
    have hrs1 := hrs1 hmem
    have halign := hpool.window hmem
    have hwindow := hwindow (by omega)
    have hx := hx (by omega)
    have haddress : address = some (options.ramBase + 0) := by
      cases h with
      | lr | amo => rfl
      | r kind | i kind | shift kind | load kind | store kind | u kind | fence kind | fencei kind =>
        rw [kind] at hin
        exact absurd hin (by decide)
    have hsizeEq : atomicSize w = some 4 := by
      unfold atomicSize
      rw [funct3_of_filled hpool.mem hmem hw]
      exact hatomicSize hin
    rw [if_neg (fun h => by rw [hload.1 h] at hin; exact absurd hin (by decide)),
      if_neg (fun h => by rw [hstore.1 h] at hin; exact absurd hin (by decide)),
      if_pos (hatomic.2 hin), hsizeEq, hrs1, hx] at ha
    cases ha
    rw [show (0 : ℤ) = ((0 : ℕ) : ℤ) from rfl, addressOf_of_lt (by omega), haddress]
    exact ⟨accessFits_of_offset (.inl rfl) (by decide) le_rfl rfl (by omega), fun h8 => by cases h8⟩
  cases h with
  | @load d offset kind hd' hoffset halign hroom =>
    have hlt := (mem_destinations hd').2.1
    have hmem : spec.kind.isMemory = true := by rw [kind]; rfl
    have hrs1 := hrs1 hmem
    have hwindow := hwindow (by omega)
    have hx := hx (by omega)
    obtain ⟨size, hsize, hget, hle, hwide⟩ := hloadSize kind
    have hsizeEq := (congrArg ([1, 2, 4, 8, 1, 2, 4][·]?)
      (funct3_of_filled hpool.mem hmem hw)).trans hget
    have himm := hread ⟨.imm, 0, 12, 20⟩ _ (by simp [layout, kind]) rfl (by decide)
    rw [if_pos (hload.2 kind), loadSize, hsizeEq, hrs1, hx, immI_of_read himm hoffset] at ha
    cases ha
    rw [addressOf_of_lt (by omega)]
    refine ⟨accessFits_of_offset (accessAlign_eq hpool.mem (.inl kind)) hsize hle halign hroom, fun h8 => ?_⟩
    obtain ⟨hm, hs, ha8⟩ := hwide h8
    exact ⟨hxlen hm, hsafe hs, by omega⟩
  | @store s₂ offset kind h₂ hoffset halign hroom =>
    have hmem : spec.kind.isMemory = true := by rw [kind]; rfl
    have hrs1 := hrs1 hmem
    have hwindow := hwindow (by omega)
    have hx := hx (by omega)
    obtain ⟨size, hsize, hget, hle, hwide⟩ := hstoreSize kind
    have hsizeEq := (congrArg ([1, 2, 4, 8][·]?) (funct3_of_filled hpool.mem hmem hw)).trans hget
    have himm := hread ⟨.imm, 5, 7, 25⟩ _ (by simp [layout, kind]) rfl (by decide)
    have himm' := hread ⟨.imm, 0, 5, 7⟩ _ (by simp [layout, kind]) rfl (by decide)
    rw [if_neg (fun h => by rw [hload.1 h] at kind; cases kind), if_pos (hstore.2 kind), storeSize,
      hsizeEq, hrs1, hx, immS_of_read himm himm' hoffset] at ha
    cases ha
    rw [addressOf_of_lt (by omega)]
    refine ⟨accessFits_of_offset (accessAlign_eq hpool.mem (.inr kind)) hsize hle halign hroom, fun h8 => ?_⟩
    obtain ⟨hm, hs, ha8⟩ := hwide h8
    exact ⟨hxlen hm, hsafe hs, by omega⟩
  | lr kind | amo kind => exact absurd (by rw [kind]; decide) hin
  | r kind | i kind | shift kind | u kind | fence kind | fencei kind =>
    rw [if_neg (fun h => by rw [hload.1 h] at kind; cases kind),
      if_neg (fun h => by rw [hstore.1 h] at kind; cases kind),
      if_neg (fun h => by have := hatomic.1 h; rw [kind] at this; exact absurd this (by decide))] at ha
    cases ha

end MyFuzz
