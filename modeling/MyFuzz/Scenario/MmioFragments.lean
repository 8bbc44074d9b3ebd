import MyFuzz.Scenario.Rv32iMeaning

/-!
# Scenario/MmioFragments — where the access of a fragment goes

An address is split so that the upper immediate and the signed offset add up to it.  A returned access
fragment therefore reaches exactly the address it was asked for, in a window that permits it; and once
a window is selected by entropy nothing is left to refuse.

    LUI base, high ; LW/SW/SB low(base)      high * 2 ^ 12 + low ≡ address  (mod 2 ^ 32)
-/

namespace MyFuzz

open Outcome Rv32i Rv32iInstruction Operation List

/-! ## Split addresses -/

theorem splitAddress_high (address : ℤ) :
    0 ≤ (splitAddress address).1 ∧ (splitAddress address).1 < 2 ^ 20 := by
  unfold splitAddress
  dsimp only
  omega

theorem splitAddress_low (address : ℤ) :
    -2 ^ 11 ≤ (splitAddress address).2 ∧ (splitAddress address).2 < 2 ^ 11 := by
  unfold splitAddress
  dsimp only
  omega

variable {address immediate rd baseRegister dataRegister : ℤ} {base : Reg} {i : Rv32iInstruction}
  {operation : Operation} {windows : List MmioWindow} {entropy : List UInt8} {window : MmioWindow}

/-- The offset keeps the alignment of the address. -/
theorem splitAddress_aligned (h : address % 4 = 0) : (splitAddress address).2 % 4 = 0 := by
  unfold splitAddress
  dsimp only
  omega

/-- **The two parts of an address add up to it.** -/
theorem splitAddress_add (address : ℤ) :
    BitVec.ofInt 32 ((splitAddress address).1.toNat * 2 ^ 12 + (splitAddress address).2)
      = BitVec.ofInt 32 address := by
  have hsum : ((splitAddress address).1 * 2 ^ 12 + (splitAddress address).2) % 2 ^ 32
      = address % 2 ^ 32 := by
    unfold splitAddress
    dsimp only
    omega
  rw [Int.toNat_of_nonneg (splitAddress_high address).1]
  apply BitVec.eq_of_toInt_eq
  rw [BitVec.toInt_ofInt, BitVec.toInt_ofInt, ← Int.emod_bmod, ← Int.emod_bmod address]
  exact congrArg (Int.bmod · (2 ^ 32)) hsum

/-- A register holds the upper part of an address. -/
def HoldsUpper (m : Machine) (base : Reg) (address : ℤ) : Prop :=
  m.get base = BitVec.ofNat 32 ((splitAddress address).1.toNat * 2 ^ 12)

/-- **The offset leads from the upper part to the address.** -/
theorem HoldsUpper.add {m : Machine} (h : HoldsUpper m base address) :
    m.get base + BitVec.ofInt 32 (splitAddress address).2 = BitVec.ofInt 32 address := by
  have hsum := splitAddress_add address
  rw [BitVec.ofInt_add] at hsum
  rw [h, ← hsum, ← BitVec.ofInt_natCast]
  rfl

/-! ## Access fragments -/

/-- What the access of a fragment does. -/
def accessMeaning (operation : Operation) (base data : Reg) (address : ℤ) : Instr :=
  if operation = .lw then .load 4 true data base (BitVec.ofInt 32 (splitAddress address).2)
  else .store (accessWidth operation) base data (BitVec.ofInt 32 (splitAddress address).2)

/-- The registers of an access. -/
structure Registers (base data : Reg) (baseRegister dataRegister : ℤ) : Prop where
  base_eq : (base : ℤ) = baseRegister
  data_eq : (data : ℤ) = dataRegister
  base_ne : base ≠ 0
  data_ne : data ≠ 0
  apart : base ≠ data

/-- The access of an operation is declared by some window. -/
def Declared (operation : Operation) (address : ℤ) (windows : List MmioWindow) : Prop :=
  ∃ window ∈ windows, window.Contains address (accessWidth operation) ∧ window.Permits operation ∧
    (operation ≠ .lw → accessWidth operation ∈ window.writeWidths)

/-- The instruction that loads the upper part of a constant. -/
theorem meaning_lui (h : new .lui rd 0 0 immediate = .ok i) :
    i.meaning = .lui i.rd (BitVec.ofNat 32 (immediate.toNat * 2 ^ 12)) ∧ (i.rd : ℤ) = rd := by
  obtain ⟨hop, hrd, -, -, himm⟩ := new_eq_ok h
  refine ⟨?_, hrd⟩
  rw [meaning, hop, himm]

theorem meaning_addi {rs1 : ℤ} (h : new .addi rd rs1 0 immediate = .ok i) :
    i.meaning = .opImm .add i.rd i.rs1 (BitVec.ofInt 32 immediate) ∧ (i.rd : ℤ) = rd ∧ (i.rs1 : ℤ) = rs1 := by
  obtain ⟨hop, hrd, hrs1, -, himm⟩ := new_eq_ok h
  refine ⟨?_, hrd, hrs1⟩
  rw [meaning, hop, himm]

theorem meaning_access (hmem : operation ∈ memory) {data : Reg}
    (hr : Registers base data baseRegister dataRegister)
    (h : accessInstruction operation baseRegister dataRegister (splitAddress address).2 = .ok i) :
    i.meaning = accessMeaning operation base data address := by
  have hreg : ∀ {r r' : Reg}, (r : ℤ) = r' → r = r' := fun hr => Fin.ext (by exact_mod_cast hr)
  unfold accessInstruction at h
  unfold accessMeaning
  split_ifs at h ⊢ with hlw
  · obtain ⟨hop, hrd, hrs1, -, himm⟩ := new_eq_ok h
    rw [meaning, hop, himm, hreg (hrd.trans hr.data_eq.symm),
      hreg (hrs1.trans hr.base_eq.symm)]
  · obtain ⟨hop, -, hrs1, hrs2, himm⟩ := new_eq_ok h
    have hcases : operation = .sw ∨ operation = .sb := by
      simpa [memory, hlw] using hmem
    rcases hcases with rfl | rfl
    · rw [meaning, hop, himm, hreg (hrs1.trans hr.base_eq.symm),
        hreg (hrs2.trans hr.data_eq.symm)]
      rfl
    · rw [meaning, hop, himm, hreg (hrs1.trans hr.base_eq.symm),
        hreg (hrs2.trans hr.data_eq.symm)]
      rfl

/-- Register numbers that are accepted name registers. -/
theorem exists_registers (hb : 0 ≤ baseRegister ∧ baseRegister < 32)
    (hd : 0 ≤ dataRegister ∧ dataRegister < 32) (hb0 : baseRegister ≠ 0) (hd0 : dataRegister ≠ 0)
    (hne : baseRegister ≠ dataRegister) :
    ∃ base data, Registers base data baseRegister dataRegister := by
  refine ⟨⟨baseRegister.toNat, by omega⟩, ⟨dataRegister.toNat, by omega⟩,
    Int.toNat_of_nonneg hb.1, Int.toNat_of_nonneg hd.1, ?_, ?_, ?_⟩
  · rw [Ne, Fin.ext_iff]
    change ¬ baseRegister.toNat = 0
    omega
  · rw [Ne, Fin.ext_iff]
    change ¬ dataRegister.toNat = 0
    omega
  · rw [Ne, Fin.ext_iff]
    change ¬ baseRegister.toNat = dataRegister.toNat
    omega

/-- **What a returned access fragment is.** -/
theorem mmioAccessFragment_spec {fragment : List Rv32iInstruction}
    (h : mmioAccessFragment operation address windows baseRegister dataRegister = .ok fragment) :
    ((0 ≤ address ∧ address < 2 ^ 32) ∧ address % accessWidth operation = 0 ∧
      Declared operation address windows) ∧
    ∃ base data upper access, fragment = [upper, access] ∧ Registers base data baseRegister dataRegister ∧
      upper.meaning = .lui base (BitVec.ofNat 32 ((splitAddress address).1.toNat * 2 ^ 12)) ∧
      access.meaning = accessMeaning operation base data address := by
  obtain ⟨hmem, h⟩ := ensure_ok.1 h
  obtain ⟨_, -, h⟩ := bind_ok.1 h
  obtain ⟨hb, hd, hb0, h⟩ := ensure_ok₃ h
  obtain ⟨⟨hd0, hne⟩, hrange, haligned, h⟩ := ensure_ok₃ h
  obtain ⟨-, hpermit, hwidth, h⟩ := ensure_ok₃ h
  obtain ⟨upper, hupper, access, haccess, h⟩ := bind_ok₂ h
  cases h
  obtain ⟨base, data, hr⟩ := exists_registers hb hd hb0 hd0 hne
  obtain ⟨hmeaning, hrd⟩ := meaning_lui hupper
  have hbase : upper.rd = base := Fin.ext (by exact_mod_cast hrd.trans hr.base_eq.symm)
  rw [hbase] at hmeaning
  refine ⟨⟨hrange, haligned, ?_⟩, base, data, upper, access, rfl, hr, hmeaning,
    meaning_access hmem hr haccess⟩
  by_cases hlw : operation = .lw
  · obtain ⟨window, hw, hp⟩ := hpermit
    obtain ⟨hw, hc⟩ := mem_filter.1 hw
    exact ⟨window, hw, of_decide_eq_true hc, hp, fun hne => absurd hlw hne⟩
  · obtain ⟨window, hw, hwrite, hin⟩ := hwidth hlw
    obtain ⟨hw, hc⟩ := mem_filter.1 hw
    refine ⟨window, hw, of_decide_eq_true hc, ?_, fun _ => hin⟩
    rw [MmioWindow.Permits, if_neg hlw]
    exact hwrite

/-- The offset of an access is one its operation takes. -/
theorem exists_accessInstruction (hmem : operation ∈ memory)
    (hb : 0 ≤ baseRegister ∧ baseRegister < 32) (hd : 0 ≤ dataRegister ∧ dataRegister < 32)
    (haligned : address % accessWidth operation = 0) :
    ∃ i, accessInstruction operation baseRegister dataRegister (splitAddress address).2 = .ok i := by
  have hzero : (0 : ℤ) ≤ 0 ∧ (0 : ℤ) < 32 := by decide
  have hlow := splitAddress_low address
  have hcases : operation = .lw ∨ operation = .sw ∨ operation = .sb := by
    simpa [memory] using hmem
  rcases hcases with rfl | rfl | rfl
  · exact exists_new hd hb hzero ⟨hlow, rfl, splitAddress_aligned haligned⟩
  · exact exists_new hzero hb hd ⟨hlow, rfl, splitAddress_aligned haligned⟩
  · exact exists_new hzero hb hd ⟨hlow, rfl⟩

/-- **An aligned access that a window declares is never refused.** -/
theorem exists_mmioAccessFragment (hmem : operation ∈ memory)
    (hb : 0 < baseRegister ∧ baseRegister < 32) (hd : 0 < dataRegister ∧ dataRegister < 32)
    (hne : baseRegister ≠ dataRegister) (hrange : 0 ≤ address ∧ address < 2 ^ 32)
    (haligned : address % accessWidth operation = 0) (hdeclared : Declared operation address windows) :
    ∃ fragment, mmioAccessFragment operation address windows baseRegister dataRegister = .ok fragment := by
  obtain ⟨window, hw, hc, hp, hwidth⟩ := hdeclared
  have hb' : 0 ≤ baseRegister ∧ baseRegister < 32 := ⟨hb.1.le, hb.2⟩
  have hd' : 0 ≤ dataRegister ∧ dataRegister < 32 := ⟨hd.1.le, hd.2⟩
  have hzero : (0 : ℤ) ≤ 0 ∧ (0 : ℤ) < 32 := by decide
  have hcontaining : window ∈ windows.filter fun window =>
      window.Contains address (accessWidth operation) :=
    mem_filter.2 ⟨hw, decide_eq_true hc⟩
  have hwrite : operation ≠ .lw → window.writable = true := fun hlw => by
    rw [MmioWindow.Permits, if_neg hlw] at hp
    exact hp
  obtain ⟨upper, hupper⟩ : ∃ i, new .lui baseRegister 0 0 (splitAddress address).1
      = .ok i := exists_new hb' hzero hzero ⟨splitAddress_high address, rfl, rfl⟩
  obtain ⟨access, haccess⟩ := exists_accessInstruction hmem hb' hd' haligned
  refine ⟨[upper, access], ?_⟩
  refine ensure_ok.2 ⟨hmem, ?_⟩
  refine ensure_ok.2 ⟨ne_nil_of_mem hw, ?_⟩
  refine ensure_ok.2 ⟨hb', ensure_ok.2 ⟨hd', ?_⟩⟩
  refine ensure_ok.2 ⟨hb.1.ne', ensure_ok.2 ⟨⟨hd.1.ne', hne⟩, ?_⟩⟩
  refine ensure_ok.2 ⟨hrange, ensure_ok.2 ⟨haligned, ?_⟩⟩
  refine ensure_ok.2 ⟨ne_nil_of_mem hcontaining, ?_⟩
  refine ensure_ok.2 ⟨⟨window, hcontaining, hp⟩, ?_⟩
  refine ensure_ok.2 ⟨fun hlw => ⟨window, hcontaining, hwrite hlw, hwidth hlw⟩, ?_⟩
  exact bind_ok.2 ⟨upper, hupper, bind_ok.2 ⟨access, haccess, rfl⟩⟩

/-! ## Selection -/

theorem accessWidth_eq (operation : Operation) : accessWidth operation = 1 ∨ accessWidth operation = 4 := by
  unfold accessWidth
  split_ifs
  · exact .inl rfl
  · exact .inr rfl

/-- What a selected window permits. -/
structure Selected (operation : Operation) (windows : List MmioWindow) (window : MmioWindow) : Prop where
  memory : operation ∈ Operation.memory
  mem : window ∈ windows
  permits : window.Permits operation
  width : operation ≠ .lw → accessWidth operation ∈ window.writeWidths
  room : (window.base + accessWidth operation - 1) / accessWidth operation * accessWidth operation
    + accessWidth operation ≤ window.base + window.size

theorem selectWindow_spec (h : selectWindow operation entropy windows = .ok window) :
    Selected operation windows window := by
  obtain ⟨-, h⟩ := ensure_ok.1 h
  obtain ⟨_, -, h⟩ := bind_ok.1 h
  obtain ⟨hmem, -, -, h⟩ := ensure_ok₃ h
  dsimp only at h
  split at h
  · cases h
  · next chosen hchosen =>
    cases h
    obtain ⟨hpermitted, hroom⟩ := mem_filter.1 (mem_of_getElem? hchosen)
    obtain ⟨haccessible, hwidth⟩ := mem_filter.1 hpermitted
    obtain ⟨hw, hp⟩ := mem_filter.1 haccessible
    exact ⟨hmem, hw, of_decide_eq_true hp, fun hlw => (of_decide_eq_true hwidth).resolve_left hlw,
      of_decide_eq_true hroom⟩

/-- A selected address is aligned and inside its window. -/
theorem selectAddress_spec (entropy : List UInt8) (h : Selected operation windows window) :
    selectAddress operation entropy window % accessWidth operation = 0 ∧
      window.base ≤ selectAddress operation entropy window ∧
      selectAddress operation entropy window + accessWidth operation
        ≤ window.base + window.size := by
  have hroom := h.room
  unfold selectAddress
  dsimp only
  rcases accessWidth_eq operation with hwidth | hwidth
  · rw [hwidth] at hroom ⊢
    have hslot := Nat.mod_lt (Bytes.readLe ((entropy.drop 1).take 3)) (Nat.zero_lt_succ
      ((window.base + window.size - 1 - (window.base + 1 - 1) / 1 * 1) / 1))
    rw [Nat.succ_eq_add_one] at hslot
    omega
  · rw [hwidth] at hroom ⊢
    have hslot := Nat.mod_lt (Bytes.readLe ((entropy.drop 1).take 3)) (Nat.zero_lt_succ
      ((window.base + window.size - 4 - (window.base + 4 - 1) / 4 * 4) / 4))
    rw [Nat.succ_eq_add_one] at hslot
    omega

/-- **Once a window is selected its access is built.** -/
theorem exists_mutateMmioAccess (hb : 0 < baseRegister ∧ baseRegister < 32)
    (hd : 0 < dataRegister ∧ dataRegister < 32) (hne : baseRegister ≠ dataRegister)
    (h : selectWindow operation entropy windows = .ok window) :
    ∃ fragment, mmioAccessFragment operation (selectAddress operation entropy window) windows
      baseRegister dataRegister = .ok fragment := by
  have hs := selectWindow_spec h
  obtain ⟨haligned, hlow, hhigh⟩ := selectAddress_spec entropy hs
  have hfits := window.fits
  have hwidth := accessWidth_eq operation
  refine exists_mmioAccessFragment hs.memory hb hd hne ⟨by positivity, by omega⟩
    (by exact_mod_cast haligned) ⟨window, hs.mem, ⟨?_, ?_, ?_⟩, hs.permits, hs.width⟩
  · omega
  · exact_mod_cast hlow
  · exact_mod_cast hhigh

end MyFuzz
