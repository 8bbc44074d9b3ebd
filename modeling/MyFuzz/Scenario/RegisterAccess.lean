import MyFuzz.Scenario.MmioFragments
import MyFuzz.Scenario.RegisterProgram

/-!
# Scenario/RegisterAccess — compiled programs perform the planned access

A compiled program is a load or nothing, arithmetic on the data register, and a store.  Fragments are
read as instructions on three fixed registers, so the parts that were cut out of larger fragments
still find the address in the base register.

    LUI base ; LW data ──▸ data := f(data) ──▸ [LUI base ;] SW data
-/

namespace MyFuzz

open Outcome Rv32i Machine Rv32iInstruction Transforms List

/-! ## Fragments as instructions -/

/-- A number names a register. -/
def Names (register : Reg) (number : ℤ) : Prop := (register : ℤ) = number

theorem Names.unique {r r' : Reg} {n : ℤ} (h : Names r n) (h' : Names r' n) : r = r' :=
  Fin.ext (by exact_mod_cast h.trans h'.symm)

/-- The upper part of a number in a register. -/
def upperPart (register : Reg) (value : ℤ) : Instr :=
  .lui register (BitVec.ofNat 32 ((splitAddress value).1.toNat * 2 ^ 12))

/-- The lower part of a number added to a register. -/
def lowerPart (register : Reg) (value : ℤ) : Instr :=
  .opImm .add register register (BitVec.ofInt 32 (splitAddress value).2)

section Fragments

variable {operation : Operation} {address value baseRegister dataRegister : ℤ}
  {windows : List MmioWindow} {base data : Reg} {fragment : List Rv32iInstruction}

/-- **An access fragment on the registers that its arguments name.** -/
theorem access_instructions
    (h : mmioAccessFragment operation address windows baseRegister dataRegister = .ok fragment)
    (hb : Names base baseRegister) (hd : Names data dataRegister) :
    (0 ≤ address ∧ address < 2 ^ 32) ∧ Registers base data baseRegister dataRegister ∧
      fragment.map meaning
        = [upperPart base address, accessMeaning operation base data address] := by
  obtain ⟨⟨hrange, -, -⟩, base', data', upper, access, rfl, hr, hupper, haccess⟩ := mmioAccessFragment_spec h
  obtain rfl := hb.unique hr.base_eq
  obtain rfl := hd.unique hr.data_eq
  exact ⟨hrange, hr, by rw [map_cons, map_cons, map_nil, hupper, haccess]; rfl⟩

/-- **A write fragment loads its constant, then stores it.** -/
theorem write_instructions
    (h : mmioWriteFragment operation address value windows baseRegister dataRegister
      = .ok fragment) (hb : Names base baseRegister) (hd : Names data dataRegister) :
    (0 ≤ value ∧ value < 2 ^ 32) ∧ (0 ≤ address ∧ address < 2 ^ 32) ∧
      Registers base data baseRegister dataRegister ∧
      fragment.map meaning = [upperPart data value, lowerPart data value,
        upperPart base address, accessMeaning operation base data address] := by
  obtain ⟨-, hvalue, h⟩ := ensure_ok₂ h
  obtain ⟨access, haccess, upper, hupper, lower, hlower, h⟩ := bind_ok₃ h
  cases h
  obtain ⟨hrange, hr, haccess⟩ := access_instructions haccess hb hd
  obtain ⟨hupper, hrd⟩ := meaning_lui hupper
  obtain ⟨hlower, hrd', hrs1⟩ := meaning_addi hlower
  rw [Names.unique hrd hd] at hupper
  rw [Names.unique hrd' hd, Names.unique hrs1 hd] at hlower
  refine ⟨hvalue, hrange, hr, ?_⟩
  rw [map_cons, map_cons, haccess, hupper, hlower]
  rfl

/-- The constant cut from a write fragment. -/
theorem constant_instructions
    (h : constantFragment address value windows baseRegister dataRegister = .ok fragment)
    (hd : Names data dataRegister) :
    (0 ≤ value ∧ value < 2 ^ 32) ∧ data ≠ 0 ∧
      fragment.map meaning = [upperPart data value, lowerPart data value] := by
  obtain ⟨whole, hwhole, h⟩ := bind_ok.1 h
  cases h
  have hbase : ∃ base, Names base baseRegister := by
    obtain ⟨-, hw⟩ := ensure_ok.1 hwhole
    obtain ⟨-, hw⟩ := ensure_ok.1 hw
    obtain ⟨access, haccess, -⟩ := bind_ok.1 hw
    obtain ⟨-, base', data', upper, access', rfl, hr, -, -⟩ := mmioAccessFragment_spec haccess
    exact ⟨base', hr.base_eq⟩
  obtain ⟨base, hb⟩ := hbase
  obtain ⟨hvalue, -, hr, hmap⟩ := write_instructions hwhole hb hd
  refine ⟨hvalue, hr.data_ne, ?_⟩
  rw [map_take, hmap]
  rfl

end Fragments

/-! ## Runs -/

section Runs

variable {address : ℤ} {base data mask : Reg} {f : Word → Word} {middle : List Instr}
  (device : List Rv32i.Access → Word)

/-- A constant and an operation with it. -/
theorem transforms_constant (hd : data ≠ 0) (hm : mask ≠ 0) (hne : data ≠ mask) (alu : Alu) (value : ℤ) :
    Transforms [upperPart mask value, lowerPart mask value, .op alu data data mask] data mask
      (alu.eval · (BitVec.ofInt 32 value)) := by
  rw [← splitAddress_add value]
  exact opConstant hd hm hne alu _ _

/-- What a load leaves behind. -/
structure Loaded (base data : Reg) (address : ℤ) (m m' : Machine) : Prop where
  trace_eq : m'.trace = m.trace ++ [.load 4 (BitVec.ofInt 32 address)]
  data_eq : m'.get data = device (m.trace ++ [.load 4 (BitVec.ofInt 32 address)])
  upper : HoldsUpper m' base address
  frame : ∀ r, r ≠ base → r ≠ data → m'.get r = m.get r

theorem loaded_run (hb : base ≠ 0) (hd : data ≠ 0) (hne : base ≠ data) (address : ℤ) (m : Machine) :
    Loaded device base data address m
      (run device [upperPart base address, accessMeaning .lw base data address] m) := by
  have hupper : HoldsUpper (step device (upperPart base address) m) base address :=
    get_set_self m hb _
  have hstep : run device [upperPart base address, accessMeaning .lw base data address] m
      = ((step device (upperPart base address) m).record
        (.load 4 (BitVec.ofInt 32 address))).set data
          (device (m.trace ++ [.load 4 (BitVec.ofInt 32 address)])) := by
    rw [run_cons, run_cons, run_nil, accessMeaning, if_pos rfl]
    generalize hm' : step device (upperPart base address) m = m' at hupper
    have htrace : m'.trace = m.trace := hm' ▸ rfl
    rw [step, hupper.add, extend_four, trace_record, htrace]
  rw [hstep]
  refine ⟨?_, get_set_self _ hd _, ?_, fun r hrb hrd => ?_⟩
  · rw [trace_set, trace_record]
    rfl
  · rw [HoldsUpper, get_set_of_ne _ hne, get_record]
    exact hupper
  · rw [get_set_of_ne _ hrd, get_record]
    exact get_set_of_ne m hrb _

/-- A store through the base register. -/
theorem step_store {m : Machine} (h : HoldsUpper m base address) :
    step device (accessMeaning .sw base data address) m
      = m.record (.store 4 (BitVec.ofInt 32 address) (m.get data)) := by
  rw [accessMeaning, if_neg (by decide), step, h.add, accessWidth, if_neg (by decide), extend_four]

/-- What a load, arithmetic and a store perform. -/
structure Performed (base data mask : Reg) (address target : ℤ) (f : Word → Word)
    (m m' : Machine) : Prop where
  trace_eq : m'.trace = m.trace ++ [.load 4 (BitVec.ofInt 32 address),
    .store 4 (BitVec.ofInt 32 target) (f (device (m.trace ++ [.load 4 (BitVec.ofInt 32 address)])))]
  frame : ∀ r, r ≠ base → r ≠ data → r ≠ mask → m'.get r = m.get r

section

variable (hb : base ≠ 0) (hd : data ≠ 0) (hne : base ≠ data)

include hb hd hne

/-- **A word is loaded, changed and stored back.** -/
theorem performed_modify (hbm : base ≠ mask)
    (hf : Transforms middle data mask f) (address : ℤ) (m : Machine) :
    Performed device base data mask address address f m
      (run device ([upperPart base address, accessMeaning .lw base data address] ++ middle ++
        [accessMeaning .sw base data address]) m) := by
  have hloaded := loaded_run device hb hd hne address m
  rw [run_append, run_append]
  generalize run device [upperPart base address, accessMeaning .lw base data address] m = loaded
    at hloaded ⊢
  have hupper : HoldsUpper (run device middle loaded) base address := by
    rw [HoldsUpper, hf.frame device loaded base hne hbm]
    exact hloaded.upper
  rw [run_cons, run_nil, step_store device hupper]
  refine ⟨?_, fun r hrb hrd hrm => ?_⟩
  · rw [trace_record, hf.trace_eq, hf.data_eq, hloaded.trace_eq, hloaded.data_eq, append_assoc]
    rfl
  · rw [get_record, hf.frame device loaded r hrd hrm, hloaded.frame r hrb hrd]

/-- **A word is loaded, changed and stored elsewhere.** -/
theorem performed_read (hf : Transforms middle data mask f) (address target : ℤ) (m : Machine) :
    Performed device base data mask address target f m
      (run device ([upperPart base address, accessMeaning .lw base data address] ++ middle ++
        [upperPart base target, accessMeaning .sw base data target]) m) := by
  have hloaded := loaded_run device hb hd hne address m
  rw [run_append, run_append]
  generalize run device [upperPart base address, accessMeaning .lw base data address] m = loaded
    at hloaded ⊢
  have hupper : HoldsUpper (step device (upperPart base target) (run device middle loaded)) base
      target := get_set_self _ hb _
  rw [run_cons, run_cons, run_nil, step_store device hupper]
  refine ⟨?_, fun r hrb hrd hrm => ?_⟩
  · have hdata : (step device (upperPart base target) (run device middle loaded)).get data
        = (run device middle loaded).get data := get_set_of_ne _ hne.symm _
    have htrace : (step device (upperPart base target) (run device middle loaded)).trace
        = (run device middle loaded).trace := rfl
    rw [trace_record, hdata, htrace, hf.trace_eq, hf.data_eq, hloaded.trace_eq,
      hloaded.data_eq, append_assoc]
    rfl
  · have hget : (step device (upperPart base target) (run device middle loaded)).get r
        = (run device middle loaded).get r := get_set_of_ne _ hrb _
    rw [get_record, hget, hf.frame device loaded r hrd hrm, hloaded.frame r hrb hrd]

/-- **A constant is stored.** -/
theorem run_write (address value : ℤ) (m : Machine) :
    (run device [upperPart data value, lowerPart data value, upperPart base address,
        accessMeaning .sw base data address] m).trace
      = m.trace ++ [.store 4 (BitVec.ofInt 32 address) (BitVec.ofInt 32 value)] ∧
    ∀ r, r ≠ base → r ≠ data → (run device [upperPart data value, lowerPart data value,
      upperPart base address, accessMeaning .sw base data address] m).get r = m.get r := by
  have hconstant : run device [upperPart data value, lowerPart data value] m
      = m.set data (BitVec.ofInt 32 value) := by
    rw [← splitAddress_add value]
    exact run_constant hd _ _ m
  have hrun : run device [upperPart data value, lowerPart data value, upperPart base address,
      accessMeaning .sw base data address] m
        = step device (accessMeaning .sw base data address)
          (step device (upperPart base address) (m.set data (BitVec.ofInt 32 value))) := by
    rw [← hconstant]
    rfl
  have hupper : HoldsUpper (step device (upperPart base address)
      (m.set data (BitVec.ofInt 32 value))) base address := get_set_self _ hb _
  rw [hrun, step_store device hupper]
  refine ⟨?_, fun r hrb hrd => ?_⟩
  · have hdata : (step device (upperPart base address) (m.set data (BitVec.ofInt 32 value))).get data
        = BitVec.ofInt 32 value :=
      (get_set_of_ne _ hne.symm _).trans (get_set_self m hd _)
    rw [trace_record, hdata]
    rfl
  · rw [get_record]
    exact (get_set_of_ne _ hrb _).trans (get_set_of_ne m hrd _)

end

end Runs

/-! ## The parts of a program -/

section Parts

variable {address : ℤ} {windows : List MmioWindow} {regs : ProgramRegisters}
  {base data mask : Reg} {instructions : List Rv32iInstruction}

variable {i : Rv32iInstruction} {alu : Alu} {operation : Operation} {n : ℕ}
  {field : Option RegisterFieldSemantics}

/-- An operation on the data and mask registers. -/
theorem meaning_logic (halu : operation = .and ∧ alu = .and ∨ operation = .or ∧ alu = .or)
    (h : new operation regs.data regs.data regs.mask 0 = .ok i)
    (hd : Names data regs.data) (hm : Names mask regs.mask) :
    i.meaning = .op alu data data mask := by
  obtain ⟨hop, hrd, hrs1, hrs2, -⟩ := new_eq_ok h
  rw [← Names.unique hrd hd, ← Names.unique hrs2 hm]
  nth_rewrite 2 [Names.unique hrd hd]
  rw [← Names.unique hrs1 hd]
  rcases halu with ⟨rfl, rfl⟩ | ⟨rfl, rfl⟩ <;> rw [meaning, hop]

/-- A shift or mask of the data register. -/
theorem meaning_immediate (halu : operation = .srli ∧ alu = .srl ∨ operation = .andi ∧ alu = .and)
    (h : new operation regs.data regs.data 0 n = .ok i) (hd : Names data regs.data) :
    i.meaning = .opImm alu data data (BitVec.ofNat 32 n) := by
  obtain ⟨hop, hrd, hrs1, -, himm⟩ := new_eq_ok h
  nth_rewrite 1 [← Names.unique hrd hd]
  rw [← Names.unique hrs1 hd]
  rcases halu with ⟨rfl, rfl⟩ | ⟨rfl, rfl⟩
  · rw [meaning, hop, himm, Int.toNat_natCast]
  · rw [meaning, hop, himm, BitVec.ofInt_natCast]

/-- Clearing the bits of a mask. -/
theorem ofInt_complement (busMask : ℕ) :
    BitVec.ofInt 32 ((-1 - busMask) % 2 ^ 32) = ~~~ BitVec.ofNat 32 busMask := by
  apply BitVec.eq_of_toNat_eq
  rw [BitVec.toNat_ofInt, BitVec.toNat_not, BitVec.toNat_ofNat]
  omega

/-- **What a program that modifies a word is.** -/
theorem modifyInstructions_spec {busMask busValue : ℕ}
    (h : modifyInstructions address windows busMask busValue regs = .ok instructions)
    (hb : Names base regs.base) (hd : Names data regs.data) (hm : Names mask regs.mask) (hdm : data ≠ mask) :
    ((0 ≤ address ∧ address < 2 ^ 32) ∧ Registers base data regs.base regs.data ∧ busValue < 2 ^ 32) ∧
    ∃ middle, Transforms middle data mask (fun word =>
        (word &&& ~~~ BitVec.ofNat 32 busMask) ||| BitVec.ofNat 32 busValue) ∧
      instructions.map meaning
        = [upperPart base address, accessMeaning .lw base data address] ++ middle ++
          [accessMeaning .sw base data address] := by
  obtain ⟨read, hread, clear, hclear, setValue, hset, h⟩ := bind_ok₃ h
  obtain ⟨store, hstore, and, hand, or, hor, h⟩ := bind_ok₃ h
  cases h
  obtain ⟨hrange, hr, hread⟩ := access_instructions hread hb hd
  obtain ⟨-, -, hstore⟩ := access_instructions hstore hb hd
  obtain ⟨-, -, hclear⟩ := constant_instructions hclear hm
  obtain ⟨hvalue, hm0, hset⟩ := constant_instructions hset hm
  have hand := meaning_logic (.inl ⟨rfl, rfl⟩) hand hd hm
  have hor := meaning_logic (.inr ⟨rfl, rfl⟩) hor hd hm
  have hmiddle := (transforms_constant hr.data_ne hm0 hdm .and ((-1 - busMask) % 2 ^ 32)).append
    (transforms_constant hr.data_ne hm0 hdm .or busValue)
  rw [ofInt_complement, BitVec.ofInt_natCast] at hmiddle
  refine ⟨⟨hrange, hr, by exact_mod_cast hvalue.2⟩, _, hmiddle, ?_⟩
  simp only [map_append, map_drop, map_cons, map_nil, hread, hstore, hclear,
    hset, hand, hor]
  rfl

/-- The value of an extracted field. -/
def extracted (field : Option RegisterFieldSemantics) (word : Word) : Word :=
  match field with
  | none => word
  | some row => (word >>> row.lsb) &&& BitVec.ofNat 32 row.readMask

theorem shiftInstructions_spec {lsb : ℕ} (h : shiftInstructions lsb regs = .ok instructions)
    (hd : Names data regs.data) (hd0 : data ≠ 0) :
    Transforms (instructions.map meaning) data mask (· >>> lsb) := by
  unfold shiftInstructions at h
  split_ifs at h with hlsb
  · obtain ⟨shift, hshift, h⟩ := bind_ok.1 h
    cases h
    have hlt : lsb < 32 := by
      have hoperands := shift.operands
      obtain ⟨hop, -, -, -, himm⟩ := new_eq_ok hshift
      rw [hop, himm] at hoperands
      exact_mod_cast hoperands.1.2
    have htransforms : Transforms _ data mask _ := .opImm hd0 .srl (BitVec.ofNat 32 lsb)
    have hamount : (BitVec.ofNat 32 lsb).toNat % 32 = lsb := by
      rw [BitVec.toNat_ofNat]
      omega
    simp only [Alu.eval, hamount] at htransforms
    rw [map_cons, map_nil, meaning_immediate (.inl ⟨rfl, rfl⟩) hshift hd]
    exact htransforms
  · cases h
    obtain rfl := not_not.1 hlsb
    have hshift : (fun word : Word => word >>> 0) = id := funext fun word => BitVec.ushiftRight_zero word
    rw [hshift]
    exact nil

theorem maskInstructions_spec (h : maskInstructions address windows n regs = .ok instructions)
    (hd : Names data regs.data) (hm : Names mask regs.mask) (hd0 : data ≠ 0) (hdm : data ≠ mask) :
    Transforms (instructions.map meaning) data mask (· &&& BitVec.ofNat 32 n) := by
  unfold maskInstructions at h
  split_ifs at h
  · obtain ⟨keep, hkeep, h⟩ := bind_ok.1 h
    cases h
    rw [map_cons, map_nil, meaning_immediate (.inr ⟨rfl, rfl⟩) hkeep hd]
    exact opImm hd0 .and _
  · obtain ⟨constant, hconstant, keep, hkeep, h⟩ := bind_ok₂ h
    cases h
    obtain ⟨-, hm0, hconstant⟩ := constant_instructions hconstant hm
    rw [map_append, hconstant, map_cons, map_nil,
      meaning_logic (.inl ⟨rfl, rfl⟩) hkeep hd hm, ← BitVec.ofInt_natCast]
    exact transforms_constant hd0 hm0 hdm .and n

/-- **The instructions of a field compute it from the word.** -/
theorem extractInstructions_spec
    (h : extractInstructions address windows field regs = .ok instructions)
    (hd : Names data regs.data) (hm : Names mask regs.mask) (hd0 : data ≠ 0)
    (hdm : field ≠ none → data ≠ mask) :
    Transforms (instructions.map meaning) data mask (extracted field) := by
  cases field with
  | none =>
    cases h
    exact nil
  | some row =>
    obtain ⟨shift, hshift, keep, hkeep, h⟩ := bind_ok₂ h
    cases h
    have hne := hdm (Option.some_ne_none row)
    rw [map_append]
    exact (shiftInstructions_spec hshift hd hd0).append
      (maskInstructions_spec hkeep hd hm hd0 hne)

/-- **What a program that reads a word is.** -/
theorem readInstructions_spec {resultAddress : ℤ}
    (h : readInstructions address resultAddress windows field regs = .ok instructions)
    (hb : Names base regs.base) (hd : Names data regs.data) (hm : Names mask regs.mask)
    (hdm : field ≠ none → data ≠ mask) :
    ((0 ≤ address ∧ address < 2 ^ 32) ∧ Registers base data regs.base regs.data) ∧
    ∃ middle, Transforms middle data mask (extracted field) ∧ instructions.map meaning
        = [upperPart base address, accessMeaning .lw base data address] ++ middle ++
          [upperPart base resultAddress, accessMeaning .sw base data resultAddress] := by
  obtain ⟨extraction, hextraction, read, hread, h⟩ := bind_ok₂ h
  obtain ⟨window, -, store, hstore, h⟩ := bind_ok₂ h
  cases h
  obtain ⟨hrange, hr, hread⟩ := access_instructions hread hb hd
  obtain ⟨-, -, hstore⟩ := access_instructions hstore hb hd
  refine ⟨⟨hrange, hr⟩, _, extractInstructions_spec hextraction hd hm hr.data_ne hdm, ?_⟩
  rw [map_append, map_append, hread, hstore]

end Parts

/-! ## Compiled programs -/

/-- **The accesses a plan declares**: one store, a load and a store of the changed word, or a load and a
store to the result address. -/
inductive PlannedAccess (rows : List RegisterFieldSemantics) (request : RegisterRequest)
    (plan : RegisterOperationPlan) (target : Word) (device : List Rv32i.Access → Word) :
    List Rv32i.Access → Prop
  | write {value : ℕ} : request.operation = "register_write" → request.readModifyWrite = false →
      plan.busValue = some value → value < 2 ^ 32 →
      PlannedAccess rows request plan target device [.store 4 target (BitVec.ofNat 32 value)]
  | modify {value : ℕ} : request.operation = "register_write" → request.readModifyWrite = true →
      plan.busValue = some value → value < 2 ^ 32 →
      PlannedAccess rows request plan target device [.load 4 target, .store 4 target
        ((device [.load 4 target] &&& ~~~ BitVec.ofNat 32 plan.busMask) ||| BitVec.ofNat 32 value)]
  | word {result : Word} : request.operation = "register_read" → plan.busMask = 0xffffffff →
      request.resultAddress = some (result.toNat : ℤ) →
      PlannedAccess rows request plan target device [.load 4 target,
        .store 4 result (device [.load 4 target])]
  | field {result : Word} {row : RegisterFieldSemantics} : request.operation = "register_read" →
      plan.busMask ≠ 0xffffffff → request.resultAddress = some (result.toNat : ℤ) → row ∈ rows →
      row.register = request.register → row.field = request.field →
      PlannedAccess rows request plan target device [.load 4 target,
        .store 4 result ((device [.load 4 target] >>> row.lsb) &&& BitVec.ofNat 32 row.readMask)]

section Compiled

variable {request : RegisterRequest} {plan : RegisterOperationPlan}
  {rows : List RegisterFieldSemantics} {instructions : List Rv32iInstruction} {address : ℤ}

/-- The instructions perform the planned access and change only the registers of the request. -/
def Performs (rows : List RegisterFieldSemantics) (request : RegisterRequest)
    (plan : RegisterOperationPlan) (address : ℤ) (instructions : List Rv32iInstruction) : Prop :=
  ∃ target : Word, (target.toNat : ℤ) = address ∧
    ∀ (device : List Rv32i.Access → Word) (m : Machine), m.trace = [] →
      PlannedAccess rows request plan target device
        (run device (instructions.map Rv32iInstruction.meaning) m).trace ∧
      ∀ r : Reg, ¬ Names r request.regs.base → ¬ Names r request.regs.data → ¬ Names r request.regs.mask →
        (run device (instructions.map Rv32iInstruction.meaning) m).get r = m.get r

theorem toNat_ofInt_of_range {value : ℤ} (h : 0 ≤ value ∧ value < 2 ^ 32) :
    ((BitVec.ofInt 32 value).toNat : ℤ) = value := by
  rw [BitVec.toNat_ofInt, Int.toNat_of_nonneg (Int.emod_nonneg _ (by positivity))]
  exact Int.emod_eq_of_lt h.1 (by exact_mod_cast h.2)

variable {field register : String} {base data maskRegister aperture : ℤ}
  {selected : Option RegisterFieldSemantics} {value : ℕ}

/-- The row that a field read selects. -/
theorem readableMask_spec : ∀ {rows : List RegisterFieldSemantics}
    {covered : ℕ} {found : Option RegisterFieldSemantics} {result : ℕ × Option RegisterFieldSemantics},
    readableMask register field rows covered found = .ok result → ∀ row, result.2 = some row →
      found = some row ∨ row ∈ rows ∧ row.register = register ∧ row.field = field
  | [], _, _, _, h, row, hrow => by
      cases h
      exact .inl hrow
  | first :: rest, covered, found, result, h, row, hrow => by
      unfold readableMask at h
      by_cases hregister : first.register ≠ register
      · rw [if_pos hregister] at h
        rcases readableMask_spec h row hrow with hfound | ⟨hmem, hrest⟩
        · exact .inl hfound
        · exact .inr ⟨mem_cons_of_mem first hmem, hrest⟩
      · rw [if_neg hregister] at h
        obtain ⟨-, h⟩ := ensure_ok.1 h
        rcases readableMask_spec h row hrow with hfound | ⟨hmem, hrest⟩
        · split_ifs at hfound with hfield
          · cases hfound
            exact .inr ⟨.head _, not_not.1 hregister, hfield⟩
          · exact .inl hfound
        · exact .inr ⟨mem_cons_of_mem first hmem, hrest⟩

/-- **A read selects a declared field, unless the field is the whole word.** -/
theorem readField_spec {operation : String} (hop : operation = "register_read")
    (h : readField rows plan register field operation maskRegister base data = .ok selected) :
    plan.busMask = 0xffffffff ∧ selected = none ∨
      plan.busMask ≠ 0xffffffff ∧ (maskRegister ≠ base ∧ maskRegister ≠ data) ∧
        ∃ row ∈ rows, row.register = register ∧ row.field = field ∧ selected = some row := by
  unfold readField at h
  split_ifs at h with hmask
  · obtain ⟨⟨covered, found⟩, hfound, h⟩ := bind_ok.1 h
    obtain ⟨⟨-, hsome⟩, hne, h⟩ := ensure_ok₂ h
    cases h
    obtain ⟨row, rfl⟩ := Option.ne_none_iff_exists'.1 hsome
    rcases readableMask_spec hfound row rfl with hnone | ⟨hmem, hregister, hfield⟩
    · cases hnone
    · exact .inr ⟨hmask.2, hne, row, hmem, hregister, hfield, rfl⟩
  · cases h
    exact .inl ⟨not_not.1 fun hne => hmask ⟨hop, hne⟩, rfl⟩

/-- The registers of an accepted access. -/
theorem exists_names {operation : Operation} {windows : List MmioWindow} {fragment : List Rv32iInstruction}
    (h : mmioAccessFragment operation address windows base data = .ok fragment) :
    ∃ b d, Names b base ∧ Names d data := by
  obtain ⟨-, b, d, -, -, -, hr, -, -⟩ := mmioAccessFragment_spec h
  exact ⟨b, d, hr.base_eq, hr.data_eq⟩

theorem exists_mask (h : 1 ≤ maskRegister ∧ maskRegister ≤ 31) : ∃ mask, Names mask maskRegister :=
  ⟨⟨maskRegister.toNat, by omega⟩, Int.toNat_of_nonneg (by omega)⟩

theorem Names.ne {r r' : Reg} {n n' : ℤ} (h : Names r n) (h' : Names r' n') (hne : n ≠ n') : r ≠ r' := by
  rintro rfl
  exact hne (h.symm.trans h')

theorem performs_write (hop : request.operation = "register_write")
    (hrmw : request.readModifyWrite = false) (hvalue : plan.busValue = some value)
    (h : mmioWriteFragment .sw address value request.windows request.regs.base request.regs.data
      = .ok instructions) : Performs rows request plan address instructions := by
  obtain ⟨-, hw⟩ := ensure_ok.1 h
  obtain ⟨-, hw⟩ := ensure_ok.1 hw
  obtain ⟨access, haccess, -⟩ := bind_ok.1 hw
  obtain ⟨base, data, hb, hd⟩ := exists_names haccess
  obtain ⟨hrange, haddress, hr, hmap⟩ := write_instructions h hb hd
  refine ⟨BitVec.ofInt 32 address, toNat_ofInt_of_range haddress, fun device m hm => ?_⟩
  obtain ⟨htrace, hframe⟩ := run_write device hr.base_ne hr.data_ne hr.apart address value m
  rw [hmap, htrace, hm, BitVec.ofInt_natCast]
  refine ⟨.write hop hrmw hvalue (by exact_mod_cast hrange.2), fun r hrb hrd _ => ?_⟩
  refine hframe r ?_ ?_
  · rintro rfl
    exact hrb hb
  · rintro rfl
    exact hrd hd

theorem performs_modify (hop : request.operation = "register_write")
    (hrmw : request.readModifyWrite = true) (hvalue : plan.busValue = some value)
    (hmask : 1 ≤ request.regs.mask ∧ request.regs.mask ≤ 31)
    (hapart : request.regs.mask ≠ request.regs.base ∧ request.regs.mask ≠ request.regs.data)
    (h : modifyInstructions address request.windows plan.busMask value request.regs
      = .ok instructions) : Performs rows request plan address instructions := by
  obtain ⟨read, hread, -⟩ := bind_ok.1 h
  obtain ⟨base, data, hb, hd⟩ := exists_names hread
  obtain ⟨mask, hm⟩ := exists_mask hmask
  obtain ⟨⟨haddress, hr, hlt⟩, middle, htransforms, hmap⟩ :=
    modifyInstructions_spec h hb hd hm (hm.ne hd hapart.2).symm
  refine ⟨BitVec.ofInt 32 address, toNat_ofInt_of_range haddress, fun device m htrace => ?_⟩
  have hperformed := performed_modify device hr.base_ne hr.data_ne hr.apart
    (hm.ne hb hapart.1).symm htransforms address m
  rw [hmap, hperformed.trace_eq, htrace]
  refine ⟨.modify hop hrmw hvalue hlt, fun r hrb hrd hrm => ?_⟩
  refine hperformed.frame r ?_ ?_ ?_
  · rintro rfl
    exact hrb hb
  · rintro rfl
    exact hrd hd
  · rintro rfl
    exact hrm hm

theorem performs_read {resultAddress : ℤ}
    (hop : request.operation = "register_read") (hresult : request.resultAddress = some resultAddress)
    (huint : IsUint resultAddress) (hmask : 1 ≤ request.regs.mask ∧ request.regs.mask ≤ 31)
    (hfield : readField rows plan request.register request.field request.operation
      request.regs.mask request.regs.base request.regs.data = .ok selected)
    (h : readInstructions address resultAddress request.windows selected request.regs
      = .ok instructions) : Performs rows request plan address instructions := by
  obtain ⟨_, -, hread⟩ := bind_ok.1 h
  obtain ⟨read, hread, -⟩ := bind_ok.1 hread
  obtain ⟨base, data, hb, hd⟩ := exists_names hread
  obtain ⟨mask, hm⟩ := exists_mask hmask
  have hspec := readField_spec hop hfield
  have hdm : selected ≠ none → data ≠ mask := fun hsome => by
    rcases hspec with ⟨-, hnone⟩ | ⟨-, hapart, -⟩
    · exact absurd hnone hsome
    · exact (hm.ne hd hapart.2).symm
  obtain ⟨⟨haddress, hr⟩, middle, htransforms, hmap⟩ := readInstructions_spec h hb hd hm hdm
  refine ⟨BitVec.ofInt 32 address, toNat_ofInt_of_range haddress, fun device m htrace => ?_⟩
  have hperformed := performed_read device hr.base_ne hr.data_ne hr.apart htransforms address
    resultAddress m
  have hresult' : request.resultAddress = some ((BitVec.ofInt 32 resultAddress).toNat : ℤ) := by
    rw [hresult, toNat_ofInt_of_range huint]
  rw [hmap, hperformed.trace_eq, htrace]
  refine ⟨?_, fun r hrb hrd hrm => ?_⟩
  · rcases hspec with ⟨hfull, rfl⟩ | ⟨hpart, -, row, hrow, hregister, hname, rfl⟩
    · exact .word hop hfull hresult'
    · exact .field hop hpart hresult' hrow hregister hname
  · refine hperformed.frame r ?_ ?_ ?_
    · rintro rfl
      exact hrb hb
    · rintro rfl
      exact hrd hd
    · rintro rfl
      exact hrm hm

/-- **A read program performs its plan.** -/
theorem performs_readProgram 
    (hop : request.operation = "register_read") (hmask : 1 ≤ request.regs.mask ∧ request.regs.mask ≤ 31)
    (hfield : readField rows plan request.register request.field request.operation
      request.regs.mask request.regs.base request.regs.data = .ok selected)
    (h : programInstructions request plan selected address aperture = .ok instructions) :
    Performs rows request plan address instructions := by
  rw [programInstructions, if_neg (by rw [hop]; decide), readProgram] at h
  split at h
  · cases h
  · next resultAddress hresult =>
    obtain ⟨⟨huint, -⟩, h⟩ := ensure_ok.1 h
    obtain ⟨_, -, h⟩ := bind_ok.1 h
    exact performs_read hop hresult huint hmask hfield h

/-- **A write program performs its plan.** -/
theorem performs_writeProgram {profile : ComponentProfile} (hop : request.operation = "register_write")
    (hmask : 1 ≤ request.regs.mask ∧ request.regs.mask ≤ 31)
    (hflags : checkModification rows profile request plan = .ok ())
    (h : programInstructions request plan selected address aperture = .ok instructions) :
    Performs rows request plan address instructions := by
  rw [programInstructions, if_pos hop, writeProgram] at h
  obtain ⟨-, h⟩ := ensure_ok.1 h
  split at h
  · cases h
  · next value hvalue =>
    cases hrmw : request.readModifyWrite with
    | false =>
      rw [hrmw, if_neg Bool.false_ne_true] at h
      exact performs_write hop hrmw hvalue h
    | true =>
      rw [hrmw, if_pos rfl] at h
      rw [checkModification, hrmw, if_pos rfl] at hflags
      obtain ⟨_, -, hflags⟩ := bind_ok.1 hflags
      obtain ⟨-, hflags⟩ := ensure_ok.1 hflags
      exact performs_modify hop hrmw hvalue hmask (ensure_eq_ok.1 hflags) h

end Compiled

section Compile

variable {Document View : Type} [DecidableEq View]

theorem planned_operation {load : Document → ComponentProfile → Except Exn (IPTestCapability Document View)}
    {profile : ComponentProfile} {capability : IPTestCapability Document View}
    {register field operation : String} {value : Option ℤ} {allow : Bool} {plan : RegisterOperationPlan}
    (h : planRegisterOperation load profile capability register field operation value allow = .ok plan) :
    operation = "register_read" ∨ operation = "register_write" := by
  obtain ⟨_, -, h⟩ := bind_ok.1 h
  obtain ⟨hop, -⟩ := ensure_ok.1 h
  simpa using hop

/-- **Compiled programs perform the declared access**: from any registers and against any device they make
exactly the accesses of the plan, and change only the base, data and mask registers. -/
theorem compiled_program_performs_plan
    (load : Document → ComponentProfile → Except Exn (IPTestCapability Document View))
    (profile : ComponentProfile) (capability : IPTestCapability Document View)
    (request : RegisterRequest) (program : RegisterProgram)
    (h : compileRegisterProgram load profile capability request = .ok program) :
    ∃ plan, planRegisterOperation load profile capability request.register request.field
        request.operation request.value request.allowSideEffect = .ok plan ∧
      Bytes.words program.fragment = program.instructions.map Rv32iInstruction.word ∧
      ∃ target : Word, (target.toNat : ℤ) = request.addressBase + plan.offset ∧
        ∀ (device : List Rv32i.Access → Word) (regs : Reg → Word),
          ∃ m, exec device (Bytes.words program.fragment) ⟨regs, []⟩ = some m ∧
            PlannedAccess capability.registerSemantics request plan target device m.trace ∧
            ∀ r : Reg, (r : ℤ) ≠ request.regs.base → (r : ℤ) ≠ request.regs.data →
              (r : ℤ) ≠ request.regs.mask → m.get r = (Machine.mk regs []).get r := by
  obtain ⟨plan, hplan, h⟩ := bind_ok.mp h
  obtain ⟨hmask, h⟩ := ensure_ok.mp h
  obtain ⟨_, hflags, h⟩ := bind_ok.mp h
  refine ⟨plan, hplan, ?_⟩
  split at h
  · cases h
  split at h
  · cases h
  obtain ⟨_, -, h⟩ := bind_ok.mp h
  obtain ⟨selected, hfield, h⟩ := bind_ok.mp h
  obtain ⟨_, -, h⟩ := bind_ok.mp h
  obtain ⟨_, -, h⟩ := bind_ok.mp h
  obtain ⟨_, -, h⟩ := bind_ok.mp h
  obtain ⟨target, htarget, h⟩ := bind_ok.mp h
  obtain ⟨-, htarget⟩ := ensure_ok.mp htarget
  cases htarget
  obtain ⟨instructions, hinstructions, h⟩ := bind_ok.mp h
  obtain ⟨fragment, hfragment, h⟩ := bind_ok.mp h
  obtain ⟨_, -, h⟩ := bind_ok.mp h
  obtain ⟨-, h⟩ := ensure_ok.mp h
  obtain ⟨-, h⟩ := ensure_ok.mp h
  obtain ⟨_, -, h⟩ := bind_ok.mp h
  cases h
  have hperforms : Performs capability.registerSemantics request plan
      (request.addressBase + plan.offset) instructions := by
    rcases planned_operation hplan with hop | hop
    · exact performs_readProgram hop hmask hfield hinstructions
    · exact performs_writeProgram hop hmask hflags hinstructions
  obtain ⟨target, htarget, hrun⟩ := hperforms
  have hwords := (Rv32iInstruction.validate_fragmentBytes hfragment).2
  refine ⟨hwords, target, htarget, fun device regs => ?_⟩
  rw [hwords, Rv32iInstruction.exec_words]
  exact ⟨_, rfl, hrun device ⟨regs, []⟩ rfl⟩

end Compile

/-! ### A full word written -/

namespace RegisterSample

/-- A component with one register. -/
def profile : ComponentProfile :=
  ⟨some ⟨0x1000, 4, [⟨"CTRL", 8, 32⟩]⟩,
    ⟨[("data_width", .int 32), ("read", .bool true), ("write", .bool true)], by decide⟩⟩

/-- Its field fills the register. -/
def capability : IPTestCapability Unit Unit :=
  ⟨[⟨"CTRL", "ALL", 0, 32, "rw", 0xffffffff, 0xffffffff, none, "none", "doc", none⟩], (), (), ""⟩

/-- A write of the register. -/
def request : RegisterRequest :=
  ⟨"CTRL", "ALL", "register_write", 0x40000000,
    [⟨0x40000000, 0x1000, true, true, [4], by decide, by decide, by decide, by decide, by decide,
      by decide⟩], "cpu", "act", 0x80000000, 64,
    [⟨"ram", 0x80000000, 0x1000, [], true, true, by decide⟩], some 0xfffff800, false, none, [],
    ⟨1, 2, 3⟩, false⟩

end RegisterSample

theorem compiled_sample_performs_plan :
    ∃ program, compileRegisterProgram (fun _ _ => .ok RegisterSample.capability)
        RegisterSample.profile RegisterSample.capability RegisterSample.request = .ok program ∧
      ∃ plan target, ∀ (device : List Rv32i.Access → Word) (regs : Reg → Word),
        ∃ m, exec device (Bytes.words program.fragment) ⟨regs, []⟩ = some m ∧
          PlannedAccess RegisterSample.capability.registerSemantics RegisterSample.request plan
            target device m.trace := by
  have hok : (compileRegisterProgram (fun _ _ => .ok RegisterSample.capability)
      RegisterSample.profile RegisterSample.capability RegisterSample.request).isOk = true := by
    decide
  obtain ⟨program, hprogram⟩ := exists_eq_ok hok
  obtain ⟨plan, -, -, target, -, hrun⟩ := compiled_program_performs_plan _ _ _ _ _ hprogram
  refine ⟨program, hprogram, plan, target, fun device regs => ?_⟩
  obtain ⟨m, hm, htrace, -⟩ := hrun device regs
  exact ⟨m, hm, htrace⟩

end MyFuzz
