import Mathlib.Tactic

/-!
# Foundations/Rv32i — straight-line RV32I execution

The integer instructions that neither jump nor trap: upper immediates, register and immediate
arithmetic, loads and stores.  A `Machine` is a register file and the memory accesses made so far; a
load returns what the device on the bus answers, which may depend on every access before it.

    word ──decode──▸ Instr ──step device──▸ Machine
-/

namespace Rv32i

abbrev Word := BitVec 32
abbrev Reg := Fin 32

scoped instance reg_neZero : NeZero 32 := ⟨by decide⟩

/-! ## Instructions -/

/-- The integer operations. -/
inductive Alu where
  | add | sub | sll | slt | sltu | xor | srl | sra | or | and
  deriving DecidableEq

/-- The result of an operation; a shift takes the low five bits of its amount. -/
def Alu.eval : Alu → Word → Word → Word
  | add, a, b => a + b
  | sub, a, b => a - b
  | sll, a, b => a <<< (b.toNat % 32)
  | slt, a, b => if a.slt b then 1 else 0
  | sltu, a, b => if a.ult b then 1 else 0
  | xor, a, b => a ^^^ b
  | srl, a, b => a >>> (b.toNat % 32)
  | sra, a, b => a.sshiftRight (b.toNat % 32)
  | or, a, b => a ||| b
  | and, a, b => a &&& b

/-- A straight-line instruction; widths are in bytes, immediates are extended. -/
inductive Instr where
  | lui (rd : Reg) (value : Word)
  | opImm (alu : Alu) (rd rs1 : Reg) (immediate : Word)
  | op (alu : Alu) (rd rs1 rs2 : Reg)
  | load (width : ℕ) (signed : Bool) (rd rs1 : Reg) (offset : Word)
  | store (width : ℕ) (rs1 rs2 : Reg) (offset : Word)
  deriving DecidableEq

/-- The instruction accesses memory. -/
def Instr.IsAccess : Instr → Prop
  | load .. | store .. => True
  | _ => False

instance : DecidablePred Instr.IsAccess := fun i => by
  cases i <;> unfold Instr.IsAccess <;> infer_instance

/-! ## Decoding -/

/-- A field of a word. -/
def field (word lo len : ℕ) : ℕ := word / 2 ^ lo % 2 ^ len

/-- A field of `n` bits read as a signed number. -/
def signed (n value : ℕ) : ℤ := if value < 2 ^ (n - 1) then value else value - 2 ^ n

/-- The register a field names. -/
def reg (word lo : ℕ) : Reg := ⟨field word lo 5, Nat.mod_lt _ (by decide)⟩

/-- The operation of the second operand field, when the high bits agree with it. -/
def aluOf (funct3 funct7 : ℕ) : Option Alu :=
  if funct3 = 0 then if funct7 = 0 then some .add else if funct7 = 0x20 then some .sub else none
  else if funct3 = 5 then
    if funct7 = 0 then some .srl else if funct7 = 0x20 then some .sra else none
  else if funct7 ≠ 0 then none
  else if funct3 = 1 then some .sll
  else if funct3 = 2 then some .slt
  else if funct3 = 3 then some .sltu
  else if funct3 = 4 then some .xor
  else if funct3 = 6 then some .or
  else some .and

/-- The operation of an instruction on an immediate: only the shifts have high bits. -/
def aluImmOf (funct3 funct7 : ℕ) : Option Alu :=
  if funct3 = 1 ∨ funct3 = 5 then aluOf funct3 funct7 else aluOf funct3 0

/-- The width and extension of a load. -/
def loadOf (funct3 : ℕ) : Option (ℕ × Bool) :=
  if funct3 = 0 then some (1, true)
  else if funct3 = 1 then some (2, true)
  else if funct3 = 2 then some (4, true)
  else if funct3 = 4 then some (1, false)
  else if funct3 = 5 then some (2, false)
  else none

/-- The width of a store. -/
def storeOf (funct3 : ℕ) : Option ℕ :=
  if funct3 = 0 then some 1 else if funct3 = 1 then some 2 else if funct3 = 2 then some 4 else none

/-- **The instruction a word encodes.** -/
def decode (word : ℕ) : Option Instr :=
  let opcode := field word 0 7
  let funct3 := field word 12 3
  let funct7 := field word 25 7
  if opcode = 0x37 then
    some (.lui (reg word 7) (BitVec.ofNat 32 (field word 12 20 * 2 ^ 12)))
  else if opcode = 0x13 then
    (aluImmOf funct3 funct7).map fun alu => .opImm alu (reg word 7) (reg word 15)
      (if funct3 = 1 ∨ funct3 = 5 then BitVec.ofNat 32 (field word 20 5)
        else BitVec.ofInt 32 (signed 12 (field word 20 12)))
  else if opcode = 0x33 then
    (aluOf funct3 funct7).map fun alu => .op alu (reg word 7) (reg word 15) (reg word 20)
  else if opcode = 0x03 then
    (loadOf funct3).map fun form => .load form.1 form.2 (reg word 7) (reg word 15)
      (BitVec.ofInt 32 (signed 12 (field word 20 12)))
  else if opcode = 0x23 then
    (storeOf funct3).map fun width => .store width (reg word 15) (reg word 20)
      (BitVec.ofInt 32 (signed 12 (field word 25 7 * 2 ^ 5 + field word 7 5)))
  else none

/-! ## Encoding -/

/-- The fields of a word side by side: an upper part of twelve bits, a source register, a function
field, a destination register and an opcode. -/
def layout (upper rs1 funct3 rd opcode : ℕ) : ℕ :=
  upper * 2 ^ 20 + rs1 * 2 ^ 15 + funct3 * 2 ^ 12 + rd * 2 ^ 7 + opcode

/-- The parts of a layout fit their fields. -/
structure Fields (upper rs1 funct3 rd opcode : ℕ) : Prop where
  upper_lt : upper < 2 ^ 12
  rs1_lt : rs1 < 2 ^ 5
  funct3_lt : funct3 < 2 ^ 3
  rd_lt : rd < 2 ^ 5
  opcode_lt : opcode < 2 ^ 7

section Layout

variable {upper rs1 funct3 rd opcode : ℕ}

theorem shiftLeft_or_eq_add {n a b : ℕ} (h : b < 2 ^ n) : a <<< n ||| b = a * 2 ^ n + b := by
  rw [← Nat.shiftLeft_add_eq_or_of_lt h, Nat.shiftLeft_eq]

section

variable (h : Fields upper rs1 funct3 rd opcode)

include h

/-- **Fields that fit are joined by addition.** -/
theorem or_eq_layout :
    upper <<< 20 ||| rs1 <<< 15 ||| funct3 <<< 12 ||| rd <<< 7 ||| opcode
      = layout upper rs1 funct3 rd opcode := by
  obtain ⟨-, hrs1, h3, hrd, hop⟩ := h
  rw [Nat.or_assoc, Nat.or_assoc, Nat.or_assoc, shiftLeft_or_eq_add (n := 7) hop,
    shiftLeft_or_eq_add (n := 12) (by omega), shiftLeft_or_eq_add (n := 15) (by omega),
    shiftLeft_or_eq_add (n := 20) (by omega), layout]
  omega

theorem layout_lt : layout upper rs1 funct3 rd opcode < 2 ^ 32 := by
  obtain ⟨hupper, hrs1, h3, hrd, hop⟩ := h
  unfold layout
  omega

theorem field_opcode :
    field (layout upper rs1 funct3 rd opcode) 0 7 = opcode := by
  obtain ⟨-, -, -, -, hop⟩ := h
  unfold field layout
  omega

theorem field_rd :
    field (layout upper rs1 funct3 rd opcode) 7 5 = rd := by
  obtain ⟨-, -, -, hrd, hop⟩ := h
  unfold field layout
  omega

theorem field_funct3 :
    field (layout upper rs1 funct3 rd opcode) 12 3 = funct3 := by
  obtain ⟨-, -, h3, hrd, hop⟩ := h
  unfold field layout
  omega

theorem field_rs1 :
    field (layout upper rs1 funct3 rd opcode) 15 5 = rs1 := by
  obtain ⟨-, hrs1, h3, hrd, hop⟩ := h
  unfold field layout
  omega

theorem field_rs2 :
    field (layout upper rs1 funct3 rd opcode) 20 5 = upper % 2 ^ 5 := by
  obtain ⟨-, hrs1, h3, hrd, hop⟩ := h
  unfold field layout
  omega

theorem field_funct7 :
    field (layout upper rs1 funct3 rd opcode) 25 7 = upper / 2 ^ 5 := by
  obtain ⟨hupper, hrs1, h3, hrd, hop⟩ := h
  unfold field layout
  omega

theorem field_upper :
    field (layout upper rs1 funct3 rd opcode) 20 12 = upper := by
  obtain ⟨hupper, hrs1, h3, hrd, hop⟩ := h
  unfold field layout
  omega

end

theorem reg_rd {rd : Reg} (h : Fields upper rs1 funct3 rd opcode) :
    reg (layout upper rs1 funct3 rd opcode) 7 = rd := Fin.ext (field_rd h)

theorem reg_rs1 {rs1 : Reg} (h : Fields upper rs1 funct3 rd opcode) :
    reg (layout upper rs1 funct3 rd opcode) 15 = rs1 := Fin.ext (field_rs1 h)

theorem reg_rs2 {rs2 : Reg} (h : Fields upper rs1 funct3 rd opcode) (hrs2 : upper % 2 ^ 5 = rs2) :
    reg (layout upper rs1 funct3 rd opcode) 20 = rs2 := Fin.ext ((field_rs2 h).trans hrs2)

theorem decode_lui {rd : Reg} (h : Fields upper rs1 funct3 rd 0x37) :
    decode (layout upper rs1 funct3 rd 0x37)
      = some (.lui rd (BitVec.ofNat 32 ((upper * 2 ^ 8 + rs1 * 2 ^ 3 + funct3) * 2 ^ 12))) := by
  have himm : field (layout upper rs1 funct3 rd 0x37) 12 20
      = upper * 2 ^ 8 + rs1 * 2 ^ 3 + funct3 := by
    obtain ⟨hupper, hrs1, h3, -, -⟩ := h
    unfold field layout
    omega
  simp only [decode, field_opcode h, if_true, reg_rd h, himm]

theorem decode_opImm {rd rs1 : Reg} (h : Fields upper rs1 funct3 rd 0x13) :
    decode (layout upper rs1 funct3 rd 0x13)
      = (aluImmOf funct3 (upper / 2 ^ 5)).map fun alu => .opImm alu rd rs1
        (if funct3 = 1 ∨ funct3 = 5 then BitVec.ofNat 32 (upper % 2 ^ 5)
          else BitVec.ofInt 32 (signed 12 upper)) := by
  simp only [decode, field_opcode h, Nat.reduceEqDiff, if_true, if_false, reg_rd h, reg_rs1 h,
    field_funct3 h, field_funct7 h, field_rs2 h, field_upper h]

theorem decode_op {rd rs1 rs2 : Reg} (h : Fields rs2 rs1 funct3 rd 0x33) :
    decode (layout rs2 rs1 funct3 rd 0x33)
      = (aluOf funct3 0).map fun alu => .op alu rd rs1 rs2 := by
  have hrs2 : (rs2 : ℕ) % 2 ^ 5 = rs2 := Nat.mod_eq_of_lt rs2.isLt
  have hhigh : (rs2 : ℕ) / 2 ^ 5 = 0 := Nat.div_eq_of_lt rs2.isLt
  simp only [decode, field_opcode h, Nat.reduceEqDiff, if_true, if_false, reg_rd h, reg_rs1 h,
    reg_rs2 h hrs2, field_funct3 h, field_funct7 h, hhigh]

theorem decode_load {rd rs1 : Reg} (h : Fields upper rs1 funct3 rd 0x03) :
    decode (layout upper rs1 funct3 rd 0x03)
      = (loadOf funct3).map fun form => .load form.1 form.2 rd rs1
        (BitVec.ofInt 32 (signed 12 upper)) := by
  simp only [decode, field_opcode h, Nat.reduceEqDiff, if_true, if_false, reg_rd h, reg_rs1 h,
    field_funct3 h, field_upper h]

theorem decode_store {high low : ℕ} {rs1 rs2 : Reg} (h : Fields (high * 2 ^ 5 + rs2) rs1 funct3 low 0x23) :
    decode (layout (high * 2 ^ 5 + rs2) rs1 funct3 low 0x23)
      = (storeOf funct3).map fun width => .store width rs1 rs2
        (BitVec.ofInt 32 (signed 12 (high * 2 ^ 5 + low))) := by
  have hlt := rs2.isLt
  have hrs2 : (high * 2 ^ 5 + rs2.val) % 2 ^ 5 = rs2 := by omega
  have hhigh : (high * 2 ^ 5 + rs2.val) / 2 ^ 5 = high := by omega
  simp only [decode, field_opcode h, Nat.reduceEqDiff, if_true, if_false, reg_rs1 h,
    reg_rs2 h hrs2, field_funct3 h, field_funct7 h, field_rd h, hhigh]

end Layout

/-- Twelve bits hold a signed number. -/
theorem signed_emod {value : ℤ} (h : -2 ^ 11 ≤ value ∧ value < 2 ^ 11) :
    signed 12 (value % 2 ^ 12).toNat = value := by
  unfold signed
  split_ifs <;> omega

/-! ## Execution -/

/-- One access to memory. -/
inductive Access where
  | load (width : ℕ) (address : Word)
  | store (width : ℕ) (address value : Word)
  deriving DecidableEq

/-- A register file and the accesses so far. -/
structure Machine where
  regs : Reg → Word
  trace : List Access

namespace Machine

/-- The value of a register; the first one is zero. -/
def get (m : Machine) (r : Reg) : Word := if r = 0 then 0 else m.regs r

/-- Write a register. -/
def set (m : Machine) (r : Reg) (value : Word) : Machine :=
  { m with regs := Function.update m.regs r value }

@[simp] theorem get_set_self (m : Machine) {r : Reg} (hr : r ≠ 0) (value : Word) :
    (m.set r value).get r = value := by
  simp [get, set, hr]

@[simp] theorem get_set_of_ne (m : Machine) {r r' : Reg} (h : r' ≠ r) (value : Word) :
    (m.set r value).get r' = m.get r' := by
  simp [get, set, h]

@[simp] theorem trace_set (m : Machine) (r : Reg) (value : Word) : (m.set r value).trace = m.trace := rfl

/-- Record an access. -/
def record (m : Machine) (access : Access) : Machine := { m with trace := m.trace ++ [access] }

@[simp] theorem get_record (m : Machine) (access : Access) (r : Reg) :
    (m.record access).get r = m.get r := rfl

@[simp] theorem trace_record (m : Machine) (access : Access) :
    (m.record access).trace = m.trace ++ [access] := rfl

end Machine

/-- The low bytes of a value, extended to a word. -/
def extend (width : ℕ) (signed : Bool) (value : Word) : Word :=
  if signed then (value.setWidth (8 * width)).signExtend 32 else (value.setWidth (8 * width)).setWidth 32

@[simp] theorem extend_four (signed : Bool) (value : Word) : extend 4 signed value = value := by
  unfold extend
  split_ifs
  · rw [BitVec.signExtend_eq_setWidth_of_le _ (by decide)]
    simp
  · simp

section Run

variable (device : List Access → Word)

/-- **One instruction.**  The device is asked after the load is on record. -/
def step (i : Instr) (m : Machine) : Machine :=
  match i with
  | .lui rd value => m.set rd value
  | .opImm alu rd rs1 immediate => m.set rd (alu.eval (m.get rs1) immediate)
  | .op alu rd rs1 rs2 => m.set rd (alu.eval (m.get rs1) (m.get rs2))
  | .load width signed rd rs1 offset =>
      let m := m.record (.load width (m.get rs1 + offset))
      m.set rd (extend width signed (device m.trace))
  | .store width rs1 rs2 offset =>
      m.record (.store width (m.get rs1 + offset) (extend width false (m.get rs2)))

/-- Instructions one after the other. -/
def run : List Instr → Machine → Machine
  | [], m => m
  | i :: rest, m => run rest (step device i m)

@[simp] theorem run_nil (m : Machine) : run device [] m = m := rfl

@[simp] theorem run_cons (i : Instr) (rest : List Instr) (m : Machine) :
    run device (i :: rest) m = run device rest (step device i m) := rfl

theorem run_append : ∀ (is js : List Instr) (m : Machine),
    run device (is ++ js) m = run device js (run device is m)
  | [], _, _ => rfl
  | i :: is, js, m => run_append is js (step device i m)

/-- An instruction that accesses no memory leaves the trace. -/
theorem trace_step {i : Instr} (h : ¬ i.IsAccess) (m : Machine) : (step device i m).trace = m.trace := by
  cases i with
  | lui | opImm | op => rfl
  | load | store => exact absurd trivial h

/-- **Instructions that access no memory leave the trace.** -/
theorem trace_run : ∀ {is : List Instr}, (∀ i ∈ is, ¬ i.IsAccess) → ∀ m : Machine,
    (run device is m).trace = m.trace
  | [], _, _ => rfl
  | i :: is, h, m => by
      rw [run_cons, trace_run (fun j hj => h j (List.mem_cons_of_mem i hj)),
        trace_step device (h i (.head _))]

/-- Encoded instructions one after the other; a word that is no straight-line instruction stops the
machine. -/
def exec (words : List ℕ) (m : Machine) : Option Machine :=
  (words.mapM decode).map fun is => run device is m

end Run

/-! ## Constants -/

variable {device : List Access → Word}

/-- **A 32-bit constant is an upper part and a signed lower part.** -/
theorem run_constant {r : Reg} (hr : r ≠ 0) (high : ℕ) (low : ℤ) (m : Machine) :
    run device [.lui r (BitVec.ofNat 32 (high * 2 ^ 12)), .opImm .add r r (BitVec.ofInt 32 low)] m
      = m.set r (BitVec.ofInt 32 (high * 2 ^ 12 + low)) := by
  simp only [run_cons, run_nil, step, Alu.eval, Machine.get_set_self _ hr]
  unfold Machine.set
  rw [Function.update_idem]
  congr 2
  rw [BitVec.ofInt_add, ← BitVec.ofInt_natCast]
  rfl

/-! ## Arithmetic on one register -/

/-- Instructions that apply a function to one register, with a second one as scratch. -/
structure Transforms (is : List Instr) (data scratch : Reg) (f : Word → Word) : Prop where
  trace_eq : ∀ device m, (run device is m).trace = m.trace
  data_eq : ∀ device m, (run device is m).get data = f (m.get data)
  frame : ∀ device m r, r ≠ data → r ≠ scratch → (run device is m).get r = m.get r

namespace Transforms

variable {is js : List Instr} {data scratch : Reg} {f g : Word → Word}

theorem nil : Transforms [] data scratch id := ⟨fun _ _ => rfl, fun _ _ => rfl, fun _ _ _ _ _ => rfl⟩

/-- **One transformation after the other.** -/
theorem append (hf : Transforms is data scratch f) (hg : Transforms js data scratch g) :
    Transforms (is ++ js) data scratch (g ∘ f) where
  trace_eq device m := by rw [run_append, hg.trace_eq, hf.trace_eq]
  data_eq device m := by rw [run_append, hg.data_eq, hf.data_eq, Function.comp_apply]
  frame device m r hd hs := by rw [run_append, hg.frame device _ r hd hs, hf.frame device m r hd hs]

/-- An operation with an immediate. -/
theorem opImm (hd : data ≠ 0) (alu : Alu) (immediate : Word) :
    Transforms [.opImm alu data data immediate] data scratch (alu.eval · immediate) where
  trace_eq _ _ := rfl
  data_eq _ m := Machine.get_set_self m hd _
  frame _ m _ hr _ := Machine.get_set_of_ne m hr _

/-- An operation with a constant in the second register. -/
theorem opConstant (hd : data ≠ 0) (hs : scratch ≠ 0) (hne : data ≠ scratch) (alu : Alu) (high : ℕ)
    (low : ℤ) :
    Transforms [.lui scratch (BitVec.ofNat 32 (high * 2 ^ 12)),
      .opImm .add scratch scratch (BitVec.ofInt 32 low), .op alu data data scratch] data scratch
      (alu.eval · (BitVec.ofInt 32 (high * 2 ^ 12 + low))) := by
  have hrun : ∀ device m, run device [.lui scratch (BitVec.ofNat 32 (high * 2 ^ 12)),
      .opImm .add scratch scratch (BitVec.ofInt 32 low), .op alu data data scratch] m
        = step device (.op alu data data scratch)
          (m.set scratch (BitVec.ofInt 32 (high * 2 ^ 12 + low))) := fun device m => by
    rw [← run_constant hs]
    rfl
  refine ⟨fun device m => ?_, fun device m => ?_, fun device m r hr hr' => ?_⟩
  · rw [hrun]
    rfl
  · rw [hrun, step, Machine.get_set_self _ hd, Machine.get_set_of_ne _ hne, Machine.get_set_self _ hs]
  · rw [hrun, step, Machine.get_set_of_ne _ hr, Machine.get_set_of_ne _ hr']

end Transforms

end Rv32i
