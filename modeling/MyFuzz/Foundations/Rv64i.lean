import MyFuzz.Foundations.Rv32i

/-!
# Foundations/Rv64i — straight-line RV64I over bytes

The integer instructions that neither jump nor trap, on registers of 64 bits and a little-endian memory of
bytes.  The word forms compute in 32 bits and extend the sign of the result.

    word ──decode──▸ Instr ──step──▸ Retirement × Machine
-/

namespace Rv64i

open Rv32i (Reg Alu field signed reg aluOf)
open scoped Rv32i

abbrev Word := BitVec 64

/-! ## Instructions -/

/-- The result of an operation; a shift takes its amount modulo the width. -/
def eval {n : ℕ} : Alu → BitVec n → BitVec n → BitVec n
  | .add, a, b => a + b
  | .sub, a, b => a - b
  | .sll, a, b => a <<< (b.toNat % n)
  | .slt, a, b => if a.slt b then 1 else 0
  | .sltu, a, b => if a.ult b then 1 else 0
  | .xor, a, b => a ^^^ b
  | .srl, a, b => a >>> (b.toNat % n)
  | .sra, a, b => a.sshiftRight (b.toNat % n)
  | .or, a, b => a ||| b
  | .and, a, b => a &&& b

/-- A straight-line instruction; widths are in bytes, immediates are extended. -/
inductive Instr where
  | lui (rd : Reg) (value : Word)
  | auipc (rd : Reg) (value : Word)
  | opImm (alu : Alu) (rd rs1 : Reg) (immediate : Word)
  | opImmW (alu : Alu) (rd rs1 : Reg) (immediate : BitVec 32)
  | op (alu : Alu) (rd rs1 rs2 : Reg)
  | opW (alu : Alu) (rd rs1 rs2 : Reg)
  | load (width : ℕ) (signed : Bool) (rd rs1 : Reg) (offset : Word)
  | store (width : ℕ) (rs1 rs2 : Reg) (offset : Word)
  deriving DecidableEq

/-! ## Decoding -/

/-- The immediate of an upper instruction. -/
def upper (word : ℕ) : Word := (BitVec.ofNat 32 (field word 12 20 * 2 ^ 12)).signExtend 64

/-- The immediate of a load or of an operation. -/
def immediateI (n word : ℕ) : BitVec n := BitVec.ofInt n (signed 12 (field word 20 12))

/-- The offset of a store. -/
def immediateS (word : ℕ) : Word := BitVec.ofInt 64 (signed 12 (field word 25 7 * 2 ^ 5 + field word 7 5))

/-- A shift by a constant, whose high bits have the given width. -/
def shiftOf (funct3 high sra : ℕ) : Option Alu :=
  if funct3 = 1 then if high = 0 then some .sll else none
  else if high = 0 then some .srl
  else if high = sra then some .sra
  else none

/-- The width and extension of a load. -/
def loadOf (funct3 : ℕ) : Option (ℕ × Bool) :=
  if funct3 < 4 then some (2 ^ funct3, true)
  else if funct3 < 7 then some (2 ^ (funct3 - 4), false)
  else none

/-- **The instruction a word encodes.** -/
def decode (word : ℕ) : Option Instr :=
  let opcode := field word 0 7
  let funct3 := field word 12 3
  let funct7 := field word 25 7
  let rd := reg word 7
  let rs1 := reg word 15
  let rs2 := reg word 20
  if opcode = 0x37 then some (.lui rd (upper word))
  else if opcode = 0x17 then some (.auipc rd (upper word))
  else if opcode = 0x13 then
    if funct3 = 1 ∨ funct3 = 5 then
      (shiftOf funct3 (field word 26 6) 0x10).map fun alu =>
        .opImm alu rd rs1 (BitVec.ofNat 64 (field word 20 6))
    else (aluOf funct3 0).map fun alu => .opImm alu rd rs1 (immediateI 64 word)
  else if opcode = 0x1B then
    if funct3 = 1 ∨ funct3 = 5 then
      (shiftOf funct3 funct7 0x20).map fun alu =>
        .opImmW alu rd rs1 (BitVec.ofNat 32 (field word 20 5))
    else if funct3 = 0 then some (.opImmW .add rd rs1 (immediateI 32 word))
    else none
  else if opcode = 0x33 then (aluOf funct3 funct7).map fun alu => .op alu rd rs1 rs2
  else if opcode = 0x3B then
    if funct3 = 0 ∨ funct3 = 1 ∨ funct3 = 5 then
      (aluOf funct3 funct7).map fun alu => .opW alu rd rs1 rs2
    else none
  else if opcode = 0x03 then
    (loadOf funct3).map fun form => .load form.1 form.2 rd rs1 (immediateI 64 word)
  else if opcode = 0x23 then
    if funct3 < 4 then some (.store (2 ^ funct3) rs1 rs2 (immediateS word)) else none
  else none

/-! ## Memory -/

/-- Bytes by their addresses. -/
abbrev Memory := Word → BitVec 8

/-- The little-endian number of some bytes. -/
def readBytes (memory : Memory) (address : Word) : ℕ → ℕ
  | 0 => 0
  | n + 1 => (memory address).toNat + 256 * readBytes memory (address + 1) n

/-- The low bytes of a number, lowest first. -/
def writeBytes (memory : Memory) (address : Word) (value : ℕ) : ℕ → Memory
  | 0 => memory
  | n + 1 => Function.update (writeBytes memory (address + 1) (value / 256) n) address (BitVec.ofNat 8 value)

theorem readBytes_lt (memory : Memory) (address : Word) (n : ℕ) : readBytes memory address n < 256 ^ n := by
  induction n generalizing address with
  | zero => exact Nat.one_pos
  | succ n ih =>
    have hbyte := (memory address).isLt
    have hrest := ih (address + 1)
    unfold readBytes
    rw [pow_succ]
    omega

variable {memory : Memory} {address : Word} {n : ℕ}

/-- A number depends on its own bytes only. -/
theorem readBytes_congr {memory' : Memory}
    (h : ∀ i < n, memory (address + BitVec.ofNat 64 i) = memory' (address + BitVec.ofNat 64 i)) :
    readBytes memory address n = readBytes memory' address n := by
  induction n generalizing address with
  | zero => rfl
  | succ n ih =>
    have hfirst := h 0 (Nat.succ_pos n)
    rw [BitVec.add_zero] at hfirst
    unfold readBytes
    rw [hfirst, ih fun i hi => ?_]
    have hnext := h (i + 1) (Nat.succ_lt_succ hi)
    rw [Nat.add_comm i 1, BitVec.ofNat_add, ← BitVec.add_assoc] at hnext
    exact hnext

/-- **A write leaves the other bytes.** -/
theorem writeBytes_of_ne {a : Word} {value : ℕ} (h : ∀ i < n, a ≠ address + BitVec.ofNat 64 i) :
    writeBytes memory address value n a = memory a := by
  induction n generalizing address value with
  | zero => rfl
  | succ n ih =>
    have hfirst := h 0 (Nat.succ_pos n)
    rw [BitVec.add_zero] at hfirst
    unfold writeBytes
    rw [Function.update_of_ne hfirst]
    refine ih fun i hi => ?_
    have hnext := h (i + 1) (Nat.succ_lt_succ hi)
    rwa [Nat.add_comm i 1, BitVec.ofNat_add, ← BitVec.add_assoc] at hnext

/-- **What was written is read.** -/
theorem readBytes_writeBytes (memory : Memory) (address : Word) (value : ℕ) (hn : n ≤ 2 ^ 64) :
    readBytes (writeBytes memory address value n) address n = value % 256 ^ n := by
  induction n generalizing address value with
  | zero =>
    rw [pow_zero, Nat.mod_one]
    rfl
  | succ n ih =>
    have hrest : readBytes (Function.update (writeBytes memory (address + 1) (value / 256) n) address
        (BitVec.ofNat 8 value)) (address + 1) n = value / 256 % 256 ^ n := by
      rw [← ih (address + 1) (value / 256) (Nat.le_of_succ_le hn)]
      refine readBytes_congr fun i hi => Function.update_of_ne (fun heq => ?_) _ _
      -- The bytes above the first one are other bytes: the address does not come round.
      have hzero : (1 : Word) + BitVec.ofNat 64 i = 0 := by
        rw [BitVec.add_assoc] at heq
        exact BitVec.self_eq_add_right.1 heq.symm
      have hnat := congrArg BitVec.toNat hzero
      rw [BitVec.toNat_add, BitVec.toNat_ofNat] at hnat
      simp only [BitVec.ofNat_eq_ofNat, BitVec.toNat_ofNat] at hnat
      omega
    unfold writeBytes readBytes
    rw [hrest, Function.update_self, BitVec.toNat_ofNat, pow_succ' 256 n, Nat.mod_mul]

/-- A number in two parts. -/
theorem readBytes_add (memory : Memory) (address : Word) (j k : ℕ) :
    readBytes memory address (j + k) =
      readBytes memory address j + 256 ^ j * readBytes memory (address + BitVec.ofNat 64 j) k := by
  induction j generalizing address with
  | zero =>
    rw [Nat.zero_add, BitVec.add_zero, pow_zero, Nat.one_mul]
    exact (Nat.zero_add _).symm
  | succ j ih =>
    have haddress : address + BitVec.ofNat 64 (j + 1) = address + 1 + BitVec.ofNat 64 j := by
      rw [Nat.add_comm j 1, BitVec.ofNat_add, ← BitVec.add_assoc]
      rfl
    rw [Nat.succ_add, haddress, readBytes, ih, readBytes, pow_succ', Nat.mul_add, Nat.mul_assoc,
      Nat.add_assoc]

/-- The number that given bytes make. -/
theorem readBytes_of_bytes (value : ℕ)
    (h : ∀ i < n, (memory (address + BitVec.ofNat 64 i)).toNat = value / 256 ^ i % 256) :
    readBytes memory address n = value % 256 ^ n := by
  induction n generalizing address value with
  | zero =>
    rw [pow_zero, Nat.mod_one]
    rfl
  | succ n ih =>
    have hfirst := h 0 (Nat.succ_pos n)
    rw [BitVec.add_zero, pow_zero, Nat.div_one] at hfirst
    unfold readBytes
    rw [hfirst, ih (value / 256) fun i hi => ?_, pow_succ' 256 n, Nat.mod_mul]
    have hnext := h (i + 1) (Nat.succ_lt_succ hi)
    rw [Nat.add_comm i 1, BitVec.ofNat_add, ← BitVec.add_assoc, pow_add, pow_one,
      ← Nat.div_div_eq_div_mul] at hnext
    exact hnext

/-- Addresses below the bound are different when their numbers are. -/
theorem ofNat_ne {a b : ℕ} (ha : a < 2 ^ 64) (hb : b < 2 ^ 64) (h : a ≠ b) :
    BitVec.ofNat 64 a ≠ BitVec.ofNat 64 b := fun heq => by
  have hnat := congrArg BitVec.toNat heq
  rw [BitVec.toNat_ofNat, BitVec.toNat_ofNat, Nat.mod_eq_of_lt ha, Nat.mod_eq_of_lt hb] at hnat
  exact h hnat

/-- **A write does not reach another span.** -/
theorem readBytes_writeBytes_of_disjoint (memory : Memory) (value : ℕ) {p q j k : ℕ}
    (hp : p + j ≤ 2 ^ 64) (hq : q + k ≤ 2 ^ 64) (h : p + j ≤ q ∨ q + k ≤ p) :
    readBytes (writeBytes memory (BitVec.ofNat 64 p) value j) (BitVec.ofNat 64 q) k =
      readBytes memory (BitVec.ofNat 64 q) k := by
  refine readBytes_congr fun i hi => writeBytes_of_ne fun i' hi' => ?_
  rw [← BitVec.ofNat_add, ← BitVec.ofNat_add]
  exact ofNat_ne (by omega) (by omega) (by omega)

/-! ## Execution -/

structure Machine where
  pc : Word
  regs : Reg → Word
  memory : Memory

/-- The value of a register; the first one is zero. -/
def Machine.x (m : Machine) (r : Reg) : Word := if r = 0 then 0 else m.regs r

/-- What an instruction writes: a register with its value, and the memory. -/
structure Outcome where
  rd : Reg
  value : Word
  memory : Memory

/-- The low bytes of a number, extended to a word. -/
def extend (width : ℕ) (signed : Bool) (value : ℕ) : Word :=
  if signed then (BitVec.ofNat (8 * width) value).signExtend 64 else BitVec.ofNat 64 value

/-- **What an instruction does.** -/
def outcome (m : Machine) : Instr → Outcome
  | .lui rd value => ⟨rd, value, m.memory⟩
  | .auipc rd value => ⟨rd, m.pc + value, m.memory⟩
  | .opImm alu rd rs1 immediate => ⟨rd, eval alu (m.x rs1) immediate, m.memory⟩
  | .opImmW alu rd rs1 immediate =>
    ⟨rd, (eval alu ((m.x rs1).setWidth 32) immediate).signExtend 64, m.memory⟩
  | .op alu rd rs1 rs2 => ⟨rd, eval alu (m.x rs1) (m.x rs2), m.memory⟩
  | .opW alu rd rs1 rs2 =>
    ⟨rd, (eval alu ((m.x rs1).setWidth 32) ((m.x rs2).setWidth 32)).signExtend 64, m.memory⟩
  | .load width signed rd rs1 offset =>
    ⟨rd, extend width signed (readBytes m.memory (m.x rs1 + offset) width), m.memory⟩
  | .store width rs1 rs2 offset =>
    ⟨0, 0, writeBytes m.memory (m.x rs1 + offset) (m.x rs2).toNat width⟩

/-- An instruction that has retired: a register that is not written counts as the first one. -/
structure Retirement where
  pc : Word
  word : ℕ
  rd : Reg
  value : Word

def retire (m : Machine) (word : ℕ) (o : Outcome) : Retirement :=
  ⟨m.pc, word, o.rd, if o.rd = 0 then 0 else o.value⟩

def next (m : Machine) (o : Outcome) : Machine :=
  ⟨m.pc + 4, Function.update m.regs o.rd o.value, o.memory⟩

/-- **Words one after the other**; a word that is no straight-line instruction stops the machine. -/
def run : List ℕ → Machine → Option (List Retirement × Machine)
  | [], m => some ([], m)
  | word :: words, m => do
    let o := outcome m (← decode word)
    let (retirements, final) ← run words (next m o)
    return (retire m word o :: retirements, final)

theorem x_next_self (m : Machine) (o : Outcome) (h : o.rd ≠ 0) : (next m o).x o.rd = o.value := by
  unfold next Machine.x
  rw [if_neg h]
  exact Function.update_self ..

theorem x_next_of_ne (m : Machine) (o : Outcome) {r : Reg} (h : r ≠ o.rd) : (next m o).x r = m.x r := by
  unfold next Machine.x
  dsimp only
  rw [Function.update_of_ne h]

theorem x_zero (m : Machine) : m.x 0 = 0 := if_pos rfl

end Rv64i
