import MyFuzz.Foundations.BitField
import MyFuzz.Foundations.Bytes

/-!
# Riscv/Machine — what an instruction touches

The part of RV32/RV64 that a memory promise is about, read off the instruction's bits: the register it
writes, the bytes it accesses and whether it leaves the straight line.  The value of an upper immediate
and of an addition is fixed; every other result is left open, so a statement about all runs of this
machine is one about the runs of every machine that fills them in.

    fetch image pc  ──▸  word, width  ──▸  destination, access, result, transfers
-/

namespace MyFuzz

open BitField

namespace Machine

/-- The integer a field of `n` bits stands for. -/
def signed (v n : ℕ) : ℤ := if v < 2 ^ (n - 1) then v else v - 2 ^ n

/-- The state an instruction reads and writes. -/
structure Hart where
  pc : ℕ
  regs : ℕ → ℕ

/-- A register; `x0` is zero. -/
def Hart.x (s : Hart) (r : ℕ) : ℕ := if r = 0 then 0 else s.regs r

/-- Bytes of memory. -/
structure Access where
  address : ℕ
  size : ℕ

/-! ## Words of 32 bits -/

def opcode (w : ℕ) : ℕ := w &&& 0x7f
def funct3 (w : ℕ) : ℕ := w >>> 12 &&& 7
def rd (w : ℕ) : ℕ := w >>> 7 &&& 31
def rs1 (w : ℕ) : ℕ := w >>> 15 &&& 31
def immI (w : ℕ) : ℤ := signed (w >>> 20 &&& 0xfff) 12
def immS (w : ℕ) : ℤ := signed ((w >>> 25 &&& 0x7f) * 32 + rd w) 12
def immU (w : ℕ) : ℤ := signed ((w >>> 12 &&& 0xfffff) * 2 ^ 12) 32

/-- The opcodes of loads, register operations, upper immediates, atomics, jumps and system words. -/
def writingOpcodes : List ℕ := [0x03, 0x13, 0x17, 0x1b, 0x2f, 0x33, 0x37, 0x3b, 0x67, 0x6f, 0x73]

/-- The opcodes of branches, jumps and system words. -/
def controlOpcodes : List ℕ := [0x63, 0x67, 0x6f, 0x73]

/-- The bytes a load moves. -/
def loadSize (w : ℕ) : Option ℕ := [1, 2, 4, 8, 1, 2, 4][funct3 w]?

/-- The bytes a store moves. -/
def storeSize (w : ℕ) : Option ℕ := [1, 2, 4, 8][funct3 w]?

/-- The bytes an atomic moves. -/
def atomicSize (w : ℕ) : Option ℕ := if funct3 w = 2 then some 4 else if funct3 w = 3 then some 8 else none

/-- An address of the word length. -/
def addressOf (xlen : ℕ) (base : ℕ) (offset : ℤ) : ℕ := ((base + offset) % 2 ^ xlen).toNat

def wordAccess (xlen : ℕ) (x : ℕ → ℕ) (w : ℕ) : Option Access :=
  if opcode w = 0x03 then (loadSize w).map (⟨addressOf xlen (x (rs1 w)) (immI w), ·⟩)
  else if opcode w = 0x23 then (storeSize w).map (⟨addressOf xlen (x (rs1 w)) (immS w), ·⟩)
  else if opcode w = 0x2f then (atomicSize w).map (⟨addressOf xlen (x (rs1 w)) 0, ·⟩)
  else none

def wordDestination (w : ℕ) : Option ℕ := if opcode w ∈ writingOpcodes then some (rd w) else none

/-- The value of `lui` and of `addi`. -/
def wordResult (xlen : ℕ) (x : ℕ → ℕ) (w : ℕ) : Option ℕ :=
  if opcode w = 0x37 then some (immU w % 2 ^ xlen).toNat
  else if opcode w = 0x13 ∧ funct3 w = 0 then some (addressOf xlen (x (rs1 w)) (immI w))
  else none

/-! ## Words of 16 bits -/

def quadrant (w : ℕ) : ℕ := w &&& 3
def cFunct3 (w : ℕ) : ℕ := w >>> 13 &&& 7
def bits (w offset width : ℕ) : ℕ := readSegment w offset width

/-- The register of a three-bit field. -/
def prime (w offset : ℕ) : ℕ := 8 + bits w offset 3

def parcelAccess (xlen : ℕ) (x : ℕ → ℕ) (w : ℕ) : Option Access :=
  let word := bits w 10 3 * 8 + bits w 6 1 * 4 + bits w 5 1 * 64
  let double := bits w 10 3 * 8 + bits w 5 2 * 64
  if quadrant w = 0 ∧ (cFunct3 w = 2 ∨ cFunct3 w = 6) then
    some ⟨addressOf xlen (x (prime w 7)) word, 4⟩
  else if quadrant w = 0 ∧ xlen = 64 ∧ (cFunct3 w = 3 ∨ cFunct3 w = 7) then
    some ⟨addressOf xlen (x (prime w 7)) double, 8⟩
  else if quadrant w = 2 ∧ cFunct3 w = 2 then
    some ⟨addressOf xlen (x 2) (bits w 12 1 * 32 + bits w 4 3 * 4 + bits w 2 2 * 64 : ℕ), 4⟩
  else if quadrant w = 2 ∧ xlen = 64 ∧ cFunct3 w = 3 then
    some ⟨addressOf xlen (x 2) (bits w 12 1 * 32 + bits w 5 2 * 8 + bits w 2 3 * 64 : ℕ), 8⟩
  else if quadrant w = 2 ∧ cFunct3 w = 6 then
    some ⟨addressOf xlen (x 2) (bits w 9 4 * 4 + bits w 7 2 * 64 : ℕ), 4⟩
  else if quadrant w = 2 ∧ xlen = 64 ∧ cFunct3 w = 7 then
    some ⟨addressOf xlen (x 2) (bits w 10 3 * 8 + bits w 7 3 * 64 : ℕ), 8⟩
  else none

def parcelDestination (xlen w : ℕ) : Option ℕ :=
  if quadrant w = 0 then if cFunct3 w < 4 then some (prime w 2) else none
  else if quadrant w = 1 then
    if cFunct3 w = 1 ∧ xlen = 32 then some 1
    else if cFunct3 w < 4 then some (rd w)
    else if cFunct3 w = 4 then some (prime w 7)
    else none
  else if cFunct3 w < 4 then some (rd w)
  else if cFunct3 w = 4 then
    if bits w 2 5 ≠ 0 then some (rd w) else if bits w 12 1 = 1 ∧ rd w ≠ 0 then some 1 else none
  else none

/-- A jump, a branch or a breakpoint. -/
def parcelControl (xlen w : ℕ) : Prop :=
  quadrant w = 1 ∧ (cFunct3 w = 1 ∧ xlen = 32 ∨ 5 ≤ cFunct3 w) ∨
    quadrant w = 2 ∧ cFunct3 w = 4 ∧ bits w 2 5 = 0

/-! ## Runs -/

def access (xlen : ℕ) (x : ℕ → ℕ) (w width : ℕ) : Option Access :=
  if width = 4 then wordAccess xlen x w else parcelAccess xlen x w

def destination (xlen w width : ℕ) : Option ℕ :=
  if width = 4 then wordDestination w else parcelDestination xlen w

def result (xlen : ℕ) (x : ℕ → ℕ) (w width : ℕ) : Option ℕ :=
  if width = 4 then wordResult xlen x w else none

def transfers (xlen w width : ℕ) : Prop :=
  if width = 4 then opcode w ∈ controlOpcodes else parcelControl xlen w

/-- The instruction at a place of an image: the two low bits tell its width. -/
def fetch (image : List UInt8) (pc : ℕ) : Option (ℕ × ℕ) :=
  let rest := image.drop pc
  if rest.length < 2 then none
  else if Bytes.readLe (rest.take 2) &&& 3 ≠ 3 then some (Bytes.readLe (rest.take 2), 2)
  else if rest.length < 4 then none
  else some (Bytes.readLe (rest.take 4), 4)

/-- **One instruction**: only its destination changes, to its result where that is fixed, and the
place moves on unless it is a transfer of control. -/
def Step (xlen : ℕ) (image : List UInt8) (s s' : Hart) : Prop :=
  ∃ w width, fetch image s.pc = some (w, width) ∧ (∀ r, destination xlen w width ≠ some r → s'.x r = s.x r) ∧
    (∀ v d, result xlen s.x w width = some v → destination xlen w width = some d → d ≠ 0 → s'.x d = v) ∧
    (¬ transfers xlen w width → s'.pc = s.pc + width)

/-- The states of the runs from place zero. -/
def Reachable (xlen : ℕ) (image : List UInt8) (s : Hart) : Prop :=
  ∃ regs, Relation.ReflTransGen (Step xlen image) ⟨0, regs⟩ s

end Machine

end MyFuzz
