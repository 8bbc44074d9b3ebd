import MyFuzz.Foundations.Buffer
import MyFuzz.Foundations.Outcome

/-!
# Integration/RfuzzWire — the framing of the shared buffers

The fuzzer hands over a batch of tests in one buffer, and gets the coverage of the tests back in another.  The
integers of both are big-endian:

    input       magic │ id │ count │ 0 0 0 │ cycles │ record … record │ cycles │ …
    coverage    magic │ id │ executed │ counters │ padding │ executed │ …        │ 8 bytes

The counts of an input buffer are its own: each one is checked against a bound and against the bytes
that are there before it is used.
-/

namespace MyFuzz

open Bytes Buffer Outcome

namespace RfuzzWire

def inputMagic : ℕ := 0x19931993

def coverageMagic : ℕ := 0x73537353

def maxBufferBytes : ℕ := 1024 * 1024

/-- A number from one up to a maximum. -/
def positive (value : ℤ) (label : String) (maximum : ℕ) : Except Exn ℕ := do
  ensure (1 ≤ value ∧ value ≤ maximum) (.valueError ("invalid " ++ label))
  return value.toNat

/-! ## Packed integers -/

/-- The exception of a buffer that is too short, or of a number that is too large. -/
def structError : Exn := .other "struct.error"

/-- `struct.unpack_from` of one integer of the given width. -/
def unpackFrom (width : ℕ) (data : List UInt8) (offset : ℕ) : Except Exn ℕ := do
  ensure (offset + width ≤ data.length) structError
  return readBe (region data offset width)

/-- The bytes of some integers, each with its width. -/
def packed (fields : List (ℕ × ℕ)) : List UInt8 := fields.flatMap fun field => beBytes field.1 field.2

/-- `struct.pack_into` of some integers, each with its width. -/
def packInto (output : List UInt8) (offset : ℕ) (fields : List (ℕ × ℕ)) : Except Exn (List UInt8) := do
  ensure (∀ field ∈ fields, field.2 < 256 ^ field.1) structError
  ensure (offset + (packed fields).length ≤ output.length) structError
  return overwrite output offset (packed fields)

/-! ## Batches -/

/-- A record of a cycle. -/
abbrev CycleRecord := List UInt8

/-- **A batch of tests**, each the records of its cycles. -/
structure InputBatch where
  bufferId : ℕ
  inputBytes : ℕ
  tests : List (List CycleRecord)
  bufferId_le : bufferId ≤ 0xFFFFFFFF
  inputBytes_bounds : 1 ≤ inputBytes ∧ inputBytes ≤ maxBufferBytes
  shape : inputBytes % 8 = 0 ∧ 1 ≤ tests.length ∧ tests.length ≤ 65535
  cycles_bounds : ∀ cycles ∈ tests, 1 ≤ cycles.length ∧ cycles.length ≤ 65535
  record_length : ∀ cycles ∈ tests, ∀ record ∈ cycles, record.length = inputBytes
  deriving DecidableEq

/-- The constructor with its checks. -/
def InputBatch.make (bufferId inputBytes : ℕ) (tests : List (List CycleRecord)) : Except Exn InputBatch :=
  if hid : bufferId ≤ 0xFFFFFFFF then
    if hbytes : 1 ≤ inputBytes ∧ inputBytes ≤ maxBufferBytes then
      if hshape : inputBytes % 8 = 0 ∧ 1 ≤ tests.length ∧ tests.length ≤ 65535 then
        if hcycles : ∀ cycles ∈ tests, 1 ≤ cycles.length ∧ cycles.length ≤ 65535 then
          if hrecords : ∀ cycles ∈ tests, ∀ record ∈ cycles, record.length = inputBytes then
            .ok ⟨bufferId, inputBytes, tests, hid, hbytes, hshape, hcycles, hrecords⟩
          else .error (.valueError "invalid input record")
        else .error (.valueError "invalid cycle count")
      else .error (.valueError "invalid input batch")
    else .error (.valueError "invalid input bytes")
  else .error (.valueError "invalid buffer ID")

/-! ## Input buffers -/

/-- The records of a test whose first one is at an offset. -/
def recordsAt (data : List UInt8) (inputBytes offset cycles : ℕ) : List CycleRecord :=
  (List.range cycles).map fun index => region data (offset + index * inputBytes) inputBytes

/-- The tests from an offset on. -/
def parseTests (data : List UInt8) (inputBytes maxCycles : ℕ) : ℕ → ℕ → Except Exn (List (List CycleRecord))
  | 0, _ => .ok []
  | count + 1, offset => do
    ensure (¬ data.length < offset + 8) (.valueError "truncated test length")
    let cycles ← unpackFrom 8 data offset
    ensure (1 ≤ cycles ∧ cycles ≤ maxCycles) (.valueError "test cycle count outside bound")
    let stop := offset + 8 + cycles * inputBytes
    ensure (¬ data.length < stop) (.valueError "truncated test input")
    let tests ← parseTests data inputBytes maxCycles count stop
    return recordsAt data inputBytes (offset + 8) cycles :: tests

/-- **Parse an input buffer.** -/
def parseInputBuffer (data : List UInt8) (inputBytes maxCycles maxBytes : ℤ) : Except Exn InputBatch := do
  let inputBytes ← positive inputBytes "input bytes" maxBufferBytes
  let maxCycles ← positive maxCycles "max cycles" 65535
  let maxBytes ← positive maxBytes "buffer bound" maxBufferBytes
  ensure (inputBytes % 8 = 0 ∧ 16 ≤ data.length ∧ data.length ≤ maxBytes)
    (.valueError "invalid input buffer size or alignment")
  let magic ← unpackFrom 4 data 0
  let bufferId ← unpackFrom 4 data 4
  let count ← unpackFrom 2 data 8
  let r0 ← unpackFrom 2 data 10
  let r1 ← unpackFrom 2 data 12
  let r2 ← unpackFrom 2 data 14
  ensure (magic = inputMagic ∧ count ≠ 0 ∧ r0 = 0 ∧ r1 = 0 ∧ r2 = 0)
    (.valueError "invalid input buffer header")
  let tests ← parseTests data inputBytes maxCycles count 16
  InputBatch.make bufferId inputBytes tests

/-! ## Coverage buffers -/

/-- The bytes from one record of a coverage buffer to the next: two for the executed cycles, the counters, and
padding to a multiple of eight. -/
def strideOf (counterCount : ℕ) : ℕ := (counterCount + 2 + 7) / 8 * 8

/-- Write the record of one test. -/
def writeRecord (counterCount : ℕ) (output : List UInt8)
    (test : (List CycleRecord × List UInt8) × ℕ) : Except Exn (List UInt8) := do
  let offset := 8 + test.2 * strideOf counterCount
  let output ← packInto output offset [(2, test.1.1.length)]
  return output.take (offset + 2) ++ test.1.2 ++ output.drop (offset + 2 + counterCount)

/-- **Encode a coverage buffer.** -/
def encodeCoverageBuffer (batch : InputBatch) (coverages : List (List UInt8)) (counterCount : ℤ)
    (capacity : Option ℤ) : Except Exn (List UInt8) := do
  let counterCount ← positive counterCount "counter count" 4096
  ensure (coverages.length = batch.tests.length) (.valueError "coverage test count mismatch")
  ensure (∀ record ∈ coverages, record.length = counterCount) (.valueError "coverage counter count mismatch")
  let minimum := 16 + strideOf counterCount * coverages.length
  let capacity ← positive (capacity.getD minimum) "coverage capacity" maxBufferBytes
  ensure (¬ (capacity < minimum ∨ capacity % 8 ≠ 0)) (.valueError "coverage buffer too small or unaligned")
  let output ← packInto (List.replicate capacity 0) 0 [(4, coverageMagic), (4, batch.bufferId)]
  (batch.tests.zip coverages).zipIdx.foldlM (writeRecord counterCount) output

end RfuzzWire

end MyFuzz
