import MyFuzz.Foundations.Effect
import MyFuzz.Foundations.JsonLines
import MyFuzz.Foundations.Sequence

/-!
# Scenario/EventArtifact — compressed event files

`writeZlibChunkEvents` writes events as blocks of compressed lines, each block with its sizes, its
number of events and a checksum; `ZlibChunkEventView` checks every block when it is opened and
afterwards inflates one block for each lookup.

    MFZ1 │ comp_len raw_len count crc │ zlib(line₀ \n line₁ \n …) │ comp_len … │ zlib(…) │ …

What the file rests on is a parameter: a `JsonLines` codec, a `Zlib` and a `Hasher`.
-/

namespace MyFuzz

open Sequence

/-- The most bytes of lines in a block. -/
def zlibMaxRaw : ℕ := 8 * 1024 * 1024

/-- The most bytes of a compressed block. -/
def zlibMaxCompressed : ℕ := zlibMaxRaw + 65536

/-- How a decompressor stands after it was given all of its input. -/
structure Inflated where
  raw : List UInt8
  eof : Bool
  unusedData : List UInt8
  unconsumedTail : List UInt8

/-- Compression and checksums: a block is inflated to what was compressed when the output may be
longer than it, is never empty, and grows by 65536 bytes at most. -/
structure Zlib where
  compress : List UInt8 → List UInt8
  decompress : List UInt8 → ℕ → Option Inflated
  crc32 : List UInt8 → UInt32
  decompress_compress : ∀ (raw : List UInt8) (maxLength : ℕ), raw.length < maxLength →
    decompress (compress raw) maxLength = some ⟨raw, true, [], []⟩
  compress_ne_nil : ∀ raw, compress raw ≠ []
  length_compress_le : ∀ raw, raw.length ≤ zlibMaxRaw → (compress raw).length ≤ raw.length + 65536

/-- A digest that is fed piece by piece. -/
structure Hasher (η : Type) where
  new : List UInt8 → η
  update : η → List UInt8 → η

/-- The first bytes of a file. -/
def zlibMagic : List UInt8 := [77, 70, 90, 49]

/-- The bytes a trace's digest begins with, `{"events":[`. -/
def semanticFront : List UInt8 := [123, 34, 101, 118, 101, 110, 116, 115, 34, 58, 91]

/-- The header of a block. -/
def packHeader (compLen rawLen count crc : ℕ) : Except Exn (List UInt8) := do
  ensure (compLen < 2 ^ 32 ∧ rawLen < 2 ^ 32 ∧ count < 2 ^ 32 ∧ crc < 2 ^ 32) (.other "struct.error")
  pure (Bytes.leBytes 4 compLen ++ Bytes.leBytes 4 rawLen ++ Bytes.leBytes 4 count ++ Bytes.leBytes 4 crc)

/-- Feed the text of an event to a digest, after a comma unless it is the first. -/
def Hasher.feed {η : Type} (hasher : Hasher η) (digest : η) (count : ℕ) (encoded : List UInt8) : η :=
  hasher.update (if count ≠ 0 then hasher.update digest [44] else digest) encoded

section Artifact

variable {σ η : Type} (json : JsonLines σ) (zlib : Zlib) (hasher : Hasher η)

/-! ## Writing -/

/-- The state of a writer. -/
structure EventWriter (η : Type) where
  handle : List UInt8
  pending : List (List UInt8)
  pendingBytes : ℕ
  count : ℕ
  semanticDigest : Option η

namespace EventWriter

/-- Write the lines that wait as one block. -/
def flush (w : EventWriter η) : Except Exn (EventWriter η) :=
  if w.pending = [] then .ok w
  else do
    let raw := w.pending.flatten
    let encoded := zlib.compress raw
    let header ← packHeader encoded.length raw.length w.pending.length (zlib.crc32 raw).toNat
    pure { w with handle := w.handle ++ header ++ encoded, pending := [], pendingBytes := 0 }

/-- The block is full: it has its number of events, or the line does not fit any more. -/
def Full (chunkEvents : ℤ) (w : EventWriter η) (line : List UInt8) : Prop :=
  w.pending ≠ [] ∧ (chunkEvents ≤ w.pending.length ∨ zlibMaxRaw < w.pendingBytes + line.length)

instance (chunkEvents : ℤ) (w : EventWriter η) (line : List UInt8) :
    Decidable (w.Full chunkEvents line) := inferInstanceAs (Decidable (_ ∧ (_ ∨ _)))

/-- Begin another block when a line does not go into this one. -/
def makeRoom (chunkEvents : ℤ) (w : EventWriter η) (line : List UInt8) : Except Exn (EventWriter η) :=
  if w.Full chunkEvents line then w.flush zlib else pure w

/-- Keep a line for the next block. -/
def keep (w : EventWriter η) (encoded line : List UInt8) : EventWriter η :=
  { w with
    semanticDigest := w.semanticDigest.map fun digest => hasher.feed digest w.count encoded
    pending := w.pending ++ [line]
    pendingBytes := w.pendingBytes + line.length
    count := w.count + 1 }

/-- Write an event. -/
def writeEvent (chunkEvents : ℤ) (w : EventWriter η) (event : Value σ) : Except Exn (EventWriter η) := do
  let encoded := json.dumps event
  let line := encoded ++ [10]
  ensure (line.length ≤ zlibMaxRaw) (.valueError "compressed event exceeds block size")
  let w ← w.makeRoom zlib chunkEvents line
  pure (w.keep hasher encoded line)

end EventWriter

/-- A file that was written: its bytes, how many events it has and the digest that was fed. -/
structure Written (η : Type) where
  file : List UInt8
  count : ℕ
  semanticDigest : Option η

/-- Write events to a file. -/
def writeZlibChunkEvents (events : List (Value σ)) (chunkEvents : ℤ) (semanticDigest : Option η) :
    Except Exn (Written η) := do
  ensure (1 ≤ chunkEvents ∧ chunkEvents ≤ 4096) (.valueError "invalid compressed event chunk size")
  let w ← events.foldlM (EventWriter.writeEvent json zlib hasher chunkEvents)
    ⟨zlibMagic, [], 0, 0, semanticDigest⟩
  let w ← w.flush zlib
  pure ⟨w.handle, w.count, w.semanticDigest⟩

/-! ## Reading -/

/-- Where a block is and what its header says. -/
structure Block where
  offset : ℕ
  compLen : ℕ
  rawLen : ℕ
  count : ℕ
  crc : ℕ

/-- A value is a dictionary. -/
def isDict : Value σ → Bool
  | .dict _ => true
  | _ => false

/-- The events of a block. -/
def decodeBlock (data : List UInt8) (rawLen count crc : ℕ) : Except Exn (List (Value σ)) :=
  match zlib.decompress data (rawLen + 1) with
  | none => .error (.valueError "invalid compressed event payload")
  | some inflated => do
      ensure (inflated.eof = true ∧ inflated.unusedData = [] ∧ inflated.unconsumedTail = [] ∧
        inflated.raw.length = rawLen) (.valueError "invalid compressed event payload")
      ensure ((zlib.crc32 inflated.raw).toNat = crc) (.valueError "compressed event CRC mismatch")
      ensure (inflated.raw.getLast? = some 10) (.valueError "unterminated compressed event")
      match (Bytes.splitLines inflated.raw).mapM json.loads with
      | none => .error (.valueError "invalid compressed event payload")
      | some events => do
          ensure (events.length = count ∧ ∀ event ∈ events, isDict event = true)
            (.valueError "compressed event block count mismatch")
          pure events

/-- A file of events, with the block that was inflated last. -/
structure ZlibChunkEventView (σ η : Type) where
  file : List UInt8
  blocks : List Block
  starts : List ℕ
  count : ℕ
  cacheIndex : Option ℕ
  cacheEvents : List (Value σ)
  semanticDigest : η

namespace ZlibChunkEventView

/-- Count an event and feed it to the digest. -/
def takeEvent (view : ZlibChunkEventView σ η) (event : Value σ) : ZlibChunkEventView σ η :=
  { view with
    semanticDigest := hasher.feed view.semanticDigest view.count (json.dumps event)
    count := view.count + 1 }

/-- Check a block that begins with a header and enter it; `rest` is what follows the header. -/
def readBlock (view : ZlibChunkEventView σ η) (offset : ℕ) (header rest : List UInt8) :
    Except Exn (ZlibChunkEventView σ η × ℕ) := do
  ensure (header.length = 16) (.valueError "truncated compressed event header")
  let compLen := Bytes.readLe (header.take 4)
  let rawLen := Bytes.readLe ((header.drop 4).take 4)
  let blockCount := Bytes.readLe ((header.drop 8).take 4)
  let crc := Bytes.readLe (header.drop 12)
  ensure ((0 < compLen ∧ compLen ≤ zlibMaxCompressed) ∧ 0 < rawLen ∧ rawLen ≤ zlibMaxRaw)
    (.valueError "invalid compressed event block size")
  ensure (0 < blockCount ∧ blockCount ≤ 4096) (.valueError "invalid compressed event block count")
  let compressed := rest.take compLen
  ensure (compressed.length = compLen) (.valueError "truncated compressed event block")
  let decoded ← decodeBlock json zlib compressed rawLen blockCount crc
  let view := decoded.foldl (takeEvent json hasher) { view with starts := view.starts ++ [view.count] }
  pure ({ view with blocks := view.blocks ++ [⟨offset, compLen, rawLen, blockCount, crc⟩] }, compLen)

/-- Enter the blocks of what is left of a file, which begins at `position`. -/
def readBlocks (view : ZlibChunkEventView σ η) (position : ℕ) (rest : List UInt8) :
    Except Exn (ZlibChunkEventView σ η) :=
  if _ : rest = [] then .ok view
  else do
    let (view, compLen) ← view.readBlock json zlib hasher (position + 16) (rest.take 16) (rest.drop 16)
    readBlocks view (position + 16 + compLen) (rest.drop (16 + compLen))
termination_by rest.length
decreasing_by
  have : 0 < rest.length := List.length_pos_iff.mpr ‹_›
  rw [List.length_drop]
  omega

/-- Open a file. -/
def create (file : List UInt8) (expectedCount : ℤ) : Except Exn (ZlibChunkEventView σ η) := do
  ensure (0 ≤ expectedCount) (.valueError "invalid compressed event count")
  ensure (file.take 4 = zlibMagic) (.valueError "invalid compressed event magic")
  let view ← readBlocks json zlib hasher
    ⟨file, [], [], 0, none, [], hasher.new semanticFront⟩ 4 (file.drop 4)
  ensure ((view.count : ℤ) = expectedCount) (.valueError "compressed event count mismatch")
  pure view

/-- The events of the block with a number, inflated unless it was the last. -/
def block (number : ℕ) : Effect (ZlibChunkEventView σ η) (List (Value σ)) := fun view =>
  if view.cacheIndex = some number then (.ok view.cacheEvents, view)
  else match view.blocks[number]? with
    | none => (.error (indexError "list index out of range"), view)
    | some b =>
        match decodeBlock json zlib ((view.file.drop b.offset).take b.compLen) b.rawLen b.count b.crc with
        | .error e => (.error e, view)
        | .ok events => (.ok events, { view with cacheEvents := events, cacheIndex := some number })

/-- The event at an integer index; the first block begins at 0, so some block begins before it. -/
def getitem (index : ℤ) : Effect (ZlibChunkEventView σ η) (Value σ) := do
  let view ← Effect.get
  let place ← Effect.lift (position "event index out of range" view.count index)
  let number := bisectRight view.starts place - 1
  let events ← block json zlib number
  match events[place - view.starts[number]?.getD 0]? with
  | some event => pure event
  | none => Effect.lift (.error (indexError "list index out of range"))

/-- The events at a list of positions. -/
def getitems : List ℤ → Effect (ZlibChunkEventView σ η) (List (Value σ))
  | [] => pure []
  | position :: positions => do
      let event ← getitem json zlib position
      let events ← getitems positions
      pure (event :: events)

/-- The events a slice selects. -/
def getslice (slice : Slice) : Effect (ZlibChunkEventView σ η) (List (Value σ)) := do
  let view ← Effect.get
  let positions ← Effect.lift (slice.positions view.count)
  getitems json zlib positions

/-- The events of the blocks with these numbers. -/
def iterBlocks : List ℕ → Effect (ZlibChunkEventView σ η) (List (Value σ))
  | [] => pure []
  | number :: numbers => do
      let events ← block json zlib number
      let rest ← iterBlocks numbers
      pure (events ++ rest)

/-- Every event, block by block. -/
def iter : Effect (ZlibChunkEventView σ η) (List (Value σ)) := do
  let view ← Effect.get
  iterBlocks json zlib (List.range view.blocks.length)

end ZlibChunkEventView

end Artifact

end MyFuzz
