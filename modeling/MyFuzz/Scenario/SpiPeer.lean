import MyFuzz.Foundations.MsbFirst
import MyFuzz.Foundations.Outcome
import MyFuzz.Foundations.Run

/-!
# Scenario/SpiPeer — a peer on the data line of an SPI host

In mode 0 a bit is presented when the host selects the peer and on each falling clock edge, and
sampled by both sides on the rising edge:

    selected, falling ──▸ MISO          rising ──▸ MOSI bit, place + 1          eight bits ──▸ next byte

The host is the recorder of a run: it groups what it samples by eight, notes with each bit whether a
queued byte was left when the bit was presented, and keeps the complete bytes of each selection.
-/

namespace MyFuzz

open Outcome

/-! ## The peer -/

structure SpiPeer where
  payload : List UInt8
  payloadIndex : ℕ
  lastSck : ℤ
  lastCsb : ℤ
  miso : ℕ
  rxByte : ℕ
  bitIndex : ℕ
  currentFrame : List ℕ
  completedFrames : List (List ℕ)
  sampleCount : ℕ
  incompleteFrameCount : ℕ
  deriving DecidableEq

namespace SpiPeer

/-- Reset the state of the transfer. -/
def resetCase (payload : List UInt8) : SpiPeer := ⟨payload, 0, 0, 1, 0, 0, 0, [], [], 0, 0⟩

/-- Construct a peer. -/
def new (payload : List UInt8) (cpol cpha : ℤ) : Except Exn SpiPeer := do
  ensure (cpol = 0 ∧ cpha = 0) (.valueError "SpiPeer currently supports only CPOL=0, CPHA=0")
  return resetCase payload

variable (p : SpiPeer)

def queuePayload (payload : List UInt8) : SpiPeer := { p with payload := p.payload ++ payload }

/-- The bit of the queue at this place. -/
def payloadBit : ℕ :=
  if p.payload.length ≤ p.payloadIndex then 0
  else msbBit 8 (p.payload.getD p.payloadIndex 0).toNat p.bitIndex

/-- The host selects the peer. -/
def select : SpiPeer :=
  let cleared := { p with rxByte := 0, bitIndex := 0, currentFrame := [] }
  { cleared with miso := cleared.payloadBit }

/-- The host deselects the peer. -/
def deselect : SpiPeer :=
  { p with
    incompleteFrameCount := if p.bitIndex ≠ 0 then p.incompleteFrameCount + 1 else p.incompleteFrameCount
    completedFrames := if p.currentFrame ≠ [] then p.completedFrames ++
      [p.currentFrame] else p.completedFrames
    currentFrame := [], rxByte := 0, bitIndex := 0, miso := 0 }

/-- A rising edge samples a bit. -/
def rise (mosi : ℕ) : SpiPeer :=
  let sampled := { p with
    rxByte := p.rxByte <<< 1 ||| mosi, bitIndex := p.bitIndex + 1, sampleCount := p.sampleCount + 1 }
  if sampled.bitIndex = 8 then
    { sampled with
      currentFrame := sampled.currentFrame ++ [sampled.rxByte], payloadIndex := sampled.payloadIndex + 1
      rxByte := 0, bitIndex := 0 }
  else sampled

/-- A falling edge presents the next bit. -/
def fall : SpiPeer := { p with miso := p.payloadBit }

/-- **Consume one observed pin state.** -/
def observe (sck csb mosi : ℤ) : Except Exn SpiPeer := do
  ensure ((sck = 0 ∨ sck = 1) ∧ (csb = 0 ∨ csb = 1) ∧ (mosi = 0 ∨ mosi = 1))
    (.valueError "SPI pins must be binary")
  let moved :=
    if csb = 0 ∧ p.lastCsb ≠ 0 then p.select
    else if p.lastCsb = 0 ∧ csb ≠ 0 then p.deselect
    else if csb = 0 then
      if p.lastSck = 0 ∧ sck ≠ 0 then p.rise mosi.toNat
      else if p.lastSck ≠ 0 ∧ sck = 0 then p.fall
      else p
    else p
  return { moved with lastSck := sck, lastCsb := csb }

end SpiPeer

/-! ## The host -/

/-- What the host samples on a rising edge.  `fresh` is not on a line: a queued byte was left when the bit was
presented. -/
structure SpiSample where
  miso : ℕ
  mosi : ℕ
  fresh : Bool
  deriving DecidableEq

/-- The host as it records a run. -/
structure SpiHost where
  queued : List UInt8
  sck : ℤ
  csb : ℤ
  fresh : Bool
  /-- The samples of the byte under way. -/
  bits : List SpiSample
  /-- The complete bytes of the open selection. -/
  bytes : List (List SpiSample)
  /-- The complete bytes of each closed selection. -/
  selections : List (List (List SpiSample))
  deriving DecidableEq

namespace SpiHost

def new (payload : List UInt8) : SpiHost := ⟨payload, 0, 1, false, [], [], []⟩

variable (h : SpiHost)

/-- All complete bytes. -/
def clocked : List (List SpiSample) := h.selections.flatten ++ h.bytes

/-- A queued byte is left behind those that were clocked. -/
def left : Bool := h.clocked.length < h.queued.length

/-- Sample a bit, and close a byte after eight. -/
def sample (miso mosi : ℕ) : SpiHost :=
  let bits := h.bits ++ [⟨miso, mosi, h.fresh⟩]
  if bits.length = 8 then { h with bits := [], bytes := h.bytes ++ [bits] } else { h with bits := bits }

/-- Drive the pins, with the level that the peer presented on MISO. -/
def drive (sck csb : ℤ) (mosi miso : ℕ) : SpiHost :=
  let moved :=
    if csb = 0 ∧ h.csb ≠ 0 then { h with fresh := h.left, bits := [], bytes := [] }
    else if h.csb = 0 ∧ csb ≠ 0 then { h with bits := [], bytes := [], selections :=
      h.selections ++ [h.bytes] }
    else if csb = 0 then
      if h.sck = 0 ∧ sck ≠ 0 then h.sample miso mosi
      else if h.sck ≠ 0 ∧ sck = 0 then { h with fresh := h.left }
      else h
    else h
  { moved with sck := sck, csb := csb }

end SpiHost

/-! ## Runs -/

/-- A peer and the host that drives it. -/
structure SpiBench where
  peer : SpiPeer
  host : SpiHost
  deriving DecidableEq

inductive SpiCall where
  | queuePayload (payload : List UInt8)
  | observe (sck csb mosi : ℤ)

namespace SpiBench

def new (payload : List UInt8) : SpiBench := ⟨.resetCase payload, .new payload⟩

/-- One call.  A refused call leaves peer and host alone. -/
def call (b : SpiBench) : SpiCall → SpiBench
  | .queuePayload payload =>
    ⟨b.peer.queuePayload payload, { b.host with queued := b.host.queued ++ payload }⟩
  | .observe sck csb mosi =>
    match b.peer.observe sck csb mosi with
    | .error _ => b
    | .ok peer => ⟨peer, b.host.drive sck csb mosi.toNat b.peer.miso⟩

end SpiBench

/-- A byte on MISO. -/
def misoByte (byte : List SpiSample) : ℕ := msbFirst (byte.map SpiSample.miso)

/-- A byte on MOSI. -/
def mosiByte (byte : List SpiSample) : ℕ := msbFirst (byte.map SpiSample.mosi)

/-- A queued byte was left when the first bit of a byte was presented. -/
def Offered (byte : List SpiSample) : Prop := ∀ first ∈ byte.head?, first.fresh = true

instance (byte : List SpiSample) : Decidable (Offered byte) :=
  inferInstanceAs (Decidable (∀ first ∈ byte.head?, first.fresh = true))

/-- **Every queued byte is transmitted once**: the bytes sampled, less those that began on an exhausted
queue, are the consumed prefix of the queue, and the frames are the MOSI bytes of closed selections. -/
structure Transmits (b : SpiBench) : Prop where
  sent : (b.host.clocked.filter Offered).map misoByte =
    (b.host.queued.take b.peer.payloadIndex).map UInt8.toNat
  index : b.peer.payloadIndex ≤ b.host.queued.length
  frames : b.peer.completedFrames = (b.host.selections.filter (· ≠ [])).map fun bytes => bytes.map mosiByte

end MyFuzz
