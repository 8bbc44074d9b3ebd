import MyFuzz.Foundations.Outcome

/-!
# Scenario/UartPeer — a serial peer on the RX and TX pins of a component

The peer sends the bytes of its sources on RX: each source starts at its own tick, at least one bit after the
end of the one before.  It samples TX in the middle of every bit of a frame.

    source bytes ──segments──▸ drive_rx ──▸ pin      pin ──▸ observe_tx ──frames──▸ captured bytes
    frame: 0 b₀ b₁ b₂ b₃ b₄ b₅ b₆ b₇ 1, each bit for `clocks_per_bit` ticks

The starts of the segments are in order, so a bisection is the last of a prefix.
-/

namespace MyFuzz

open Outcome

/-- A source with the tick of its first start bit. -/
structure UartSegment where
  start : ℤ
  source : List UInt8
  deriving DecidableEq

structure Uart8N1Peer where
  source : List UInt8
  clocksPerBit : ℕ
  segments : List UartSegment
  lastLine : ℕ
  startTick : Option ℤ
  nextSample : ℕ
  bits : List ℕ
  captured : List ℕ
  lastObservedTick : ℤ

/-- The tick after the last stop bit of a segment. -/
def UartSegment.stop (clocksPerBit : ℕ) (s : UartSegment) : ℤ := s.start + 10 * clocksPerBit * s.source.length

/-- The level of a slot of the frame of a byte. -/
def frameLevel (byte slot : ℕ) : ℕ :=
  if slot = 0 then 0 else if slot = 9 then 1 else (byte >>> (slot - 1)) &&& 1

namespace Uart8N1Peer

/-- Construct a peer. -/
def new (source : List UInt8) (clocksPerBit : ℕ) : Except Exn Uart8N1Peer := do
  ensure (source.length ≤ 64 ∧ 16 ≤ clocksPerBit ∧ clocksPerBit ≤ 4096)
    (.valueError "invalid UART serial source")
  return ⟨source, clocksPerBit, [], 1, none, 0, [], [], -1⟩

variable (p : Uart8N1Peer)

/-! ## Sources -/

def startSource (tick : ℤ) : Except Exn Uart8N1Peer := do
  ensure (p.segments = [] ∧ 0 ≤ tick) (.valueError "UART source already scheduled")
  return { p with segments := [⟨tick, p.source⟩] }

def sourceEndTick : ℤ := (p.segments.getLast?.map (UartSegment.stop p.clocksPerBit)).getD 0

/-- Schedule another source after at least one idle bit. -/
def appendSource (source : List UInt8) (tick : ℤ) : Except Exn Uart8N1Peer := do
  ensure (p.segments ≠ [] ∧ 1 ≤ source.length ∧ source.length ≤ 64 ∧ p.sourceEndTick + p.clocksPerBit ≤ tick)
    (.valueError "invalid or overlapping UART source frame")
  return { p with segments := p.segments ++ [⟨tick, source⟩] }

/-- The last segment that starts at a tick or before. -/
def segmentAt (tick : ℤ) : Option UartSegment := (p.segments.takeWhile fun s => s.start ≤ tick).getLast?

def sourceActive (tick : ℤ) : Bool :=
  match p.segmentAt tick with
  | none => false
  | some s => tick < s.stop p.clocksPerBit

/-- Whether a half-open window of ticks meets a source. -/
def sourceOverlaps (start stop : ℤ) : Bool :=
  if stop ≤ start then false
  else
    match (p.segments.takeWhile fun s => s.start < stop).getLast? with
    | none => false
    | some s => start < s.stop p.clocksPerBit

/-- The level of RX at a tick. -/
def driveRx (tick : ℤ) : ℕ :=
  match p.segmentAt tick with
  | none => 1
  | some s =>
    let slot := ((tick - s.start) / p.clocksPerBit).toNat
    if 10 * s.source.length ≤ slot then 1
    else frameLevel ((s.source[slot / 10]?).getD 0).toNat (slot % 10)

/-! ## Frames -/

/-- Take the samples that are due, when `left` of the ten are left. -/
def takeSamples (clocksPerBit : ℕ) (start tick : ℤ) (line : ℕ) : ℕ → List ℕ → ℕ × List ℕ
  | 0, bits => (0, bits)
  | left + 1, bits =>
    if tick < start + (clocksPerBit / 2 : ℕ) + (9 - left) * clocksPerBit then (left + 1, bits)
    else takeSamples clocksPerBit start tick line left (bits ++ [line])

/-- The byte of ten samples. -/
def byteOf (bits : List ℕ) : ℕ := ((bits.drop 1).take 8).zipIdx.foldl (fun sum bit => sum + bit.1 <<< bit.2) 0

/-- The frame that is received at a tick, if there is one. -/
def beginFrame (tick : ℤ) (line : ℕ) : Uart8N1Peer :=
  if p.startTick = none ∧ p.lastLine = 1 ∧ line = 0 then
    { p with startTick := some tick, nextSample := 0, bits := [] }
  else p

/-- Go on with a frame, and close it after ten samples. -/
def continueFrame (tick : ℤ) (line : ℕ) : Except Exn Uart8N1Peer :=
  match p.startTick with
  | none => .ok p
  | some start => do
    let taken := takeSamples p.clocksPerBit start tick line (10 - p.nextSample) p.bits
    if taken.1 = 0 then
      ensure (taken.2.head? = some 0 ∧ taken.2[9]? = some 1) (.valueError "invalid observed UART 8N1 frame")
      return { p with
        nextSample := 10, bits := taken.2, captured := p.captured ++ [byteOf taken.2], startTick := none }
    else return { p with nextSample := 10 - taken.1, bits := taken.2 }

/-- **Observe the level of TX at a tick.** -/
def observeTx (tick : ℤ) (line : ℕ) : Except Exn Uart8N1Peer := do
  ensure (p.lastObservedTick < tick ∧ (line = 0 ∨ line = 1)) (.valueError "invalid UART TX observation")
  let observed ← (beginFrame { p with lastObservedTick := tick } tick line).continueFrame tick line
  return { observed with lastLine := line }

end Uart8N1Peer

end MyFuzz
