import MyFuzz.Foundations.MsbFirst
import MyFuzz.Foundations.Outcome

/-!
# Scenario/I2cPeer — a target on an open-drain bus

Neither side drives a line high: a line is low if one of them pulls it.  The target follows the edges of the
resolved bus, and may hold the clock low after the host has released it:

    SDA falls, SCL high ──▸ START        SDA rises, SCL high ──▸ STOP
    SCL rises ──▸ a bit is sampled       SCL falls ──▸ the target pulls or releases SDA

    address ──▸ ack ──▸ write ──▸ ack ──▸ write …        address ──▸ ack ──▸ read ──▸ master ack ──▸ read …
-/

namespace MyFuzz

open Outcome

/-- The phases of a transfer.  An acknowledge takes a falling, a rising and a falling edge. -/
inductive I2cState where
  | idle
  | address
  | write
  | read
  | targetAckWait
  | targetAck
  | targetAckDone
  | masterAckWait
  | masterAck
  | masterAckDone
  deriving DecidableEq

/-- The protocol state of the target. -/
structure I2cTarget where
  address : ℕ
  payload : List UInt8
  payloadIndex : ℕ
  /-- The target pulls SDA. -/
  sdaLow : Bool
  state : I2cState
  bitIndex : ℕ
  rxByte : ℕ
  readByte : ℕ
  ackPending : Bool
  afterAck : I2cState
  masterAcked : Bool
  currentWrite : List ℕ
  completedWrites : List (List ℕ)
  sampledBytes : List ℕ
  startCount : ℕ
  stopCount : ℕ
  ackCount : ℕ
  deriving DecidableEq

namespace I2cTarget

/-- The state after a reset. -/
def reset (address : ℕ) (payload : List UInt8) : I2cTarget :=
  ⟨address, payload, 0, false, .idle, 0, 0, 0, false, .idle, false, [], [], [], 0, 0, 0⟩

variable (t : I2cTarget)

def closeWrite : I2cTarget :=
  if t.currentWrite ≠ [] then { t with completedWrites := t.completedWrites ++ [t.currentWrite], currentWrite := [] }
  else t

def start : I2cTarget :=
  { t.closeWrite with
    startCount := t.startCount + 1, state := .address, bitIndex := 0, rxByte := 0, sdaLow := false }

def stop : I2cTarget :=
  { t.closeWrite with stopCount := t.stopCount + 1, state := .idle, sdaLow := false, bitIndex := 0 }

/-- A complete byte was sampled in the address phase. -/
def receiveAddress (value : ℕ) : I2cTarget :=
  let isRead := value &&& 1 ≠ 0
  let ackPending : Bool := value >>> 1 = t.address ∧ (¬ isRead ∨ t.payloadIndex < t.payload.length)
  { t with
    ackPending
    afterAck := if ackPending then if isRead then .read else .write else .idle }

/-- A complete byte was sampled in the write phase. -/
def receiveData (value : ℕ) : I2cTarget :=
  { t with currentWrite := t.currentWrite ++ [value], ackPending := true, afterAck := .write }

/-- Sample a bit of an address or a written byte. -/
def sample (sda : ℕ) : I2cTarget :=
  let sampled := { t with rxByte := t.rxByte <<< 1 ||| sda, bitIndex := t.bitIndex + 1 }
  if sampled.bitIndex = 8 then
    let recorded := { sampled with sampledBytes := sampled.sampledBytes ++ [sampled.rxByte] }
    let received :=
      if t.state = .address then recorded.receiveAddress sampled.rxByte else recorded.receiveData
        sampled.rxByte
    { received with state := .targetAckWait, bitIndex := 0, rxByte := 0 }
  else sampled

/-- **A rising edge of SCL.** -/
def rising (sda : ℕ) : I2cTarget :=
  match t.state with
  | .address | .write => t.sample sda
  | .targetAck =>
    { t with ackCount := if t.ackPending then t.ackCount + 1 else t.ackCount, state := .targetAckDone }
  | .read =>
    let sent := { t with bitIndex := t.bitIndex + 1 }
    if sent.bitIndex = 8 then
      { sent with
        payloadIndex := if t.payloadIndex < t.payload.length then t.payloadIndex + 1 else t.payloadIndex
        state := .masterAckWait, bitIndex := 0 }
    else sent
  | .masterAck => { t with masterAcked := sda = 0, state := .masterAckDone }
  | _ => t

/-- Present a bit of the queue, or release SDA if it is exhausted. -/
def setReadBit : I2cTarget :=
  let byte := if t.payloadIndex < t.payload.length then (t.payload.getD t.payloadIndex 0).toNat else 0xff
  { t with readByte := byte, sdaLow := msbBit 8 byte t.bitIndex = 0 }

/-- **A falling edge of SCL.** -/
def falling : I2cTarget :=
  match t.state with
  | .targetAckWait => { t with sdaLow := t.ackPending, state := .targetAck }
  | .targetAckDone =>
    let released := { t with sdaLow := false, state := t.afterAck }
    if t.afterAck = .read then released.setReadBit else released
  | .read => t.setReadBit
  | .masterAckWait => { t with sdaLow := false, state := .masterAck }
  | .masterAckDone =>
    if t.masterAcked then { t with state := .read }.setReadBit else { t with state := .idle }
  | _ => t

end I2cTarget

/-- The target on the bus, with what the host pulls. -/
structure I2cPeer where
  target : I2cTarget
  stretchCycles : ℤ
  hostSclLow : Bool
  hostSdaLow : Bool
  /-- The target pulls SCL. -/
  sclLow : Bool
  stretchLeft : ℤ
  deriving DecidableEq

/-- The level of a line that is pulled or not. -/
def busLevel (low : Bool) : ℕ := if low then 0 else 1

namespace I2cPeer

/-- Construct a peer. -/
def new (payload : List UInt8) (address stretchCycles : ℤ) : Except Exn I2cPeer := do
  ensure (0 ≤ address ∧ address ≤ 0x7f) (.valueError "I2C target address must be seven bits")
  ensure (0 ≤ stretchCycles) (.valueError "stretch_cycles must be nonnegative")
  return ⟨.reset address.toNat payload, stretchCycles, false, false, false, 0⟩

variable (p : I2cPeer)

def sclI : ℕ := busLevel (p.hostSclLow || p.sclLow)

def sdaI : ℕ := busLevel (p.hostSdaLow || p.target.sdaLow)

/-- The host pulls or releases its lines, and the target stretches the clock. -/
def pull (sclEn sdaEn : Bool) : I2cPeer :=
  let driven := { p with hostSclLow := sclEn, hostSdaLow := sdaEn }
  if sclEn then { driven with sclLow := false, stretchLeft := 0 }
  else if p.hostSclLow ∧ p.stretchCycles ≠ 0 ∧ p.target.state ≠ .idle then
    { driven with sclLow := true, stretchLeft := p.stretchCycles }
  else if p.sclLow then
    { driven with stretchLeft := p.stretchLeft - 1, sclLow := p.stretchLeft - 1 ≠ 0 }
  else driven

/-- The target follows an edge of the bus. -/
def react (oldScl oldSda : ℕ) : I2cPeer :=
  if oldScl = 1 ∧ p.sclI = 1 ∧ oldSda ≠ p.sdaI then
    { p with target := if p.sdaI = 0 then p.target.start else p.target.stop }
  else if oldScl = 0 ∧ p.sclI = 1 then { p with target := p.target.rising p.sdaI }
  else if oldScl = 1 ∧ p.sclI = 0 then { p with target := p.target.falling }
  else p

/-- **Advance on the edges of the bus.** -/
def observe (sclEn sdaEn : ℤ) : Except Exn I2cPeer := do
  ensure ((sclEn = 0 ∨ sclEn = 1) ∧ (sdaEn = 0 ∨ sdaEn = 1)) (.valueError "I2C output enables must be binary")
  return (p.pull (sclEn ≠ 0) (sdaEn ≠ 0)).react p.sclI p.sdaI

end I2cPeer

end MyFuzz
