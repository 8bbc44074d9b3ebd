import MyFuzz.Scenario.I2cBus

/-!
# Scenario/I2cTransactions — what a target answers to a master

A transfer is a START, an address byte, written bytes or bytes to read, and a STOP or the START of
the next one:

    START │ 7-bit address, R/W │ ack │ byte │ ack │ byte │ ack │ … │ STOP
            ╰── 8 clocks ────╯   9th

`I2cDevice` says what the target is for: it acknowledges its address, keeps what is written to it,
and reads out
its queue and then `0xff`.  `I2cDevice.session` is the level of SDA at the end of every pulse, and
nothing in it
depends on the clock.  Between bytes the bus is in one of three phases (`Resting`, `Sending`,
`Addressed`), which
carry the induction over the bytes of a transfer and over the transfers of a session.
-/

namespace MyFuzz

open Outcome I2cTarget List

/-! ## Sessions of a master -/

/-- What follows the address byte: bytes to write, or for each byte to read whether the master
acknowledges it. -/
inductive I2cBody where
  | write (data : List UInt8)
  | read (acks : List Bool)

structure I2cTransfer where
  address : Fin 128
  body : I2cBody
  /-- The transfer ends with a STOP.  Otherwise the next START is a repeated one. -/
  stop : Bool

namespace I2cTransfer

def isRead (t : I2cTransfer) : Bool :=
  match t.body with
  | .write _ => false
  | .read _ => true

def addressByte (t : I2cTransfer) : ℕ := 2 * t.address + t.isRead.toNat

/-- The eight bits of a byte that the master sends. -/
def bitPulses (value : ℕ) : List I2cPulse := (msbBits 8 value).map fun bit => .clock (bit = 0)

/-- A byte that the master sends, and the acknowledge of the target. -/
def bytePulses (value : ℕ) : List I2cPulse := bitPulses value ++ [.clock false]

/-- A byte that the target sends, and the acknowledge of the master. -/
def readPulses (ack : Bool) : List I2cPulse := List.replicate 8 (.clock false) ++ [.clock ack]

/-- A START on a free bus, or a repeated one. -/
def startPulses (free : Bool) : List I2cPulse :=
  if free then [.condition true] else [.clock false, .condition true]

def stopPulses : List I2cPulse := [.clock true, .condition false]

def bodyPulses : I2cBody → List I2cPulse
  | .write data => data.flatMap fun byte => bytePulses byte.toNat
  | .read acks => acks.flatMap readPulses

def pulses (free : Bool) (t : I2cTransfer) : List I2cPulse :=
  startPulses free ++ (bytePulses t.addressByte ++ (bodyPulses t.body ++ if t.stop then stopPulses else []))

/-- The pulses of a session. -/
def sessionPulses : Bool → List I2cTransfer → List I2cPulse
  | _, [] => []
  | free, t :: ts => t.pulses free ++ sessionPulses t.stop ts

end I2cTransfer

/-! ## What the target is for -/

/-- A device with an address, a queue of which some bytes were sent, and what was written to it. -/
structure I2cDevice where
  address : ℕ
  payload : List UInt8
  sent : ℕ
  writes : List (List ℕ)
  starts : ℕ
  stops : ℕ

namespace I2cDevice

variable (d : I2cDevice)

/-- The device answers its address, for a read only while the queue lasts. -/
def answers (t : I2cTransfer) : Bool := t.address = d.address ∧ (t.isRead = true → d.sent < d.payload.length)

/-- The byte that is read next. -/
def next : ℕ := if d.sent < d.payload.length then (d.payload.getD d.sent 0).toNat else 0xff

def consume : I2cDevice := { d with sent := if d.sent < d.payload.length then d.sent + 1 else d.sent }

/-- What was written is kept once it is closed. -/
def close (bytes : List ℕ) : I2cDevice := if bytes ≠ [] then { d with writes := d.writes ++ [bytes] } else d

/-- The levels of SDA in a byte and its acknowledge, highest bit first. -/
def byteWave (value : ℕ) (ack : Bool) : List ℕ := msbBits 8 value ++ [busLevel ack]

/-- Bytes are read out of the queue until the master does not acknowledge one. -/
def read (d : I2cDevice) : List Bool → I2cDevice × List ℕ
  | [] => (d, [])
  | ack :: acks =>
    let rest := if ack then d.consume.read acks else (d.consume, acks.flatMap (byteWave 0xff))
    (rest.1, byteWave d.next ack ++ rest.2)

/-- The body of a transfer that is answered or not. -/
def body (answered : Bool) : I2cBody → I2cDevice × List ℕ
  | .write data =>
    (if answered then d.close (data.map UInt8.toNat) else d, data.flatMap fun byte =>
      byteWave byte.toNat answered)
  | .read acks => if answered then d.read acks else (d, acks.flatMap (byteWave 0xff))

/-- **A transfer.** -/
def transfer (free : Bool) (t : I2cTransfer) : I2cDevice × List ℕ :=
  let started := { d with starts := d.starts + 1 }
  let answered := started.answers t
  let done := started.body answered t.body
  (if t.stop then { done.1 with stops := done.1.stops + 1 } else done.1,
    (if free then [0] else [1, 0]) ++
    (byteWave t.addressByte answered ++ (done.2 ++ if t.stop then [0, 1] else [])))

/-- **A session: the device behind it, and the levels of SDA at the end of every pulse.** -/
def session (d : I2cDevice) : Bool → List I2cTransfer → I2cDevice × List ℕ
  | _, [] => (d, [])
  | free, t :: ts =>
    let done := d.transfer free t
    let rest := done.1.session t.stop ts
    (rest.1, done.2 ++ rest.2)

/-- The target lets SDA go behind a body: of a read the master does not acknowledge a byte, or the
next bit is high. -/
def Releases : I2cBody → Prop
  | .write _ => True
  | .read acks => false ∈ acks ∨ msbBit 8 (d.read acks).1.next 0 = 1

/-- The target lets SDA go before every START and STOP of the master. -/
def Canonical (d : I2cDevice) : Bool → List I2cTransfer → Prop
  | _, [] => True
  | free, t :: ts =>
    ({ d with starts := d.starts + 1 }.answers t = true → { d with starts := d.starts + 1 }.Releases t.body) ∧
      (d.transfer free t).1.Canonical t.stop ts

end I2cDevice

/-! ## Phases between bytes -/

/-- The target and the device agree. -/
structure I2cTarget.Follows (u : I2cTarget) (d : I2cDevice) : Prop where
  address : u.address = d.address
  payload : u.payload = d.payload
  sent : u.payloadIndex = d.sent
  writes : u.completedWrites = d.writes
  starts : u.startCount = d.starts
  stops : u.stopCount = d.stops

namespace I2cTarget

/-- The receiver after some bits of a byte. -/
def shifted (u : I2cTarget) (bits : List ℕ) : I2cTarget :=
  { u with
    rxByte := bits.foldl (fun value bit => value <<< 1 ||| bit) u.rxByte, bitIndex :=
      u.bitIndex + bits.length }

/-- The target after a byte that it received. -/
def received (u : I2cTarget) (value : ℕ) : I2cTarget :=
  let recorded := { u with rxByte := value, bitIndex := 8, sampledBytes := u.sampledBytes ++ [value] }
  let done := if u.state = .address then recorded.receiveAddress value else recorded.receiveData value
  { done with state := .targetAckWait, bitIndex := 0, rxByte := 0 }

/-- The target on the falling edge behind its acknowledge. -/
def acknowledged (r : I2cTarget) : I2cTarget :=
  let released := { r with
    ackCount := if r.ackPending then r.ackCount + 1 else r.ackCount, sdaLow := false, state := r.afterAck }
  if r.afterAck = .read then released.setReadBit else released

end I2cTarget

namespace I2cLine

/-- An address byte comes next. -/
structure Addressed (l : I2cLine) (d : I2cDevice) : Prop where
  follows : l.target.falling.Follows d
  state : l.target.falling.state = .address
  sda : l.target.falling.sdaLow = false
  index : l.target.falling.bitIndex = 0
  received : l.target.falling.rxByte = 0
  bytes : l.target.falling.currentWrite = []

/-- The target lets SDA go in this phase, and has these bytes to close. -/
structure Resting (l : I2cLine) (d : I2cDevice) (phase : I2cState) (bytes : List ℕ) : Prop where
  follows : l.target.falling.Follows d
  state : l.target.falling.state = phase
  sda : l.target.falling.sdaLow = false
  index : phase ≠ .idle → l.target.falling.bitIndex = 0
  fresh : phase = .write → l.target.falling.rxByte = 0
  bytes : l.target.falling.currentWrite = bytes

/-- The target drives the first bit of the next byte. -/
structure Sending (l : I2cLine) (d : I2cDevice) : Prop where
  follows : l.target.falling.Follows d
  state : l.target.falling.state = .read
  presented : l.target.falling.setReadBit = l.target.falling
  index : l.target.falling.bitIndex = 0
  bytes : l.target.falling.currentWrite = []

/-- The bus is free. -/
structure Free (l : I2cLine) (d : I2cDevice) : Prop where
  follows : l.target.Follows d
  pulled : l.pulled = false
  state : l.target.state = .idle
  sda : l.target.sdaLow = false
  bytes : l.target.currentWrite = []

variable {l : I2cLine} {u : I2cTarget} {d : I2cDevice}

theorem play_append (l : I2cLine) (first second : List I2cPulse) :
    l.play (first ++ second) = (l.play first).play second := Run.run_append l first second

theorem samples_append : ∀ (l : I2cLine) (first second : List I2cPulse),
    l.samples (first ++ second) = l.samples first ++ (l.play first).samples second
  | _, [], _ => rfl
  | l, pulse :: first, second => by
    rw [cons_append, samples, samples_append (l.pulse pulse) first second]
    rfl

theorem play_singleton (l : I2cLine) (pulse : I2cPulse) : l.play [pulse] = l.pulse pulse := rfl

theorem samples_singleton (l : I2cLine) (pulse : I2cPulse) : l.samples [pulse] =
    [(l.pulse pulse).level] := rfl

/-! ## A byte that the master sends -/

variable {bit value : ℕ} {r : I2cTarget} {bytes : List ℕ}

/-- A bit as a level. -/
theorem busLevel_bit (h : bit < 2) : busLevel (decide (bit = 0) || false) = bit := by
  interval_cases bit <;> rfl

section

variable (hstate : u.state = .address ∨ u.state = .write)

include hstate

/-- A target that receives samples on rising edges, and does nothing on falling ones. -/
theorem rising_of_receives (sda : ℕ) :
    u.rising sda = u.sample sda := by
  unfold rising
  rcases hstate with h | h <;> rw [h]

theorem falling_of_receives : u.falling = u := by
  unfold falling
  rcases hstate with h | h <;> rw [h]

/-- A bit is received. -/
theorem pulse_bit (hsda : u.sdaLow = false)
    (hl : l.target.falling = u) (hbit : bit < 2) :
    l.pulse (.clock (bit = 0)) = ⟨u.sample bit, bit = 0⟩ := by
  change risen l.target.falling _ = _
  unfold risen
  rw [hl, hsda, busLevel_bit hbit, rising_of_receives hstate]

end

/-- **The bits of a byte before its last.** -/
theorem play_bits {bits : List ℕ} : ∀ {u : I2cTarget} {l : I2cLine}, u.state = .address ∨ u.state = .write →
    u.sdaLow = false → (∀ bit ∈ bits, bit < 2) → u.bitIndex + bits.length < 8 → l.target.falling = u →
      (l.play (bits.map fun bit => .clock (bit = 0))).target.falling = u.shifted bits ∧
        l.samples (bits.map fun bit => .clock (bit = 0)) = bits := by
  induction bits with
  | nil => exact fun _ _ _ _ hl => ⟨hl, rfl⟩
  | cons bit bits ih =>
    intro u l hstate hsda hbits hlength hl
    rw [length_cons] at hlength
    have hbit := hbits bit (.head _)
    have hpulse := pulse_bit hstate hsda hl hbit
    have hsample : u.sample bit = { u with rxByte := u.rxByte <<< 1 ||| bit, bitIndex := u.bitIndex + 1 } :=
      if_neg (by change u.bitIndex + 1 ≠ 8; omega)
    rw [hsample] at hpulse
    obtain ⟨hplay, hsamples⟩ := ih
      (u := { u with rxByte := u.rxByte <<< 1 ||| bit, bitIndex := u.bitIndex + 1 })
      (l := l.pulse (.clock (bit = 0))) hstate hsda (fun b hb => hbits b (.tail _ hb))
      (by change u.bitIndex + 1 + bits.length < 8; omega)
      (by rw [hpulse]; exact falling_of_receives hstate)
    constructor
    · refine hplay.trans ?_
      unfold shifted
      rw [length_cons, foldl_cons, Nat.add_comm bits.length 1, ← Nat.add_assoc]
    · rw [map_cons, samples, hsamples, hpulse]
      change busLevel (decide (bit = 0) || u.sdaLow) :: bits = _
      rw [hsda, busLevel_bit hbit]

/-- **The eight bits of a byte.** -/
theorem play_byte (hvalue : value < 256) (hstate : u.state = .address ∨ u.state = .write)
    (hsda : u.sdaLow = false) (hindex : u.bitIndex = 0) (hrx : u.rxByte = 0) (hl : l.target.falling = u) :
    (l.play (I2cTransfer.bitPulses value)).target = u.received value ∧
      l.samples (I2cTransfer.bitPulses value) = msbBits 8 value := by
  have hbits : msbBits 8 value = (List.range 7).map (msbBit 8 value) ++ [msbBit 8 value 7] := rfl
  have hbit (i : ℕ) : msbBit 8 value i < 2 := msbBit_lt 8 value i
  have hvalueBits : msbFirst ((List.range 7).map (msbBit 8 value)) <<< 1 ||| msbBit 8 value 7 = value := by
    rw [← msbFirst_concat, ← hbits, msbFirst_msbBits hvalue]
  have hshifted : u.shifted ((List.range 7).map (msbBit 8 value)) =
      { u with rxByte := msbFirst ((List.range 7).map (msbBit 8 value)), bitIndex := 7 } := by
    unfold shifted
    rw [hindex, hrx]
    rfl
  have hsample : (u.shifted ((List.range 7).map (msbBit 8 value))).sample (msbBit 8 value 7) =
    u.received value := by
    rw [hshifted]
    unfold sample received
    rw [if_pos rfl, hvalueBits]
  have hseven : ∀ bit ∈ (List.range 7).map (msbBit 8 value), bit < 2 := by
    intro bit hmem
    obtain ⟨i, -, rfl⟩ := mem_map.1 hmem
    exact hbit i
  obtain ⟨hplay, hsamples⟩ := play_bits hstate hsda hseven
    (by rw [hindex, length_map, length_range]; decide) hl
  have hlast := pulse_bit (u := u.shifted ((List.range 7).map (msbBit 8 value))) hstate hsda hplay (hbit 7)
  rw [hsample] at hlast
  unfold I2cTransfer.bitPulses
  rw [hbits, map_append, map_singleton, play_append, samples_append, hsamples, play_singleton,
    samples_singleton, hlast]
  refine ⟨rfl, ?_⟩
  have hreceived : (u.received value).sdaLow = false := by
    unfold received receiveAddress receiveData
    dsimp only
    split_ifs <;> exact hsda
  unfold level
  rw [hreceived, busLevel_bit (hbit 7)]

/-! ## The acknowledge of the target -/

/-- **The ninth clock.** -/
theorem play_ack (hstate : l.target.state = .targetAckWait) :
    (l.pulse (.clock false)).target.falling = l.target.acknowledged ∧
      (l.pulse (.clock false)).level = busLevel l.target.ackPending := by
  have hfalling : l.target.falling = { l.target with sdaLow := l.target.ackPending, state :=
    .targetAck } := by
    unfold falling
    rw [hstate]
  change (risen l.target.falling false).target.falling = _ ∧ (risen l.target.falling false).level = _
  rw [hfalling]
  exact ⟨rfl, rfl⟩

/-- **A byte with its acknowledge.** -/
theorem play_bytePulses (hvalue : value < 256) (hstate : u.state = .address ∨ u.state = .write)
    (hsda : u.sdaLow = false) (hindex : u.bitIndex = 0) (hrx : u.rxByte = 0) (hl : l.target.falling = u) :
    (l.play (I2cTransfer.bytePulses value)).target.falling = (u.received value).acknowledged ∧
      l.samples (I2cTransfer.bytePulses value) = I2cDevice.byteWave value (u.received value).ackPending := by
  obtain ⟨hplay, hsamples⟩ := play_byte hvalue hstate hsda hindex hrx hl
  obtain ⟨hack, hlevel⟩ := play_ack (l := l.play (I2cTransfer.bitPulses value)) (by rw [hplay]; rfl)
  rw [hplay] at hack hlevel
  unfold I2cTransfer.bytePulses I2cDevice.byteWave
  rw [play_append, samples_append, hsamples, play_singleton, samples_singleton, hlevel]
  exact ⟨hack, rfl⟩

/-! ## The address byte -/

theorem addressByte_lt (t : I2cTransfer) : t.addressByte < 256 := by
  have haddress := t.address.isLt
  have hbit := Bool.toNat_lt t.isRead
  unfold I2cTransfer.addressByte
  omega

theorem addressByte_shiftRight (t : I2cTransfer) : t.addressByte >>> 1 = t.address := by
  have hbit := Bool.toNat_lt t.isRead
  unfold I2cTransfer.addressByte
  rw [Nat.shiftRight_eq_div_pow]
  omega

theorem addressByte_and (t : I2cTransfer) : t.addressByte &&& 1 ≠ 0 ↔ t.isRead = true := by
  unfold I2cTransfer.addressByte
  rw [Nat.and_one_is_mod]
  cases t.isRead <;> simp

/-- A byte that completes an address. -/
theorem received_of_address (hstate : u.state = .address) (value : ℕ) : u.received value =
    { receiveAddress
        { u with rxByte := value, bitIndex := 8, sampledBytes := u.sampledBytes ++ [value] } value with
      state := .targetAckWait, bitIndex := 0, rxByte := 0 } := by
  unfold received
  dsimp only
  rw [if_pos hstate]

/-- A byte that completes a written byte. -/
theorem received_of_write (hstate : u.state = .write) (value : ℕ) : u.received value = { receiveData
        { u with rxByte := value, bitIndex := 8, sampledBytes := u.sampledBytes ++ [value] } value with
      state := .targetAckWait, bitIndex := 0, rxByte := 0 } := by
  unfold received
  dsimp only
  rw [if_neg (by rw [hstate]; decide)]

/-- **The target decides as the device does.** -/
theorem received_address (hstate : u.state = .address) (hfollows : u.Follows d) (t : I2cTransfer) :
    (u.received t.addressByte).ackPending = d.answers t ∧ (u.received t.addressByte).afterAck =
        if d.answers t = true then if t.isRead = true then .read else .write else .idle := by
  have hanswers : decide (t.addressByte >>> 1 = u.address ∧
      (¬ t.addressByte &&& 1 ≠ 0 ∨ u.payloadIndex < u.payload.length)) = d.answers t := by
    refine decide_eq_decide.2 ?_
    rw [addressByte_shiftRight, addressByte_and, hfollows.address, hfollows.sent, hfollows.payload,
      imp_iff_not_or]
  rw [received_of_address hstate]
  refine ⟨hanswers, ?_⟩
  change (if decide (t.addressByte >>> 1 = u.address ∧
    (¬ t.addressByte &&& 1 ≠ 0 ∨ u.payloadIndex < u.payload.length)) = true then
      if t.addressByte &&& 1 ≠ 0 then I2cState.read else .write else .idle) = _
  rw [hanswers]
  simp only [addressByte_and]

/-- What the address phase leaves as it was. -/
theorem follows_received (hstate : u.state = .address ∨ u.state = .write) (hfollows : u.Follows d)
    (value : ℕ) :
    (u.received value).Follows d := by
  rcases hstate with hstate | hstate
  · rw [received_of_address hstate]
    exact ⟨hfollows.1, hfollows.2, hfollows.3, hfollows.4, hfollows.5, hfollows.6⟩
  · rw [received_of_write hstate]
    exact ⟨hfollows.1, hfollows.2, hfollows.3, hfollows.4, hfollows.5, hfollows.6⟩

theorem follows_acknowledged (hfollows : r.Follows d) : r.acknowledged.Follows d := by
  unfold acknowledged setReadBit
  split_ifs <;> exact ⟨hfollows.1, hfollows.2, hfollows.3, hfollows.4, hfollows.5, hfollows.6⟩

/-- Behind an acknowledge the target rests, unless it sends. -/
theorem resting_acknowledged (hl : l.target.falling = r.acknowledged) (hfollows : r.Follows d)
    (hafter : r.afterAck ≠ .read) (hindex : r.bitIndex = 0) (hrx : r.rxByte = 0)
    (hbytes : r.currentWrite = bytes) : l.Resting d r.afterAck bytes := by
  have hreleased : r.acknowledged = { r with
      ackCount := if r.ackPending then r.ackCount + 1 else r.ackCount, sdaLow := false, state :=
        r.afterAck } := by
    unfold acknowledged
    dsimp only
    rw [if_neg hafter]
  have hagain := follows_acknowledged hfollows
  rw [← hl] at hagain
  rw [hreleased] at hl
  exact ⟨hagain, by rw [hl], by rw [hl], fun _ => by rw [hl]; exact hindex, fun _ => by rw [hl]; exact hrx,
    by rw [hl]; exact hbytes⟩

/-- A target that sends drives the first bit. -/
theorem sending_acknowledged (hl : l.target.falling = r.acknowledged) (hfollows : r.Follows d)
    (hafter : r.afterAck = .read) (hindex : r.bitIndex = 0) (hbytes : r.currentWrite = []) :
    l.Sending d := by
  have hreleased : r.acknowledged = setReadBit { r with
      ackCount := if r.ackPending then r.ackCount + 1 else r.ackCount, sdaLow := false, state :=
        r.afterAck } := by
    unfold acknowledged
    dsimp only
    rw [if_pos hafter]
  have hagain := follows_acknowledged hfollows
  rw [← hl] at hagain
  rw [hreleased] at hl
  exact ⟨hagain, by rw [hl]; exact hafter, by rw [hl]; rfl, by rw [hl]; exact hindex,
    by rw [hl]; exact hbytes⟩

/-- **The address byte.**  A write is listened to, a read is sent, and the target lets the bus go
otherwise. -/
theorem Addressed.byte (h : l.Addressed d) (t : I2cTransfer) :
    l.samples (I2cTransfer.bytePulses t.addressByte) = I2cDevice.byteWave t.addressByte (d.answers t) ∧
    (d.answers t = false → (l.play (I2cTransfer.bytePulses t.addressByte)).Resting d .idle []) ∧
    (d.answers t = true → t.isRead = false →
      (l.play (I2cTransfer.bytePulses t.addressByte)).Resting d .write []) ∧
    (d.answers t = true → t.isRead = true → (l.play (I2cTransfer.bytePulses t.addressByte)).Sending d) := by
  obtain ⟨hplay, hsamples⟩ := play_bytePulses (addressByte_lt t) (.inl h.state) h.sda h.index h.received rfl
  obtain ⟨hack, hafter⟩ := received_address h.state h.follows t
  have hfollows := follows_received (.inl h.state) h.follows t.addressByte
  have hbytes : (l.target.falling.received t.addressByte).currentWrite = [] := by
    rw [received_of_address h.state]
    exact h.bytes
  rw [hsamples, hack]
  refine ⟨rfl, fun hanswers => ?_, fun hanswers hread => ?_, fun hanswers hread => ?_⟩
  · rw [hanswers, if_neg Bool.false_ne_true] at hafter
    rw [← hafter]
    exact resting_acknowledged hplay hfollows (by rw [hafter]; decide) rfl rfl hbytes
  · rw [hanswers, if_pos rfl, hread, if_neg Bool.false_ne_true] at hafter
    rw [← hafter]
    exact resting_acknowledged hplay hfollows (by rw [hafter]; decide) rfl rfl hbytes
  · rw [hanswers, if_pos rfl, hread, if_pos rfl] at hafter
    exact sending_acknowledged hplay hfollows hafter rfl hbytes

/-! ## Written bytes -/

/-- **A byte that is listened to.** -/
theorem Resting.writeByte (h : l.Resting d .write bytes) (hvalue : value < 256) :
    (l.play (I2cTransfer.bytePulses value)).Resting d .write (bytes ++ [value]) ∧
      l.samples (I2cTransfer.bytePulses value) = I2cDevice.byteWave value true := by
  obtain ⟨hplay, hsamples⟩ :=
    play_bytePulses hvalue (.inr h.state) h.sda (h.index (by decide)) (h.fresh rfl) rfl
  have hfollows := follows_received (.inr h.state) h.follows value
  have hreceived := received_of_write h.state value
  have hafter : (l.target.falling.received value).afterAck = .write := by
    rw [hreceived]
    rfl
  constructor
  · rw [← hafter]
    refine resting_acknowledged hplay hfollows (by rw [hafter]; decide) rfl rfl ?_
    rw [hreceived, ← h.bytes]
    rfl
  · rw [hsamples, hreceived]
    rfl

/-- **All bytes of a write.** -/
theorem Resting.write (h : l.Resting d .write bytes) (data : List UInt8) :
    (l.play (I2cTransfer.bodyPulses (.write data))).Resting d .write (bytes ++ data.map UInt8.toNat) ∧
      l.samples (I2cTransfer.bodyPulses (.write data)) =
        data.flatMap fun byte => I2cDevice.byteWave byte.toNat true := by
  induction data generalizing l bytes with
  | nil =>
    rw [map_nil, append_nil]
    exact ⟨h, rfl⟩
  | cons byte data ih =>
    obtain ⟨hbyte, hsamples⟩ := h.writeByte byte.toNat_lt
    obtain ⟨hrest, hmore⟩ := ih hbyte
    have hpulses : I2cTransfer.bodyPulses (.write (byte :: data)) =
        I2cTransfer.bytePulses byte.toNat ++ I2cTransfer.bodyPulses (.write data) := rfl
    rw [hpulses, play_append, samples_append, hsamples, hmore]
    refine ⟨?_, rfl⟩
    rwa [map_cons, append_cons]

/-! ## A target that does not listen -/

theorem rising_of_idle (hstate : u.state = .idle) (sda : ℕ) : u.rising sda = u := by
  unfold rising
  rw [hstate]

theorem falling_of_idle (hstate : u.state = .idle) : u.falling = u := by
  unfold falling
  rw [hstate]

/-- **Clocks on an idle target.** -/
theorem Resting.deaf (h : l.Resting d .idle []) (pulls : List Bool) :
    (l.play (pulls.map .clock)).Resting d .idle [] ∧ l.samples (pulls.map .clock) = pulls.map busLevel := by
  induction pulls generalizing l with
  | nil => exact ⟨h, rfl⟩
  | cons pull pulls ih =>
    have hfalling := falling_of_idle h.state
    have hpulse : l.pulse (.clock pull) = ⟨l.target.falling, pull⟩ := by
      change risen _ _ = _
      unfold risen
      rw [rising_of_idle h.state]
    have hnext : (l.pulse (.clock pull)).Resting d .idle [] := by
      rw [hpulse]
      refine ⟨?_, ?_, ?_, fun hidle => absurd rfl hidle, fun hwrite => absurd hwrite (by decide), ?_⟩ <;>
        rw [hfalling]
      · exact h.follows
      · exact h.state
      · exact h.sda
      · exact h.bytes
    obtain ⟨hrest, hsamples⟩ := ih hnext
    refine ⟨hrest, ?_⟩
    rw [map_cons, samples, hsamples, hpulse]
    change busLevel (pull || l.target.falling.sdaLow) :: _ = _
    rw [h.sda, Bool.or_false]
    rfl

/-- A byte that nobody acknowledges. -/
theorem Resting.deafByte (h : l.Resting d .idle []) (value : ℕ) :
    (l.play (I2cTransfer.bytePulses value)).Resting d .idle [] ∧
      l.samples (I2cTransfer.bytePulses value) = I2cDevice.byteWave value false := by
  have hpulses : I2cTransfer.bytePulses value =
      (((msbBits 8 value).map fun bit => decide (bit = 0)) ++ [false]).map .clock := by
    rw [map_append, map_map]
    rfl
  obtain ⟨hrest, hsamples⟩ := h.deaf (((msbBits 8 value).map fun bit => decide (bit = 0)) ++ [false])
  rw [hpulses]
  refine ⟨hrest, hsamples.trans ?_⟩
  rw [map_append, map_map]
  refine congrArg (· ++ [busLevel false]) ?_
  conv_rhs => rw [← map_id (msbBits 8 value)]
  refine map_congr_left fun bit hbit => ?_
  obtain ⟨i, -, rfl⟩ := mem_map.1 hbit
  have hlevel := busLevel_bit (msbBit_lt 8 value i)
  rwa [Bool.or_false] at hlevel

/-- A byte that nobody sends. -/
theorem Resting.emptyByte (h : l.Resting d .idle []) (ack : Bool) :
    (l.play (I2cTransfer.readPulses ack)).Resting d .idle [] ∧
      l.samples (I2cTransfer.readPulses ack) = I2cDevice.byteWave 0xff ack :=
  h.deaf (List.replicate 8 false ++ [ack])

/-- Bytes on an idle target, one after the other. -/
theorem Resting.deafBytes {α : Type} {pulses : α → List I2cPulse} {wave : α → List ℕ}
    (hbyte : ∀ (a : α) {l : I2cLine}, l.Resting d .idle [] →
      (l.play (pulses a)).Resting d .idle [] ∧ l.samples (pulses a) = wave a)
    (h : l.Resting d .idle []) (as : List α) :
    (l.play (as.flatMap pulses)).Resting d .idle [] ∧ l.samples (as.flatMap pulses) = as.flatMap wave := by
  induction as generalizing l with
  | nil => exact ⟨h, rfl⟩
  | cons a as ih =>
    obtain ⟨hfirst, hsamples⟩ := hbyte a h
    obtain ⟨hrest, hmore⟩ := ih hfirst
    rw [flatMap_cons, flatMap_cons, play_append, samples_append, hsamples, hmore]
    exact ⟨hrest, rfl⟩

/-- **A body that is not answered.** -/
theorem Resting.ignore (h : l.Resting d .idle []) (body : I2cBody) :
    (l.play (I2cTransfer.bodyPulses body)).Resting d .idle [] ∧
      l.samples (I2cTransfer.bodyPulses body) = (d.body false body).2 := by
  cases body with
  | write data => exact h.deafBytes (fun byte _ hl => hl.deafByte byte.toNat) data
  | read acks => exact h.deafBytes (fun ack _ hl => hl.emptyByte ack) acks

/-! ## Bytes that the target sends -/

/-- The target that sends, at a bit of its byte. -/
def sendingAt (u : I2cTarget) (i : ℕ) : I2cTarget := { u with bitIndex := i }.setReadBit

/-- The byte that the target sends. -/
theorem sdaLow_sendingAt (hfollows : u.Follows d) (i : ℕ) :
    (sendingAt u i).sdaLow = decide (msbBit 8 d.next i = 0) := by
  unfold sendingAt setReadBit I2cDevice.next
  rw [← hfollows.payload, ← hfollows.sent]

/-- A rising edge inside a byte. -/
theorem rising_of_read (hstate : u.state = .read) (hindex : u.bitIndex + 1 ≠ 8) (sda : ℕ) :
    u.rising sda = { u with bitIndex := u.bitIndex + 1 } := by
  cases u
  subst hstate
  exact if_neg hindex

/-- The last rising edge of a byte. -/
theorem rising_last (hstate : u.state = .read) (hindex : u.bitIndex + 1 = 8) (sda : ℕ) :
    u.rising sda = { u with
      payloadIndex := if u.payloadIndex < u.payload.length then u.payloadIndex + 1 else u.payloadIndex
      state := .masterAckWait, bitIndex := 0 } := by
  cases u
  subst hstate
  exact if_pos hindex

theorem falling_of_read (hstate : u.state = .read) : u.falling = u.setReadBit := by
  unfold falling
  rw [hstate]

/-- A clock inside a byte. -/
theorem pulse_sending (hstate : u.state = .read) {i : ℕ} (hi : i + 1 < 8)
    (hl : l.target.falling = sendingAt u i) :
    l.pulse (.clock false) = ⟨{ sendingAt u i with bitIndex := i + 1 }, false⟩ ∧
      (l.pulse (.clock false)).target.falling = sendingAt u (i + 1) := by
  have hread : (sendingAt u i).state = .read := hstate
  have hpulse : l.pulse (.clock false) = ⟨{ sendingAt u i with bitIndex := i + 1 }, false⟩ := by
    change risen _ _ = _
    unfold risen
    rw [hl, rising_of_read hread hi.ne]
    rfl
  refine ⟨hpulse, ?_⟩
  rw [hpulse]
  exact falling_of_read hread

/-- **The bits of a byte before its last.** -/
theorem play_sending (hfollows : u.Follows d) (hstate : u.state = .read) :
    ∀ {n i : ℕ} {l : I2cLine}, i + n < 8 → l.target.falling = sendingAt u i →
      (l.play (List.replicate n (.clock false))).target.falling = sendingAt u (i + n) ∧
        l.samples (List.replicate n (.clock false)) = (List.range n).map fun j => msbBit 8 d.next (i + j)
  | 0, i, l, _, hl => ⟨hl, rfl⟩
  | n + 1, i, l, hn, hl => by
    obtain ⟨hpulse, hfalling⟩ := pulse_sending hstate (by omega) hl
    obtain ⟨hplay, hsamples⟩ := play_sending hfollows hstate (n := n) (by omega) hfalling
    have hlevel : (l.pulse (.clock false)).level = msbBit 8 d.next i := by
      have hbit := busLevel_bit (msbBit_lt 8 d.next i)
      rw [hpulse]
      change busLevel (false || (sendingAt u i).sdaLow) = _
      rwa [sdaLow_sendingAt hfollows, Bool.or_comm]
    constructor
    · rw [← Nat.add_assoc, Nat.add_right_comm]
      exact hplay
    · rw [replicate_succ, samples, hsamples, hlevel, range_succ_eq_map, map_cons, map_map]
      refine congrArg _ (map_congr_left fun j _ => ?_)
      change _ = msbBit 8 d.next (i + (j + 1))
      rw [Nat.add_right_comm, Nat.add_assoc]

/-- **The acknowledge of the master.** -/
theorem play_masterAck (hstate : l.target.state = .masterAckWait) (ack : Bool) :
    l.pulse (.clock ack) =
      ⟨{ l.target with sdaLow := false, masterAcked := ack, state := .masterAckDone }, ack⟩ ∧
    (l.pulse (.clock ack)).level = busLevel ack := by
  have hfalling : l.target.falling = { l.target with sdaLow := false, state := .masterAck } := by
    unfold falling
    rw [hstate]
  have hacked : decide (busLevel (ack || false) = 0) = ack := by cases ack <;> rfl
  have hpulse : l.pulse (.clock ack) =
      ⟨{ l.target with sdaLow := false, masterAcked := ack, state := .masterAckDone }, ack⟩ := by
    change risen _ _ = _
    rw [hfalling]
    change (⟨{ l.target with
      sdaLow := false, masterAcked := decide (busLevel (ack || false) = 0), state := .masterAckDone }, ack⟩ :
        I2cLine) = _
    rw [hacked]
  refine ⟨hpulse, ?_⟩
  rw [hpulse]
  exact congrArg busLevel (Bool.or_false ack)

/-- **A byte that the target sends, and the acknowledge of the master.** -/
theorem Sending.byte (h : l.Sending d) (ack : Bool) :
    l.samples (I2cTransfer.readPulses ack) = I2cDevice.byteWave d.next ack ∧
      (ack = true → (l.play (I2cTransfer.readPulses ack)).Sending d.consume) ∧
      (ack = false → (l.play (I2cTransfer.readPulses ack)).Resting d.consume .idle []) := by
  set u := l.target.falling with hu
  have hfirst : l.target.falling = sendingAt u 0 := by
    rw [← h.index]
    exact h.presented.symm
  obtain ⟨hplay, hsamples⟩ := play_sending h.follows h.state (n := 7) (by decide) hfirst
  set seven := l.play (List.replicate 7 (.clock false)) with hseven
  -- the eighth clock consumes the byte
  let sent : I2cTarget := { sendingAt u 7 with
    payloadIndex := if u.payloadIndex < u.payload.length then u.payloadIndex + 1 else u.payloadIndex
    state := .masterAckWait, bitIndex := 0 }
  have heighth : seven.pulse (.clock false) = ⟨sent, false⟩ := by
    change risen _ _ = _
    unfold risen
    rw [hplay, rising_last (u := sendingAt u (0 + 7)) h.state rfl]
    rfl
  have hlevel : (seven.pulse (.clock false)).level = msbBit 8 d.next 7 := by
    have hbit := busLevel_bit (msbBit_lt 8 d.next 7)
    rw [heighth]
    change busLevel (false || (sendingAt u 7).sdaLow) = _
    rwa [sdaLow_sendingAt h.follows, Bool.or_comm]
  obtain ⟨hninth, hack⟩ := play_masterAck (l := ⟨sent, false⟩) rfl ack
  have hpulses : I2cTransfer.readPulses ack =
      List.replicate 7 (.clock false) ++ [.clock false, .clock ack] := rfl
  have hend : l.play (I2cTransfer.readPulses ack) =
      ⟨{ sent with sdaLow := false, masterAcked := ack, state := .masterAckDone }, ack⟩ := by
    rw [hpulses, play_append, ← hninth, ← heighth]
    rfl
  have hsent : sent.Follows d.consume := by
    refine ⟨h.follows.1, h.follows.2, ?_, h.follows.4, h.follows.5, h.follows.6⟩
    change (if u.payloadIndex < u.payload.length then u.payloadIndex + 1 else u.payloadIndex) = d.consume.sent
    rw [h.follows.sent, h.follows.payload]
    rfl
  refine ⟨?_, fun hacked => ?_, fun hacked => ?_⟩
  · have hbits : (List.range 7).map (fun j => msbBit 8 d.next (0 + j)) ++ [msbBit 8 d.next 7] =
        msbBits 8 d.next := rfl
    rw [hpulses, samples_append, hsamples, ← hseven, samples, samples, samples, hlevel, heighth, hack]
    unfold I2cDevice.byteWave
    rw [← hbits, append_assoc]
    rfl
  · rw [hend, hacked]
    exact ⟨⟨hsent.1, hsent.2, hsent.3, hsent.4, hsent.5, hsent.6⟩, rfl, rfl, rfl, h.bytes⟩
  · rw [hend, hacked]
    exact ⟨⟨hsent.1, hsent.2, hsent.3, hsent.4, hsent.5, hsent.6⟩, rfl, rfl, fun hidle => absurd rfl hidle,
      fun hwrite => absurd hwrite (by decide), h.bytes⟩

/-- **Bytes that the target sends, one after the other.** -/
theorem Sending.read (h : l.Sending d) (acks : List Bool) :
    l.samples (acks.flatMap I2cTransfer.readPulses) = (d.read acks).2 ∧
      (false ∈ acks → (l.play (acks.flatMap I2cTransfer.readPulses)).Resting (d.read acks).1 .idle []) ∧
      (false ∉ acks → (l.play (acks.flatMap I2cTransfer.readPulses)).Sending (d.read acks).1) := by
  induction acks generalizing l d with
  | nil => exact ⟨rfl, nofun, fun _ => h⟩
  | cons ack acks ih =>
    obtain ⟨hsamples, hacked, hrefused⟩ := h.byte ack
    rw [flatMap_cons, play_append, samples_append, hsamples]
    cases ack with
    | false =>
      obtain ⟨hrest, hmore⟩ := Resting.deafBytes (fun ack _ hl => hl.emptyByte ack) (hrefused rfl) acks
      rw [hmore]
      exact ⟨rfl, fun _ => hrest, fun hmem => absurd mem_cons_self hmem⟩
    | true =>
      obtain ⟨hmore, hidle, hsends⟩ := ih (hacked rfl)
      rw [hmore]
      refine ⟨rfl, fun hmem => hidle ?_, fun hmem => hsends fun h => hmem (.tail _ h)⟩
      exact (mem_cons.1 hmem).resolve_left Bool.false_ne_true

/-- A target that drives a high bit lets SDA go. -/
theorem Sending.resting (h : l.Sending d) (hbit : msbBit 8 d.next 0 = 1) : l.Resting d .read [] := by
  have hfirst : sendingAt l.target.falling 0 = l.target.falling := by
    rw [← h.index]
    exact h.presented
  have hsda := sdaLow_sendingAt h.follows 0
  rw [hfirst, hbit] at hsda
  exact ⟨h.follows, h.state, hsda, fun _ => h.index, fun hwrite => absurd hwrite (by decide), h.bytes⟩

/-! ## Conditions -/

/-- The target rests in some phase, and the device has closed what it listened to. -/
def Ready (l : I2cLine) (d : I2cDevice) : Prop :=
  ∃ d₀ phase bytes, (phase = .idle ∨ phase = .write ∨ phase = .read) ∧ l.Resting d₀ phase bytes ∧
    d = d₀.close bytes

theorem follows_closeWrite (hfollows : u.Follows d) : u.closeWrite.Follows (d.close u.currentWrite) := by
  unfold closeWrite I2cDevice.close
  split_ifs
  · exact ⟨hfollows.1, hfollows.2, hfollows.3, congrArg (· ++ [u.currentWrite]) hfollows.4,
      hfollows.5, hfollows.6⟩
  · exact hfollows

theorem currentWrite_closeWrite (u : I2cTarget) : u.closeWrite.currentWrite = [] := by
  unfold closeWrite
  split_ifs with hbytes
  · rfl
  · exact not_not.1 hbytes

theorem counts_closeWrite (u : I2cTarget) :
    u.closeWrite.startCount = u.startCount ∧ u.closeWrite.stopCount = u.stopCount := by
  unfold closeWrite
  split_ifs <;> exact ⟨rfl, rfl⟩

/-- SDA falls on a target that does not pull it. -/
theorem condition_start (hpulled : l.pulled = false) (hsda : l.target.sdaLow = false) :
    l.pulse (.condition true) = ⟨l.target.start, true⟩ := by
  have hhigh : l.level = 1 := by
    unfold level
    rw [hpulled, hsda]
    rfl
  have hlow : level ⟨l.target, true⟩ = 0 := rfl
  change l.condition true = _
  unfold condition
  dsimp only
  rw [hhigh, hlow, if_neg (by decide), if_pos rfl]

/-- SDA rises on a target that does not pull it. -/
theorem condition_stop (hpulled : l.pulled = true) (hsda : l.target.sdaLow = false) :
    l.pulse (.condition false) = ⟨l.target.stop, false⟩ := by
  have hlow : l.level = 0 := by
    unfold level
    rw [hpulled]
    rfl
  have hhigh : level ⟨l.target, false⟩ = 1 := by
    unfold level
    rw [hsda]
    rfl
  change l.condition false = _
  unfold condition
  dsimp only
  rw [hlow, hhigh, if_neg (by decide), if_neg (by decide)]

theorem falling_start (u : I2cTarget) : u.start.falling = u.start := falling_of_receives (.inl rfl)

/-- **Behind a START comes an address.** -/
theorem addressed_start (hl : l.target = u.start) (hfollows : u.Follows d) :
    l.Addressed { d.close u.currentWrite with starts := (d.close u.currentWrite).starts + 1 } := by
  have hclosed := follows_closeWrite hfollows
  have hstarts := (counts_closeWrite u).1.symm.trans hclosed.starts
  have hbytes := currentWrite_closeWrite u
  refine ⟨?_, ?_, ?_, ?_, ?_, ?_⟩ <;> rw [hl, falling_start]
  · exact ⟨hclosed.1, hclosed.2, hclosed.3, hclosed.4, congrArg (· + 1) hstarts, hclosed.6⟩
  · rfl
  · rfl
  · rfl
  · rfl
  · exact hbytes

/-- **A START on a free bus.** -/
theorem Free.start (h : l.Free d) :
    (l.play (I2cTransfer.startPulses true)).Addressed { d with starts := d.starts + 1 } ∧
      l.samples (I2cTransfer.startPulses true) = [0] := by
  have hpulse := condition_start h.pulled h.sda
  have hpulses : I2cTransfer.startPulses true = [.condition true] := rfl
  rw [hpulses, play_singleton, samples_singleton, hpulse]
  refine ⟨?_, rfl⟩
  have haddressed := addressed_start (l := ⟨l.target.start, true⟩) rfl h.follows
  rwa [h.bytes] at haddressed

/-- The clock before a condition moves no more than the receiver. -/
theorem Resting.rise {phase : I2cState} (h : l.Resting d phase bytes)
    (hphase : phase = .idle ∨ phase = .write ∨ phase = .read) (sda : ℕ) :
    ∃ rx index, l.target.falling.rising sda = { l.target.falling with rxByte := rx, bitIndex := index } := by
  rcases hphase with rfl | rfl | rfl
  · exact ⟨_, _, rising_of_idle h.state sda⟩
  · have hindex := h.index (by decide)
    refine ⟨_, _, (rising_of_receives (.inr h.state) sda).trans (if_neg ?_)⟩
    change l.target.falling.bitIndex + 1 ≠ 8
    omega
  · have hindex := h.index (by decide)
    exact ⟨_, _, rising_of_read h.state (by omega) sda⟩

/-- The clock before a condition. -/
theorem Ready.clock (h : l.Ready d) (pull : Bool) :
    ∃ (u : I2cTarget) (d₀ : I2cDevice), l.pulse (.clock pull) = ⟨u, pull⟩ ∧ u.sdaLow = false ∧ u.Follows d₀ ∧
      d = d₀.close u.currentWrite := by
  obtain ⟨d₀, phase, bytes, hphase, hresting, rfl⟩ := h
  obtain ⟨rx, index, hrising⟩ := hresting.rise hphase (busLevel (pull || l.target.falling.sdaLow))
  refine ⟨{ l.target.falling with rxByte := rx, bitIndex := index }, d₀, ?_, hresting.sda, ?_,
    congrArg d₀.close hresting.bytes.symm⟩
  · change risen _ _ = _
    unfold risen
    rw [hrising]
  · obtain ⟨haddress, hpayload, hsent, hwrites, hstarts, hstops⟩ := hresting.follows
    exact ⟨haddress, hpayload, hsent, hwrites, hstarts, hstops⟩

/-- **A repeated START.** -/
theorem Ready.start (h : l.Ready d) :
    (l.play (I2cTransfer.startPulses false)).Addressed { d with starts := d.starts + 1 } ∧
      l.samples (I2cTransfer.startPulses false) = [1, 0] := by
  obtain ⟨u, d₀, hclock, hsda, hfollows, rfl⟩ := h.clock false
  have hcondition := condition_start (l := ⟨u, false⟩) rfl hsda
  have hplay : l.play (I2cTransfer.startPulses false) = ⟨u.start, true⟩ := by
    rw [← hcondition, ← hclock]
    rfl
  have hlevel : level ⟨u, false⟩ = 1 := by
    unfold level
    rw [hsda]
    rfl
  constructor
  · rw [hplay]
    exact addressed_start rfl hfollows
  · change [(l.pulse (.clock false)).level, ((l.pulse (.clock false)).pulse (.condition true)).level] = _
    rw [hclock, hcondition, hlevel]
    rfl

/-- **A STOP.** -/
theorem Ready.stop (h : l.Ready d) :
    (l.play I2cTransfer.stopPulses).Free { d with stops := d.stops + 1 } ∧
      l.samples I2cTransfer.stopPulses = [0, 1] := by
  obtain ⟨u, d₀, hclock, hsda, hfollows, rfl⟩ := h.clock true
  have hcondition := condition_stop (l := ⟨u, true⟩) rfl hsda
  have hplay : l.play I2cTransfer.stopPulses = ⟨u.stop, false⟩ := by
    rw [← hcondition, ← hclock]
    rfl
  have hclosed := follows_closeWrite hfollows
  have hstops := (counts_closeWrite u).2.symm.trans hclosed.stops
  constructor
  · rw [hplay]
    refine ⟨?_, rfl, rfl, rfl, currentWrite_closeWrite u⟩
    exact ⟨hclosed.1, hclosed.2, hclosed.3, hclosed.4, hclosed.5, congrArg (· + 1) hstops⟩
  · change [(l.pulse (.clock true)).level, ((l.pulse (.clock true)).pulse (.condition false)).level] = _
    rw [hclock, hcondition]
    rfl

end I2cLine

end MyFuzz
