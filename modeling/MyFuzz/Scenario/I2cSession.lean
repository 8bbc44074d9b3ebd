import MyFuzz.Scenario.I2cTransactions

/-!
# Scenario/I2cSession — transfers, one after the other

Between two transfers the bus is free, or the target rests and the next START is a repeated one (`Between`):

    free ──START──▸ addressed ──byte──▸ resting / sending ──body──▸ ready ──STOP──▸ free
                        ▴                                             │
                        ╰──────────────── repeated START ─────────────╯

The target lets SDA go before every START and STOP unless it has been asked for one more bit of its
queue and that bit is low.  Then the master's edge is lost (`acknowledged_read_loses_stop`).
-/

namespace MyFuzz

open Outcome I2cTransfer

namespace I2cDevice

/-- A device after a reset. -/
def new (address : ℕ) (payload : List UInt8) : I2cDevice := ⟨address, payload, 0, [], 0, 0⟩

end I2cDevice

/-- Whether the bus is free behind a session. -/
def I2cTransfer.ended : Bool → List I2cTransfer → Bool
  | free, [] => free
  | _, t :: ts => ended t.stop ts

namespace I2cLine

variable {l : I2cLine} {d : I2cDevice}

/-! ## One transfer -/

theorem Resting.ready {d₀ : I2cDevice} {phase : I2cState} {bytes : List ℕ} (h : l.Resting d₀ phase bytes)
    (hphase : phase = .idle ∨ phase = .write ∨ phase = .read) : l.Ready (d₀.close bytes) :=
  ⟨d₀, phase, bytes, hphase, h, rfl⟩

variable {t : I2cTransfer} {free : Bool}

/-- **A body that is answered.** -/
theorem Addressed.answered (h : l.Addressed d) (hanswers : d.answers t = true)
    (hreleases : d.Releases t.body) {next : I2cLine}
    (hnext : next = l.play (bytePulses t.addressByte)) :
    (next.play (bodyPulses t.body)).Ready (d.body true t.body).1 ∧
      next.samples (bodyPulses t.body) = (d.body true t.body).2 := by
  obtain ⟨-, -, hwrite, hread⟩ := h.byte t
  rw [← hnext] at hwrite hread
  obtain ⟨address, body, stop⟩ := t
  cases body with
  | write data =>
    obtain ⟨hresting, hsamples⟩ := (hwrite hanswers rfl).write data
    exact ⟨hresting.ready (.inr (.inl rfl)), hsamples⟩
  | read acks =>
    obtain ⟨hsamples, hidle, hsends⟩ := (hread hanswers rfl).read acks
    refine ⟨?_, hsamples⟩
    by_cases hrefused : false ∈ acks
    · exact (hidle hrefused).ready (.inl rfl)
    · have hbit := hreleases.resolve_left hrefused
      exact ((hsends hrefused).resting hbit).ready (.inr (.inr rfl))

/-- **Behind an address.** -/
theorem Addressed.served (h : l.Addressed d) (hreleases : d.answers t = true → d.Releases t.body) :
    (l.play (bytePulses t.addressByte ++ bodyPulses t.body)).Ready
        (d.body (d.answers t) t.body).1 ∧
      l.samples (bytePulses t.addressByte ++ bodyPulses t.body) =
        I2cDevice.byteWave t.addressByte (d.answers t) ++ (d.body (d.answers t) t.body).2 := by
  obtain ⟨hsamples, hdeaf, -⟩ := h.byte t
  rw [play_append, samples_append, hsamples]
  cases hanswers : d.answers t with
  | true =>
    obtain ⟨hready, hbody⟩ := h.answered hanswers (hreleases hanswers) rfl
    rw [hbody]
    exact ⟨hready, rfl⟩
  | false =>
    obtain ⟨hresting, hbody⟩ := (hdeaf hanswers).ignore t.body
    have hsame : (d.body false t.body).1 = d := by cases t.body <;> rfl
    rw [hbody, hsame]
    exact ⟨hresting.ready (.inl rfl), rfl⟩

/-- The bus between two transfers. -/
def Between (l : I2cLine) (d : I2cDevice) : Bool → Prop
  | true => l.Free d
  | false => l.Ready d

theorem Between.start (h : l.Between d free) :
    (l.play (startPulses free)).Addressed { d with starts := d.starts + 1 } ∧
      l.samples (startPulses free) = if free then [0] else [1, 0] := by
  cases free with
  | true => exact Free.start h
  | false => exact Ready.start h

/-- **One transfer.** -/
theorem Between.transfer (h : l.Between d free)
    (hreleases : { d with starts := d.starts + 1 }.answers t = true →
      { d with starts := d.starts + 1 }.Releases t.body) :
    (l.play (t.pulses free)).Between (d.transfer free t).1 t.stop ∧
      l.samples (t.pulses free) = (d.transfer free t).2 := by
  obtain ⟨haddressed, hstart⟩ := h.start
  obtain ⟨hready, hserved⟩ := haddressed.served hreleases
  have hpulses : t.pulses free = startPulses free ++
      ((bytePulses t.addressByte ++ bodyPulses t.body) ++
        if t.stop then stopPulses else []) := by
    rw [List.append_assoc]
    rfl
  have hwave : (d.transfer free t).2 = (if free then [0] else [1, 0]) ++
      ((I2cDevice.byteWave t.addressByte ({ d with starts := d.starts + 1 }.answers t) ++
        ({ d with starts := d.starts + 1 }.body ({ d with starts := d.starts + 1 }.answers t) t.body).2) ++
          if t.stop then [0, 1] else []) := by
    rw [List.append_assoc]
    rfl
  rw [hpulses, hwave, play_append, play_append, samples_append, samples_append, hstart, hserved]
  unfold I2cDevice.transfer
  cases hstop : t.stop with
  | false => exact ⟨hready, rfl⟩
  | true =>
    obtain ⟨hfree, hstopped⟩ := hready.stop
    exact ⟨hfree, by rw [if_pos rfl, hstopped]; rfl⟩

/-! ## Sessions -/

/-- **Any number of transfers.** -/
theorem Between.session {ts : List I2cTransfer} : ∀ {l : I2cLine} {d : I2cDevice} {free : Bool},
    l.Between d free → d.Canonical free ts →
      (l.play (sessionPulses free ts)).Between (d.session free ts).1 (ended free ts) ∧
        l.samples (sessionPulses free ts) = (d.session free ts).2 := by
  induction ts with
  | nil => exact fun h _ => ⟨h, rfl⟩
  | cons t ts ih =>
    intro l d free h hcanonical
    obtain ⟨hbetween, hsamples⟩ := h.transfer hcanonical.1
    obtain ⟨hrest, hmore⟩ := ih hbetween hcanonical.2
    have hpulses : sessionPulses free (t :: ts) =
        t.pulses free ++ sessionPulses t.stop ts := rfl
    rw [hpulses, play_append, samples_append, hsamples, hmore]
    exact ⟨hrest, rfl⟩

end I2cLine

namespace I2cPeer

/-- What the target shows is what the device holds. -/
structure Serves (q : I2cPeer) (d : I2cDevice) : Prop where
  writes : q.target.completedWrites = d.writes
  sent : q.target.payloadIndex = d.sent
  starts : q.target.startCount = d.starts
  stops : q.target.stopCount = d.stops

/-- A peer on a free bus. -/
theorem settled_new {payload : List UInt8} {address stretch : ℤ} {p : I2cPeer}
    (hp : I2cPeer.new payload address stretch = .ok p) :
    p.Settled ⟨.reset address.toNat payload, false⟩ ∧
      I2cLine.Free ⟨.reset address.toNat payload, false⟩ (.new address.toNat payload) := by
  obtain ⟨-, hstretch, hp⟩ := ensure_ok₂ hp
  cases hp
  exact ⟨⟨hstretch, rfl, rfl, rfl, rfl⟩, ⟨rfl, rfl, rfl, rfl, rfl, rfl⟩, rfl, rfl, rfl, rfl⟩

theorem sclI_react (p : I2cPeer) (oldScl oldSda : ℕ) : (p.react oldScl oldSda).sclI = p.sclI := by
  unfold react
  split_ifs <;> rfl

/-- **SDA only moves with the host while SCL is high**, in whatever state the peer is. -/
theorem sdaI_observe {p q : I2cPeer} {sclEn sdaEn : ℤ} (hq : p.observe sclEn sdaEn = .ok q)
    (hscl : q.sclI = 1)
    (hhost : q.hostSdaLow = p.hostSdaLow) : q.sdaI = p.sdaI := by
  obtain ⟨-, hq⟩ := ensure_ok.1 hq
  cases hq
  have hkept : ((p.pull (sclEn ≠ 0) (sdaEn ≠ 0)).react p.sclI p.sdaI).hostSdaLow =
      (p.pull (sclEn ≠ 0) (sdaEn ≠ 0)).hostSdaLow := by
    unfold react
    split_ifs <;> rfl
  rw [sclI_react] at hscl
  rw [hkept] at hhost
  have hdrive := sdaI_drive p (decide (sclEn ≠ 0)) (decide (sdaEn ≠ 0)) hscl
  refine hdrive.trans ?_
  unfold sdaI
  rw [hhost, target_pull]

/-- **The target serves every session of transfers**: it comes to its end, the master has seen the levels
that the device gives, the target holds what the device holds, however long it stretches the clock, and
makes no edge of SDA itself while SCL is high. -/
theorem serves_session {payload : List UInt8} {address stretch : ℤ} {p : I2cPeer}
    (hp : I2cPeer.new payload address stretch = .ok p) {ts : List I2cTransfer}
    (hended : I2cTransfer.ended true ts = true)
    (hcanonical : (I2cDevice.new address.toNat payload).Canonical true ts) :
    (∃ samples q, PlaysAll p (I2cTransfer.sessionPulses true ts) samples q) ∧
    (∀ samples q, PlaysAll p (I2cTransfer.sessionPulses true ts) samples q →
      samples = ((I2cDevice.new address.toNat payload).session true ts).2 ∧
        q.Serves ((I2cDevice.new address.toNat payload).session true ts).1) ∧
    ∀ (r r' : I2cPeer) (sclEn sdaEn : ℤ), r.observe sclEn sdaEn = .ok r' → r'.sclI = 1 →
      r'.hostSdaLow = r.hostSdaLow → r'.sdaI = r.sdaI := by
  obtain ⟨hsettled, hfree⟩ := settled_new hp
  have hbetween : I2cLine.Between ⟨.reset address.toNat payload, false⟩ (.new address.toNat payload)
    true := hfree
  obtain ⟨hend, hsamples⟩ := hbetween.session hcanonical
  rw [hended] at hend
  refine ⟨hsettled.exists_playsAll _, fun samples q hplays => ?_, fun r r' sclEn sdaEn hr => sdaI_observe hr⟩
  obtain ⟨hq, hseen⟩ := hplays.settled hsettled
  obtain ⟨-, -, hsent, hwrites, hstarts, hstops⟩ := I2cLine.Free.follows hend
  rw [← hq.target] at hsent hwrites hstarts hstops
  exact ⟨hseen.trans hsamples, hwrites, hsent, hstarts, hstops⟩

/-- A write of one byte, and behind a repeated START a read of one byte. -/
def writeThenRead : List I2cTransfer := [⟨0x50, .write [0xA5], false⟩, ⟨0x50, .read [false], true⟩]

/-- A target that stretches every clock for three ticks. -/
theorem writeThenRead_served : ∃ p samples q, I2cPeer.new [0x3C] 0x50 3 = .ok p ∧
    PlaysAll p (I2cTransfer.sessionPulses true writeThenRead) samples q ∧
      q.target.completedWrites = [[0xA5]] ∧ q.target.payloadIndex = 1 := by
  have hanswered : (I2cDevice.new 0x50 [0x3C]).Canonical true writeThenRead :=
    ⟨fun _ => trivial, fun _ => .inl (.head _), trivial⟩
  obtain ⟨⟨samples, q, hplays⟩, hserves, -⟩ := @serves_session [0x3C] 0x50 3 _ rfl writeThenRead rfl hanswered
  obtain ⟨-, hq⟩ := hserves samples q hplays
  exact ⟨_, samples, q, rfl, hplays, hq.writes, hq.sent⟩

/-- A read whose only byte is acknowledged, and a write. -/
def acknowledgedRead : List I2cTransfer := [⟨0x50, .read [true], true⟩, ⟨0x50, .write [1], true⟩]

/-- The master acknowledges a byte, and the target drives the low bit of the next one: the STOP and
the next START do not come about, and the write is lost. -/
theorem acknowledged_read_loses_stop : ∃ p, I2cPeer.new [0, 0] 0x50 0 = .ok p ∧
    (∃ samples q, PlaysAll p (I2cTransfer.sessionPulses true acknowledgedRead) samples q) ∧
    ((I2cDevice.new 0x50 [0, 0]).session true acknowledgedRead).1.writes = [[1]] ∧
    ∀ samples q, PlaysAll p (I2cTransfer.sessionPulses true acknowledgedRead) samples q →
      q.target.completedWrites = [] ∧ q.target.startCount = 1 ∧ q.target.stopCount = 1 ∧
        samples ≠ ((I2cDevice.new 0x50 [0, 0]).session true acknowledgedRead).2 := by
  have hsettled := (@settled_new [0, 0] 0x50 0 _ rfl).1
  refine ⟨_, rfl, hsettled.exists_playsAll _, rfl, fun samples q hplays => ?_⟩
  obtain ⟨hq, rfl⟩ := hplays.settled hsettled
  rw [hq.target]
  decide +kernel

end I2cPeer

end MyFuzz
