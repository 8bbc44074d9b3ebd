import MyFuzz.Scenario.UartSchedule

/-!
# Scenario/UartLoopback — a serial peer that hears what it sends

The receiver is idle between frames and counts ten samples in a frame, one in the middle of each bit:

    idle ──falling edge──▸ receiving, n samples ──bit after bit──▸ 10 samples ──▸ idle, one byte more

With half a bit left when a frame is captured the line is at its stop bit, so a frame that follows
at once begins with a falling edge again.
-/

namespace MyFuzz

open Outcome List

namespace Uart8N1Peer

/-- Observe a line for `n` consecutive ticks. -/
def observeFrom (level : ℤ → ℕ) : ℕ → ℤ → Uart8N1Peer → Except Exn Uart8N1Peer
  | 0, _, p => .ok p
  | n + 1, tick, p => do
    let p ← p.observeTx tick (level tick)
    observeFrom level n (tick + 1) p

/-- **The peer observes what it drives**, for `n` consecutive ticks. -/
def loopback : ℕ → ℤ → Uart8N1Peer → Except Exn Uart8N1Peer
  | 0, _, p => .ok p
  | n + 1, tick, p => do
    let p ← p.observeTx tick (p.driveRx tick)
    loopback n (tick + 1) p

variable {m line : ℕ} {q : Uart8N1Peer} {bits : List ℕ} {s : UartSegment} {appends : List (List UInt8 × ℤ)}

theorem observeFrom_add {level : ℤ → ℕ} {n : ℕ} {tick : ℤ} {p : Uart8N1Peer}
    (h : observeFrom level m tick p = .ok q) :
    observeFrom level (m + n) tick p = observeFrom level n (tick + m) q := by
  induction m generalizing tick p with
  | zero =>
    cases h
    rw [Nat.zero_add, Nat.cast_zero, add_zero]
  | succ m ih =>
    rw [observeFrom] at h
    obtain ⟨p', hp', h⟩ := bind_ok.1 h
    rw [Nat.succ_add, observeFrom, hp', ok_bind, ih h]
    congr 1
    push_cast
    ring

/-! ## Between frames -/

/-- **Nothing is being received, and the line was high.** -/
structure Idle (p : Uart8N1Peer) (rate : ℕ) (heard : List ℕ) (tick : ℤ) : Prop where
  clock : p.clocksPerBit = rate
  startTick : p.startTick = none
  lastLine : p.lastLine = 1
  captured : p.captured = heard
  observed : p.lastObservedTick < tick

variable {p : Uart8N1Peer} {rate : ℕ} {heard : List ℕ} {tick : ℤ} {level : ℤ → ℕ}

/-- A high line leaves the peer idle. -/
theorem Idle.step (hp : p.Idle rate heard tick) :
    ∃ q, p.observeTx tick 1 = .ok q ∧ q.Idle rate heard (tick + 1) := by
  have hbegin : beginFrame { p with lastObservedTick := tick } tick 1 = { p with lastObservedTick := tick } :=
    if_neg fun h => absurd h.2.2 one_ne_zero
  have hcontinue : continueFrame { p with lastObservedTick := tick } tick 1 =
      .ok { p with lastObservedTick := tick } := by
    unfold continueFrame
    rw [show ({ p with lastObservedTick := tick } : Uart8N1Peer).startTick = none from hp.startTick]
  refine ⟨{ p with lastObservedTick := tick, lastLine := 1 }, ?_, hp.clock, hp.startTick, rfl, hp.captured,
    lt_add_one tick⟩
  rw [observeTx, ensure_of ⟨hp.observed, .inr rfl⟩, ok_bind, hbegin, hcontinue]
  rfl

theorem Idle.run (hp : p.Idle rate heard tick) {n : ℕ} (hlevel : ∀ t, tick ≤ t → t < tick + n → level t = 1) :
    ∃ q, observeFrom level n tick p = .ok q ∧ q.Idle rate heard (tick + n) := by
  induction n generalizing tick p with
  | zero => exact ⟨p, rfl, by simpa using hp⟩
  | succ n ih =>
    obtain ⟨q, hq, hidle⟩ := hp.step
    obtain ⟨q', hq', hidle'⟩ := ih hidle fun t ht ht' => hlevel t (by omega) (by push_cast; omega)
    refine ⟨q', ?_, ?_⟩
    · rw [observeFrom, hlevel tick le_rfl (by push_cast; omega), hq, ok_bind, hq']
    · have hcast : tick + ((n + 1 : ℕ) : ℤ) = tick + 1 + n := by
        push_cast
        ring
      rwa [hcast]

/-! ## Inside a frame -/

/-- **`n` samples of the frame of a byte are taken**, at `elapsed` ticks after its falling edge. -/
structure Receiving (p : Uart8N1Peer) (rate : ℕ) (heard : List ℕ) (edge : ℤ) (byte n elapsed : ℕ) : Prop where
  clock : p.clocksPerBit = rate
  startTick : p.startTick = some edge
  captured : p.captured = heard
  observed : p.lastObservedTick < edge + elapsed + 1
  nextSample : p.nextSample = n
  bits : p.bits = (List.range n).map (frameLevel byte)
  left : n ≤ 9
  due : elapsed < rate / 2 + n * rate

variable {edge : ℤ} {byte n elapsed : ℕ}

/-- The next sample is not due. -/
theorem takeSamples_of_lt (hn : n ≤ 9) (hdue : elapsed < rate / 2 + n * rate) (line : ℕ) (bits : List ℕ) :
    takeSamples rate edge (edge + elapsed) line (10 - n) bits = (10 - n, bits) := by
  obtain ⟨left, hleft⟩ : ∃ left, 10 - n = left + 1 := ⟨9 - n, by omega⟩
  have hcast : (9 : ℤ) - left = n := by omega
  rw [hleft, takeSamples, hcast, if_pos]
  have : (elapsed : ℤ) < (rate / 2 : ℕ) + n * rate := by exact_mod_cast hdue
  linarith

/-- The next sample is due, and no other. -/
theorem takeSamples_of_eq (edge : ℤ) (hrate : 0 < rate) (hn : n ≤ 9)
    (hdue : elapsed = rate / 2 + n * rate) (line : ℕ)
    (bits : List ℕ) :
    takeSamples rate edge (edge + elapsed) line (10 - n) bits = (10 - (n + 1), bits ++ [line]) := by
  obtain ⟨left, hleft⟩ : ∃ left, 10 - n = left + 1 := ⟨9 - n, by omega⟩
  have hcast : (9 : ℤ) - left = n := by omega
  have helapsed : (elapsed : ℤ) = (rate / 2 : ℕ) + n * rate := by exact_mod_cast hdue
  rw [hleft, takeSamples, hcast, if_neg (by linarith), show 10 - (n + 1) = left by omega]
  cases left with
  | zero => rfl
  | succ left =>
    rw [takeSamples, if_pos]
    have hcast' : (9 : ℤ) - left = n + 1 := by omega
    have hpos : (0 : ℤ) < rate := by exact_mod_cast hrate
    rw [hcast']
    linarith

/-- Inside a frame the levels that are observed open no other. -/
theorem beginFrame_of_some (hstart : p.startTick = some edge) : p.beginFrame tick line = p := by
  refine if_neg fun h => ?_
  rw [hstart] at h
  cases h.1

/-- A frame goes on when a sample is left. -/
theorem continueFrame_eq (hrate : p.clocksPerBit = rate) (hstart : p.startTick = some edge)
    (hnext : p.nextSample = n) (hm : m ≤ 9)
    (htake : takeSamples rate edge tick line (10 - n) p.bits = (10 - m, bits)) :
    p.continueFrame tick line = .ok { p with nextSample := m, bits := bits } := by
  unfold continueFrame
  rw [hstart]
  dsimp only
  rw [hrate, hnext, htake, if_neg (by omega : 10 - m ≠ 0), show 10 - (10 - m) = m by omega]
  rfl

/-- A frame is closed when no sample is left. -/
theorem continueFrame_closed (hrate : p.clocksPerBit = rate) (hstart : p.startTick = some edge)
    (hnext : p.nextSample = n) (htake : takeSamples rate edge tick line (10 - n) p.bits = (0, bits))
    (hbits : bits.head? = some 0 ∧ bits[9]? = some 1) :
    p.continueFrame tick line = .ok { p with
      nextSample := 10, bits := bits, captured := p.captured ++ [byteOf bits], startTick := none } := by
  unfold continueFrame
  rw [hstart]
  dsimp only
  rw [hrate, hnext, htake, if_pos rfl, ensure_of hbits]
  rfl

/-- Observe a level after the tests of the tick and of the level. -/
theorem observeTx_eq (hnow : p.lastObservedTick < tick) (hline : line = 0 ∨ line = 1)
    {seen : Uart8N1Peer} (hbegin : beginFrame { p with lastObservedTick := tick } tick line = seen)
    (hcontinue : seen.continueFrame tick line = .ok q) :
    p.observeTx tick line = .ok { q with lastLine := line } := by
  rw [observeTx, ensure_of ⟨hnow, hline⟩, ok_bind, hbegin, hcontinue]
  rfl

/-- The falling edge of a start bit. -/
theorem Idle.falling (hp : p.Idle rate heard edge) (byte : ℕ) (hrate : 2 ≤ rate) :
    ∃ q, p.observeTx edge 0 = .ok q ∧ q.Receiving rate heard edge byte 0 0 := by
  have hhalf : 0 < rate / 2 := by omega
  let opened : Uart8N1Peer :=
    { p with lastObservedTick := edge, startTick := some edge, nextSample := 0, bits := [] }
  have hbegin : beginFrame { p with lastObservedTick := edge } edge 0 = opened :=
    if_pos ⟨hp.startTick, hp.lastLine, rfl⟩
  have htake : takeSamples rate edge edge 0 (10 - 0) opened.bits = (10 - 0, []) := by
    have hfirst := @takeSamples_of_lt rate edge 0 0 (Nat.zero_le 9) (by omega) 0 []
    rwa [Nat.cast_zero, add_zero] at hfirst
  have hcontinue := continueFrame_eq (p := opened) hp.clock (rfl : opened.startTick = some edge) rfl
    (Nat.zero_le 9) htake
  refine ⟨_, observeTx_eq hp.observed (.inl rfl) hbegin hcontinue, hp.clock, rfl, hp.captured, ?_, rfl, rfl,
    by omega, by omega⟩
  change edge < edge + (0 : ℕ) + 1
  omega

/-- Between two samples. -/
theorem Receiving.wait (hp : p.Receiving rate heard edge byte n elapsed)
    (hline : line = 0 ∨ line = 1) (hdue : elapsed + 1 < rate / 2 + n * rate) :
    ∃ q, p.observeTx (edge + (elapsed + 1 : ℕ)) line = .ok q ∧
      q.Receiving rate heard edge byte n (elapsed + 1) := by
  have hnow : p.lastObservedTick < edge + (elapsed + 1 : ℕ) := by
    have := hp.observed
    omega
  let seen : Uart8N1Peer := { p with lastObservedTick := edge + (elapsed + 1 : ℕ) }
  have hcontinue := continueFrame_eq (p := seen) hp.clock hp.startTick hp.nextSample hp.left
    (takeSamples_of_lt hp.left hdue line p.bits)
  refine ⟨_, observeTx_eq hnow hline (beginFrame_of_some hp.startTick) hcontinue, hp.clock, hp.startTick,
    hp.captured, lt_add_one _, rfl, hp.bits, hp.left, hdue⟩

/-- A sample that is not the last. -/
theorem Receiving.sample (hp : p.Receiving rate heard edge byte n elapsed) (hrate : 2 ≤ rate)
    (hline : frameLevel byte n = 0 ∨ frameLevel byte n = 1) (hdue : elapsed + 1 = rate / 2 + n * rate)
    (hn : n + 1 ≤ 9) :
    ∃ q, p.observeTx (edge + (elapsed + 1 : ℕ)) (frameLevel byte n) = .ok q ∧
      q.Receiving rate heard edge byte (n + 1) (elapsed + 1) := by
  have hnow : p.lastObservedTick < edge + (elapsed + 1 : ℕ) := by
    have := hp.observed
    omega
  let seen : Uart8N1Peer := { p with lastObservedTick := edge + (elapsed + 1 : ℕ) }
  have hcontinue := continueFrame_eq (p := seen) hp.clock hp.startTick hp.nextSample hn
    (takeSamples_of_eq edge (by omega) hp.left hdue (frameLevel byte n) p.bits)
  have hbits : p.bits ++ [frameLevel byte n] = (List.range (n + 1)).map (frameLevel byte) := by
    rw [hp.bits, range_succ, map_append, map_singleton]
  have hnext : elapsed + 1 < rate / 2 + (n + 1) * rate := by
    rw [hdue, add_one_mul]
    omega
  exact ⟨_, observeTx_eq hnow hline (beginFrame_of_some hp.startTick) hcontinue, hp.clock, hp.startTick,
    hp.captured, lt_add_one _, rfl, hbits, hn, hnext⟩

/-- The samples of a frame are read back as its byte. -/
theorem byteOf_frame : ∀ byte < 256, byteOf ((List.range 10).map (frameLevel byte)) = byte := by
  decide +kernel

/-- **The last sample closes the frame, and its byte is captured.** -/
theorem Receiving.close (hp : p.Receiving rate heard edge byte 9 elapsed) (hrate : 2 ≤ rate)
    (hbyte : byte < 256)
    (hdue : elapsed + 1 = rate / 2 + 9 * rate) :
    ∃ q, p.observeTx (edge + (elapsed + 1 : ℕ)) 1 = .ok q ∧
      q.Idle rate (heard ++ [byte]) (edge + (elapsed + 1 : ℕ) + 1) := by
  have hnow : p.lastObservedTick < edge + (elapsed + 1 : ℕ) := by
    have := hp.observed
    omega
  let seen : Uart8N1Peer := { p with lastObservedTick := edge + (elapsed + 1 : ℕ) }
  have hbits : p.bits ++ [1] = (List.range 10).map (frameLevel byte) := by
    rw [hp.bits, range_succ, map_append, map_singleton]
    rfl
  have htake := takeSamples_of_eq edge (by omega) le_rfl hdue 1 p.bits
  rw [hbits] at htake
  have hcontinue := continueFrame_closed (p := seen) hp.clock hp.startTick hp.nextSample htake ⟨rfl, rfl⟩
  refine ⟨_, observeTx_eq hnow (.inr rfl) (beginFrame_of_some hp.startTick) hcontinue, hp.clock, rfl, rfl, ?_,
    lt_add_one _⟩
  change p.captured ++ [_] = _
  rw [byteOf_frame byte hbyte, hp.captured]

/-- The level of a slot is a bit. -/
theorem frameLevel_bit (byte slot : ℕ) : frameLevel byte slot = 0 ∨ frameLevel byte slot = 1 := by
  unfold frameLevel
  split_ifs
  · exact .inl rfl
  · exact .inr rfl
  · rw [Nat.and_one_is_mod]
    exact Nat.mod_two_eq_zero_or_one _

/-- **The rest of a frame is received**, up to the middle of its stop bit. -/
theorem Receiving.run (hp : p.Receiving rate heard edge byte n elapsed) (hrate : 2 ≤ rate)
    (hbyte : byte < 256)
    {k : ℕ} (hk : elapsed + k = rate / 2 + 9 * rate)
    (hlevel : ∀ i : ℕ, i ≤ rate / 2 + 9 * rate → level (edge + i) = frameLevel byte (i / rate)) :
    ∃ q, observeFrom level k (edge + elapsed + 1) p = .ok q ∧
      q.Idle rate (heard ++ [byte]) (edge + (rate / 2 + 9 * rate : ℕ) + 1) := by
  induction k generalizing n elapsed p with
  | zero =>
    have hdue := hp.due
    have hle : n * rate ≤ 9 * rate := Nat.mul_le_mul_right rate hp.left
    omega
  | succ k ih =>
    have htick : edge + elapsed + 1 = edge + (elapsed + 1 : ℕ) := by
      push_cast
      ring
    have hstep : level (edge + (elapsed + 1 : ℕ)) = frameLevel byte ((elapsed + 1) / rate) :=
      hlevel (elapsed + 1) (by omega)
    rw [observeFrom, htick, hstep]
    by_cases hdue : elapsed + 1 < rate / 2 + n * rate
    · obtain ⟨q, hq, hreceiving⟩ := hp.wait (frameLevel_bit byte ((elapsed + 1) / rate)) hdue
      obtain ⟨q', hq', hidle⟩ := ih hreceiving (by omega)
      exact ⟨q', by rw [hq, ok_bind, hq'], hidle⟩
    · have hdue : elapsed + 1 = rate / 2 + n * rate := by
        have := hp.due
        omega
      -- the middle of bit `n` lies in bit `n`
      have hslot : (elapsed + 1) / rate = n := by
        rw [hdue, Nat.add_mul_div_right _ _ (by omega : 0 < rate), Nat.div_eq_of_lt (by omega), Nat.zero_add]
      rw [hslot]
      by_cases hn : n + 1 ≤ 9
      · obtain ⟨q, hq, hreceiving⟩ := hp.sample hrate (frameLevel_bit byte n) hdue hn
        obtain ⟨q', hq', hidle⟩ := ih hreceiving (by omega)
        exact ⟨q', by rw [hq, ok_bind, hq'], hidle⟩
      · obtain rfl : n = 9 := by
          have := hp.left
          omega
        obtain ⟨q, hq, hidle⟩ := hp.close hrate hbyte hdue
        obtain rfl : k = 0 := by omega
        refine ⟨q, ?_, hdue ▸ hidle⟩
        rw [show frameLevel byte 9 = 1 from rfl, hq]
        rfl

/-! ## Frames, sources and schedules -/

/-- **An idle peer receives a frame and is idle again.** -/
theorem Idle.frame (hp : p.Idle rate heard edge) (byte : ℕ) (hrate : 2 ≤ rate) (hbyte : byte < 256)
    (hlevel : ∀ i : ℕ, i < 10 * rate → level (edge + i) = frameLevel byte (i / rate)) :
    ∃ q, observeFrom level (10 * rate) edge p = .ok q ∧
      q.Idle rate (heard ++ [byte]) (edge + (10 * rate : ℕ)) := by
  obtain ⟨p₁, hp₁, hreceiving⟩ := hp.falling byte hrate
  have hfirst : level edge = 0 := by
    have := hlevel 0 (by omega)
    rw [Nat.cast_zero, add_zero, Nat.zero_div] at this
    exact this
  obtain ⟨p₂, hp₂, hidle⟩ := hreceiving.run hrate hbyte (Nat.zero_add _)
    fun i hi => hlevel i (by omega)
  obtain ⟨rest, hrest⟩ : ∃ rest, 10 * rate = 1 + (rate / 2 + 9 * rate) + rest :=
    ⟨10 * rate - (1 + (rate / 2 + 9 * rate)), by omega⟩
  -- what is left of the stop bit is high
  have hstop : ∀ t, edge + (rate / 2 + 9 * rate : ℕ) + 1 ≤ t →
      t < edge + (rate / 2 + 9 * rate : ℕ) + 1 + rest → level t = 1 := by
    intro t hlow hhigh
    obtain ⟨i, rfl⟩ : ∃ i : ℕ, t = edge + i := ⟨(t - edge).toNat, by omega⟩
    have hslot : i / rate = 9 := Nat.div_eq_of_lt_le (by omega) (by omega)
    rw [hlevel i (by omega), hslot]
    rfl
  obtain ⟨q, hq, hidle'⟩ := hidle.run hstop
  refine ⟨q, ?_, ?_⟩
  · have hone : observeFrom level 1 edge p = .ok p₁ := by
      rw [observeFrom, hfirst, hp₁]
      rfl
    have hhead : observeFrom level (1 + (rate / 2 + 9 * rate)) edge p = .ok p₂ := by
      rw [observeFrom_add hone, ← hp₂, Nat.cast_zero, add_zero, Nat.cast_one]
    rw [hrest, observeFrom_add hhead, ← hq]
    congr 1
    push_cast
    ring
  · have hend : edge + (10 * rate : ℕ) = edge + (rate / 2 + 9 * rate : ℕ) + 1 + rest := by
      rw [hrest]
      push_cast
      ring
    rwa [hend]

/-- **The bytes of a source are received one after the other.** -/
theorem Idle.bytes (hp : p.Idle rate heard tick) (hrate : 2 ≤ rate) {source : List UInt8}
    (hlevel : ∀ (i : ℕ) (hi : i / rate / 10 < source.length),
      level (tick + i) = frameLevel (source[i / rate / 10]).toNat (i / rate % 10)) :
    ∃ q, observeFrom level (10 * rate * source.length) tick p = .ok q ∧
      q.Idle rate (heard ++ source.map UInt8.toNat) (tick + (10 * rate * source.length : ℕ)) := by
  induction source generalizing p tick heard with
  | nil => exact ⟨p, rfl, by simpa using hp⟩
  | cons b source ih =>
    have hpos : 0 < rate := by omega
    obtain ⟨p₁, hp₁, hidle⟩ := hp.frame b.toNat hrate b.toNat_lt fun i hi => by
      have hslot : i / rate < 10 := Nat.div_lt_of_lt_mul (by rwa [Nat.mul_comm])
      have := hlevel i (by rw [Nat.div_eq_of_lt hslot]; exact Nat.succ_pos _)
      simpa only [Nat.div_eq_of_lt hslot, Nat.mod_eq_of_lt hslot, getElem_cons_zero] using this
    have hslot : ∀ i, (10 * rate + i) / rate = 10 + i / rate := fun i => by
      rw [Nat.mul_comm 10 rate, Nat.mul_add_div hpos]
    have hbyte : ∀ i, (10 + i) / 10 = i / 10 + 1 := fun i => by
      rw [Nat.add_comm, Nat.add_div_right _ (by omega)]
    obtain ⟨q, hq, hidle'⟩ := ih hidle fun i hi => by
      have := hlevel (10 * rate + i) (by rw [hslot, hbyte]; exact Nat.succ_lt_succ hi)
      rw [Nat.cast_add, ← add_assoc] at this
      simpa only [hslot, hbyte, getElem_cons_succ, Nat.add_mod_left] using this
    have hlength : 10 * rate * (b :: source).length = 10 * rate + 10 * rate * source.length := by
      rw [length_cons]
      ring
    refine ⟨q, ?_, ?_⟩
    · rw [hlength, observeFrom_add hp₁, hq]
    · have htick : tick + (10 * rate * (b :: source).length : ℕ) =
          tick + (10 * rate : ℕ) + (10 * rate * source.length : ℕ) := by
        rw [hlength]
        push_cast
        ring
      rw [htick, map_cons, append_cons]
      exact hidle'

/-- **The bytes of all sources are received**, on a line that is high outside them. -/
theorem Idle.segments (hp : p.Idle rate heard tick) (level : ℤ → ℕ) (hrate : 2 ≤ rate)
    {segments : List UartSegment} {n : ℕ}
    (hstart : ∀ s ∈ segments, tick ≤ s.start) (hstop : ∀ s ∈ segments, s.stop rate ≤ tick + n)
    (hapart : segments.Pairwise fun s t : UartSegment => s.stop rate ≤ t.start)
    (hinside : ∀ s ∈ segments, ∀ (i : ℕ) (hi : i / rate / 10 < s.source.length),
      level (s.start + i) = frameLevel (s.source[i / rate / 10]).toNat (i / rate % 10))
    (houtside : ∀ t, tick ≤ t → (∀ s ∈ segments, t < s.start ∨ s.stop rate ≤ t) → level t = 1) :
    ∃ q, observeFrom level n tick p = .ok q ∧
      q.Idle rate (heard ++ (segments.flatMap UartSegment.source).map UInt8.toNat) (tick + n) := by
  induction segments generalizing p tick heard n with
  | nil =>
    obtain ⟨q, hq, hidle⟩ := hp.run (n := n) fun t ht _ => houtside t ht nofun
    exact ⟨q, hq, by simpa using hidle⟩
  | cons s segments ih =>
    rw [pairwise_cons] at hapart
    have hfirst := hstart s (.head _)
    have hlast := hstop s (.head _)
    have hlength : s.stop rate = s.start + (10 * rate * s.source.length : ℕ) := by
      rw [UartSegment.stop]
      rfl
    obtain ⟨gap, hgap⟩ : ∃ gap : ℕ, s.start = tick + gap := ⟨(s.start - tick).toNat, by omega⟩
    obtain ⟨rest, hrest⟩ : ∃ rest, n = gap + 10 * rate * s.source.length + rest :=
      ⟨n - (gap + 10 * rate * s.source.length), by omega⟩
    -- the line is high up to the first source
    obtain ⟨p₁, hp₁, hidle₁⟩ := hp.run (n := gap) fun t ht ht' => houtside t ht fun u hu => by
      left
      rcases mem_cons.1 hu with rfl | hu
      · omega
      · have := hapart.1 u hu
        have := start_le_stop rate s
        omega
    rw [← hgap] at hidle₁
    obtain ⟨p₂, hp₂, hidle₂⟩ := hidle₁.bytes hrate (hinside s (.head _))
    rw [← hlength] at hidle₂
    have hend : s.stop rate + rest = tick + n := by
      rw [hlength, hgap, hrest]
      push_cast
      ring
    obtain ⟨q, hq, hidle⟩ := ih (n := rest) hidle₂ hapart.1
      (fun u hu => hend ▸ hstop u (mem_cons_of_mem s hu)) hapart.2
      (fun u hu => hinside u (mem_cons_of_mem s hu)) fun t ht hout => by
        refine houtside t (by omega) fun u hu => ?_
        rcases mem_cons.1 hu with rfl | hu
        · exact .inr ht
        · exact hout u hu
    refine ⟨q, ?_, ?_⟩
    · have hhead : observeFrom level (gap + 10 * rate * s.source.length) tick p = .ok p₂ := by
        rw [observeFrom_add hp₁, ← hgap, hp₂]
      rw [hrest, observeFrom_add hhead, ← hq, hlength, hgap]
      congr 1
      push_cast
      ring
    · rw [← hend, flatMap_cons, map_append, ← append_assoc]
      exact hidle

/-! ## The line of a schedule -/

/-- Outside its segments RX is high. -/
theorem Schedule.driveRx_outside (hp : p.Schedule) {t : ℤ}
    (h : ∀ s ∈ p.segments, t < s.start ∨ s.stop p.clocksPerBit ≤ t) : p.driveRx t = 1 := by
  unfold driveRx
  cases hfound : p.segmentAt t with
  | none => rfl
  | some s =>
    obtain ⟨before, after, heq, hstart, -⟩ := hp.segmentAt_eq_some.1 hfound
    have hstop := (h s (heq ▸ mem_append_right before (.head _))).resolve_left (not_lt.2 hstart)
    have hpos : (0 : ℤ) < p.clocksPerBit := by
      have := hp.rate
      omega
    have hslot : (10 * s.source.length : ℤ) ≤ (t - s.start) / p.clocksPerBit := by
      rw [Int.le_ediv_iff_mul_le hpos]
      rw [UartSegment.stop] at hstop
      linarith
    exact if_pos (by omega)

/-- Inside a segment RX has the levels of its frames. -/
theorem Schedule.driveRx_inside (hp : p.Schedule) (hs : s ∈ p.segments) (i : ℕ)
    (hi : i / p.clocksPerBit / 10 < s.source.length) : p.driveRx (s.start + i) =
      frameLevel (s.source[i / p.clocksPerBit / 10]).toNat (i / p.clocksPerBit % 10) := by
  have hpos : 0 < p.clocksPerBit := by
    have := hp.rate
    omega
  have hlt : i < 10 * p.clocksPerBit * s.source.length := by
    have := Nat.lt_mul_of_div_lt hi (by omega)
    have := Nat.lt_mul_of_div_lt this hpos
    linarith
  have hstop : s.start + (i : ℤ) < s.stop p.clocksPerBit := by
    rw [UartSegment.stop]
    have : (i : ℤ) < 10 * p.clocksPerBit * s.source.length := by exact_mod_cast hlt
    omega
  have hslot : ((s.start + i - s.start) / (p.clocksPerBit : ℤ)).toNat = i / p.clocksPerBit := by
    rw [add_sub_cancel_left, ← Int.natCast_ediv, Int.toNat_natCast]
  unfold driveRx
  rw [hp.segmentAt_of_mem hs (by omega) (by omega)]
  dsimp only
  rw [hslot, if_neg (by omega), getElem?_eq_getElem hi, Option.getD_some]

/-- A frame that goes on or is closed leaves the sources alone. -/
theorem continueFrame_sources (h : p.continueFrame tick line = .ok q) :
    q.segments = p.segments ∧ q.clocksPerBit = p.clocksPerBit := by
  unfold continueFrame at h
  split at h
  · cases h
    exact ⟨rfl, rfl⟩
  · dsimp only at h
    split_ifs at h
    · obtain ⟨-, h⟩ := ensure_ok.1 h
      cases h
      exact ⟨rfl, rfl⟩
    · cases h
      exact ⟨rfl, rfl⟩

/-- Observing TX leaves RX alone. -/
theorem observeTx_driveRx (h : p.observeTx tick line = .ok q) : q.driveRx = p.driveRx := by
  obtain ⟨-, h⟩ := ensure_ok.1 h
  obtain ⟨seen, hseen, h⟩ := bind_ok.1 h
  cases h
  obtain ⟨hsegments, hrate⟩ := continueFrame_sources hseen
  have hbegin : (beginFrame { p with lastObservedTick := tick } tick line).segments = p.segments ∧
      (beginFrame { p with lastObservedTick := tick } tick line).clocksPerBit = p.clocksPerBit := by
    unfold beginFrame
    split_ifs <;> exact ⟨rfl, rfl⟩
  rw [hbegin.1] at hsegments
  rw [hbegin.2] at hrate
  funext t
  unfold driveRx segmentAt
  dsimp only
  rw [hsegments, hrate]

/-- **The peer observes the line that it drives.** -/
theorem loopback_eq {n : ℕ} : loopback n tick p = observeFrom p.driveRx n tick p := by
  induction n generalizing tick p with
  | zero => rfl
  | succ n ih =>
    rw [loopback, observeFrom]
    cases hq : p.observeTx tick (p.driveRx tick) with
    | error e => rfl
    | ok q => rw [ok_bind, ok_bind, ih, observeTx_driveRx hq]

/-! ## Loopback -/

/-- Schedule the initial source, and then more. -/
def schedule (p : Uart8N1Peer) (tick : ℤ) (appends : List (List UInt8 × ℤ)) : Except Exn Uart8N1Peer := do
  let p ← p.startSource tick
  appends.foldlM (fun p a => p.appendSource a.1 a.2) p

theorem appendSources_eq_ok {p : Uart8N1Peer}
    (h : appends.foldlM (fun p a => p.appendSource a.1 a.2) p = .ok q) :
    (appends.map fun a => SourceCall.append a.1 a.2).foldlM call p = .ok q ∧
      q = { p with segments := p.segments ++ appends.map fun a => ⟨a.2, a.1⟩ } := by
  induction appends generalizing p with
  | nil =>
    cases h
    rw [map_nil, map_nil, append_nil]
    exact ⟨rfl, rfl⟩
  | cons a appends ih =>
    rw [foldlM_cons] at h
    obtain ⟨p₁, hp₁, h⟩ := bind_ok.1 h
    obtain ⟨hcalls, rfl⟩ := ih h
    have happend := hp₁
    obtain ⟨-, happend⟩ := ensure_ok.1 happend
    cases happend
    constructor
    · rw [map_cons, foldlM_cons, call, hp₁, ok_bind]
      exact hcalls
    · simp only [map_cons, append_assoc, singleton_append]

/-- **What a schedule of sources leaves.** -/
theorem schedule_eq_ok {p : Uart8N1Peer} (h : p.schedule tick appends = .ok q) :
    (SourceCall.start tick :: appends.map fun a => SourceCall.append a.1 a.2).foldlM call p = .ok q ∧
      q = { p with segments := ⟨tick, p.source⟩ :: appends.map fun a => ⟨a.2, a.1⟩ } := by
  obtain ⟨p₁, hp₁, h⟩ := bind_ok.1 h
  obtain ⟨hcalls, rfl⟩ := appendSources_eq_ok h
  have hstart := hp₁
  obtain ⟨-, hstart⟩ := ensure_ok.1 hstart
  cases hstart
  refine ⟨?_, rfl⟩
  rw [foldlM_cons, call, hp₁, ok_bind]
  exact hcalls

/-- No segment stops after the last one. -/
theorem Schedule.stop_le_end (hp : p.Schedule) (hs : s ∈ p.segments) :
    s.stop p.clocksPerBit ≤ p.sourceEndTick := by
  obtain ⟨before, last, heq⟩ := (eq_nil_or_concat' p.segments).resolve_left (ne_nil_of_mem hs)
  have hend : p.sourceEndTick = last.stop p.clocksPerBit := by
    rw [sourceEndTick, heq, getLast?_concat]
    rfl
  rw [hend]
  rw [heq] at hs
  rcases mem_append.1 hs with hs | hs
  · have hpair := hp.apart
    rw [heq, pairwise_append] at hpair
    have := hpair.2.2 s hs last (.head _)
    have := start_le_stop p.clocksPerBit last
    omega
  · rw [mem_singleton.1 hs]

/-- **A peer that observes its own line captures every byte that it sends, in order.** -/
theorem loopback_captured {source : List UInt8} {clocksPerBit : ℕ} {p₀ : Uart8N1Peer}
    (hnew : new source clocksPerBit = .ok p₀) {appends : List (List UInt8 × ℤ)}
    (hschedule : p₀.schedule tick appends = .ok p) {origin : ℤ} {n : ℕ} (hnonneg : 0 ≤ origin)
    (horigin : origin ≤ tick) (hend : p.sourceEndTick + p.clocksPerBit ≤ origin + n) :
    ∃ q, loopback n origin p = .ok q ∧ q.captured = (source ++ appends.flatMap Prod.fst).map UInt8.toNat := by
  obtain ⟨hcalls, hp⟩ := schedule_eq_ok hschedule
  have hsched : p.Schedule := (schedule_new hnew).1.of_calls hcalls
  have hidle : p.Idle p.clocksPerBit [] origin ∧ p₀.source = source := by
    obtain ⟨-, hnew⟩ := ensure_ok.mp hnew
    cases hnew
    rw [hp]
    exact ⟨⟨rfl, rfl, rfl, rfl, by change (-1 : ℤ) < origin; omega⟩, rfl⟩
  have hrate := hsched.rate
  have hsegments : p.segments = ⟨tick, source⟩ :: appends.map fun a => ⟨a.2, a.1⟩ := by
    rw [← hidle.2]
    exact congrArg segments hp
  have hstart : ∀ s ∈ p.segments, origin ≤ s.start := by
    have hpair := hsched.start_lt
    rw [hsegments, List.pairwise_cons] at hpair
    intro s hs
    rw [hsegments] at hs
    rcases List.mem_cons.mp hs with rfl | hs
    · exact horigin
    · exact (horigin.trans_lt (hpair.1 s hs)).le
  obtain ⟨q, hq, hdone⟩ := hidle.1.segments p.driveRx (n := n) (by omega) hstart
    (fun s hs => (hsched.stop_le_end hs).trans (by omega))
    (hsched.apart.imp fun h => by omega) (fun s hs => hsched.driveRx_inside hs)
    fun t _ => hsched.driveRx_outside
  refine ⟨q, by rw [loopback_eq, hq], ?_⟩
  rw [hdone.captured, List.nil_append, hsegments, List.flatMap_cons, List.flatMap_map]

/-- Two bytes with a gap between them, from tick 0 on. -/
theorem two_bytes_loopback : ∃ q, loopback 400 0
    ⟨[0x55], 16, [⟨3, [0x55]⟩, ⟨180, [0xF0]⟩], 1, none, 0, [], [], -1⟩ = .ok q ∧ q.captured = [0x55, 0xF0] :=
  loopback_captured (rfl : new [0x55] 16 = .ok _) (rfl : schedule _ 3 [([0xF0], 180)] = .ok _)
    (by decide) (by decide)
    (by decide)

end Uart8N1Peer

end MyFuzz
