import MyFuzz.Scenario.SpiPeer

/-!
# Scenario/SpiTransfer — which bytes of the queue reach the host

Peer and host move together: both count the bits of the byte under way and the complete bytes, and
the index of the peer is that count, whether or not a byte was left in the queue:

    index = complete bytes        bit presented from a byte that was left ──▸ bit of `queued[index]`

So a byte that begins on an exhausted queue still moves the index, past the end or past a byte that
was queued in the meantime, and a run transmits its queue exactly if no such byte is completed.
-/

namespace MyFuzz

open Outcome SpiSample SpiHost

open List hiding next

/-- **What peer and host agree on.** -/
structure SpiAgrees (p : SpiPeer) (h : SpiHost) : Prop where
  payload : p.payload = h.queued
  sck : p.lastSck = h.sck
  csb : p.lastCsb = h.csb
  index : p.payloadIndex = h.clocked.length
  place : p.bitIndex = h.bits.length
  short : h.bits.length < 8
  received : p.rxByte = msbFirst (h.bits.map SpiSample.mosi)
  frame : p.currentFrame = h.bytes.map mosiByte
  frames : p.completedFrames = (h.selections.filter (· ≠ [])).map fun bytes => bytes.map mosiByte
  closed : h.csb ≠ 0 → h.bits = [] ∧ h.bytes = []

/-- The byte of the queue at a place. -/
def SpiHost.next (h : SpiHost) : ℕ := (h.queued.getD h.clocked.length 0).toNat

/-- **What the host has sampled of the queue.** -/
structure SpiDelivers (p : SpiPeer) (h : SpiHost) : Prop where
  presented : h.csb = 0 → h.sck = 0 → h.fresh = true → h.left = true ∧ p.miso = msbBit 8 h.next h.bits.length
  begun : h.bits ≠ [] → Offered h.bits →
    h.left = true ∧ h.bits.map SpiSample.miso = (List.range h.bits.length).map (msbBit 8 h.next) ∧
      (h.csb = 0 → h.sck = 0 → h.fresh = true)
  sent : (∀ byte ∈ h.clocked, Offered byte) →
    h.clocked.map misoByte = (h.queued.take h.clocked.length).map UInt8.toNat ∧
      h.clocked.length ≤ h.queued.length

/-- The bench of a run. -/
structure SpiFollows (b : SpiBench) : Prop where
  agrees : SpiAgrees b.peer b.host
  delivers : SpiDelivers b.peer b.host

variable {p : SpiPeer} {h : SpiHost}

theorem follows_new (payload : List UInt8) : SpiFollows (.new payload) where
  agrees := ⟨rfl, rfl, rfl, rfl, rfl, (by decide : 0 < 8), rfl, rfl, rfl, fun _ => ⟨rfl, rfl⟩⟩
  delivers := ⟨fun hcsb => absurd hcsb (by decide : (1 : ℤ) ≠ 0), fun hbits => absurd rfl hbits,
    fun _ => ⟨rfl, Nat.zero_le _⟩⟩

/-- The bit that the peer presents from a byte that is left. -/
theorem SpiAgrees.payloadBit (ha : SpiAgrees p h) (hleft : h.left = true) :
    p.payloadBit = msbBit 8 h.next h.bits.length := by
  have hlt : h.clocked.length < h.queued.length := of_decide_eq_true hleft
  unfold SpiPeer.payloadBit next
  rw [ha.payload, ha.index, ha.place, if_neg (Nat.not_le.2 hlt)]

/-! ## Queueing -/

section Queue

variable (payload : List UInt8)

theorem agrees_queue (ha : SpiAgrees p h) :
    SpiAgrees (p.queuePayload payload) { h with queued := h.queued ++ payload } :=
  ⟨congrArg (· ++ payload) ha.payload, ha.sck, ha.csb, ha.index, ha.place, ha.short, ha.received, ha.frame,
    ha.frames, ha.closed⟩

/-- More of the queue does not change what is left of it. -/
theorem left_queue (hleft : h.left = true) :
    left { h with queued := h.queued ++ payload } = true ∧
      next { h with queued := h.queued ++ payload } = h.next := by
  have hlt : h.clocked.length < h.queued.length := of_decide_eq_true hleft
  constructor
  · refine decide_eq_true ?_
    change h.clocked.length < (h.queued ++ payload).length
    rw [length_append]
    omega
  · change ((h.queued ++ payload).getD h.clocked.length 0).toNat = _
    rw [getD_append _ _ _ _ hlt]
    rfl

theorem delivers_queue (hd : SpiDelivers p h) :
    SpiDelivers (p.queuePayload payload) { h with queued := h.queued ++ payload } where
  presented hcsb hsck hfresh := by
    obtain ⟨hleft, hmiso⟩ := hd.presented hcsb hsck hfresh
    obtain ⟨hleft', hnext⟩ := left_queue payload hleft
    rw [hnext]
    exact ⟨hleft', hmiso⟩
  begun hbits hoffered := by
    obtain ⟨hleft, hmiso, hfresh⟩ := hd.begun hbits hoffered
    obtain ⟨hleft', hnext⟩ := left_queue payload hleft
    rw [hnext]
    exact ⟨hleft', hmiso, hfresh⟩
  sent hoffered := by
    obtain ⟨hsent, hlength⟩ := hd.sent hoffered
    refine ⟨?_, hlength.trans ?_⟩
    · change h.clocked.map misoByte = ((h.queued ++ payload).take h.clocked.length).map UInt8.toNat
      rw [take_append_of_le_length hlength]
      exact hsent
    · change _ ≤ (h.queued ++ payload).length
      rw [length_append]
      omega

end Queue

/-! ## Selecting and deselecting -/

section Select

variable (sck : ℤ)

/-- A host that selects the peer. -/
def SpiHost.selected (h : SpiHost) (sck : ℤ) : SpiHost :=
  { h with fresh := h.left, bits := [], bytes := [], sck := sck, csb := 0 }

/-- A host that deselects the peer. -/
def SpiHost.deselected (h : SpiHost) (sck csb : ℤ) : SpiHost :=
  { h with bits := [], bytes := [], selections := h.selections ++ [h.bytes], sck := sck, csb := csb }

/-- A selection opens on complete bytes only. -/
theorem clocked_selected (ha : SpiAgrees p h) (hcsb : h.csb ≠ 0) : (h.selected sck).clocked = h.clocked := by
  change h.selections.flatten ++ [] = h.selections.flatten ++ h.bytes
  rw [(ha.closed hcsb).2]

theorem clocked_deselected (csb : ℤ) : (h.deselected sck csb).clocked = h.clocked := by
  change (h.selections ++ [h.bytes]).flatten ++ [] = h.selections.flatten ++ h.bytes
  rw [flatten_append, flatten_singleton, append_nil]

theorem left_of_clocked {h' : SpiHost} (hqueued : h'.queued = h.queued) (hclocked : h'.clocked = h.clocked) :
    h'.left = h.left ∧ h'.next = h.next := by
  unfold left next
  rw [hqueued, hclocked]
  exact ⟨rfl, rfl⟩

theorem agrees_select (ha : SpiAgrees p h) (hcsb : h.csb ≠ 0) :
    SpiAgrees { p.select with lastSck := sck, lastCsb := 0 } (h.selected sck) where
  payload := ha.payload
  sck := rfl
  csb := rfl
  index := ha.index.trans (congrArg List.length (clocked_selected sck ha hcsb)).symm
  place := rfl
  short := (by decide : 0 < 8)
  received := rfl
  frame := rfl
  frames := ha.frames
  closed hne := absurd rfl hne

theorem agrees_deselect (ha : SpiAgrees p h) (csb : ℤ) :
    SpiAgrees { p.deselect with lastSck := sck, lastCsb := csb } (h.deselected sck csb) where
  payload := ha.payload
  sck := rfl
  csb := rfl
  index := ha.index.trans (congrArg List.length (clocked_deselected sck csb)).symm
  place := rfl
  short := (by decide : 0 < 8)
  received := rfl
  frame := rfl
  frames := by
    change (if p.currentFrame ≠ [] then p.completedFrames ++ [p.currentFrame] else p.completedFrames) =
      ((h.selections ++ [h.bytes]).filter (· ≠ [])).map fun bytes => bytes.map mosiByte
    rw [ha.frame, ha.frames, filter_append, map_append]
    by_cases hbytes : h.bytes = [] <;> simp [hbytes]
  closed _ := ⟨rfl, rfl⟩

/-- The bit that is presented when the host selects the peer is of the next byte. -/
theorem delivers_select (ha : SpiAgrees p h) (hd : SpiDelivers p h) (hcsb : h.csb ≠ 0) :
    SpiDelivers { p.select with lastSck := sck, lastCsb := 0 } (h.selected sck) := by
  have hclocked := clocked_selected sck ha hcsb
  obtain ⟨hleft, -⟩ := @left_of_clocked h (h.selected sck) rfl hclocked
  have hagrees := agrees_select sck ha hcsb
  refine ⟨fun _ _ hfresh => ?_, fun hbits => absurd rfl hbits, fun hoffered => ?_⟩
  · have hleft' : (h.selected sck).left = true := hleft.trans hfresh
    refine ⟨hleft', ?_⟩
    change (SpiPeer.payloadBit { p with rxByte := 0, bitIndex := 0, currentFrame := [] }) = _
    exact hagrees.payloadBit hleft'
  · rw [hclocked] at hoffered ⊢
    exact hd.sent hoffered

theorem delivers_deselect (hd : SpiDelivers p h) {csb : ℤ} (hcsb : csb ≠ 0) :
    SpiDelivers { p.deselect with lastSck := sck, lastCsb := csb } (h.deselected sck csb) := by
  refine ⟨fun hzero => absurd hzero hcsb, fun hbits => absurd rfl hbits, fun hoffered => ?_⟩
  rw [clocked_deselected] at hoffered ⊢
  exact hd.sent hoffered

end Select

/-! ## Clock edges -/

section Edges

variable (sck : ℤ)

/-- Only the clock moves. -/
theorem agrees_hold (ha : SpiAgrees p h) (csb : ℤ) (hcsb : h.csb ≠ 0 ↔ csb ≠ 0) :
    SpiAgrees { p with lastSck := sck, lastCsb := csb } { h with sck := sck, csb := csb } :=
  ⟨ha.payload, rfl, rfl, ha.index, ha.place, ha.short, ha.received, ha.frame, ha.frames,
    fun hne => ha.closed (hcsb.2 hne)⟩

theorem delivers_hold (hd : SpiDelivers p h) (csb : ℤ) (hcsb : csb = 0 → h.csb = 0)
    (hsck : csb = 0 → sck = 0 → h.sck = 0) :
    SpiDelivers { p with lastSck := sck, lastCsb := csb } { h with sck := sck, csb := csb } :=
  ⟨fun hselected hlow => hd.presented (hcsb hselected) (hsck hselected hlow), fun hbits hoffered =>
    ⟨(hd.begun hbits hoffered).1, (hd.begun hbits hoffered).2.1, fun hselected hlow =>
      (hd.begun hbits hoffered).2.2 (hcsb hselected) (hsck hselected hlow)⟩, hd.sent⟩

theorem agrees_fall (ha : SpiAgrees p h) :
    SpiAgrees { p.fall with lastSck := sck, lastCsb := 0 } { h with fresh := h.left, sck := sck, csb := 0 } :=
  ⟨ha.payload, rfl, rfl, ha.index, ha.place, ha.short, ha.received, ha.frame, ha.frames,
    fun hne => absurd rfl hne⟩

/-- A falling edge presents the next bit of the byte under way. -/
theorem delivers_fall (ha : SpiAgrees p h) (hd : SpiDelivers p h) :
    SpiDelivers { p.fall with lastSck := sck, lastCsb := 0 } { h with fresh := h.left, sck := sck, csb := 0 } where
  presented _ _ hfresh := ⟨hfresh, ha.payloadBit hfresh⟩
  begun hbits hoffered :=
    ⟨(hd.begun hbits hoffered).1, (hd.begun hbits hoffered).2.1, fun _ _ => (hd.begun hbits hoffered).1⟩
  sent := hd.sent

end Edges

/-! ## Rising edges -/

section Rise

variable {mosi : ℕ}

/-- A bit inside a byte. -/
theorem agrees_rise_inside (ha : SpiAgrees p h) (hlast : h.bits.length + 1 ≠ 8) (miso : ℕ) (sck : ℤ) :
    SpiAgrees { p.rise mosi with lastSck := sck, lastCsb := 0 }
      { h.sample miso mosi with sck := sck, csb := 0 } := by
  have hlength : (h.bits ++ [SpiSample.mk miso mosi h.fresh]).length = h.bits.length + 1 := length_append
  have hpeer : p.rise mosi = { p with
      rxByte := p.rxByte <<< 1 ||| mosi, bitIndex := p.bitIndex + 1, sampleCount := p.sampleCount + 1 } :=
    if_neg (by rw [ha.place]; exact hlast)
  have hhost : h.sample miso mosi = { h with bits := h.bits ++ [SpiSample.mk miso mosi h.fresh] } :=
    if_neg (by rw [hlength]; exact hlast)
  rw [hpeer, hhost]
  refine ⟨ha.payload, rfl, rfl, ha.index, ?_, ?_, ?_, ha.frame, ha.frames, fun hne => absurd rfl hne⟩
  · change p.bitIndex + 1 = _
    rw [ha.place]
    exact hlength.symm
  · have := ha.short
    change (h.bits ++ [_]).length < 8
    omega
  · change p.rxByte <<< 1 ||| mosi =
      msbFirst ((h.bits ++ [SpiSample.mk miso mosi h.fresh]).map SpiSample.mosi)
    rw [map_append, map_singleton, msbFirst_concat, ha.received]

/-- The last bit of a byte. -/
theorem agrees_rise_last (ha : SpiAgrees p h) (hlast : h.bits.length + 1 = 8) (miso : ℕ) (sck : ℤ) :
    SpiAgrees { p.rise mosi with lastSck := sck, lastCsb := 0 }
      { h.sample miso mosi with sck := sck, csb := 0 } := by
  have hlength : (h.bits ++ [mk miso mosi h.fresh]).length = h.bits.length + 1 := length_append
  have hpeer : p.rise mosi = { p with
      currentFrame := p.currentFrame ++ [p.rxByte <<< 1 ||| mosi], payloadIndex :=
        p.payloadIndex + 1, rxByte := 0
      bitIndex := 0, sampleCount := p.sampleCount + 1 } :=
    if_pos (by rw [ha.place]; exact hlast)
  have hhost : h.sample miso mosi =
      { h with bits := [], bytes := h.bytes ++ [h.bits ++ [mk miso mosi h.fresh]] } :=
    if_pos (by rw [hlength]; exact hlast)
  rw [hpeer, hhost]
  refine ⟨ha.payload, rfl, rfl, ?_, rfl, (by decide : 0 < 8), rfl, ?_, ha.frames, fun hne => absurd rfl hne⟩
  · change p.payloadIndex + 1 = (h.selections.flatten ++ (h.bytes ++ [_])).length
    rw [ha.index, ← append_assoc, length_append]
    rfl
  · change p.currentFrame ++ [p.rxByte <<< 1 ||| mosi] = (h.bytes ++ [_]).map mosiByte
    rw [map_append, map_singleton, ha.frame, ha.received, mosiByte, map_append, map_singleton,
      msbFirst_concat]

/-- **The bits of a byte that began on a byte of the queue are its bits.** -/
theorem bits_sampled (hd : SpiDelivers p h) (hcsb : h.csb = 0) (hsck : h.sck = 0)
    (hoffered : Offered (h.bits ++ [mk p.miso mosi h.fresh])) :
    h.left = true ∧ (h.bits ++ [mk p.miso mosi h.fresh]).map miso =
      (List.range (h.bits.length + 1)).map (msbBit 8 h.next) := by
  have hfresh : h.fresh = true ∧ (h.bits ≠ [] → Offered h.bits) := by
    cases hbits : h.bits with
    | nil =>
      rw [hbits] at hoffered
      exact ⟨hoffered _ rfl, fun hne => absurd rfl hne⟩
    | cons first rest =>
      rw [hbits] at hoffered
      have hfirst : Offered (first :: rest) := hoffered
      have hbegun := hd.begun (by rw [hbits]; exact cons_ne_nil _ _) (by rw [hbits]; exact hfirst)
      exact ⟨hbegun.2.2 hcsb hsck, fun _ => hfirst⟩
  obtain ⟨hleft, hmiso⟩ := hd.presented hcsb hsck hfresh.1
  refine ⟨hleft, ?_⟩
  rw [map_append, map_singleton, range_succ, map_append, map_singleton, hmiso]
  by_cases hbits : h.bits = []
  · rw [hbits]
    rfl
  · rw [(hd.begun hbits (hfresh.2 hbits)).2.1]

variable {sck : ℤ}

theorem delivers_rise_inside (hd : SpiDelivers p h) (hcsb : h.csb = 0) (hsck : h.sck = 0)
    (hlast : h.bits.length + 1 ≠ 8) (hhigh : sck ≠ 0) (p' : SpiPeer) :
    SpiDelivers p' { h.sample p.miso mosi with sck := sck, csb := 0 } := by
  have hhost : h.sample p.miso mosi = { h with bits := h.bits ++ [mk p.miso mosi h.fresh] } :=
    if_neg (by rw [length_append]; exact hlast)
  rw [hhost]
  refine ⟨fun _ hlow => absurd hlow hhigh, fun _ hoffered => ?_, hd.sent⟩
  obtain ⟨hleft, hbits⟩ := bits_sampled hd hcsb hsck hoffered
  refine ⟨hleft, ?_, fun _ hlow => absurd hlow hhigh⟩
  change (h.bits ++ [mk p.miso mosi h.fresh]).map miso =
    (List.range (h.bits ++ [mk p.miso mosi h.fresh]).length).map (msbBit 8 h.next)
  rw [hbits, length_append]
  rfl

/-- **A byte that began on a byte of the queue is that byte.** -/
theorem delivers_rise_last (hd : SpiDelivers p h) (hcsb : h.csb = 0) (hsck : h.sck = 0)
    (hlast : h.bits.length + 1 = 8) (hhigh : sck ≠ 0) (p' : SpiPeer) :
    SpiDelivers p' { h.sample p.miso mosi with sck := sck, csb := 0 } := by
  set byte := h.bits ++ [mk p.miso mosi h.fresh] with hbyte
  have hhost : h.sample p.miso mosi = { h with bits := [], bytes := h.bytes ++ [byte] } :=
    if_pos (by rw [length_append]; exact hlast)
  have hclocked : clocked { h with bits := [], bytes := h.bytes ++ [byte], sck := sck, csb := 0 } =
      h.clocked ++ [byte] := (append_assoc _ _ _).symm
  rw [hhost]
  refine ⟨fun _ hlow => absurd hlow hhigh, fun hbits => absurd rfl hbits, fun hoffered => ?_⟩
  rw [hclocked] at hoffered ⊢
  change (h.clocked ++ [byte]).map misoByte = (h.queued.take (h.clocked ++ [byte]).length).map UInt8.toNat ∧
    (h.clocked ++ [byte]).length ≤ h.queued.length
  obtain ⟨hsent, -⟩ := hd.sent fun b hb => hoffered b (mem_append_left _ hb)
  obtain ⟨hleft, hmiso⟩ :=
    bits_sampled hd hcsb hsck (hoffered byte (mem_append_right _ (.head _)))
  have hlt : h.clocked.length < h.queued.length := of_decide_eq_true hleft
  have hnext : misoByte byte = h.next := by
    rw [misoByte, hmiso, hlast]
    exact msbFirst_msbBits (UInt8.toNat_lt _)
  rw [length_append, length_singleton]
  refine ⟨?_, hlt⟩
  rw [map_append, map_singleton, hsent, hnext, take_succ_eq_append_getElem hlt, map_append,
    map_singleton, next, getD_eq_getElem _ _ hlt]

end Rise

/-! ## Every run -/

/-- **An observed pin state.** -/
theorem follows_observe (ha : SpiAgrees p h) (hd : SpiDelivers p h) (sck csb : ℤ) (mosi : ℕ) :
    SpiFollows ⟨{ (if csb = 0 ∧ p.lastCsb ≠ 0 then p.select
      else if p.lastCsb = 0 ∧ csb ≠ 0 then p.deselect
      else if csb = 0 then
        if p.lastSck = 0 ∧ sck ≠ 0 then p.rise mosi
        else if p.lastSck ≠ 0 ∧ sck = 0 then p.fall
        else p
      else p : SpiPeer) with lastSck := sck, lastCsb := csb }, h.drive sck csb mosi p.miso⟩ := by
  unfold drive
  rw [ha.sck, ha.csb]
  by_cases hselect : csb = 0 ∧ h.csb ≠ 0
  · rw [if_pos hselect, if_pos hselect]
    obtain ⟨rfl, hcsb⟩ := hselect
    exact ⟨agrees_select sck ha hcsb, delivers_select sck ha hd hcsb⟩
  rw [if_neg hselect, if_neg hselect]
  by_cases hdeselect : h.csb = 0 ∧ csb ≠ 0
  · rw [if_pos hdeselect, if_pos hdeselect]
    exact ⟨agrees_deselect sck ha csb, delivers_deselect sck hd hdeselect.2⟩
  rw [if_neg hdeselect, if_neg hdeselect]
  by_cases hcsb : csb = 0
  · have hopen : h.csb = 0 := not_not.1 fun hne => hselect ⟨hcsb, hne⟩
    subst hcsb
    rw [if_pos rfl, if_pos rfl]
    by_cases hrise : h.sck = 0 ∧ sck ≠ 0
    · rw [if_pos hrise, if_pos hrise]
      by_cases hlast : h.bits.length + 1 = 8
      · exact ⟨agrees_rise_last ha hlast _ sck, delivers_rise_last hd hopen hrise.1 hlast hrise.2 _⟩
      · exact ⟨agrees_rise_inside ha hlast _ sck, delivers_rise_inside hd hopen hrise.1 hlast hrise.2 _⟩
    rw [if_neg hrise, if_neg hrise]
    by_cases hfall : h.sck ≠ 0 ∧ sck = 0
    · rw [if_pos hfall, if_pos hfall]
      have hagrees := agrees_fall sck ha
      have hdelivers := delivers_fall sck ha hd
      exact ⟨hagrees, hdelivers⟩
    · rw [if_neg hfall, if_neg hfall]
      refine ⟨agrees_hold sck ha 0 ⟨fun hne => absurd hopen hne, fun hne => absurd rfl hne⟩,
        delivers_hold sck hd 0 (fun _ => hopen) fun _ hlow => ?_⟩
      exact not_not.1 fun hne => hfall ⟨hne, hlow⟩
  · have hclosed : h.csb ≠ 0 := fun hzero => hdeselect ⟨hzero, hcsb⟩
    rw [if_neg hcsb, if_neg hcsb]
    exact ⟨agrees_hold sck ha csb ⟨fun _ => hcsb, fun _ => hclosed⟩,
      delivers_hold sck hd csb (fun hzero => absurd hzero hcsb) fun hzero => absurd hzero hcsb⟩

variable {b : SpiBench}

/-- **One call.** -/
theorem SpiFollows.call (hb : SpiFollows b) (c : SpiCall) : SpiFollows (b.call c) := by
  obtain ⟨p, h⟩ := b
  obtain ⟨ha, hd⟩ := hb
  cases c with
  | queuePayload payload => exact ⟨agrees_queue payload ha, delivers_queue payload hd⟩
  | observe sck csb mosi =>
    by_cases hpins : (sck = 0 ∨ sck = 1) ∧ (csb = 0 ∨ csb = 1) ∧ (mosi = 0 ∨ mosi = 1)
    · simp only [SpiBench.call, SpiPeer.observe, ensure_of hpins, ok_bind]
      exact follows_observe ha hd sck csb mosi.toNat
    · simp only [SpiBench.call, SpiPeer.observe, ensure_of_not hpins, error_bind]
      exact ⟨ha, hd⟩

/-- **Every run.** -/
theorem follows_run (payload : List UInt8) (calls : List SpiCall) :
    SpiFollows (Run.run SpiBench.call (.new payload) calls) :=
  Run.run_invariant (fun _ c hb => hb.call c) calls (follows_new payload)

/-- Every byte that was completed began on a byte of the queue. -/
def SpiBench.Fed (b : SpiBench) : Prop := ∀ byte ∈ b.host.clocked, Offered byte

/-- **The queue is transmitted exactly if no byte that began on an exhausted queue is completed.** -/
theorem SpiFollows.transmits_iff (hb : SpiFollows b) : Transmits b ↔ b.Fed := by
  obtain ⟨p, h⟩ := b
  obtain ⟨ha, hd⟩ := hb
  constructor
  · intro ht
    have hlength : (h.clocked.filter Offered).length = h.clocked.length := by
      have hcount := congrArg List.length ht.sent
      rw [length_map, length_map, length_take, Nat.min_eq_left ht.index] at hcount
      exact hcount.trans ha.index
    intro byte hbyte
    exact of_decide_eq_true (length_filter_eq_length_iff.1 hlength byte hbyte)
  · intro hfed
    obtain ⟨hsent, hlength⟩ := hd.sent hfed
    have hall : h.clocked.filter Offered = h.clocked :=
      filter_eq_self.2 fun byte hbyte => decide_eq_true (hfed byte hbyte)
    refine ⟨?_, ?_, ha.frames⟩
    · change (h.clocked.filter Offered).map misoByte = (h.queued.take p.payloadIndex).map UInt8.toNat
      rw [hall, ha.index]
      exact hsent
    · change p.payloadIndex ≤ h.queued.length
      rw [ha.index]
      exact hlength

/-- **Over every run of queueing and observing.** -/
theorem run_transmits_iff {payload : List UInt8} {cpol cpha : ℤ} {p : SpiPeer}
    (hnew : SpiPeer.new payload cpol cpha = .ok p) (calls : List SpiCall) :
    Transmits (Run.run SpiBench.call ⟨p, .new payload⟩ calls) ↔
      (Run.run SpiBench.call ⟨p, .new payload⟩ calls).Fed := by
  obtain ⟨-, hnew⟩ := ensure_ok.mp hnew
  cases hnew
  exact (follows_run payload calls).transmits_iff

/-- A selection of eight clocks. -/
def clockByte : List SpiCall :=
  .observe 0 0 0 :: (List.replicate 8 [SpiCall.observe 1 0 0, .observe 0 0 0]).flatten ++ [.observe 0 1 0]

/-- Two bytes, the second one queued while the first is clocked. -/
theorem two_bytes_transmit :
    Transmits (Run.run SpiBench.call ⟨.resetCase [0xA5], .new [0xA5]⟩
      (.queuePayload [0x3C] :: clockByte ++ clockByte)) :=
  (@run_transmits_iff [0xA5] 0 0 _ rfl (.queuePayload [0x3C] :: clockByte ++ clockByte)).2
    (by unfold SpiBench.Fed Offered; decide +kernel)

/-- A byte that is queued after a byte was clocked from an empty queue is never sent. -/
theorem empty_queue_skips_byte :
    let b := Run.run SpiBench.call ⟨.resetCase [], .new []⟩ (clockByte ++ .queuePayload [0xA5] :: clockByte)
    b.peer.payloadIndex = 2 ∧ b.host.queued.length = 1 ∧ b.host.clocked.map misoByte = [0, 0] ∧
      ¬ Transmits b := by
  intro b
  have hindex : b.peer.payloadIndex = 2 := by decide +kernel
  have hqueued : b.host.queued.length = 1 := by decide +kernel
  refine ⟨hindex, hqueued, by decide +kernel, fun ht => ?_⟩
  have := ht.index
  omega

end MyFuzz
