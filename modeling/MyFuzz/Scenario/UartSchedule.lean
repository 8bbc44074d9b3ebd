import Mathlib.Data.List.TakeWhile
import MyFuzz.Scenario.UartPeer

/-!
# Scenario/UartSchedule — when a serial source is on the line

However sources are scheduled, their segments are in order and one bit apart, and only the first may be empty:

    start ──bytes──▸ stop ≥ 1 bit start ──bytes──▸ stop …

A tick is active if it lies in a segment.  A window of ticks meets a source if it has an active tick; the code
says so also for a window around the start of a first source without bytes.
-/

namespace MyFuzz

open Outcome UartSegment List

variable {α : Type} {P : α → Bool} {l : List α} {x : α}

/-- The last item of a prefix, where `P` holds of everything before an item that has it. -/
theorem getLast?_takeWhile_eq_some (h : l.Pairwise fun a b => P b = true → P a = true) :
    (l.takeWhile P).getLast? = some x ↔
      ∃ before after, l = before ++ x :: after ∧ P x = true ∧ ∀ y ∈ after, P y = false := by
  constructor
  · intro hlast
    obtain ⟨before, hbefore⟩ := getLast?_eq_some_iff.1 hlast
    refine ⟨before, l.dropWhile P, ?_, ?_, fun y hy => ?_⟩
    · rw [← singleton_append, ← append_assoc, ← hbefore, takeWhile_append_dropWhile]
    · exact mem_takeWhile_imp (hbefore ▸ mem_append_right before (.head _))
    · -- the first item that is dropped has not `P`, and so has no later one
      cases hdrop : l.dropWhile P with
      | nil =>
        rw [hdrop] at hy
        cases hy
      | cons z rest =>
        have hz : P z = false := by
          have := head?_dropWhile_not P l
          rw [hdrop] at this
          simpa using this
        have hpairs := h.sublist (dropWhile_sublist P)
        rw [hdrop, pairwise_cons] at hpairs
        rw [hdrop] at hy
        rcases mem_cons.1 hy with rfl | hy
        · exact hz
        · rw [← Bool.not_eq_true]
          intro hP
          rw [hpairs.1 y hy hP] at hz
          cases hz
  · rintro ⟨before, after, rfl, hx, hafter⟩
    have hbefore : ∀ y ∈ before, P y = true := fun y hy =>
      (pairwise_append.1 h).2.2 y hy x mem_cons_self hx
    rw [takeWhile_append_of_pos hbefore, takeWhile_cons_of_pos hx]
    cases after with
    | nil => simp
    | cons y after => simp [takeWhile_cons_of_neg, hafter y mem_cons_self]

theorem exists_getLast?_takeWhile (h : l.Pairwise fun a b => P b = true → P a = true) (hx : x ∈ l)
    (hP : P x = true) : ∃ y, (l.takeWhile P).getLast? = some y := by
  cases l with
  | nil => cases hx
  | cons y l =>
    have hy : P y = true := by
      rcases mem_cons.1 hx with rfl | hx
      · exact hP
      · exact (pairwise_cons.1 h).1 x hx hP
    rw [takeWhile_cons_of_pos hy, getLast?_cons]
    exact ⟨_, rfl⟩

namespace Uart8N1Peer

/-- A call that schedules a source. -/
inductive SourceCall where
  | start (tick : ℤ)
  | append (source : List UInt8) (tick : ℤ)

/-- The peer after a call that is accepted. -/
def call (p : Uart8N1Peer) : SourceCall → Except Exn Uart8N1Peer
  | .start tick => p.startSource tick
  | .append source tick => p.appendSource source tick

/-- **Segments in order, one bit apart, and only the first may be empty.** -/
structure Schedule (p : Uart8N1Peer) : Prop where
  rate : 16 ≤ p.clocksPerBit
  nonneg : ∀ s ∈ p.segments, 0 ≤ s.start
  apart : p.segments.Pairwise fun s t : UartSegment => s.stop p.clocksPerBit + p.clocksPerBit ≤ t.start
  full : ∀ s ∈ p.segments.tail, s.source ≠ []

variable {p : Uart8N1Peer}

theorem start_le_stop (rate : ℕ) (s : UartSegment) : s.start ≤ s.stop rate := by
  unfold stop
  have : (0 : ℤ) ≤ 10 * rate * s.source.length := by positivity
  omega

variable {s : UartSegment} {p' : Uart8N1Peer} {tick a b : ℤ}

theorem start_lt_stop {rate : ℕ} (hrate : 16 ≤ rate) (h : s.source ≠ []) : s.start < s.stop rate := by
  have hlength : 1 ≤ s.source.length := length_pos_iff.2 h
  have : (1 : ℤ) ≤ 10 * rate * s.source.length := by
    have : 1 ≤ 10 * rate * s.source.length := Nat.one_le_iff_ne_zero.2 (by positivity)
    exact_mod_cast this
  unfold stop
  omega

theorem schedule_new {source : List UInt8} {clocksPerBit : ℕ} (h : new source clocksPerBit = .ok p) :
    p.Schedule ∧ p.segments = [] := by
  obtain ⟨⟨-, hrate, -⟩, h⟩ := ensure_ok.1 h
  cases h
  exact ⟨⟨hrate, nofun, List.Pairwise.nil, nofun⟩, rfl⟩

section

variable (hp : p.Schedule)

include hp

/-- **Every accepted call keeps the schedule.** -/
theorem Schedule.of_call {c : SourceCall} (h : p.call c = .ok p') : p'.Schedule := by
  cases c with
  | start tick =>
    obtain ⟨⟨-, htick⟩, h⟩ := ensure_ok.1 h
    cases h
    refine ⟨hp.rate, fun s hs => ?_, pairwise_singleton _ _, nofun⟩
    rw [mem_singleton.1 hs]
    exact htick
  | append source tick =>
    obtain ⟨⟨hne, hlength, -, htick⟩, h⟩ := ensure_ok.1 h
    cases h
    obtain ⟨before, last, hsegments⟩ := (eq_nil_or_concat' p.segments).resolve_left hne
    have hend : p.sourceEndTick = last.stop p.clocksPerBit := by
      rw [sourceEndTick, hsegments, getLast?_concat]
      rfl
    rw [hend] at htick
    -- every earlier segment stops before the last one does
    have hapart : ∀ s ∈ p.segments, s.stop p.clocksPerBit + p.clocksPerBit ≤ tick := by
      intro s hs
      rw [hsegments] at hs
      rcases mem_append.1 hs with hs | hs
      · have hpair := hp.apart
        rw [hsegments, pairwise_append] at hpair
        have := hpair.2.2 s hs last (.head _)
        have := start_le_stop p.clocksPerBit last
        omega
      · rw [mem_singleton.1 hs]
        exact htick
    refine ⟨hp.rate, fun s hs => ?_, ?_, fun s hs => ?_⟩
    · rcases mem_append.1 hs with hs | hs
      · exact hp.nonneg s hs
      · have hlast := hp.nonneg last (hsegments ▸ mem_append_right _ (.head _))
        have := start_le_stop p.clocksPerBit last
        rw [mem_singleton.1 hs]
        change (0 : ℤ) ≤ tick
        omega
    · refine pairwise_append.2 ⟨hp.apart, pairwise_singleton _ _, fun s hs t ht => ?_⟩
      rw [mem_singleton.1 ht]
      exact hapart s hs
    · rw [tail_append_of_ne_nil hne] at hs
      rcases mem_append.1 hs with hs | hs
      · exact hp.full s hs
      · rw [mem_singleton.1 hs]
        exact length_pos_iff.1 hlength

theorem Schedule.of_calls {calls : List SourceCall}
    (h : calls.foldlM call p = .ok p') : p'.Schedule := by
  induction calls generalizing p with
  | nil => exact Except.ok.inj h ▸ hp
  | cons c calls ih =>
    rw [foldlM_cons] at h
    obtain ⟨p₁, hcall, h⟩ := bind_ok.1 h
    exact ih (hp.of_call hcall) h

/-! ## Active ticks -/

theorem Schedule.start_lt :
    p.segments.Pairwise fun s t : UartSegment => s.start < t.start := by
  refine hp.apart.imp fun {s t} h => ?_
  have := start_le_stop p.clocksPerBit s
  have := hp.rate
  omega

/-- The last segment that starts before a bound. -/
theorem Schedule.getLast?_eq_some {P : UartSegment → Bool}
    (hP : ∀ s t : UartSegment, s.start < t.start → P t = true → P s = true) :
    (p.segments.takeWhile P).getLast? = some s ↔
      ∃ before after, p.segments = before ++ s :: after ∧ P s = true ∧ ∀ t ∈ after, P t = false :=
  getLast?_takeWhile_eq_some (hp.start_lt.imp fun h => hP _ _ h)

/-- **The segment of a tick.** -/
theorem Schedule.segmentAt_eq_some :
    p.segmentAt tick = some s ↔
      ∃ before after, p.segments = before ++ s :: after ∧ s.start ≤ tick ∧ ∀ t ∈ after, tick < t.start := by
  have hP : ∀ s t : UartSegment, s.start < t.start → decide (t.start ≤ tick) = true →
      decide (s.start ≤ tick) = true := by
    intro s t hst ht
    exact decide_eq_true (hst.le.trans (of_decide_eq_true ht))
  rw [segmentAt, hp.getLast?_eq_some hP]
  simp only [decide_eq_true_eq, decide_eq_false_iff_not, not_le]

/-- A segment of a tick that lies in it is found. -/
theorem Schedule.segmentAt_of_mem (hs : s ∈ p.segments) (hstart : s.start ≤ tick)
    (hstop : tick < s.stop p.clocksPerBit + p.clocksPerBit) : p.segmentAt tick = some s := by
  obtain ⟨before, after, heq⟩ := append_of_mem hs
  refine hp.segmentAt_eq_some.2 ⟨before, after, heq, hstart, fun t ht => ?_⟩
  have hpair := hp.apart
  rw [heq, pairwise_append, pairwise_cons] at hpair
  have := hpair.2.1.1 t ht
  omega

/-- **A tick is active exactly when it lies in a segment.** -/
theorem Schedule.sourceActive_iff : p.sourceActive tick = true ↔
    ∃ s ∈ p.segments, s.start ≤ tick ∧ tick < s.stop p.clocksPerBit := by
  unfold sourceActive
  constructor
  · intro h
    cases hfound : p.segmentAt tick with
    | none =>
      rw [hfound] at h
      cases h
    | some s =>
      rw [hfound] at h
      obtain ⟨before, after, heq, hstart, -⟩ := hp.segmentAt_eq_some.1 hfound
      exact ⟨s, heq ▸ mem_append_right _ (.head _), hstart, of_decide_eq_true h⟩
  · rintro ⟨s, hs, hstart, hstop⟩
    rw [hp.segmentAt_of_mem hs hstart (by omega)]
    exact decide_eq_true hstop

/-- **What the window query says.** -/
theorem Schedule.sourceOverlaps_iff : p.sourceOverlaps a b = true ↔
    a < b ∧ ∃ before s after, p.segments = before ++ s :: after ∧ s.start < b ∧
      (∀ t ∈ after, b ≤ t.start) ∧ a < s.stop p.clocksPerBit := by
  have hP : ∀ s t : UartSegment, s.start < t.start → decide (t.start < b) = true →
      decide (s.start < b) = true := by
    intro s t hst ht
    exact decide_eq_true (hst.trans (of_decide_eq_true ht))
  unfold sourceOverlaps
  constructor
  · intro h
    split_ifs at h with hab
    refine ⟨by omega, ?_⟩
    cases hfound : (p.segments.takeWhile fun s => s.start < b).getLast? with
    | none =>
      rw [hfound] at h
      cases h
    | some s =>
      rw [hfound] at h
      obtain ⟨before, after, heq, hstart, hafter⟩ := (hp.getLast?_eq_some hP).1 hfound
      refine ⟨before, s, after, heq, of_decide_eq_true hstart, fun t ht => ?_, of_decide_eq_true h⟩
      exact not_lt.1 (of_decide_eq_false (hafter t ht))
  · rintro ⟨hab, before, s, after, heq, hstart, hafter, hstop⟩
    rw [if_neg (not_le.2 hab), (hp.getLast?_eq_some hP).2 ⟨before, after, heq, decide_eq_true hstart,
      fun t ht => decide_eq_false (not_lt.2 (hafter t ht))⟩]
    exact decide_eq_true hstop

end

/-! ## Windows -/

/-- **A first source without bytes starts inside the window, and no other source starts before its end.** -/
def EmptyInside (p : Uart8N1Peer) (a b : ℤ) : Prop :=
  ∃ s rest, p.segments = s :: rest ∧ s.source = [] ∧ a < s.start ∧ s.start < b ∧ ∀ t ∈ rest, b ≤ t.start

/-- A window with an active tick meets a source. -/
theorem Schedule.overlaps_of_active (hp : p.Schedule) {t : ℤ} (ha : a ≤ t) (hb : t < b)
    (h : p.sourceActive t = true) : p.sourceOverlaps a b = true := by
  obtain ⟨s, hs, hstart, hstop⟩ := hp.sourceActive_iff.1 h
  have hP : ∀ s t : UartSegment, s.start < t.start → decide (t.start < b) = true →
      decide (s.start < b) = true := by
    intro s t hst ht
    exact decide_eq_true (hst.trans (of_decide_eq_true ht))
  have hfound : ∃ last, (p.segments.takeWhile fun u => u.start < b).getLast? = some last :=
    exists_getLast?_takeWhile (hp.start_lt.imp fun h => hP _ _ h) hs (decide_eq_true (by omega))
  obtain ⟨last, hlast⟩ := hfound
  obtain ⟨before, after, heq, hstart', hafter⟩ := (hp.getLast?_eq_some hP).1 hlast
  refine hp.sourceOverlaps_iff.2 ⟨by omega, before, last, after, heq, of_decide_eq_true hstart',
    fun u hu => not_lt.1 (of_decide_eq_false (hafter u hu)), ?_⟩
  -- this source is the last one, or it stops before the last one starts
  rw [heq] at hs
  rcases mem_append.1 hs with hs | hs
  · have hpair := hp.apart
    rw [heq, pairwise_append] at hpair
    have := hpair.2.2 s hs last (.head _)
    have := start_le_stop p.clocksPerBit last
    omega
  · rcases mem_cons.1 hs with rfl | hs
    · omega
    · have := of_decide_eq_false (hafter s hs)
      omega

/-- **The two queries agree exactly on the windows that have no empty source inside.** -/
theorem Schedule.sourceOverlaps_iff_active (hp : p.Schedule) (a b : ℤ) :
    (p.sourceOverlaps a b = true ↔ ∃ t, a ≤ t ∧ t < b ∧ p.sourceActive t = true) ↔ ¬ p.EmptyInside a b := by
  constructor
  · rintro hagree ⟨s, rest, heq, hempty, hlow, hhigh, hrest⟩
    have hstop : s.stop p.clocksPerBit = s.start := by
      rw [stop, hempty, length_nil]
      omega
    have hover : p.sourceOverlaps a b = true :=
      hp.sourceOverlaps_iff.2 ⟨hlow.trans hhigh, [], s, rest, heq, hhigh, hrest, hstop ▸ hlow⟩
    obtain ⟨t, -, hb, hactive⟩ := hagree.1 hover
    obtain ⟨u, hu, hstart, hactive⟩ := hp.sourceActive_iff.1 hactive
    rw [heq] at hu
    rcases mem_cons.1 hu with rfl | hu
    · omega
    · have := hrest u hu
      omega
  · intro hnone
    refine ⟨fun hover => ?_, fun ⟨t, ha, hb, hactive⟩ => hp.overlaps_of_active ha hb hactive⟩
    obtain ⟨hab, before, s, after, heq, hstart, hafter, hstop⟩ := hp.sourceOverlaps_iff.1 hover
    have hs : s ∈ p.segments := heq ▸ mem_append_right before (.head _)
    by_cases hempty : s.source = []
    · -- only the first segment may be empty
      cases before with
      | nil =>
        have hstop' : s.stop p.clocksPerBit = s.start := by
          rw [stop, hempty, length_nil]
          omega
        exact absurd ⟨s, after, heq, hempty, hstop' ▸ hstop, hstart, hafter⟩ hnone
      | cons first before =>
        refine absurd hempty (hp.full s ?_)
        rw [heq]
        exact mem_append_right before (.head _)
    · have hfull := start_lt_stop hp.rate hempty
      refine ⟨max a s.start, le_max_left _ _, max_lt hab hstart,
        hp.sourceActive_iff.2 ⟨s, hs, le_max_right _ _, ?_⟩⟩
      exact max_lt hstop hfull

/-- **The occupancy queries of an accepted schedule agree exactly on the windows without an empty source.** -/
theorem sourceOverlaps_iff_exists_active {source : List UInt8} {clocksPerBit : ℕ} {p₀ : Uart8N1Peer}
    (hnew : new source clocksPerBit = .ok p₀) {calls : List SourceCall}
    (hcalls : calls.foldlM call p₀ = .ok p)
    (a b : ℤ) :
    (p.sourceOverlaps a b = true ↔ ∃ t, a ≤ t ∧ t < b ∧ p.sourceActive t = true) ↔ ¬ p.EmptyInside a b :=
  ((schedule_new hnew).1.of_calls hcalls).sourceOverlaps_iff_active a b

/-- A peer with this source at tick 10. -/
def startedAtTen (source : List UInt8) : Uart8N1Peer := ⟨source, 16, [⟨10, source⟩], 1, none, 0, [], [], -1⟩

/-- The second of two bytes is active somewhere in a window that begins behind the first. -/
theorem two_bytes_overlap :
    ∃ t, 300 ≤ t ∧ t < 500 ∧ (startedAtTen [0x55, 0xAA]).sourceActive t = true := by
  have hfilled : ¬ (startedAtTen [0x55, 0xAA]).EmptyInside 300 500 := by
    rintro ⟨s, rest, hs, hempty, -⟩
    cases hs
    cases hempty
  exact ((sourceOverlaps_iff_exists_active (rfl : new [0x55, 0xAA] 16 = .ok _)
    (rfl : [SourceCall.start 10].foldlM call _ = .ok (startedAtTen [0x55, 0xAA])) 300 500).2 hfilled).1 rfl

/-- **A source without bytes at tick 10 meets the window 5..20, of which no tick is active.** -/
theorem empty_source_overlaps : ∃ p₀, new [] 16 = .ok p₀ ∧
    [SourceCall.start 10].foldlM call p₀ = .ok (startedAtTen []) ∧
    (startedAtTen []).sourceOverlaps 5 20 = true ∧
      ¬ ∃ t, 5 ≤ t ∧ t < 20 ∧ (startedAtTen []).sourceActive t = true := by
  refine ⟨_, rfl, rfl, rfl, ?_⟩
  have hschedule : (startedAtTen []).Schedule :=
    (schedule_new (rfl : new [] 16 = .ok _)).1.of_calls
      (rfl : [SourceCall.start 10].foldlM call _ = .ok (startedAtTen []))
  rintro ⟨t, -, -, hactive⟩
  obtain ⟨s, hs, hstart, hstop⟩ := hschedule.sourceActive_iff.mp hactive
  rw [List.mem_singleton.mp hs] at hstart hstop
  change t < 10 + 10 * 16 * 0 at hstop
  change 10 ≤ t at hstart
  omega

end Uart8N1Peer

end MyFuzz
