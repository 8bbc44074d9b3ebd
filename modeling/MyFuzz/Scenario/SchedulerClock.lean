import MyFuzz.Foundations.Sequence
import MyFuzz.Scenario.Scheduler

/-!
# Scenario/SchedulerClock — when a timer is to fire

A log of what happened says when a timer is selected and when it is due, without the tables of the
scheduler:

    start / occurrence-th transition        first release point with clock ≥ reading + delay
    ──────────────┬──────────────────────────────────────┬───────────────▸ log
              `Selects`                               `Pending`, then the fire

`Timed` says that the fires of a timer in a log are exactly those: one at most, never early, and
never late.  Nothing here depends on how the scheduler keeps its books; `Timed.concat` and
`Timed.release` say how a log may grow.
-/

namespace MyFuzz

open Outcome Sequence List

namespace Timer

variable (x : Timer)

/-! ## Matches -/

/-- Whether the observed value matches, after one more moment; a reset starts anew. -/
def holds (held : Bool) : Moment → Bool
  | .observed o =>
      if x.trigger.sourceComponent = o.component then x.trigger.matches o.outputs else held
  | .reset _ => false
  | _ => held

/-- Whether the value observed last matches. -/
def held (log : List Moment) : Bool := log.foldl x.holds false

/-- The value that is observed matches and did not before. -/
def IsTransition (held : Bool) : Moment → Prop
  | .observed o => x.trigger.sourceComponent = o.component ∧ x.trigger.matches o.outputs = true ∧ held = false
  | _ => False

instance (held : Bool) (m : Moment) : Decidable (x.IsTransition held m) := by
  cases m <;> unfold IsTransition <;> infer_instance

/-- How often the observed value began to match. -/
def transitions (log : List Moment) : ℤ :=
  (log.foldl (fun s m => (if x.IsTransition s.2 m then s.1 + 1 else s.1, x.holds s.2 m))
    ((0, false) : ℤ × Bool)).1

variable {x}

theorem foldl_transitions (log : List Moment) :
    (log.foldl (fun s m => (if x.IsTransition s.2 m then s.1 + 1 else s.1, x.holds s.2 m))
      ((0, false) : ℤ × Bool)) = (x.transitions log, x.held log) := by
  refine Prod.ext rfl ?_
  rw [held]
  induction log using List.reverseRecOn with
  | nil => rfl
  | append_singleton log m ih => rw [foldl_append, foldl_append, foldl_cons,
      foldl_cons, foldl_nil, foldl_nil, ih]

theorem held_concat (log : List Moment) (m : Moment) : x.held (log ++ [m]) = x.holds (x.held log) m := by
  rw [held, foldl_append]
  rfl

theorem transitions_concat (log : List Moment) (m : Moment) : x.transitions (log ++ [m]) =
    if x.IsTransition (x.held log) m then x.transitions log + 1 else x.transitions log := by
  rw [transitions, foldl_append, foldl_transitions]
  rfl

theorem transitions_le_append (log : List Moment) : ∀ rest : List Moment,
    x.transitions log ≤ x.transitions (log ++ rest) := by
  intro rest
  induction rest using List.reverseRecOn with
  | nil => rw [append_nil]
  | append_singleton rest m ih =>
    rw [← append_assoc, transitions_concat]
    split_ifs
    · omega
    · exact ih

/-! ## Selection -/

variable (x)

/-- A moment selects the timer, with what its clock shows and the cursor that is kept: the start, or
the output that makes the observed value match for the `occurrence`-th time. -/
inductive Selects : List Moment → Moment → ℤ → ConsumptionCursor → Prop
  | start (ticks : String → ℤ) (epoch : ℕ) (hkind : x.trigger.kind = .start) :
      Selects [] (.start ticks epoch) (ticks x.releaseClock) (startCursor epoch)
  | output (before : List Moment) (o : Observation) (hkind : x.trigger.kind = .afterOutput)
      (htransition : x.IsTransition (x.held before) (.observed o))
      (hcount : x.transitions before + 1 = x.trigger.occurrence) :
      Selects before (.observed o) (o.ticks x.releaseClock)
        (observedCursor o x.trigger.sourcePort x.trigger.occurrence)

/-- The timer was selected, and no release point since found its clock far enough. -/
def Pending (log : List Moment) (reading : ℤ) (cursor : ConsumptionCursor) : Prop :=
  ∃ before m between, log = before ++ m :: between ∧ x.Selects before m reading cursor ∧
    ∀ ticks, .release x.id ticks ∈ between → ticks x.releaseClock < reading + x.delayTicks

/-- The timer fired, at the first release point that found its clock far enough. -/
def Fired (fire : Moment) (log : List Moment) (cursor : ConsumptionCursor) : Prop :=
  ∃ before ticks after reading, log = before ++ .release x.id ticks :: fire :: after ∧
    x.Pending before reading cursor ∧ reading + x.delayTicks ≤ ticks x.releaseClock

/-- **The fires of a timer in a log**: at most one, only where the timer is due for the first time,
and wherever it is. -/
structure Timed (fire : Moment) (log : List Moment) : Prop where
  once : ∀ before after, log = before ++ fire :: after → fire ∉ before
  fires : ∀ before after, log = before ++ fire :: after → ∃ earlier ticks reading cursor,
    before = earlier ++ [.release x.id ticks] ∧ x.Pending earlier reading cursor ∧
      reading + x.delayTicks ≤ ticks x.releaseClock
  prompt : ∀ before ticks after reading cursor, log = before ++ .release x.id ticks :: after →
    x.Pending before reading cursor → reading + x.delayTicks ≤ ticks x.releaseClock →
      ∃ rest, after = fire :: rest

variable {x}

variable {before between : List Moment} {m m' : Moment} {reading reading' : ℤ}
  {cursor cursor' : ConsumptionCursor} {ticks : String → ℤ}

/-- The occurrence a cursor carries. -/
theorem Selects.occurrence (h : x.Selects before m reading cursor) :
    cursor.kind = x.trigger.kind ∧
      (x.trigger.kind = .afterOutput → cursor.occurrence = x.trigger.occurrence) := by
  cases h with
  | start ticks epoch hkind => exact ⟨hkind.symm, fun h => by rw [hkind] at h; cases h⟩
  | output before o hkind _ _ => exact ⟨hkind.symm, fun _ => rfl⟩

/-- Once a timer was selected by an output, its transitions were all counted. -/
theorem Selects.le_transitions (h : x.Selects before m reading cursor)
    (hkind : x.trigger.kind = .afterOutput) (between : List Moment) :
    x.trigger.occurrence ≤ x.transitions (before ++ m :: between) := by
  cases h with
  | start ticks epoch hstart =>
    rw [hstart] at hkind
    cases hkind
  | output before o _ htransition hcount =>
    have hle := transitions_le_append (x := x) (before ++ [.observed o]) between
    rw [transitions_concat, if_pos htransition, append_assoc, singleton_append] at hle
    omega

/-- No later moment selects a timer again. -/
theorem Selects.not_later (h : x.Selects before m reading cursor) :
    ¬ x.Selects (before ++ m :: between) m' reading' cursor' := by
  intro h'
  generalize hlog : before ++ m :: between = log at h'
  cases h' with
  | start ticks epoch hkind => simp at hlog
  | output log o hkind _ hcount =>
    have hle := h.le_transitions hkind between
    rw [hlog] at hle
    omega

/-- **A timer is selected once.** -/
theorem Selects.unique {before' between' : List Moment} (h : x.Selects before m reading cursor)
    (h' : x.Selects before' m' reading' cursor') (heq : before ++ m :: between = before' ++ m' :: between') :
    before = before' ∧ m = m' ∧ between = between' := by
  rcases append_eq_append_iff.1 heq with ⟨rest, rfl, hrest⟩ | ⟨rest, rfl, hrest⟩
  · cases rest with
    | nil =>
      rw [nil_append] at hrest
      cases hrest
      exact ⟨(append_nil _).symm, rfl, rfl⟩
    | cons b rest =>
      cases hrest
      exact absurd h' h.not_later
  · cases rest with
    | nil =>
      rw [nil_append] at hrest
      cases hrest
      exact ⟨append_nil _, rfl, rfl⟩
    | cons b rest =>
      cases hrest
      exact absurd h h'.not_later

theorem Selects.determines (h : x.Selects before m reading cursor)
    (h' : x.Selects before m reading' cursor') : reading = reading' ∧ cursor = cursor' := by
  cases h with
  | start ticks epoch _ | output before o _ _ _ =>
    cases h'
    exact ⟨rfl, rfl⟩

/-! ## Pending timers -/

section Pending

variable {log : List Moment} {m : Moment} {reading reading' : ℤ} {cursor cursor' : ConsumptionCursor}

theorem Pending.unique (h : x.Pending log reading cursor) (h' : x.Pending log reading' cursor') :
    reading = reading' ∧ cursor = cursor' := by
  obtain ⟨before, m, between, rfl, hsel, -⟩ := h
  obtain ⟨before', m', between', heq, hsel', -⟩ := h'
  obtain ⟨rfl, rfl, -⟩ := hsel.unique hsel' heq
  exact hsel.determines hsel'

/-- A selected timer stays pending over a moment that does not find it due. -/
theorem Pending.concat (h : x.Pending log reading cursor)
    (hm : ∀ ticks, m = .release x.id ticks → ticks x.releaseClock < reading + x.delayTicks) :
    x.Pending (log ++ [m]) reading cursor := by
  obtain ⟨before, m', between, rfl, hsel, hnot⟩ := h
  refine ⟨before, m', between ++ [m], by simp, hsel, fun ticks hticks => ?_⟩
  rcases mem_append.1 hticks with hticks | hticks
  · exact hnot ticks hticks
  · exact hm ticks (mem_singleton.1 hticks).symm

theorem Selects.pending (h : x.Selects log m reading cursor) : x.Pending (log ++ [m]) reading cursor :=
  ⟨log, m, [], rfl, h, nofun⟩

/-- A timer that still waits for an output is not pending. -/
theorem not_pending_of_lt (hkind : x.trigger.kind = .afterOutput)
    (h : x.transitions log < x.trigger.occurrence) : ¬ x.Pending log reading cursor := by
  rintro ⟨before, m, between, rfl, hsel, -⟩
  have := hsel.le_transitions hkind between
  omega

variable {fire : Moment}

/-- A timer that fired is not pending. -/
theorem Fired.not_pending (h : x.Fired fire log cursor) : ¬ x.Pending log reading' cursor' := by
  obtain ⟨before, ticks, after, reading, rfl, ⟨early, m, between, rfl, hsel, -⟩, hdue⟩ := h
  rintro ⟨early', m', between', heq, hsel', hnot⟩
  rw [append_assoc, cons_append] at heq
  obtain ⟨rfl, rfl, rfl⟩ := hsel.unique hsel' heq
  obtain ⟨rfl, -⟩ := hsel.determines hsel'
  have := hnot ticks (by simp)
  omega

theorem Fired.occurrence (h : x.Fired fire log cursor) :
    cursor.kind = x.trigger.kind ∧
      (x.trigger.kind = .afterOutput → cursor.occurrence = x.trigger.occurrence) := by
  obtain ⟨_, _, _, _, _, ⟨_, _, _, _, hselects, _⟩, _⟩ := h
  exact hselects.occurrence

theorem Fired.append (h : x.Fired fire log cursor) (rest : List Moment) :
    x.Fired fire (log ++ rest) cursor := by
  obtain ⟨before, ticks, after, reading, rfl, hpending, hdue⟩ := h
  exact ⟨before, ticks, after ++ rest, reading, by simp, hpending, hdue⟩

theorem Pending.fired (h : x.Pending log reading cursor)
    (hdue : reading + x.delayTicks ≤ ticks x.releaseClock) (fire : Moment) :
    x.Fired fire (log ++ [.release x.id ticks, fire]) cursor :=
  ⟨log, ticks, [], reading, rfl, h, hdue⟩

end Pending

/-! ## Growing logs -/

section Growth

variable {fire : Moment} {log : List Moment}

theorem timed_nil : x.Timed fire [] where
  once before after h := absurd h (by simp)
  fires before after h := absurd h (by simp)
  prompt before ticks after reading cursor h := absurd h (by simp)

/-- **A log may grow by a moment at which the timer is not due.** -/
theorem Timed.concat (h : x.Timed fire log) (hne : m ≠ fire)
    (hm : ∀ ticks, m = .release x.id ticks → ∀ reading cursor, x.Pending log reading cursor →
      ticks x.releaseClock < reading + x.delayTicks) : x.Timed fire (log ++ [m]) where
  once before after heq := by
    rcases concat_eq_append_cons.1 heq with ⟨-, -, rfl⟩ | ⟨rest, -, hlog⟩
    · exact absurd rfl hne
    · exact h.once before rest hlog
  fires before after heq := by
    rcases concat_eq_append_cons.1 heq with ⟨-, -, rfl⟩ | ⟨rest, -, hlog⟩
    · exact absurd rfl hne
    · exact h.fires before rest hlog
  prompt before ticks after reading cursor heq hpending hdue := by
    rcases concat_eq_append_cons.1 heq with ⟨-, rfl, rfl⟩ | ⟨rest, rfl, hlog⟩
    · have := hm ticks rfl reading cursor hpending
      omega
    · obtain ⟨rest', rfl⟩ := h.prompt before ticks rest reading cursor hlog hpending hdue
      exact ⟨rest' ++ [m], rfl⟩

/-- **A log may grow by the fire of a timer that is due.** -/
theorem Timed.release (h : x.Timed fire log) (hfire : fire ∉ log)
    (hpending : x.Pending log reading cursor) (hdue : reading + x.delayTicks ≤ ticks x.releaseClock)
    (hne : ∀ ticks, fire ≠ .release x.id ticks) :
    x.Timed fire (log ++ [.release x.id ticks, fire]) := by
  have hsplit : ∀ {before after : List Moment} {a : Moment},
      log ++ [.release x.id ticks, fire] = before ++ a :: after →
      (after = [] ∧ before = log ++ [.release x.id ticks] ∧ a = fire) ∨
      (after = [fire] ∧ before = log ∧ a = .release x.id ticks) ∨
      ∃ rest, after = rest ++ [.release x.id ticks, fire] ∧ log = before ++ a :: rest := by
    intro before after a heq
    rw [← singleton_append, ← append_assoc] at heq
    rcases concat_eq_append_cons.1 heq with ⟨rfl, rfl, rfl⟩ | ⟨rest, rfl, hlog⟩
    · exact .inl ⟨rfl, rfl, rfl⟩
    · rcases concat_eq_append_cons.1 hlog with ⟨rfl, rfl, rfl⟩ | ⟨rest', rfl, hlog'⟩
      · exact .inr (.inl ⟨rfl, rfl, rfl⟩)
      · exact .inr (.inr ⟨rest', by simp, hlog'⟩)
  refine ⟨fun before after heq => ?_, fun before after heq => ?_,
    fun before ticks' after reading' cursor' heq hpending' hdue' => ?_⟩
  · rcases hsplit heq with ⟨-, rfl, -⟩ | ⟨-, -, hrelease⟩ | ⟨rest, -, hlog⟩
    · rw [mem_append, mem_singleton]
      exact fun hmem => hmem.elim hfire (hne ticks)
    · exact absurd hrelease (hne ticks)
    · exact absurd (hlog ▸ mem_append_right before (.head _)) hfire
  · rcases hsplit heq with ⟨-, rfl, -⟩ | ⟨-, -, hrelease⟩ | ⟨rest, -, hlog⟩
    · exact ⟨log, ticks, reading, cursor, rfl, hpending, hdue⟩
    · exact absurd hrelease (hne ticks)
    · exact absurd (hlog ▸ mem_append_right before (.head _)) hfire
  · rcases hsplit heq with ⟨-, -, hrelease⟩ | ⟨rfl, -, -⟩ | ⟨rest, rfl, hlog⟩
    · exact absurd hrelease.symm (hne ticks')
    · exact ⟨[], rfl⟩
    · obtain ⟨rest', rfl⟩ := h.prompt before ticks' rest reading' cursor' hlog hpending' hdue'
      exact absurd (hlog ▸ mem_append_right before (by simp)) hfire

end Growth

end Timer

end MyFuzz
