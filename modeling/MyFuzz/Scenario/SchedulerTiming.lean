import MyFuzz.Foundations.Local
import MyFuzz.Scenario.SchedulerClock

/-!
# Scenario/SchedulerTiming — the scheduler keeps its timers

Four tables and two sets of cursors say, for each timer, at which stage it is.  `look` reads them for
one id, `Stage` compares what it sees with the log, and every operation of the scheduler moves every
timer from one stage to the next:

    tables ──look──▸ waiting / selected / ended ──Stage──▸ log

A run that raises stops between two stages; what was logged until then is still `Timed`.
-/

namespace MyFuzz

open Outcome Effect Timer Dict MyFuzz.Action

open List hiding count getD

/-! ## One timer in the tables -/

/-- What the tables say about one timer. -/
structure Look where
  pending : Option ℤ
  fired : Bool
  count : ℤ
  held : Bool
  cursor : Option ConsumptionCursor

/-- Look up a timer. -/
def look (s : Track × Dict String ConsumptionCursor) (id : String) : Look where
  pending := s.1.pending.get? id
  fired := decide (id ∈ s.1.fired)
  count := s.1.counts.getD id 0
  held := s.1.previousMatch.getD id false
  cursor := s.2.get? id

namespace Look

/-- The timer is selected at the start. -/
def start (ticks : String → ℤ) (epoch : ℕ) (x : Timer) (l : Look) : Look :=
  if x.trigger.kind = .start then
    { l with pending := some (ticks x.selectClock + x.delayTicks), cursor := some (startCursor epoch) }
  else l

/-- A match is counted for the timer. -/
def counted (o : Observation) (x : Timer) (l : Look) : Look :=
  if l.count + 1 = x.trigger.occurrence then
    { l with
      count := l.count + 1
      pending := some (o.ticks x.selectClock + x.delayTicks)
      cursor := some (observedCursor o x.trigger.sourcePort (l.count + 1)) }
  else { l with count := l.count + 1 }

/-- An output is looked at for the timer. -/
def observe (o : Observation) (x : Timer) (l : Look) : Look :=
  if l.fired = true ∨ l.pending.isSome = true ∨ x.trigger.kind ≠ .afterOutput ∨
      x.trigger.sourceComponent ≠ o.component then l
  else
    let matched := x.trigger.matches o.outputs
    { (if matched = true ∧ l.held = false then l.counted o x else l) with held := matched }

/-- An output does not fire a timer. -/
theorem observe_fired (o : Observation) (x : Timer) (l : Look) : (l.observe o x).fired = l.fired := by
  simp only [observe, counted]
  split_ifs <;> rfl

end Look

/-- **Selecting at the start touches one timer at a time.** -/
theorem isLocal_start (ticks : String → ℤ) (epoch : ℕ) :
    IsLocal look (fun _ => ([] : List Unit)) (fun s => s.1.fired) (start ticks epoch) id
      (fun _ _ => []) (fun x l => l.start ticks epoch x) where
  log_eq _ _ := rfl
  view_self s x := by
    unfold start Look.start
    split_ifs with h
    · simp [look]
    · rfl
  view_of_ne s x id hid := by
    unfold start
    split_ifs with h
    · simp [look, get?_set_of_ne _ hid]
    · rfl
  rest_eq s x := by
    unfold start
    split_ifs <;> rfl

theorem look_count_self (o : Observation) (s : Track × Dict String ConsumptionCursor) (x : Timer) :
    look (x.count o s) x.id = (look s x.id).counted o x := by
  by_cases h : s.1.counts.getD x.id 0 + 1 = x.trigger.occurrence <;>
    simp [count, Look.counted, look, h]

variable {id : String} {ticks : String → ℤ} {q : ResetAction}

theorem look_count_of_ne (o : Observation) (s : Track × Dict String ConsumptionCursor) (x : Timer)
    (hid : id ≠ x.id) : look (x.count o s) id = look s id := by
  by_cases h : s.1.counts.getD x.id 0 + 1 = x.trigger.occurrence
  · simp [count, h, look, get?_set_of_ne _ hid, getD_set_of_ne _ hid]
  · simp [count, h, look, getD_set_of_ne _ hid]

theorem fired_count (o : Observation) (s : Track × Dict String ConsumptionCursor) (x : Timer) :
    (x.count o s).1.fired = s.1.fired := by
  simp only [count]
  split_ifs <;> rfl

/-- **Looking at an output touches one timer at a time.** -/
theorem isLocal_observe (o : Observation) :
    IsLocal look (fun _ => ([] : List Unit)) (fun s => s.1.fired) (Timer.observe o) Timer.id
      (fun _ _ => []) (fun x l => l.observe o x) where
  log_eq _ _ := rfl
  view_self s x := by
    have hignores : x.Ignores s.1 o ↔ ((look s x.id).fired = true ∨
        (look s x.id).pending.isSome = true ∨ x.trigger.kind ≠ .afterOutput ∨
        x.trigger.sourceComponent ≠ o.component) := by
      simp only [Timer.Ignores, look, decide_eq_true_eq]
    by_cases h : x.Ignores s.1 o
    · rw [Timer.observe, if_pos h, Look.observe, if_pos (hignores.1 h)]
    · rw [Timer.observe, if_neg h, Look.observe, if_neg (mt hignores.2 h)]
      by_cases h' : x.trigger.matches o.outputs = true ∧ s.1.previousMatch.getD x.id false = false
      · have h'' : x.trigger.matches o.outputs = true ∧ (look s x.id).held = false := h'
        simp only [if_pos h', if_pos h'', ← look_count_self]
        simp [look]
      · have h'' : ¬ (x.trigger.matches o.outputs = true ∧ (look s x.id).held = false) := h'
        simp only [if_neg h', if_neg h'']
        simp [look]
  view_of_ne s x id hid := by
    simp only [Timer.observe]
    split_ifs with h h'
    · rfl
    · rw [← look_count_of_ne o s x hid]
      simp [look, getD_set_of_ne _ hid]
    · simp [look, getD_set_of_ne _ hid]
  rest_eq s x := by
    simp only [Timer.observe]
    split_ifs with h h'
    · rfl
    · exact fired_count o s x
    · rfl

/-! ## Stages -/

/-- Where a timer stands: what the tables say of it is what the log says. -/
inductive Stage (x : Timer) (fire : Moment) (log : List Moment) (l : Look)
    (consumed : Option ConsumptionCursor) : Prop
  | waiting (hkind : x.trigger.kind = .afterOutput) (hpending : l.pending = none)
      (hfired : l.fired = false) (hcount : l.count = x.transitions log)
      (hheld : l.held = x.held log) (hlt : x.transitions log < x.trigger.occurrence)
      (hconsumed : consumed = none) (hnot : fire ∉ log)
  | selected (reading : ℤ) (cursor : ConsumptionCursor)
      (hpending : l.pending = some (reading + x.delayTicks)) (hfired : l.fired = false)
      (hcursor : l.cursor = some cursor) (hlog : x.Pending log reading cursor)
      (hconsumed : consumed = none) (hnot : fire ∉ log)
  | ended (cursor : ConsumptionCursor) (hpending : l.pending = none) (hfired : l.fired = true)
      (hconsumed : consumed = some cursor) (hlog : x.Fired fire log cursor)

/-- A timer is timed, and the tables keep up with it: it counts as fired once the runner returned. -/
structure Kept (x : Timer) (fire : Moment) (log : List Moment) (l : Look)
    (consumed : Option ConsumptionCursor) : Prop where
  timed : x.Timed fire log
  stage : Stage x fire log l consumed
  returned : l.fired = true ↔ .returned x.id ∈ log

namespace Kept

variable {x : Timer} {fire : Moment} {log : List Moment} {l l' : Look} {consumed : Option ConsumptionCursor}

/-- The timer is due: it is pending and its clock is far enough. -/
def Due (x : Timer) (l : Look) (ticks : String → ℤ) : Prop :=
  ∃ target, l.pending = some target ∧ target ≤ ticks x.releaseClock

section

variable (h : Kept x fire log l consumed)

include h

/-- A moment that is no return of the timer's fire. -/
theorem returned_concat {m : Moment} (hm : m ≠ .returned x.id)
    (hfired : l'.fired = l.fired) : l'.fired = true ↔ .returned x.id ∈ log ++ [m] := by
  rw [hfired, h.returned, mem_append, mem_singleton]
  exact (or_iff_left (Ne.symm hm)).symm

/-- **A moment that has nothing to do with a timer**, except that it may end a match. -/
theorem concat {m : Moment} (hne : m ≠ fire)
    (hm : m ≠ .returned x.id) (hrelease : ∀ ticks, m ≠ .release x.id ticks)
    (htransition : ∀ held, ¬ x.IsTransition held m)
    (hheld : l'.held = x.holds l.held m) (hl : l' = { l with held := l'.held }) :
    Kept x fire (log ++ [m]) l' consumed := by
  have hpending : l'.pending = l.pending := by rw [hl]
  have hfired : l'.fired = l.fired := by rw [hl]
  have hcount : l'.count = l.count := by rw [hl]
  have hcursor : l'.cursor = l.cursor := by rw [hl]
  have hnotMem : fire ∉ log → fire ∉ log ++ [m] := by
    intro hnot hmem
    rcases mem_append.1 hmem with hmem | hmem
    · exact hnot hmem
    · exact hne (mem_singleton.1 hmem).symm
  refine ⟨h.timed.concat hne fun ticks hm => absurd hm (hrelease ticks), ?_,
    h.returned_concat hm hfired⟩
  cases h.stage with
  | waiting hkind hp hf hc hh hlt hcons hnot =>
    have htrans : x.transitions (log ++ [m]) = x.transitions log := by
      rw [transitions_concat, if_neg (htransition _)]
    refine .waiting hkind (hpending.trans hp) (hfired.trans hf) ?_ ?_ ?_ hcons (hnotMem hnot)
    · rw [hcount, hc, htrans]
    · rw [hheld, hh, held_concat]
    · rwa [htrans]
  | selected reading cursor hp hf hc hlog hcons hnot =>
    exact .selected reading cursor (hpending.trans hp) (hfired.trans hf) (hcursor.trans hc)
      (hlog.concat fun ticks hm => absurd hm (hrelease ticks)) hcons (hnotMem hnot)
  | ended cursor hp hf hcons hlog =>
    exact .ended cursor (hpending.trans hp) (hfired.trans hf) hcons (hlog.append [m])

/-- **A release point that does not find a timer due.** -/
theorem notDue (hdue : ¬ Due x l ticks)
    (hne : Moment.release x.id ticks ≠ fire) :
    Kept x fire (log ++ [.release x.id ticks]) l consumed := by
  have hnotMem : fire ∉ log → fire ∉ log ++ [.release x.id ticks] := by
    intro hnot hmem
    rcases mem_append.1 hmem with hmem | hmem
    · exact hnot hmem
    · exact hne (mem_singleton.1 hmem).symm
  have hreturned : l.fired = true ↔ .returned x.id ∈ log ++ [.release x.id ticks] :=
    h.returned_concat (fun hm => nomatch hm) rfl
  cases h.stage with
  | waiting hkind hp hf hc hh hlt hcons hnot =>
    have hnone : ¬ x.IsTransition (x.held log) (.release x.id ticks) := id
    have htrans : x.transitions (log ++ [.release x.id ticks]) = x.transitions log := by
      rw [transitions_concat, if_neg hnone]
    have hheld : x.held (log ++ [.release x.id ticks]) = x.held log := held_concat _ _
    refine ⟨h.timed.concat hne fun _ _ reading cursor hpend => ?_, .waiting hkind hp hf ?_ ?_ ?_
      hcons (hnotMem hnot), hreturned⟩
    · exact absurd hpend (not_pending_of_lt hkind hlt)
    · rw [hc, htrans]
    · rw [hh, hheld]
    · rwa [htrans]
  | selected reading cursor hp hf hc hlog hcons hnot =>
    have hlt : ticks x.releaseClock < reading + x.delayTicks := not_le.1 fun hle => hdue ⟨_, hp, hle⟩
    refine ⟨h.timed.concat hne fun ticks' hm reading' cursor' hpend => ?_, .selected reading cursor
      hp hf hc (hlog.concat fun ticks' hm => ?_) hcons (hnotMem hnot), hreturned⟩
    · cases hm
      obtain ⟨rfl, -⟩ := hlog.unique hpend
      exact hlt
    · cases hm
      exact hlt
  | ended cursor hp hf hcons hlog =>
    refine ⟨h.timed.concat hne fun _ _ reading cursor' hpend => ?_,
      .ended cursor hp hf hcons (hlog.append _), hreturned⟩
    exact absurd hpend hlog.not_pending

/-- **A timer that is due fires.** -/
theorem due (hdue : Due x l ticks)
    (hne : ∀ ticks, fire ≠ .release x.id ticks) :
    ∃ cursor, l.cursor = some cursor ∧ x.Timed fire (log ++ [.release x.id ticks, fire]) ∧
      x.Fired fire (log ++ [.release x.id ticks, fire]) cursor ∧ l.fired = false ∧ consumed = none := by
  obtain ⟨target, htarget, hle⟩ := hdue
  cases h.stage with
  | waiting _ hp _ _ _ _ _ _ => rw [hp] at htarget; cases htarget
  | selected reading cursor hp hf hc hlog hcons hnot =>
    obtain rfl : reading + x.delayTicks = target := Option.some.inj (hp.symm.trans htarget)
    exact ⟨cursor, hc, h.timed.release hnot hlog hle hne, hlog.fired hle fire, hf, hcons⟩
  | ended _ hp _ _ _ => rw [hp] at htarget; cases htarget

end

/-- The runner returned from the timer's fire. -/
theorem fired_returned (htimed : x.Timed fire log) {cursor : ConsumptionCursor}
    (hfired : x.Fired fire log cursor) (hne : Moment.returned x.id ≠ fire) (hp : l.pending = none)
    (hf : l.fired = true) : Kept x fire (log ++ [.returned x.id]) l (some cursor) :=
  ⟨htimed.concat hne fun _ hm => (nomatch hm), .ended cursor hp hf rfl (hfired.append _),
    by rw [hf]; simp⟩

/-- An output that a waiting timer is triggered by. -/
theorem observe_waiting (hclock : x.selectClock = x.releaseClock) {o : Observation}
    (hsource : x.trigger.sourceComponent = o.component) (hkind : x.trigger.kind = .afterOutput)
    (hp : l.pending = none) (hf : l.fired = false) (hc : l.count = x.transitions log)
    (hh : l.held = x.held log) (hlt : x.transitions log < x.trigger.occurrence)
    (hnot : fire ∉ log ++ [.observed o]) :
    Stage x fire (log ++ [.observed o]) (l.observe o x) none := by
  have hwatches : ¬ (l.fired = true ∨ l.pending.isSome = true ∨ x.trigger.kind ≠ .afterOutput ∨
      x.trigger.sourceComponent ≠ o.component) := by
    simp [hp, hf, hkind, hsource]
  have hheld : x.held (log ++ [.observed o]) = x.trigger.matches o.outputs := by
    rw [held_concat, holds, if_pos hsource]
  rw [Look.observe, if_neg hwatches]
  by_cases hmatch : x.trigger.matches o.outputs = true ∧ l.held = false
  · have htransition : x.IsTransition (x.held log) (.observed o) :=
      ⟨hsource, hmatch.1, hh.symm.trans hmatch.2⟩
    have htrans : x.transitions (log ++ [.observed o]) = x.transitions log + 1 := by
      rw [transitions_concat, if_pos htransition]
    simp only [if_pos hmatch]
    by_cases hoccurrence : l.count + 1 = x.trigger.occurrence
    · -- the occurrence the timer waits for: its clock is read now
      rw [Look.counted, if_pos hoccurrence]
      have hselects := Timer.Selects.output log o hkind htransition (by rw [← hc, hoccurrence])
      refine .selected _ _ ?_ hf ?_ hselects.pending rfl hnot
      · rw [hclock]
      · rw [hoccurrence]
    · rw [Look.counted, if_neg hoccurrence]
      refine .waiting hkind hp hf ?_ hheld.symm ?_ rfl hnot
      · rw [htrans, hc]
      · rw [htrans]
        omega
  · have htransition : ¬ x.IsTransition (x.held log) (.observed o) := fun h => hmatch ⟨h.2.1, hh.trans h.2.2⟩
    have htrans : x.transitions (log ++ [.observed o]) = x.transitions log := by
      rw [transitions_concat, if_neg htransition]
    simp only [if_neg hmatch]
    refine .waiting hkind hp hf ?_ hheld.symm ?_ rfl hnot
    · rw [htrans, hc]
    · rwa [htrans]

/-- **An output is looked at.** -/
theorem observe (hclock : x.selectClock = x.releaseClock) (h : Kept x fire log l consumed)
    (o : Observation) (hne : Moment.observed o ≠ fire) :
    Kept x fire (log ++ [.observed o]) (l.observe o x) consumed := by
  have hnotMem : fire ∉ log → fire ∉ log ++ [.observed o] := by
    intro hnot hmem
    rcases mem_append.1 hmem with hmem | hmem
    · exact hnot hmem
    · exact hne (mem_singleton.1 hmem).symm
  refine ⟨h.timed.concat hne fun ticks hm => (nomatch hm), ?_,
    h.returned_concat (fun hm => nomatch hm) (l.observe_fired o x)⟩
  cases h.stage with
  | waiting hkind hp hf hc hh hlt hcons hnot =>
    by_cases hsource : x.trigger.sourceComponent = o.component
    · rw [hcons]
      exact observe_waiting hclock hsource hkind hp hf hc hh hlt (hnotMem hnot)
    · have hsame : l.observe o x = l := by
        rw [Look.observe, if_pos (.inr (.inr (.inr hsource)))]
      have hheld : x.held (log ++ [.observed o]) = x.held log := by
        rw [held_concat, holds, if_neg hsource]
      have htrans : x.transitions (log ++ [.observed o]) = x.transitions log := by
        rw [transitions_concat, if_neg fun h => hsource h.1]
      rw [hsame]
      refine .waiting hkind hp hf ?_ ?_ ?_ hcons (hnotMem hnot)
      · rw [hc, htrans]
      · rw [hh, hheld]
      · rwa [htrans]
  | selected reading cursor hp hf hc hlog hcons hnot =>
    have hsame : l.observe o x = l := by
      rw [Look.observe, if_pos (.inr (.inl (by rw [hp]; rfl)))]
    rw [hsame]
    exact .selected reading cursor hp hf hc (hlog.concat fun ticks hm => (nomatch hm)) hcons
      (hnotMem hnot)
  | ended cursor hp hf hcons hlog =>
    have hsame : l.observe o x = l := by rw [Look.observe, if_pos (.inl hf)]
    rw [hsame]
    exact .ended cursor hp hf hcons (hlog.append _)

/-- **The start selects what waits for nothing.** -/
theorem start (hclock : x.selectClock = x.releaseClock) (hvalid : x.trigger.Valid) {epoch : ℕ}
    (hne : Moment.start ticks epoch ≠ fire) (hp : l.pending = none) (hf : l.fired = false)
    (hc : l.count = 0) (hh : l.held = false) :
    Kept x fire [.start ticks epoch] (l.start ticks epoch x) none := by
  have hnot : fire ∉ [Moment.start ticks epoch] := fun hmem => hne (mem_singleton.1 hmem).symm
  refine ⟨timed_nil.concat hne fun ticks hm => (nomatch hm), ?_, ?_⟩
  swap
  · have hfired : (l.start ticks epoch x).fired = false := by
      unfold Look.start
      split_ifs <;> exact hf
    rw [hfired]
    simp
  cases hkind : x.trigger.kind with
  | start =>
    rw [Look.start, if_pos hkind]
    refine .selected _ _ ?_ hf rfl (Timer.Selects.start ticks epoch hkind).pending rfl hnot
    rw [hclock]
  | afterOutput =>
    have hoccurrence : 1 ≤ x.trigger.occurrence := hvalid.one_le_occurrence hkind
    rw [Look.start, if_neg (by rw [hkind]; exact fun h => nomatch h)]
    exact .waiting hkind hp hf hc hh (by
      change (0 : ℤ) < _
      omega) rfl hnot

end Kept

/-! ## The scheduler -/

/-- The clock that times a reset is the one that releases it. -/
def ScenarioGenome.SameClock (g : ScenarioGenome) : Prop :=
  ∀ q ∈ g.resetActions, q.trigger.kind = .afterOutput → q.delayComponent = "" →
    q.trigger.sourceComponent = g.firstComponent

theorem ScenarioGenome.SameClock.selectClock {g : ScenarioGenome} (h : g.SameClock)
    (hq : q ∈ g.resetActions) : (q.timer g).selectClock = (q.timer g).releaseClock := by
  unfold ResetAction.timer
  cases hkind : q.trigger.kind with
  | start => rfl
  | afterOutput =>
    by_cases hdelay : q.delayComponent = ""
    · simp only [orElse, if_pos hdelay, h q hq hkind hdelay]
    · simp only [orElse, if_neg hdelay]

namespace Scheduler

variable {ρ : Type} {r : ScenarioRunner ρ} {g : ScenarioGenome} {s : Scheduler ρ}

/-- Every timer is kept. -/
structure Good (g : ScenarioGenome) (s : Scheduler ρ) : Prop where
  actions : ∀ a ∈ g.actions, Kept a.timer (.inject a.actionId) s.log
    (look (s.actions, s.selectedCursors) a.actionId) (s.consumedCursors.get? a.actionId)
  resets : ∀ q ∈ g.resetActions, Kept (q.timer g) (.reset q.actionId) s.log
    (look (s.resets, s.selectedCursors) q.actionId) (s.consumedCursors.get? q.actionId)

/-- What is known of a timer when a run is over: it is timed, and it has a cursor, and the runner
returned from it, exactly when it counts as fired. -/
structure Told (x : Timer) (fire : Moment) (log : List Moment) (fired : Bool)
    (consumed : Option ConsumptionCursor) : Prop where
  timed : x.Timed fire log
  fired_iff : fired = true ↔ consumed.isSome = true
  returned : fired = true ↔ .returned x.id ∈ log
  cursor : ∀ cursor, consumed = some cursor → x.Fired fire log cursor

/-- What is known of every timer when a run is over. -/
structure Fair (g : ScenarioGenome) (s : Scheduler ρ) : Prop where
  actions : ∀ a ∈ g.actions, Told a.timer (.inject a.actionId) s.log
    (decide (a.actionId ∈ s.actions.fired)) (s.consumedCursors.get? a.actionId)
  resets : ∀ q ∈ g.resetActions, Told (q.timer g) (.reset q.actionId) s.log
    (decide (q.actionId ∈ s.resets.fired)) (s.consumedCursors.get? q.actionId)

variable {x : Timer} {fire : Moment} {log : List Moment} {l : Look}
  {consumed : Option ConsumptionCursor} {a : Action} {t : Track} {cursor : ConsumptionCursor}
  {α : Type} {runner : ρ} {e : Exn} {s' : Scheduler ρ} {all fired : List String}

theorem told_of_kept (h : Kept x fire log l consumed) : Told x fire log l.fired consumed := by
  refine ⟨h.timed, ?_, h.returned, ?_⟩
  · cases h.stage with
    | waiting _ _ hf _ _ _ hcons _ | selected _ _ _ hf _ _ hcons _
    | ended _ _ hf hcons _ => simp [hf, hcons]
  · intro cursor hcursor
    cases h.stage with
    | waiting _ _ _ _ _ _ hcons _
    | selected _ _ _ _ _ _ hcons _ => rw [hcons] at hcursor; cases hcursor
    | ended cursor' _ _ hcons hlog =>
      obtain rfl : cursor' = cursor := Option.some.inj (hcons.symm.trans hcursor)
      exact hlog

theorem Good.fair (h : Good g s) : Fair g s :=
  ⟨fun a ha => told_of_kept (h.actions a ha), fun q hq => told_of_kept (h.resets q hq)⟩

/-! ### Distinct ids -/

theorem map_id_actions (g : ScenarioGenome) :
    (g.actions.map timer).map Timer.id = g.actions.map actionId := by
  rw [map_map]
  rfl

theorem map_id_resets (g : ScenarioGenome) :
    (g.resetActions.map (ResetAction.timer g)).map Timer.id = g.resetActions.map ResetAction.actionId := by
  rw [map_map]
  rfl

theorem action_ne_reset (hg : g.Checks) (ha : a ∈ g.actions) (hq : q ∈ g.resetActions) :
    a.actionId ≠ q.actionId :=
  (nodup_append.1 hg.ids).2.2 _ (mem_map_of_mem ha) _ (mem_map_of_mem hq)

/-! ### Updates of every timer -/

section ForTimers

variable {f : Track × Dict String ConsumptionCursor → Timer → Track × Dict String ConsumptionCursor}
  {upd : Timer → Look → Look} {m : Moment}

/-- **An update of every timer is an update of each.** -/
theorem look_forTimers (hg : g.Checks)
    (hf : IsLocal look (fun _ => ([] : List Unit)) (fun s => s.1.fired) f Timer.id
      (fun _ _ => []) upd) (s : Scheduler ρ) :
    (∀ a ∈ g.actions, look ((s.forTimers g f m).actions, (s.forTimers g f m).selectedCursors)
      a.actionId = upd a.timer (look (s.actions, s.selectedCursors) a.actionId)) ∧
    ∀ q ∈ g.resetActions, look ((s.forTimers g f m).resets, (s.forTimers g f m).selectedCursors)
      q.actionId = upd (q.timer g) (look (s.resets, s.selectedCursors) q.actionId) := by
  obtain ⟨hactions, hresets, hdisjoint⟩ := nodup_append.1 hg.ids
  rw [← map_id_actions g] at hactions
  rw [← map_id_resets g] at hresets
  constructor
  · intro a ha
    have hself := hf.foldl_view _ (s.actions, s.selectedCursors) hactions a.timer
      (mem_map_of_mem ha)
    have hother := hf.foldl_view_of_notMem (k := a.actionId) (g.resetActions.map (ResetAction.timer g))
      (s.resets, ((g.actions.map timer).foldl f (s.actions, s.selectedCursors)).2) (by
        rw [map_id_resets]
        exact fun hmem => hdisjoint _ (mem_map_of_mem ha) _ hmem rfl)
    have hcursor := congrArg Look.cursor hother
    rw [← show a.timer.id = a.actionId from rfl, ← hself]
    exact congrArg (fun c => Look.mk _ _ _ _ c) hcursor
  · intro q hq
    have hself := hf.foldl_view _
      (s.resets, ((g.actions.map timer).foldl f (s.actions, s.selectedCursors)).2) hresets
      (q.timer g) (mem_map_of_mem hq)
    have hother := hf.foldl_view_of_notMem (k := q.actionId) (g.actions.map timer)
      (s.actions, s.selectedCursors) (by
        rw [map_id_actions]
        exact fun hmem => hdisjoint _ hmem _ (mem_map_of_mem hq) rfl)
    have hcursor := congrArg Look.cursor hother
    have hsame : look (s.resets,
        ((g.actions.map timer).foldl f (s.actions, s.selectedCursors)).2) q.actionId =
        look (s.resets, s.selectedCursors) q.actionId :=
      congrArg (fun c => Look.mk _ _ _ _ c) hcursor
    rw [← hsame]
    exact hself

end ForTimers

/-- **An output is looked at for every timer.** -/
theorem Good.observe (hg : g.Checks) (hclock : g.SameClock) (h : Good g s) (o : Observation) :
    Good g (s.forTimers g (Timer.observe o) (.observed o)) := by
  obtain ⟨hactions, hresets⟩ := look_forTimers (m := .observed o) hg (isLocal_observe o) s
  constructor
  · intro a ha
    rw [hactions a ha]
    exact (h.actions a ha).observe rfl o nofun
  · intro q hq
    rw [hresets q hq]
    exact (h.resets q hq).observe (hclock.selectClock hq) o nofun

/-! ### The start -/

/-- Nothing happened yet. -/
structure Fresh (g : ScenarioGenome) (s : Scheduler ρ) : Prop where
  actions : s.actions = Track.init (g.actions.map Action.actionId)
  resets : s.resets = Track.init (g.resetActions.map ResetAction.actionId)
  consumed : s.consumedCursors = .empty
  log : s.log = []

theorem look_init (ids : List String) (cursors : Dict String ConsumptionCursor) (id : String) :
    look (Track.init ids, cursors) id = ⟨none, false, 0, false, cursors.get? id⟩ := by
  have hcount : (update .empty (ids.map fun id => (id, (0 : ℤ)))).getD id 0 = 0 :=
    getD_update_const rfl
  have hheld : (update .empty (ids.map fun id => (id, false))).getD id false = false :=
    getD_update_const rfl
  simp only [look, Track.init, hcount, hheld]
  rfl

/-- **The start leaves every timer kept.** -/
theorem Fresh.start (hg : g.Valid) (hclock : g.SameClock) (h : Fresh g s) (ticks : String → ℤ)
    (epoch : ℕ) : Good g (s.forTimers g (Timer.start ticks epoch) (.start ticks epoch)) := by
  have hchecks := ScenarioGenome.validate_eq_ok.1 hg.genome
  obtain ⟨hactions, hresets⟩ := look_forTimers (m := .start ticks epoch) hchecks (isLocal_start ticks epoch) s
  have hlog : (s.forTimers g (Timer.start ticks epoch) (.start ticks epoch)).log =
      [.start ticks epoch] := congrArg (· ++ [Moment.start ticks epoch]) h.log
  have hconsumed : ∀ id, (s.forTimers g (Timer.start ticks epoch)
      (.start ticks epoch)).consumedCursors.get? id = none := by
    intro id
    change s.consumedCursors.get? id = none
    rw [h.consumed, get?_empty]
  constructor
  · intro a ha
    rw [hactions a ha, hlog, hconsumed, h.actions, look_init]
    exact Kept.start rfl (hg.actions a ha).1 nofun rfl rfl rfl rfl
  · intro q hq
    rw [hresets q hq, hlog, hconsumed, h.resets, look_init]
    exact Kept.start (hclock.selectClock hq) (hg.resets q hq).1 nofun rfl rfl rfl rfl

/-! ### Release points -/

theorem due_eq_true (cursors : Dict String ConsumptionCursor) :
    due t ticks x = true ↔ Kept.Due x (look (t, cursors) x.id) ticks := by
  unfold due Kept.Due look
  cases t.pending.get? x.id with
  | none | some target => simp

theorem look_clearMatches (t : Track) (cursors : Dict String ConsumptionCursor) (id : String) :
    look (t.clearMatches, cursors) id = { look (t, cursors) id with held := false } := by
  have hheld : (t.previousMatch.mapVal fun _ => false).getD id false = false := by
    rw [getD, get?_mapVal]
    cases t.previousMatch.get? id <;> rfl
  simp only [look, Track.clearMatches, hheld]
  rfl

/-- The tables after a timer fired, seen by another timer. -/
theorem look_fired_of_ne {cursors : Dict String ConsumptionCursor} {id' : String} (hid : id' ≠ id) :
    look ({ t with fired := t.fired ++ [id], pending := t.pending.erase id }, cursors) id' =
      look (t, cursors) id' := by
  simp [look, get?_erase, hid]

/-- The tables after a timer fired, seen by itself. -/
theorem look_fired_self (t : Track) (cursors : Dict String ConsumptionCursor) (id : String) :
    look ({ t with fired := t.fired ++ [id], pending := t.pending.erase id }, cursors) id =
      { look (t, cursors) id with fired := true, pending := none } := by
  simp [look, get?_erase]

section Other

variable {x : Timer} {fire : Moment} {log : List Moment} {l : Look}
  {consumed : Option ConsumptionCursor} {id : String} {ticks : String → ℤ}

section

variable (h : Kept x fire log l consumed) (hid : x.id ≠ id)

include h hid

/-- A release point of another timer. -/
theorem kept_release_other
    (hfire : fire ≠ .release id ticks) : Kept x fire (log ++ [.release id ticks]) l consumed :=
  h.concat (Ne.symm hfire) (fun hm => nomatch hm) (fun _ hm => hid (Moment.release.inj hm).1.symm)
    (fun _ h => h) rfl rfl

/-- The runner returned from the fire of another timer. -/
theorem kept_returned_other
    (hfire : fire ≠ .returned id) : Kept x fire (log ++ [.returned id]) l consumed :=
  h.concat (Ne.symm hfire) (fun hm => hid (Moment.returned.inj hm).symm) (fun _ hm => (nomatch hm))
    (fun _ h => h) rfl rfl

/-- Another action fires. -/
theorem kept_inject_other (hrelease : fire ≠ .release id ticks) (hfire : fire ≠ .inject id) :
    Kept x fire (log ++ [.release id ticks, .inject id]) l consumed := by
  have hfirst := kept_release_other h hid hrelease
  have hsecond := hfirst.concat (m := .inject id) (Ne.symm hfire) (fun hm => (nomatch hm))
    (fun _ hm => (nomatch hm)) (fun _ h => h) rfl rfl
  rwa [append_assoc] at hsecond

/-- Another reset fires: what was observed before does not count as a match any more. -/
theorem kept_reset_other (hrelease : fire ≠ .release id ticks) (hfire : fire ≠ .reset id) :
    Kept x fire (log ++ [.release id ticks, .reset id]) { l with held := false } consumed := by
  have hfirst := kept_release_other h hid hrelease
  have hsecond : Kept x fire (log ++ [.release id ticks] ++ [.reset id])
      { l with held := false } consumed :=
    hfirst.concat (Ne.symm hfire) (fun hm => (nomatch hm)) (fun _ hm => (nomatch hm))
      (fun _ h => h) rfl rfl
  rwa [append_assoc] at hsecond

end

end Other

/-- What is known of a timer whose fire raised. -/
theorem told_of_raised (h : Kept x fire log l consumed) (hdue : Kept.Due x l ticks)
    (hne : ∀ ticks, fire ≠ .release x.id ticks) (hreturned : Moment.returned x.id ≠ fire) :
    Told x fire (log ++ [.release x.id ticks, fire]) l.fired consumed := by
  obtain ⟨-, -, htimed, -, hfired, hconsumed⟩ := h.due hdue hne
  refine ⟨htimed, by simp [hfired, hconsumed], ?_, fun cursor hcursor => ?_⟩
  · rw [h.returned]
    simp [hreturned]
  · rw [hconsumed] at hcursor
    cases hcursor

/-- What holds of one item, and of those with other keys, holds of all. -/
theorem forall_mem_of_nodup_map {α β : Type} {l : List α} {key : α → β} {a : α}
    (hnd : (l.map key).Nodup) (ha : a ∈ l) {P : α → Prop} (hself : P a)
    (hothers : ∀ b ∈ l, key b ≠ key a → P b) : ∀ b ∈ l, P b := by
  intro b hb
  by_cases hkey : key b = key a
  · rwa [inj_on_of_nodup_map hnd hb ha hkey]
  · exact hothers b hb hkey

/-- The state after a reset fired. -/
def afterReset (s : Scheduler ρ) (runner : ρ) (id : String) (ticks : String → ℤ)
    (cursor : ConsumptionCursor) : Scheduler ρ :=
  { s with
    runner := runner
    log := s.log ++ [.release id ticks, .reset id] ++ [.returned id]
    consumedCursors := s.consumedCursors.set id cursor
    resets := { s.resets with
      fired := s.resets.fired ++ [id]
      pending := s.resets.pending.erase id }.clearMatches
    actions := s.actions.clearMatches }

theorem Good.afterReset (hg : g.Checks) (h : Good g s) (hq : q ∈ g.resetActions)
    (hdue : due s.resets ticks (q.timer g) = true)
    (hcursor : s.selectedCursors.get? q.actionId = some cursor) (runner : ρ) :
    Good g (s.afterReset runner q.actionId ticks cursor) := by
  constructor
  · intro a ha
    have hid := action_ne_reset hg ha hq
    have hlook : look ((s.afterReset runner q.actionId ticks cursor).actions, s.selectedCursors)
        a.actionId = { look (s.actions, s.selectedCursors) a.actionId with held := false } :=
      look_clearMatches _ _ _
    have hconsumed : (s.afterReset runner q.actionId ticks cursor).consumedCursors.get? a.actionId =
        s.consumedCursors.get? a.actionId := get?_set_of_ne _ hid _
    rw [hconsumed]
    exact hlook ▸ kept_returned_other (kept_reset_other (h.actions a ha) hid nofun
      nofun) hid nofun
  · refine forall_mem_of_nodup_map (nodup_append.1 hg.ids).2.1 hq ?_ fun p hp hid => ?_
    · obtain ⟨cursor', hcursor', htimed, hfired, -, -⟩ :=
        (h.resets q hq).due ((due_eq_true s.selectedCursors).1 hdue) (fun _ h => nomatch h)
      obtain rfl : cursor = cursor' := Option.some.inj (hcursor.symm.trans hcursor')
      have hlook : look ((s.afterReset runner q.actionId ticks cursor).resets, s.selectedCursors)
          q.actionId = { look (s.resets, s.selectedCursors) q.actionId with
            fired := true, pending := none, held := false } := by
        refine (look_clearMatches _ _ _).trans ?_
        rw [look_fired_self]
      have hconsumed : (s.afterReset runner q.actionId ticks cursor).consumedCursors.get?
          q.actionId = some cursor := get?_set_self _ _ _
      rw [hconsumed]
      exact hlook ▸ Kept.fired_returned htimed hfired nofun rfl rfl
    · have hlook : look ((s.afterReset runner q.actionId ticks cursor).resets, s.selectedCursors)
          p.actionId = { look (s.resets, s.selectedCursors) p.actionId with held := false } := by
        refine (look_clearMatches _ _ _).trans ?_
        rw [look_fired_of_ne hid]
      have hconsumed : (s.afterReset runner q.actionId ticks cursor).consumedCursors.get?
          p.actionId = s.consumedCursors.get? p.actionId := get?_set_of_ne _ hid _
      rw [hconsumed]
      exact hlook ▸ kept_returned_other (kept_reset_other (h.resets p hp) hid nofun
        (fun h => hid (Moment.reset.inj h))) hid nofun

/-- The state after a fire was written down and the runner was asked for it. -/
def asked (s : Scheduler ρ) (runner : ρ) (moments : List Moment) : Scheduler ρ :=
  { s with runner := runner, log := s.log ++ moments }

theorem perform_asked {x : Effect ρ α} {result : Except Exn α} (h : x s.runner = (result, runner))
    (moments : List Moment) :
    perform x (asked s s.runner moments) = (result, asked s runner moments) :=
  zoom_of_eq h

theorem record_apply (moments : List Moment) : record moments s = (.ok (), asked s s.runner moments) := rfl

theorem selectedCursor_of (h : s.selectedCursors.get? id = some cursor) :
    selectedCursor id s = (.ok cursor, s) := by
  rw [selectedCursor, bind_of_ok (get_apply s), h]
  rfl

/-- A reset that is not due. -/
theorem releaseReset_notDue (hdue : due s.resets (r.localTicks s.runner) (q.timer g) = false) :
    releaseReset r g q s = (.ok (), asked s s.runner [.release q.actionId (r.localTicks s.runner)]) := by
  rw [releaseReset, bind_of_ok (get_apply s)]
  simp only [hdue]
  rfl

/-- A reset that is due and raises. -/
theorem releaseReset_raised (hdue : due s.resets (r.localTicks s.runner) (q.timer g) = true)
    (hreset : r.resetAll q.policy s.runner = (.error e, runner)) :
    releaseReset r g q s = (.error e, asked s runner
      [.release q.actionId (r.localTicks s.runner), .reset q.actionId]) := by
  rw [releaseReset, bind_of_ok (get_apply s)]
  simp only [hdue, if_true]
  rw [bind_of_ok (record_apply _), bind_of_error (perform_asked hreset _)]
  rfl

/-- A reset that is due. -/
theorem releaseReset_due (hdue : due s.resets (r.localTicks s.runner) (q.timer g) = true)
    (hreset : r.resetAll q.policy s.runner = (.ok (), runner))
    (hcursor : s.selectedCursors.get? q.actionId = some cursor) :
    releaseReset r g q s = (.ok (), s.afterReset runner q.actionId (r.localTicks s.runner) cursor) := by
  rw [releaseReset, bind_of_ok (get_apply s)]
  simp only [hdue, if_true]
  rw [bind_of_ok (record_apply _), bind_of_ok (perform_asked hreset _),
    bind_of_ok (record_apply _), bind_of_ok (modify_apply _ _)]
  refine (bind_of_ok (selectedCursor_of ?_)).trans rfl
  exact hcursor

/-- What an outcome and a state are, when a computation is known to give them. -/
theorem safe_of_eq {x : Effect (Scheduler ρ) Unit} {result : Except Exn Unit}
    (hx : x s = (result, s')) (hgood : result = .ok () → Good g s') (hfair : Fair g s') :
    (∀ a t, x s = (.ok a, t) → Good g t) ∧ ∀ e t, x s = (.error e, t) → Fair g t := by
  rw [hx]
  refine ⟨fun a t heq => ?_, fun e t heq => ?_⟩
  · obtain ⟨hresult, rfl⟩ := Prod.mk.inj heq
    exact hgood hresult
  · cases heq
    exact hfair

/-- **A release point of a reset.** -/
theorem releaseReset_safe (hg : g.Checks) (hq : q ∈ g.resetActions) :
    Effect.Safe (Good g) (Fair g) (releaseReset r g q) := by
  intro s h
  have hids : (g.resetActions.map ResetAction.actionId).Nodup := (nodup_append.1 hg.ids).2.1
  by_cases hdue : due s.resets (r.localTicks s.runner) (q.timer g) = true
  · have hdue' := (due_eq_true s.selectedCursors).1 hdue
    obtain ⟨cursor, hcursor, -⟩ := (h.resets q hq).due hdue' (fun _ h => nomatch h)
    cases hreset : r.resetAll q.policy s.runner with
    | mk result runner =>
      cases result with
      | ok u =>
        have hgood := h.afterReset hg hq hdue hcursor runner
        exact safe_of_eq (releaseReset_due hdue hreset hcursor) (fun _ => hgood) hgood.fair
      | error e =>
        refine safe_of_eq (releaseReset_raised hdue hreset) nofun ⟨?_, ?_⟩
        · intro a ha
          exact told_of_kept (kept_reset_other (h.actions a ha) (action_ne_reset hg ha hq)
            nofun nofun)
        · refine forall_mem_of_nodup_map hids hq ?_ fun p hp hid => ?_
          · exact told_of_raised (h.resets q hq) hdue' (fun _ h => nomatch h) nofun
          · exact told_of_kept (kept_reset_other (h.resets p hp) hid nofun
              (fun h => hid (Moment.reset.inj h)))
  · have hgood : Good g (asked s s.runner [.release q.actionId (r.localTicks s.runner)]) := by
      constructor
      · intro a ha
        exact kept_release_other (h.actions a ha) (action_ne_reset hg ha hq) nofun
      · refine forall_mem_of_nodup_map hids hq ?_ fun p hp hid => ?_
        · exact (h.resets q hq).notDue (mt (due_eq_true s.selectedCursors).2 hdue)
            nofun
        · exact kept_release_other (h.resets p hp) hid nofun
    exact safe_of_eq (releaseReset_notDue (Bool.eq_false_iff.2 hdue)) (fun _ => hgood) hgood.fair

/-- The state after an action fired. -/
def afterInject (s : Scheduler ρ) (runner : ρ) (id : String) (ticks : String → ℤ)
    (cursor : ConsumptionCursor) : Scheduler ρ :=
  { s with
    runner := runner
    log := s.log ++ [.release id ticks, .inject id] ++ [.returned id]
    consumedCursors := s.consumedCursors.set id cursor
    actions := { s.actions with
      fired := s.actions.fired ++ [id]
      pending := s.actions.pending.erase id } }

theorem Good.afterInject (hg : g.Checks) (h : Good g s) (ha : a ∈ g.actions)
    (hdue : due s.actions ticks a.timer = true)
    (hcursor : s.selectedCursors.get? a.actionId = some cursor) (runner : ρ) :
    Good g (s.afterInject runner a.actionId ticks cursor) := by
  constructor
  · refine forall_mem_of_nodup_map hg.actionIds ha ?_ fun b hb hid => ?_
    · obtain ⟨cursor', hcursor', htimed, hfired, -, -⟩ :=
        (h.actions a ha).due ((due_eq_true s.selectedCursors).1 hdue) (fun _ h => nomatch h)
      obtain rfl : cursor = cursor' := Option.some.inj (hcursor.symm.trans hcursor')
      have hconsumed : (s.afterInject runner a.actionId ticks cursor).consumedCursors.get?
          a.actionId = some cursor := get?_set_self _ _ _
      rw [hconsumed]
      exact look_fired_self s.actions s.selectedCursors a.actionId ▸
        Kept.fired_returned htimed hfired nofun rfl rfl
    · have hconsumed : (s.afterInject runner a.actionId ticks cursor).consumedCursors.get?
          b.actionId = s.consumedCursors.get? b.actionId := get?_set_of_ne _ hid _
      rw [hconsumed]
      have hlook : look ((s.afterInject runner a.actionId ticks cursor).actions, s.selectedCursors)
          b.actionId = look (s.actions, s.selectedCursors) b.actionId := look_fired_of_ne hid
      exact hlook ▸ kept_returned_other (kept_inject_other (h.actions b hb) hid nofun
        (fun h => hid (Moment.inject.inj h))) hid nofun
  · intro q hq
    have hid : q.actionId ≠ a.actionId := (action_ne_reset hg ha hq).symm
    have hconsumed : (s.afterInject runner a.actionId ticks cursor).consumedCursors.get? q.actionId =
        s.consumedCursors.get? q.actionId := get?_set_of_ne _ hid _
    rw [hconsumed]
    exact kept_returned_other (kept_inject_other (h.resets q hq) hid nofun
      nofun) hid nofun

/-- An action that is not due. -/
theorem releaseAction_notDue (hdue : due s.actions (r.localTicks s.runner) a.timer = false) :
    releaseAction r a s = (.ok (), asked s s.runner [.release a.actionId (r.localTicks s.runner)]) := by
  rw [releaseAction, bind_of_ok (get_apply s)]
  simp only [hdue]
  rfl

/-- An action that is due and raises. -/
theorem releaseAction_raised (hdue : due s.actions (r.localTicks s.runner) a.timer = true)
    (hinject : r.injectSource a s.runner = (.error e, runner)) :
    releaseAction r a s = (.error e, asked s runner
      [.release a.actionId (r.localTicks s.runner), .inject a.actionId]) := by
  rw [releaseAction, bind_of_ok (get_apply s)]
  simp only [hdue, if_true]
  rw [bind_of_ok (record_apply _), bind_of_error (perform_asked hinject _)]
  rfl

/-- An action that is due. -/
theorem releaseAction_due (hdue : due s.actions (r.localTicks s.runner) a.timer = true)
    (hinject : r.injectSource a s.runner = (.ok (), runner))
    (hcursor : s.selectedCursors.get? a.actionId = some cursor) :
    releaseAction r a s = (.ok (), s.afterInject runner a.actionId (r.localTicks s.runner) cursor) := by
  rw [releaseAction, bind_of_ok (get_apply s)]
  simp only [hdue, if_true]
  rw [bind_of_ok (record_apply _), bind_of_ok (perform_asked hinject _),
    bind_of_ok (record_apply _), bind_of_ok (modify_apply _ _)]
  refine (bind_of_ok (selectedCursor_of ?_)).trans rfl
  exact hcursor

/-- **A release point of an action.** -/
theorem releaseAction_safe (hg : g.Checks) (ha : a ∈ g.actions) :
    Effect.Safe (Good g) (Fair g) (releaseAction r a) := by
  intro s h
  by_cases hdue : due s.actions (r.localTicks s.runner) a.timer = true
  · have hdue' := (due_eq_true s.selectedCursors).1 hdue
    obtain ⟨cursor, hcursor, -⟩ := (h.actions a ha).due hdue' (fun _ h => nomatch h)
    cases hinject : r.injectSource a s.runner with
    | mk result runner =>
      cases result with
      | ok u =>
        have hgood := h.afterInject hg ha hdue hcursor runner
        exact safe_of_eq (releaseAction_due hdue hinject hcursor) (fun _ => hgood) hgood.fair
      | error e =>
        refine safe_of_eq (releaseAction_raised hdue hinject) nofun ⟨?_, ?_⟩
        · refine forall_mem_of_nodup_map hg.actionIds ha ?_ fun b hb hid => ?_
          · exact told_of_raised (h.actions a ha) hdue' (fun _ h => nomatch h) nofun
          · exact told_of_kept (kept_inject_other (h.actions b hb) hid nofun
              (fun h => hid (Moment.inject.inj h)))
        · intro q hq
          exact told_of_kept (kept_inject_other (h.resets q hq) (action_ne_reset hg ha hq).symm
            nofun nofun)
  · have hgood : Good g (asked s s.runner [.release a.actionId (r.localTicks s.runner)]) := by
      constructor
      · refine forall_mem_of_nodup_map hg.actionIds ha ?_ fun b hb hid => ?_
        · exact (h.actions a ha).notDue (mt (due_eq_true s.selectedCursors).2 hdue)
            nofun
        · exact kept_release_other (h.actions b hb) hid nofun
      · intro q hq
        exact kept_release_other (h.resets q hq) (action_ne_reset hg ha hq).symm nofun
    exact safe_of_eq (releaseAction_notDue (Bool.eq_false_iff.2 hdue)) (fun _ => hgood) hgood.fair

/-- **A release pass.** -/
theorem releaseDue_safe (hg : g.Checks) : Effect.Safe (Good g) (Fair g) (releaseDue r g) :=
  .bind (.each fun _ hq => releaseReset_safe hg hq) fun _ =>
    .each fun _ ha => releaseAction_safe hg ha

/-! ### Runs -/

theorem Good.of_eq (h : Good g s) (hactions : s'.actions = s.actions)
    (hresets : s'.resets = s.resets) (hselected : s'.selectedCursors = s.selectedCursors)
    (hconsumed : s'.consumedCursors = s.consumedCursors) (hlog : s'.log = s.log) : Good g s' := by
  constructor
  · intro a ha
    rw [hactions, hselected, hconsumed, hlog]
    exact h.actions a ha
  · intro q hq
    rw [hresets, hselected, hconsumed, hlog]
    exact h.resets q hq

theorem Fair.of_runner (h : Fair g s) (runner : ρ) : Fair g { s with runner := runner } :=
  ⟨h.actions, h.resets⟩

theorem perform_safe (x : Effect ρ α) : Effect.Safe (Good g) (Fair g) (perform x) := by
  intro s h
  have hgood : Good g (perform x s).2 := h.of_eq rfl rfl rfl rfl rfl
  refine ⟨fun a t heq => ?_, fun e t heq => ?_⟩
  · rw [heq] at hgood
    exact hgood
  · rw [heq] at hgood
    exact hgood.fair

/-- **One step of a component, and what follows from it.** -/
theorem stepOnce_safe (hg : g.Checks) (hclock : g.SameClock) (component : String) :
    Effect.Safe (Good g) (Fair g) (stepOnce r g component) := by
  refine .bind (perform_safe _) fun outputs => ?_
  refine .bind .get fun s => ?_
  refine .bind (.lift (fun _ h => h.fair) _) fun window => ?_
  refine .bind (.lift (fun _ h => h.fair) _) fun observed => ?_
  refine .bind (.modify fun s h => h.of_eq rfl rfl rfl rfl rfl) fun _ => ?_
  refine .bind (.each fun o _ => .modify fun s h => h.observe hg hclock o) fun _ => ?_
  refine .bind (releaseDue_safe hg) fun _ => ?_
  exact .modify fun s h => h.of_eq rfl rfl rfl rfl rfl

theorem stepBatch_safe (hg : g.Checks) (hclock : g.SameClock) (schedule : List String) :
    Effect.Safe (Good g) (Fair g) (stepBatch r g schedule) :=
  .bind (.lift (fun _ h => h.fair) _) fun _ => .bind (.lift (fun _ h => h.fair) _) fun _ =>
    .each fun component _ => stepOnce_safe hg hclock component

theorem stepBatches_safe (hg : g.Checks) (hclock : g.SameClock) (sizes : List ℕ) :
    ∀ fuel offset batchIndex : ℕ, Effect.Safe (Good g) (Fair g) (stepBatches r g sizes fuel offset batchIndex)
  | 0, _, _ => .pure ()
  | fuel + 1, offset, batchIndex => by
      rw [stepBatches]
      split_ifs with h
      · exact .bind (stepBatch_safe hg hclock _) fun _ => stepBatches_safe hg hclock sizes fuel _ _
      · exact .pure ()

/-- **The whole testcase.** -/
theorem body_safe (hg : g.Checks) (hclock : g.SameClock) (batchSizes : Option (List ℕ)) :
    Effect.Safe (Good g) (Fair g) (body r g batchSizes) := by
  have hsteps : Effect.Safe (Good g) (Fair g) (stepAll r g batchSizes) := by
    cases batchSizes with
    | none => exact .each fun component _ => stepOnce_safe hg hclock component
    | some sizes => exact stepBatches_safe hg hclock sizes _ _ _
  refine .bind (perform_safe _) fun _ => .bind (releaseDue_safe hg) fun _ =>
    .bind (.modify fun s h => h.of_eq rfl rfl rfl rfl rfl) fun _ => .bind hsteps fun _ => ?_
  split_ifs
  · exact .bind (perform_safe _) fun _ => .pure _
  · exact .pure _

/-- A run that has not begun has nothing to answer for. -/
theorem Fresh.fair (h : Fresh g s) : Fair g s := by
  constructor
  · intro a _
    rw [h.log, h.consumed, h.actions]
    refine ⟨timed_nil, by simp [Track.init], by simp [Track.init], fun cursor hcursor => ?_⟩
    cases hcursor
  · intro q _
    rw [h.log, h.consumed, h.resets]
    refine ⟨timed_nil, by simp [Track.init], by simp [Track.init], fun cursor hcursor => ?_⟩
    cases hcursor

/-- **A run ends fair, and reports the state it ends in.** -/
theorem finish_fair (hg : g.Checks) (hclock : g.SameClock) (batchSizes : Option (List ℕ))
    (h : Good g s) : Fair g (finish r g batchSizes s).2 ∧ ∀ result, (finish r g batchSizes s).1 = .ok result →
        ∃ quiesce failure, result = Scheduler.result g (finish r g batchSizes s).2 quiesce failure := by
  obtain ⟨hok, herror⟩ := body_safe (r := r) hg hclock batchSizes s h
  have hended : Fair g (body r g batchSizes s).2 := by
    cases hbody : body r g batchSizes s with
    | mk result t =>
      cases result with
      | ok quiesce => exact (hok quiesce t hbody).fair
      | error e => exact herror e t hbody
  have hfinal : Fair g (perform r.finalize (body r g batchSizes s).2).2 := hended.of_runner _
  unfold finish
  cases hperform : perform r.finalize (body r g batchSizes s).2 with
  | mk result t =>
    rw [hperform] at hfinal
    cases result with
    | ok u =>
      simp only [hperform]
      exact ⟨hfinal, fun result hresult => ⟨_, _, (Except.ok.inj hresult).symm⟩⟩
    | error e =>
      simp only [hperform]
      exact ⟨hfinal, fun result hresult => (nomatch hresult)⟩

/-- **What holds at the end of every run.** -/
theorem run_fair (hg : g.Valid) (hclock : g.SameClock) (batchSizes : Option (List ℕ)) (runner : ρ) :
    Fair g (run r g batchSizes (init g runner)).2 ∧
      ∀ result, (run r g batchSizes (init g runner)).1 = .ok result → ∃ quiesce failure, result =
          Scheduler.result g (run r g batchSizes (init g runner)).2 quiesce failure := by
  have hchecks := ScenarioGenome.validate_eq_ok.1 hg.genome
  have hinit : Fresh g (init g runner) := ⟨rfl, rfl, rfl, rfl⟩
  have hpreload : Effect.Safe (Fresh g) (Fresh g) (each
      (fun image => perform (r.preloadImage image)) g.initialImages) := by
    refine .each fun image _ s h => ?_
    have hfresh : Fresh g (perform (r.preloadImage image) s).2 := ⟨h.actions, h.resets, h.consumed, h.log⟩
    exact ⟨fun a t heq => by rwa [heq] at hfresh, fun e t heq => by rwa [heq] at hfresh⟩
  rw [run]
  cases hprecheck : precheck r g batchSizes with
  | error e =>
    rw [bind_of_error (lift_apply _ _)]
    exact ⟨hinit.fair, fun result hresult => (nomatch hresult)⟩
  | ok u =>
    rw [bind_of_ok (lift_apply _ _)]
    obtain ⟨hok, herror⟩ := hpreload _ hinit
    cases hrun : each (fun image => perform (r.preloadImage image)) g.initialImages
        (init g runner) with
    | mk result s =>
      cases result with
      | error e =>
        rw [bind_of_error hrun]
        exact ⟨(herror e s hrun).fair, fun result hresult => (nomatch hresult)⟩
      | ok u =>
        rw [bind_of_ok hrun, selectStart, bind_of_ok (modify_apply _ s)]
        exact finish_fair hchecks hclock batchSizes ((hok u s hrun).start hg hclock _ _)

/-- **What a run reports of a timer**: it fired exactly when the runner returned from it, and exactly
when a cursor was kept, and the cursor is that of the moment that selected it. -/
structure Reported (x : Timer) (fire : Moment) (log : List Moment) (fired : List String)
    (records : List (String × ConsumptionCursor)) : Prop where
  returned : x.id ∈ fired ↔ .returned x.id ∈ log
  fired_iff : x.id ∈ fired ↔ ∃ cursor, (x.id, cursor) ∈ records
  cursor : ∀ cursor, (x.id, cursor) ∈ records → x.Fired fire log cursor ∧ cursor.kind = x.trigger.kind ∧
    (x.trigger.kind = .afterOutput → cursor.occurrence = x.trigger.occurrence)

theorem perm_ids (fired all : List String) : (ids fired true all ++ ids fired false all).Perm all := by
  have hnot : ids fired false all = all.filter fun id => !(decide (id ∈ fired) == true) := by
    refine filter_congr fun id _ => ?_
    cases decide (id ∈ fired) <;> rfl
  rw [hnot]
  exact filter_append_perm _ all

theorem mem_ids (h : id ∈ all) : id ∈ ids fired true all ↔ id ∈ fired := by
  simp [ids, h]

theorem mem_records {s : Scheduler ρ} {quiesce : Option QuiesceResult} {failure : Option String}
    (h : id ∈ g.actions.map actionId ++ g.resetActions.map ResetAction.actionId) :
    (id, cursor) ∈ (result g s quiesce failure).consumptionCursorRecords ↔
      s.consumedCursors.get? id = some cursor := by
  simp only [result, mem_filterMap, Option.map_eq_some_iff, Prod.mk.injEq]
  constructor
  · rintro ⟨id', -, cursor', hcursor, rfl, rfl⟩
    exact hcursor
  · intro hcursor
    exact ⟨id, h, cursor, hcursor, rfl, rfl⟩

theorem reported_of_told {records : List (String × ConsumptionCursor)}
    (h : Told x fire log (decide (x.id ∈ fired)) consumed) (hall : x.id ∈ all)
    (hrecords : ∀ cursor, (x.id, cursor) ∈ records ↔ consumed = some cursor) :
    Reported x fire log (ids fired true all) records := by
  refine ⟨?_, ?_, fun cursor hcursor => ?_⟩
  · rw [mem_ids hall, ← decide_eq_true_iff (p := x.id ∈ fired), h.returned]
  · rw [mem_ids hall, ← decide_eq_true_iff (p := x.id ∈ fired), h.fired_iff,
      Option.isSome_iff_exists]
    exact exists_congr fun cursor => (hrecords cursor).symm
  · have hfired := h.cursor cursor ((hrecords cursor).1 hcursor)
    exact ⟨hfired, hfired.occurrence⟩

/-- Two components, one of which ticks five times a step; both always put out the same value. -/
def exampleRunner : ScenarioRunner (List String) where
  sessions := ["cpu", "ip"]
  ownership := ⟨.empty⟩
  canReset _ := true
  localTicks steps component := if component = "cpu" then 5 * steps.count "cpu" else steps.count "ip"
  commandEpoch _ := 0
  eventCount steps := steps.length
  eventsSince steps first := .ok ((steps.drop first).map fun component =>
    ⟨steps.length, some component, none, some (Dict.empty.set "irq" (.int 1))⟩)
  failureStatus _ := none
  preloadImage _ := pure ()
  beginTest _ := pure ()
  resetAll _ := pure ()
  injectSource _ := pure ()
  step component := do
    Effect.modify fun steps => steps ++ [component]
    pure (Dict.empty.set "irq" (.int 1))
  quiesce _ := pure ⟨"drained"⟩
  finalize := pure ()
  intOfHex _ := .ok 0

/-- A reset three ticks after the interrupt. -/
def exampleReset (delayComponent : String) : ResetAction :=
  ⟨"reset", .warmAll, ⟨.afterOutput, "ip", "irq", 1, 1, 1⟩, delayComponent, 3⟩

/-- One step of each component, and a reset. -/
def exampleGenome (delayComponent : String) : ScenarioGenome where
  testcaseId := "testcase"
  direction := .ipToCpu
  pathId := "path"
  scheduleOrder := ["cpu", "ip"]
  maxSteps := 2
  actions := []
  initialImages := []
  encodingVersion := 3
  resetActions := [exampleReset delayComponent]
  quiesceSteps := 0

/-- What the scheduler sees of a step. -/
def exampleObservation (component : String) (steps : List String) : Observation :=
  ⟨component, steps.length, 0, Dict.empty.set "irq" (.int 1), exampleRunner.localTicks steps⟩

/-- What happened before the interrupt. -/
def exampleEarlier : List Moment :=
  [.start (exampleRunner.localTicks []) 0, .release "reset" (exampleRunner.localTicks []),
    .observed (exampleObservation "cpu" ["cpu"]), .release "reset" (exampleRunner.localTicks ["cpu"])]

theorem exampleLog_eq : (run exampleRunner (exampleGenome "") none
    (init (exampleGenome "") [])).2.log =
      exampleEarlier ++ [.observed (exampleObservation "ip" ["cpu", "ip"])] ++
        [.release "reset" (exampleRunner.localTicks ["cpu", "ip"])] ++
        [.reset "reset", .returned "reset"] := rfl

/-- A step lets no clock of the example go back. -/
theorem exampleRunner_ticks (steps : List String) (component clock : String) :
    exampleRunner.localTicks steps clock ≤
      exampleRunner.localTicks (exampleRunner.step component steps).2 clock := by
  change exampleRunner.localTicks steps clock ≤ exampleRunner.localTicks (steps ++ [component]) clock
  simp only [exampleRunner, count_append]
  split_ifs <;> omega

end Scheduler

end MyFuzz
