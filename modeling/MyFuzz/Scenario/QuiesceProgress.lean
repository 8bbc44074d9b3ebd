import MyFuzz.Scenario.Quiesce

/-!
# Scenario/QuiesceProgress — a drain ends within its steps

A pass over the sessions makes progress if the work that made the loop go on is work of a session:

    key of a pending map ──▸ session ──▸ first waiting session is stepped

Counts are reported by sessions, pulses and bound inputs go to targets of bindings, which the
constructor checks,
and a queued request is for a window of its router, which the constructor checks too, except for the
windows of local shadows.  So the law needs that nothing is queued for such a window.
-/

namespace MyFuzz

open Outcome Effect Dict

namespace QuiesceScene

open List hiding getD

variable {World Log : Type} {scene : QuiesceScene World Log} {w : World}

/-! ## Who has pending work -/

/-- **A count that is reported is the count of a session.** -/
theorem get?_pendingCounts {noun : String} {count : String → ℤ} {keep : ℤ → Bool} {counts : Dict String ℤ}
    (h : scene.pendingCounts noun count keep = .ok counts) (component : String) :
    counts.get? component =
      if component ∈ scene.sessions ∧
        keep (count component) = true then some (count component) else none := by
  have hfold : ∀ (sessions : List String) (before : Dict String ℤ),
      sessions.foldlM (fun counts component => do
        ensure (0 ≤ count component) (.valueError s!"invalid pending {noun} count for {component}")
        return if keep (count component) = true then counts.set component (count component) else counts)
        before = .ok counts →
      counts.get? component =
        if component ∈ sessions ∧ keep (count component) = true then some (count component)
        else before.get? component := by
    intro sessions
    induction sessions with
    | nil =>
      intro before heq
      cases heq
      rw [if_neg fun hmem => not_mem_nil hmem.1]
    | cons first sessions ih =>
      intro before heq
      obtain ⟨after, hafter, heq⟩ := bind_ok.1 heq
      obtain ⟨-, hafter⟩ := ensure_ok.1 hafter
      cases hafter
      rw [ih _ heq]
      by_cases hkeep : keep (count component) = true
      · by_cases hfirst : component = first
        · subst hfirst
          simp only [hkeep, and_true, if_true, get?_set_self, mem_cons_self, ite_self]
        · have hset : get? (if keep (count first) = true then before.set first (count first) else before)
              component = before.get? component := by
            split_ifs
            · exact get?_set_of_ne before hfirst _
            · rfl
          rw [hset]
          simp only [hkeep, and_true, mem_cons, hfirst, false_or]
      · have hnot : ∀ l : List String, ¬ (component ∈ l ∧ keep (count component) = true) :=
          fun _ hmem => hkeep hmem.2
        rw [if_neg (hnot _), if_neg (hnot _)]
        split_ifs with hother
        · exact get?_set_of_ne before (fun heq => hkeep (by rwa [heq])) _
        · rfl
  exact hfold scene.sessions .empty h

/-- **The keys of added counts.** -/
theorem get?_addCounts_isSome {component : String} : ∀ {more : List (String × ℕ)} {counts : Dict String ℕ},
    ((addCounts counts more).get? component).isSome ↔
      (counts.get? component).isSome ∨ ∃ e ∈ more, e.1 = component
  | [], counts => by simp [addCounts]
  | first :: more, counts => by
    have ih := @get?_addCounts_isSome component more (counts.set first.1 (counts.getD first.1 0 + first.2))
    change ((addCounts _ more).get? component).isSome ↔ _
    rw [ih, get?_set]
    by_cases h : component = first.1
    · simp [h]
    · simp [h, Ne.symm h]

/-- Each count is of something. -/
def Positive (counts : Dict String ℕ) : Prop := ∀ component n, counts.get? component = some n → 0 < n

theorem positive_empty : Positive .empty := by
  intro component n h
  cases h

theorem Positive.addCounts : ∀ {more : List (String × ℕ)} {counts : Dict String ℕ}, Positive counts →
    (∀ e ∈ more, 0 < e.2) → Positive (addCounts counts more)
  | [], _, h, _ => h
  | first :: more, counts, h, hmore => by
    refine @Positive.addCounts more _ (fun component n hget => ?_)
      fun e he => hmore e (.tail _ he)
    rw [get?_set] at hget
    split_ifs at hget
    · have := hmore first (.head _)
      cases hget
      omega
    · exact h component n hget

/-- A count that is kept only if it counts something. -/
theorem getD_pos_of_isSome {counts : Dict String ℕ} (h : Positive counts) {component : String}
    (hsome : (counts.get? component).isSome) : counts.getD component 0 ≠ 0 := by
  obtain ⟨n, hn⟩ := Option.isSome_iff_exists.1 hsome
  have := h component n hn
  rw [getD, hn]
  exact this.ne'

/-- A map with an entry has a key. -/
theorem exists_isSome {ν : Type} {counts : Dict String ν} (h : counts.entries ≠ []) :
    ∃ component, (counts.get? component).isSome := by
  obtain ⟨e, he⟩ := exists_mem_of_ne_nil _ h
  exact ⟨e.1, mem_keys_iff.1 (mem_map_of_mem he)⟩

theorem entries_ne_nil {ν : Type} {counts : Dict String ν} {component : String}
    (h : (counts.get? component).isSome) : counts.entries ≠ [] := by
  intro hnil
  have := mem_keys_iff.2 h
  rw [Dict.keys, hnil] at this
  exact not_mem_nil this

/-! ### Pulses -/

theorem get?_pendingIrqPulses_isSome {component : String} :
    ((scene.pendingIrqPulses w).get? component).isSome ↔
      ∃ b ∈ scene.irqPulses, scene.pulsePending w b = true ∧ b.targetComponent = component := by
  rw [pendingIrqPulses, get?_addCounts_isSome]
  simp [and_assoc]

theorem positive_pendingIrqPulses : Positive (scene.pendingIrqPulses w) := by
  refine positive_empty.addCounts fun e he => ?_
  obtain ⟨b, -, rfl⟩ := mem_map.1 he
  exact Nat.one_pos

/-! ### Queued requests -/

theorem get?_pendingTargetCounts_isSome {router : ℕ} {component : String} :
    ((scene.pendingTargetCounts w router).get? component).isSome ↔
      ∃ window ∈ scene.queued w router, window.deviceId = component := by
  rw [pendingTargetCounts, get?_addCounts_isSome]
  simp

theorem positive_pendingTargetCounts (router : ℕ) : Positive (scene.pendingTargetCounts w router) := by
  refine positive_empty.addCounts fun e he => ?_
  obtain ⟨window, -, rfl⟩ := mem_map.1 he
  exact Nat.one_pos

theorem mem_uniqueRouters {router : ℕ} :
    router ∈ scene.uniqueRouters ↔ ∃ component ∈ scene.sessions, scene.routerOf component = some router := by
  rw [uniqueRouters, Sequence.mem_firsts, mem_filterMap]
  simp [mem_insertionSort]

/-- **The devices of queued requests.** -/
theorem get?_pendingTargetRequests_isSome {component : String} :
    ((scene.pendingTargetRequests w).get? component).isSome ↔
      ∃ router ∈ scene.uniqueRouters, ∃ window ∈ scene.queued w router, window.deviceId = component := by
  have hfold : ∀ (routers : List ℕ) (before : Dict String ℕ),
      ((routers.foldl (fun counts router => addCounts counts (scene.pendingTargetCounts w router).entries)
        before).get? component).isSome ↔ (before.get? component).isSome ∨
          ∃ router ∈ routers, ∃ window ∈ scene.queued w router, window.deviceId = component := by
    intro routers
    induction routers with
    | nil => simp
    | cons router routers ih =>
      intro before
      have hentries : (∃ e ∈ (scene.pendingTargetCounts w router).entries, e.1 = component) ↔
          ∃ window ∈ scene.queued w router, window.deviceId = component := by
        rw [← get?_pendingTargetCounts_isSome, ← mem_keys_iff, Dict.keys, mem_map]
      rw [foldl_cons, ih, get?_addCounts_isSome, hentries, or_assoc, exists_mem_cons_iff]
  rw [pendingTargetRequests, hfold]
  simp

theorem positive_pendingTargetRequests : Positive (scene.pendingTargetRequests w) := by
  have hfold : ∀ (routers : List ℕ) {before : Dict String ℕ}, Positive before →
      Positive (routers.foldl (fun counts router =>
        addCounts counts (scene.pendingTargetCounts w router).entries) before) := by
    intro routers
    induction routers with
    | nil => exact fun h => h
    | cons router routers ih =>
      intro before h
      refine ih (h.addCounts fun e he => ?_)
      exact positive_pendingTargetCounts router e.1 e.2 (mem_entries_iff.1 he)
  exact hfold _ positive_empty

/-! ## What an accepted runner promises -/

/-- A window that was checked belongs to a session, or it is exempt. -/
theorem checkWindow_eq_ok {component : String} {router : ℕ} {before after : Dict String ℕ}
    {window : DeviceWindow}
    (h : scene.checkWindow component router before window = .ok after) :
    scene.ExemptWindow component window ∨ window.deviceId ∈ scene.sessions := by
  unfold checkWindow at h
  split_ifs at h with hexempt
  · exact .inl hexempt
  · exact .inr (ensure_ok.1 h).1.1

theorem checkWindows_eq_ok {component : String} {router : ℕ} : ∀ {windows : List DeviceWindow}
    {before after : Dict String ℕ}, windows.foldlM (scene.checkWindow component router) before = .ok after →
    ∀ window ∈ windows, scene.ExemptWindow component window ∨ window.deviceId ∈ scene.sessions
  | [], _, _, _, window, hmem => nomatch hmem
  | first :: windows, before, after, h, window, hmem => by
    rw [foldlM_cons] at h
    obtain ⟨between, hfirst, h⟩ := bind_ok.1 h
    rcases mem_cons.1 hmem with rfl | hmem
    · exact checkWindow_eq_ok hfirst
    · exact checkWindows_eq_ok h window hmem

theorem checkRouters_eq_ok : ∀ {sessions : List String} {before after : Dict String ℕ},
    sessions.foldlM scene.checkRouter before = .ok after → ∀ component ∈ sessions, ∀ router,
      scene.routerOf component = some router → ∀ window ∈ scene.windows router,
        scene.ExemptWindow component window ∨ window.deviceId ∈ scene.sessions
  | [], _, _, _, component, hmem => nomatch hmem
  | first :: sessions, before, after, h, component, hmem => by
    intro router hrouter
    rw [foldlM_cons] at h
    obtain ⟨between, hfirst, h⟩ := bind_ok.1 h
    rcases mem_cons.1 hmem with rfl | hmem
    · unfold checkRouter at hfirst
      rw [hrouter] at hfirst
      exact checkWindows_eq_ok hfirst
    · exact checkRouters_eq_ok h component hmem router hrouter

/-- **Bindings end at sessions, and windows that are not exempt belong to sessions.** -/
theorem construct_eq_ok (h : scene.construct = .ok ()) :
    (∀ b ∈ scene.bindings, b.targetComponent ∈ scene.sessions) ∧
      ∀ component ∈ scene.sessions, ∀ router, scene.routerOf component = some router →
        ∀ window ∈ scene.windows router,
          scene.ExemptWindow component window ∨ window.deviceId ∈ scene.sessions := by
  obtain ⟨_, hbindings, _, hrouters, -⟩ := bind_ok₂ h
  exact ⟨fun b hb => (ensure_ok.1 (forM_eq_ok.1 hbindings b hb)).1.2, checkRouters_eq_ok hrouters⟩

/-- No request is queued for the window of a local shadow. -/
def QueuesRegistered (scene : QuiesceScene World Log) : Prop :=
  ∀ w, ∀ component ∈ scene.sessions, ∀ router, scene.routerOf component = some router →
    ∀ window ∈ scene.queued w router, ¬ scene.ExemptWindow component window

/-- **Whoever a drain waits for is a session.** -/
theorem exists_waiting (hscene : scene.construct = .ok ()) (hqueues : scene.QueuesRegistered)
    {p : QuiescePending}
    (hp : scene.readPending w = .ok p) (hbusy : p.Busy) :
    ∃ component ∈ scene.sessions, p.Waiting (scene.boundTargets w) component := by
  obtain ⟨hbindings, hwindows⟩ := construct_eq_ok hscene
  obtain ⟨responses, hresponses, events, hevents, hp⟩ := bind_ok₂ hp
  cases hp
  rcases hbusy with ⟨e, he, hne⟩ | hirq | hevent | htarget | hbound
  · have hget := mem_entries_iff.1 he
    have hkept := get?_pendingCounts hresponses e.1
    split_ifs at hkept with hmem
    · refine ⟨e.1, hmem.1, .inl ?_⟩
      rwa [getD, hget]
    · rw [hkept] at hget
      cases hget
  · obtain ⟨component, hsome⟩ := exists_isSome hirq
    obtain ⟨b, hb, -, rfl⟩ := get?_pendingIrqPulses_isSome.1 hsome
    exact ⟨_, hbindings b (scene.irqPulses_bindings b hb).1,
      .inr (.inl (getD_pos_of_isSome positive_pendingIrqPulses hsome))⟩
  · obtain ⟨component, hsome⟩ := exists_isSome hevent
    have hkept := get?_pendingCounts hevents component
    split_ifs at hkept with hmem
    · refine ⟨component, hmem.1, .inr (.inr (.inl ?_))⟩
      change events.getD component 0 ≠ 0
      rw [getD, hkept]
      exact of_decide_eq_true hmem.2
    · rw [hkept] at hsome
      cases hsome
  · obtain ⟨component, hsome⟩ := exists_isSome htarget
    obtain ⟨router, hrouter, window, hwindow, rfl⟩ := get?_pendingTargetRequests_isSome.1 hsome
    obtain ⟨source, hsource, hrouterOf⟩ := mem_uniqueRouters.1 hrouter
    have hregistered := (hwindows source hsource router hrouterOf window
      (scene.queued_windows w router window hwindow)).resolve_left
        (hqueues w source hsource router hrouterOf window hwindow)
    exact ⟨_, hregistered,
      .inr (.inr (.inr (.inl (getD_pos_of_isSome positive_pendingTargetRequests hsome))))⟩
  · obtain ⟨component, hmem⟩ := exists_mem_of_ne_nil _ hbound
    rw [mem_insertionSort] at hmem
    obtain ⟨b, hb, rfl⟩ := scene.boundTargets_bindings w component hmem
    exact ⟨_, hbindings b hb, .inr (.inr (.inr (.inr hmem)))⟩

/-! ## When nothing is pending -/

/-- Nothing is pending, and every effect is certain. -/
structure Quiet (scene : QuiesceScene World Log) (w : World) : Prop where
  responses : ∀ component ∈ scene.sessions, scene.responses w component = 0
  events : ∀ component ∈ scene.sessions, scene.events w component = 0
  pulses : ∀ b ∈ scene.irqPulses, scene.pulsePending w b = false
  queued : ∀ component ∈ scene.sessions, ∀ router, scene.routerOf component = some router →
    scene.queued w router = []
  boundTargets : scene.boundTargets w = []
  certain : ∀ component ∈ scene.sessions, scene.uncertainKeys w component = []

theorem uncertainTransactions_eq_nil_iff :
    scene.uncertainTransactions w = [] ↔ ∀ component ∈ scene.sessions,
      scene.uncertainKeys w component = [] := by
  constructor
  · intro h component hmem
    refine eq_nil_iff_forall_not_mem.2 fun key hkey => ?_
    have : key ∈ scene.uncertainTransactions w := by
      rw [uncertainTransactions, mem_insertionSort, Sequence.mem_firsts]
      exact mem_flatMap.2 ⟨component, hmem, hkey⟩
    rw [h] at this
    exact not_mem_nil this
  · intro h
    refine eq_nil_iff_forall_not_mem.2 fun key hkey => ?_
    rw [uncertainTransactions, mem_insertionSort, Sequence.mem_firsts] at hkey
    obtain ⟨component, hmem, hkey⟩ := mem_flatMap.1 hkey
    rw [h component hmem] at hkey
    exact not_mem_nil hkey

/-- **Nothing is busy and nothing is uncertain exactly if all is quiet.** -/
theorem not_busy_and_certain_iff {p : QuiescePending} (hp : scene.readPending w = .ok p) :
    (¬ p.Busy ∧ scene.uncertainTransactions w = []) ↔ scene.Quiet w := by
  obtain ⟨responses, hresponses, events, hevents, hp⟩ := bind_ok₂ hp
  cases hp
  constructor
  · intro hrest
    obtain ⟨hbusy, hcertain⟩ := hrest
    refine ⟨fun component hmem => ?_, fun component hmem => ?_, fun b hb => ?_,
      fun component hmem router hrouter => ?_, ?_, uncertainTransactions_eq_nil_iff.1 hcertain⟩
    · by_contra hne
      have hkept := get?_pendingCounts hresponses component
      rw [if_pos ⟨hmem, rfl⟩] at hkept
      exact hbusy (.inl ⟨_, mem_entries_iff.2 hkept, hne⟩)
    · by_contra hne
      have hkept := get?_pendingCounts hevents component
      rw [if_pos ⟨hmem, decide_eq_true hne⟩] at hkept
      exact hbusy (.inr (.inr (.inl (@entries_ne_nil _ _ component (by rw [hkept]; rfl)))))
    · by_contra hne
      refine hbusy (.inr (.inl (@entries_ne_nil _ _ b.targetComponent ?_)))
      exact get?_pendingIrqPulses_isSome.2 ⟨b, hb, eq_true_of_ne_false hne, rfl⟩
    · refine eq_nil_iff_forall_not_mem.2 fun window hwindow => ?_
      refine hbusy (.inr (.inr (.inr (.inl (@entries_ne_nil _ _ window.deviceId ?_)))))
      exact get?_pendingTargetRequests_isSome.2
        ⟨router, mem_uniqueRouters.2 ⟨component, hmem, hrouter⟩, window, hwindow, rfl⟩
    · by_contra hne
      obtain ⟨component, hmem⟩ := exists_mem_of_ne_nil _ hne
      refine hbusy (.inr (.inr (.inr (.inr ?_))))
      exact ne_nil_of_mem ((mem_insertionSort _).2 hmem)
  · intro hquiet
    refine ⟨?_, uncertainTransactions_eq_nil_iff.2 hquiet.certain⟩
    rintro (⟨e, he, hne⟩ | hirq | hevent | htarget | hbound)
    · have hkept := get?_pendingCounts hresponses e.1
      rw [mem_entries_iff.1 he] at hkept
      split_ifs at hkept with hmem
      · exact hne ((Option.some.inj hkept).trans (hquiet.responses e.1 hmem.1))
    · obtain ⟨component, hsome⟩ := exists_isSome hirq
      obtain ⟨b, hb, hpending, -⟩ := get?_pendingIrqPulses_isSome.1 hsome
      exact Bool.false_ne_true ((hquiet.pulses b hb).symm.trans hpending)
    · obtain ⟨component, hsome⟩ := exists_isSome hevent
      rw [get?_pendingCounts hevents component] at hsome
      split_ifs at hsome with hmem
      · exact of_decide_eq_true hmem.2 (hquiet.events component hmem.1)
      · cases hsome
    · obtain ⟨component, hsome⟩ := exists_isSome htarget
      obtain ⟨router, hrouter, window, hwindow, -⟩ := get?_pendingTargetRequests_isSome.1 hsome
      obtain ⟨source, hsource, hrouterOf⟩ := mem_uniqueRouters.1 hrouter
      rw [hquiet.queued source hsource router hrouterOf] at hwindow
      exact not_mem_nil hwindow
    · refine hbound ?_
      change (scene.boundTargets w).insertionSort (· ≤ ·) = []
      rw [hquiet.boundTargets]
      rfl

end QuiesceScene

namespace QuiesceRunner

variable {World Log : Type} {scene : QuiesceScene World Log} {limit : ℤ} {s : QuiesceRunner World Log}

/-! ## One pass -/

theorem preserves_stepSession (n : ℕ) (component : String) :
    Effect.Preserves (fun s => n ≤ s.stepped.length) (stepSession scene component) := by
  intro s h
  change n ≤ (s.stepped ++ [component]).length
  rw [List.length_append]
  omega

/-- No pass forgets a step. -/
theorem preserves_pass (n : ℕ) (pending : QuiescePending) : ∀ (components : List String) (steps : ℕ),
    Effect.Preserves (fun s => n ≤ s.stepped.length) (pass scene pending limit components steps)
  | [], steps => .pure steps
  | component :: components, steps => by
    refine .bind .get fun s => ?_
    split_ifs
    · exact .bind (preserves_stepSession n component) fun _ => preserves_pass n pending components (steps + 1)
    · exact preserves_pass n pending components steps

/-- A pass steps a component that something is on its way to, and goes on. -/
theorem pass_cons (pending : QuiescePending) (first : String) (components : List String) (steps : ℕ)
    (s : QuiesceRunner World Log) : pass scene pending limit (first :: components) steps s =
      (if pending.Waiting (scene.boundTargets s.world) first ∧ steps < limit then do
        stepSession scene first
        pass scene pending limit components (steps + 1)
      else pass scene pending limit components steps : Effect (QuiesceRunner World Log) ℕ) s := rfl

/-- **A pass with a waiting component executes a step.** -/
theorem lt_stepped_pass {pending : QuiescePending} {steps : ℕ} (hsteps : steps < limit) :
    ∀ {components : List String},
      (∃ component ∈ components, pending.Waiting (scene.boundTargets s.world) component) →
      s.stepped.length < (pass scene pending limit components steps s).2.stepped.length
  | [], h => by
    obtain ⟨component, hmem, -⟩ := h
    cases hmem
  | first :: components, h => by
    rw [pass_cons]
    by_cases hfirst : pending.Waiting (scene.boundTargets s.world) first
    · rw [if_pos ⟨hfirst, hsteps⟩]
      have hlength : s.stepped.length + 1 ≤ (stepSession scene first s).2.stepped.length := by
        change _ ≤ (s.stepped ++ [first]).length
        rw [List.length_append]
        rfl
      cases hrun : stepSession scene first s with
      | mk r s₁ =>
        rw [hrun] at hlength
        cases r with
        | error e =>
          rw [bind_of_error hrun]
          exact hlength
        | ok u =>
          rw [bind_of_ok hrun]
          exact preserves_pass _ pending components (steps + 1) s₁ hlength
    · rw [if_neg fun hboth => hfirst hboth.1]
      obtain ⟨component, hmem, hwaiting⟩ := h
      rcases List.mem_cons.1 hmem with rfl | hmem
      · exact absurd hwaiting hfirst
      · exact lt_stepped_pass hsteps ⟨component, hmem, hwaiting⟩

/-- **A pass counts the steps that it executes, and none beyond the limit.** -/
theorem pass_within {base : ℤ} {pending : QuiescePending} : ∀ {components : List String} {steps : ℕ}
    {s : QuiesceRunner World Log}, (s.stepped.length : ℤ) = base + steps → (steps : ℤ) ≤ limit →
    (∀ steps' s', pass scene pending limit components steps s = (.ok steps', s') →
      (s'.stepped.length : ℤ) = base + steps' ∧ (steps' : ℤ) ≤ limit) ∧
    ((pass scene pending limit components steps s).2.stepped.length : ℤ) ≤ base + limit
  | [], steps, s, hlength, hsteps => by
    refine ⟨fun steps' s' h => ?_, ?_⟩
    · obtain ⟨hok, rfl⟩ := Prod.mk.inj h
      cases hok
      exact ⟨hlength, hsteps⟩
    · change (s.stepped.length : ℤ) ≤ _
      omega
  | first :: components, steps, s, hlength, hsteps => by
    rw [pass_cons]
    split_ifs with hstep
    · have hlater : ((stepSession scene first s).2.stepped.length : ℤ) = base + (steps + 1 : ℕ) := by
        change ((s.stepped ++ [first]).length : ℤ) = _
        rw [List.length_append, Nat.cast_add, hlength, Nat.cast_add, add_assoc]
        rfl
      cases hrun : stepSession scene first s with
      | mk r s₁ =>
        rw [hrun] at hlater
        cases r with
        | error e =>
          rw [bind_of_error hrun]
          refine ⟨fun steps' s' h => (by cases h), ?_⟩
          change (s₁.stepped.length : ℤ) ≤ _
          change (s₁.stepped.length : ℤ) = _ at hlater
          omega
        | ok u =>
          rw [bind_of_ok hrun]
          exact pass_within hlater (by omega)
    · exact pass_within hlength hsteps

/-! ## The loop -/

/-- The loop, one pass at a time. -/
theorem drainLoop_succ {pending : QuiescePending} {fuel steps : ℕ} (h : pending.Busy ∧ steps < limit) :
    drainLoop scene limit (fuel + 1) steps pending = (do
      let steps ← pass scene pending limit (scene.sessions.insertionSort (· ≤ ·)) steps
      let s ← get
      let pending ← lift (scene.readPending s.world)
      drainLoop scene limit fuel steps pending) := by
  rw [drainLoop, if_pos h]

theorem drainLoop_done {pending : QuiescePending} {fuel steps : ℕ} (h : ¬ (pending.Busy ∧ steps < limit)) :
    drainLoop scene limit fuel steps pending = pure (some (steps, pending)) := by
  cases fuel <;> rw [drainLoop, if_neg h]

/-- **A loop executes no step beyond the limit.** -/
theorem drainLoop_within {base : ℤ} : ∀ {fuel steps : ℕ} {pending : QuiescePending}
    {s : QuiesceRunner World Log}, (s.stepped.length : ℤ) = base + steps → (steps : ℤ) ≤ limit →
      ((drainLoop scene limit fuel steps pending s).2.stepped.length : ℤ) ≤ base + limit := by
  intro fuel
  induction fuel with
  | zero =>
    intro steps pending s hlength hsteps
    have hsame : (drainLoop scene limit 0 steps pending s).2 = s := by
      rw [drainLoop]
      split_ifs <;> rfl
    rw [hsame]
    omega
  | succ fuel ih =>
    intro steps pending s hlength hsteps
    by_cases hcontinue : pending.Busy ∧ steps < limit
    · rw [drainLoop_succ hcontinue]
      obtain ⟨hcount, hbound⟩ :=
        @pass_within _ _ scene limit _ pending (scene.sessions.insertionSort (· ≤ ·)) _ _ hlength hsteps
      cases hpass : pass scene pending limit (scene.sessions.insertionSort (· ≤ ·)) steps s with
      | mk r s₁ =>
        rw [hpass] at hbound
        cases r with
        | error e =>
          rw [bind_of_error hpass]
          exact hbound
        | ok steps₁ =>
          obtain ⟨hlength₁, hsteps₁⟩ := hcount steps₁ s₁ hpass
          rw [bind_of_ok hpass, bind_of_ok (get_apply s₁)]
          cases hread : scene.readPending s₁.world with
          | error e =>
            rw [bind_of_error (lift_apply _ s₁)]
            exact hbound
          | ok pending₁ =>
            rw [bind_of_ok (lift_apply _ s₁)]
            exact ih hlength₁ hsteps₁
    · rw [drainLoop_done hcontinue]
      change (s.stepped.length : ℤ) ≤ _
      omega

/-- **What a loop returns was read from the state that it leaves.** -/
theorem drainLoop_reads : ∀ {fuel steps : ℕ} {pending final : QuiescePending} {steps' : ℕ}
    {s s' : QuiesceRunner World Log}, scene.readPending s.world = .ok pending →
    drainLoop scene limit fuel steps pending s = (.ok (some (steps', final)), s') →
      scene.readPending s'.world = .ok final := by
  intro fuel
  induction fuel with
  | zero =>
    intro steps pending final steps' s s' hread h
    rw [drainLoop] at h
    split_ifs at h
    · cases h
    · obtain ⟨hok, rfl⟩ := Prod.mk.inj h
      cases hok
      exact hread
  | succ fuel ih =>
    intro steps pending final steps' s s' hread h
    by_cases hcontinue : pending.Busy ∧ steps < limit
    · rw [drainLoop_succ hcontinue] at h
      obtain ⟨steps₁, s₁, -, h⟩ := bind_ok h
      rw [bind_of_ok (get_apply s₁)] at h
      obtain ⟨pending₁, s₂, hread₁, h⟩ := bind_ok h
      obtain ⟨hagain, rfl⟩ := Prod.mk.inj hread₁
      exact ih hagain h
    · rw [drainLoop_done hcontinue] at h
      obtain ⟨hok, rfl⟩ := Prod.mk.inj h
      cases hok
      exact hread

/-- **As many passes as steps are enough.** -/
theorem drainLoop_ne_none (hscene : scene.construct = .ok ()) (hqueues : scene.QueuesRegistered) :
    ∀ {fuel steps : ℕ} {pending : QuiescePending} {s s' : QuiesceRunner World Log}, limit ≤ fuel + steps →
      (steps : ℤ) ≤ limit → scene.readPending s.world = .ok pending →
        drainLoop scene limit fuel steps pending s ≠ (.ok none, s') := by
  intro fuel
  induction fuel with
  | zero =>
    intro steps pending s s' hfuel hsteps hread h
    rw [drainLoop_done fun hcontinue => by omega] at h
    cases h
  | succ fuel ih =>
    intro steps pending s s' hfuel hsteps hread h
    by_cases hcontinue : pending.Busy ∧ steps < limit
    · rw [drainLoop_succ hcontinue] at h
      obtain ⟨component, hmem, hwaiting⟩ := QuiesceScene.exists_waiting hscene hqueues hread hcontinue.1
      have hprogress := lt_stepped_pass (s := s) hcontinue.2
        ⟨component, (List.mem_insertionSort (· ≤ ·)).2 hmem, hwaiting⟩
      obtain ⟨steps₁, s₁, hpass, h⟩ := bind_ok h
      rw [hpass] at hprogress
      change s.stepped.length < s₁.stepped.length at hprogress
      have hstart : (s.stepped.length : ℤ) = (s.stepped.length - steps : ℤ) + steps := by omega
      obtain ⟨hcount, hsteps₁⟩ := (pass_within hstart hsteps).1 steps₁ s₁ hpass
      rw [bind_of_ok (get_apply s₁)] at h
      obtain ⟨pending₁, s₂, hread₁, h⟩ := bind_ok h
      obtain ⟨hagain, rfl⟩ := Prod.mk.inj hread₁
      exact ih (by push_cast at hfuel; omega) hsteps₁ hagain h
    · rw [drainLoop_done hcontinue] at h
      cases h

/-! ## The whole drain -/

/-- **A drain stays within its budget and reports honestly.** -/
structure ReportsHonestly (scene : QuiesceScene World Log) (limit : ℤ) (s : QuiesceRunner World Log) :
    Prop where
  bounded : ∀ fuel, (quiesce scene fuel limit s).2.stepped.length ≤ s.stepped.length + limit.toNat
  honest : ∀ fuel result s', quiesce scene fuel limit s = (.ok (some result), s') →
    (result.status = .drained ↔ scene.Quiet s'.world)

/-- **And it ends**: no pass from pending work is without a step. -/
structure QuiescesHonestly (scene : QuiesceScene World Log) (limit : ℤ) (s : QuiesceRunner World Log) :
    Prop extends ReportsHonestly scene limit s where
  progress : ∀ (t : QuiesceRunner World Log) (pending : QuiescePending) (steps : ℕ),
    scene.readPending t.world = .ok pending → pending.Busy → steps < limit →
      t.stepped.length <
        (pass scene pending limit (scene.sessions.insertionSort (· ≤ ·)) steps t).2.stepped.length
  ends : ∀ fuel : ℕ, limit ≤ fuel → (quiesce scene fuel limit s).1 ≠ .ok none

/-- What returns behind the guard returned in front of it. -/
theorem guarded_eq_ok {α : Type} {initial : QuiescePending} {x : Effect (QuiesceRunner World Log) α} {a : α}
    {s' : QuiesceRunner World Log} (h : guarded scene initial x s = (.ok a, s')) : x s = (.ok a, s') := by
  unfold guarded at h
  cases hx : x s with
  | mk r s₁ =>
    rw [hx] at h
    cases r with
    | ok b => exact h
    | error e =>
      dsimp only at h
      split_ifs at h
      · cases h
      · obtain ⟨_, s₂, -, h⟩ := bind_ok h
        cases h

/-- The guard executes no step. -/
theorem stepped_guarded {α : Type} {initial : QuiescePending} {x : Effect (QuiesceRunner World Log) α} :
    (guarded scene initial x s).2.stepped = (x s).2.stepped := by
  unfold guarded
  cases hx : x s with
  | mk r s₁ =>
    cases r with
    | ok a => rfl
    | error e =>
      dsimp only
      split_ifs
      · rfl
      · set failed : QuiesceRunner World Log := { s₁ with status := .failed }
        cases happend : append scene (.failure e initial.responses) failed with
        | mk r' s₂ =>
          have hsame : s₂.stepped = s₁.stepped := congrArg (fun p => p.2.stepped) happend.symm
          cases r' with
          | ok u =>
            rw [bind_of_ok happend]
            exact hsame
          | error e' =>
            rw [bind_of_error happend]
            exact hsame

section Budget

variable {stepped : List String}

/-- Nothing was executed yet. -/
def Before (stepped : List String) (s : QuiesceRunner World Log) : Prop := s.stepped = stepped

/-- No step was executed beyond the limit. -/
def Within (limit : ℤ) (stepped : List String) (s : QuiesceRunner World Log) : Prop :=
  (s.stepped.length : ℤ) ≤ stepped.length + limit

theorem Before.within (hlimit : 0 ≤ limit) (h : Before stepped s) : Within limit stepped s := by
  unfold Within
  rw [h]
  omega

/-- A call outside the steps. -/
theorem safe_of_stepped (hlimit : 0 ≤ limit) {α : Type} {x : Effect (QuiesceRunner World Log) α}
    (h : ∀ s, (x s).2.stepped = s.stepped) : Effect.Safe (Before stepped) (Within limit stepped) x := by
  intro s hs
  have hsame : Before stepped (x s).2 := (h s).trans hs
  refine ⟨fun a s' heq => ?_, fun e s' heq => ?_⟩
  · rwa [heq] at hsame
  · rw [heq] at hsame
    exact hsame.within hlimit

theorem safe_lift (hlimit : 0 ≤ limit) {α : Type} (x : Except Exn α) :
    Effect.Safe (Before stepped) (Within limit stepped)
      (lift x : Effect (QuiesceRunner World Log) α) :=
  .lift (fun _ => Before.within hlimit) x

/-- Telling the harnesses executes no step. -/
theorem safe_beginSessions (hlimit : 0 ≤ limit) :
    Effect.Safe (Before stepped) (Within limit stepped) (beginSessions scene) := by
  refine .each fun component _ => ?_
  split_ifs
  · exact safe_of_stepped hlimit fun s => rfl
  · exact .pure ()

theorem preserves_conclude (initial : QuiescePending) (steps : ℕ) (pending : QuiescePending) :
    Effect.Preserves (Within limit stepped) (conclude scene initial steps pending) := by
  refine .bind .get fun s => ?_
  exact .bind (fun s hs => hs) fun _ => .pure _

/-- **The guarded part of a drain executes no step beyond the limit.** -/
theorem leads_drain (hlimit : 0 ≤ limit) (fuel : ℕ) (initial : QuiescePending) :
    Effect.Leads (Before stepped) (Within limit stepped) (drain scene fuel limit initial) := by
  refine .of_safe (safe_beginSessions hlimit) fun _ => .of_safe .get fun s => ?_
  refine .of_safe (safe_lift hlimit _) fun pending => .bind (fun s hs => ?_) fun final => ?_
  · exact drainLoop_within (by rw [hs]; simp) hlimit
  · cases final with
    | none => exact .pure none
    | some final => exact .bind (preserves_conclude initial final.1 final.2) fun _ => .pure _

/-- **A drain executes no step beyond its limit.** -/
theorem leads_quiesce (hlimit : 0 ≤ limit) (fuel : ℕ) :
    Effect.Leads (Before stepped) (Within limit stepped) (quiesce scene fuel limit) := by
  refine .of_safe .get fun s => .of_safe (safe_lift hlimit _) fun _ =>
    .of_safe (safe_lift hlimit _) fun _ => ?_
  refine .of_safe (safe_lift hlimit _) fun _ => .of_safe (safe_lift hlimit _) fun initial => ?_
  refine .of_safe (safe_lift hlimit _) fun _ => .of_safe (safe_of_stepped hlimit fun s => rfl) fun _ => ?_
  refine .of_safe (safe_of_stepped hlimit fun s => rfl) fun _ => ?_
  refine .of_safe (safe_of_stepped hlimit fun s => rfl) fun _ => ?_
  intro s hs
  unfold Within
  rw [stepped_guarded]
  exact leads_drain hlimit fuel initial s hs

/-- A drain with a negative limit is refused. -/
theorem quiesce_of_neg (hlimit : ¬ 0 ≤ limit) (fuel : ℕ) : (quiesce scene fuel limit s).2 = s := by
  rw [quiesce, bind_of_ok (get_apply s)]
  by_cases hrunning : s.status = .running
  · rw [ensure_of hrunning, bind_of_ok (lift_apply _ s), ensure_of_not fun h => hlimit h.1,
      bind_of_error (lift_apply _ s)]
  · rw [ensure_of_not hrunning, bind_of_error (lift_apply _ s)]

end Budget

/-- **A drain that returns has its loop behind it.** -/
theorem quiesce_eq_ok {fuel : ℕ} {result : Option QuiesceOutcome} {s' : QuiesceRunner World Log}
    (h : quiesce scene fuel limit s = (.ok result, s')) : 0 ≤ limit ∧ ∃ initial pending s₁,
      scene.readPending s₁.world = .ok pending ∧ (do
        match ← drainLoop scene limit fuel 0 pending with
        | none => return none
        | some (steps, pending) => do
          let result ← conclude scene initial steps pending
          return some result : Effect (QuiesceRunner World Log) (Option QuiesceOutcome)) s₁ =
            (.ok result, s') := by
  rw [quiesce, bind_of_ok (get_apply s)] at h
  obtain ⟨_, _, -, h⟩ := bind_ok h
  obtain ⟨_, _, hlimit, h⟩ := bind_ok h
  obtain ⟨_, _, -, h⟩ := bind_ok h
  obtain ⟨initial, _, -, h⟩ := bind_ok h
  obtain ⟨_, _, -, h⟩ := bind_ok h
  obtain ⟨_, _, -, h⟩ := bind_ok h
  obtain ⟨_, _, -, h⟩ := bind_ok h
  obtain ⟨_, _, -, h⟩ := bind_ok h
  have hdrain := guarded_eq_ok h
  obtain ⟨_, s₁, -, hdrain⟩ := bind_ok hdrain
  rw [bind_of_ok (get_apply s₁)] at hdrain
  obtain ⟨pending, s₂, hread, hdrain⟩ := bind_ok hdrain
  obtain ⟨hpending, rfl⟩ := Prod.mk.inj hread
  exact ⟨(ensure_eq_ok.1 (Prod.mk.inj hlimit).1).1, initial, pending, s₁, hpending, hdrain⟩

/-- What concludes reports what it reads. -/
theorem conclude_eq_ok {initial pending : QuiescePending} {steps : ℕ} {result : QuiesceOutcome}
    {s' : QuiesceRunner World Log} (h : conclude scene initial steps pending s = (.ok result, s')) :
    s'.world = s.world ∧ (result.status = .drained ↔
      ¬ pending.Busy ∧ scene.uncertainTransactions s.world = []) := by
  rw [conclude, bind_of_ok (get_apply s)] at h
  obtain ⟨_, s₁, happend, h⟩ := bind_ok h
  obtain ⟨hresult, rfl⟩ := Prod.mk.inj h
  cases hresult
  refine ⟨congrArg (fun p => p.2.world) happend.symm, ?_⟩
  split_ifs with hcertain hbusy
  · simp [hcertain]
  · simp [hbusy]
  · simp [hbusy, not_not.1 hcertain]

theorem reportsHonestly (limit : ℤ) (s : QuiesceRunner World Log) : ReportsHonestly scene limit s where
  bounded fuel := by
    by_cases hlimit : 0 ≤ limit
    · have := @leads_quiesce _ _ scene limit _ hlimit fuel s rfl
      unfold Within at this
      omega
    · rw [quiesce_of_neg hlimit]
      omega
  honest fuel result s' h := by
    obtain ⟨-, initial, pending, s₁, hread, hdrain⟩ := quiesce_eq_ok h
    obtain ⟨final, s₂, hloop, hdrain⟩ := Effect.bind_ok hdrain
    cases final with
    | none => cases (Prod.mk.inj hdrain).1
    | some final =>
      obtain ⟨result', s₃, hconclude, hdrain⟩ := Effect.bind_ok hdrain
      obtain ⟨hresult, rfl⟩ := Prod.mk.inj hdrain
      cases Except.ok.inj hresult
      obtain ⟨hworld, hstatus⟩ := conclude_eq_ok hconclude
      rw [hworld, hstatus]
      exact QuiesceScene.not_busy_and_certain_iff (drainLoop_reads hread hloop)

/-- **Every runner stays within its budget and reports honestly**, and an accepted one without requests
for local shadows quiesces. -/
theorem quiescesHonestly (limit : ℤ) (s : QuiesceRunner World Log) : ReportsHonestly scene limit s ∧
    (scene.construct = .ok () → scene.QueuesRegistered → QuiescesHonestly scene limit s) := by
  refine ⟨reportsHonestly limit s, fun hscene hqueues => ⟨reportsHonestly limit s, ?_, ?_⟩⟩
  · intro t pending steps hread hbusy hsteps
    obtain ⟨component, hmem, hwaiting⟩ := QuiesceScene.exists_waiting hscene hqueues hread hbusy
    exact lt_stepped_pass hsteps ⟨component, (List.mem_insertionSort (· ≤ ·)).mpr hmem, hwaiting⟩
  · intro fuel hfuel h
    obtain ⟨hlimit, initial, pending, s₁, hread, hdrain⟩ := quiesce_eq_ok (Prod.ext h rfl)
    obtain ⟨final, s₂, hloop, hdrain⟩ := Effect.bind_ok hdrain
    cases final with
    | none => exact drainLoop_ne_none hscene hqueues (by simpa using hfuel) hlimit hread hloop
    | some final =>
      obtain ⟨_, _, -, hdrain⟩ := Effect.bind_ok hdrain
      cases (Prod.mk.inj hdrain).1

/-! ## A request for a local shadow -/

/-- One harness with a router of its own and this window.  It never defers, and nothing is pending but one
request. -/
def shadowScene (window : DeviceWindow) (pending : ℤ) (queued : List DeviceWindow)
    (hqueued : ∀ w ∈ queued, w = window) : QuiesceScene Bool Unit where
  sessions := ["cpu"]
  independentBaseline := true
  bindings := []
  owned _ := true
  irqPulses := []
  irqPulses_bindings _ h := nomatch h
  routerOf _ := some 0
  windows _ := [window]
  registered _ := true
  deferMmio _ := false
  canQuiesce _ := true
  maxQuiesceSteps := none
  responses w _ := if w then 0 else pending
  events _ _ := 0
  pulsePending _ _ := false
  queued _ _ := queued
  queued_windows _ _ w h := List.mem_singleton.mpr (hqueued w h)
  boundTargets _ := []
  boundTargets_bindings _ _ h := nomatch h
  uncertainKeys _ _ := []
  ensureCapacity _ _ := ⟨.ok (), (), false⟩
  append _ _ _ := ⟨.ok (), (), false⟩
  budgetExhausted _ _ := false
  beginQuiesce w _ _ := ⟨.ok (), (w, ()), false⟩
  step _ _ _ := ⟨.ok (), (true, ()), false⟩

theorem uart_local_valid : "uart_local" ≠ "" ∧ 0 % 0x1000 = 0 ∧ 4 ≤ 4096 ∧ 4096 % 4 = 0 ∧
    0 + 4096 ≤ 2 ^ 64 := by
  decide

/-- The window of a local shadow. -/
def uartLocal : DeviceWindow := ⟨"uart_local", 0, 4096, .plain, uart_local_valid⟩

theorem no_window_queued (w : DeviceWindow) (h : w ∈ ([] : List DeviceWindow)) : w = uartLocal := nomatch h

/-- A runner that was just started. -/
def justStarted : QuiesceRunner Bool Unit := ⟨.running, false, (), []⟩

/-- Responses of a harness are drained. -/
theorem responses_quiesce : QuiescesHonestly (shadowScene uartLocal 3 [] no_window_queued) 1 justStarted :=
  (quiescesHonestly 1 justStarted).2 (by decide) (nofun)

/-- One request for a local shadow. -/
abbrev queuedForShadow : QuiesceScene Bool Unit :=
  shadowScene uartLocal 0 [uartLocal] fun _ h => List.mem_singleton.mp h

/-- The pending work of a runner with one request for a local shadow. -/
def shadowPending : QuiescePending :=
  ⟨Dict.empty.set "cpu" 0, .empty, .empty, Dict.empty.set "uart_local" 1, []⟩

theorem drainLoop_shadow : ∀ (fuel : ℕ) (s : QuiesceRunner Bool Unit), s.world = false →
    (drainLoop queuedForShadow 1 fuel 0 shadowPending s).1 = .ok none
  | 0, s, _ => by
    rw [drainLoop, if_pos (by decide)]
    rfl
  | fuel + 1, s, h => by
    rw [drainLoop_succ (by decide)]
    have hidle : ¬ shadowPending.Waiting [] "cpu" := by decide
    have hpass : pass queuedForShadow shadowPending 1 (queuedForShadow.sessions.insertionSort (· ≤ ·)) 0 s =
        (.ok 0, s) := by
      change (if shadowPending.Waiting [] "cpu" ∧ ((0 : ℕ) : ℤ) < 1 then do
          stepSession queuedForShadow "cpu"
          pass queuedForShadow shadowPending 1 [] (0 + 1)
        else pass queuedForShadow shadowPending 1 [] 0 : Effect (QuiesceRunner Bool Unit) ℕ) s = _
      rw [if_neg fun hboth => hidle hboth.1]
      rfl
    have hread : queuedForShadow.readPending s.world = .ok shadowPending := by
      rw [h]
      rfl
    rw [bind_of_ok hpass, bind_of_ok (get_apply s), hread,
      bind_of_ok (lift_apply _ s)]
    exact drainLoop_shadow fuel s h

/-- **An accepted runner spins on a request that no session owns.** -/
theorem shadow_request_never_drains : queuedForShadow.construct = .ok () ∧
    (∀ fuel, (quiesce queuedForShadow fuel 1 justStarted).1 = .ok none) ∧
    ¬ QuiescesHonestly queuedForShadow 1 justStarted := by
  have hspins : ∀ fuel, (quiesce queuedForShadow fuel 1 justStarted).1 = .ok none := by
    intro fuel
    let begun : QuiesceRunner Bool Unit := { justStarted with status := .quiescing }
    have hloop : drainLoop queuedForShadow 1 fuel 0 shadowPending begun =
        (.ok none, (drainLoop queuedForShadow 1 fuel 0 shadowPending begun).2) :=
      Prod.ext (drainLoop_shadow fuel begun rfl) rfl
    have hdrain : drain queuedForShadow fuel 1 shadowPending begun =
        (.ok none, (drainLoop queuedForShadow 1 fuel 0 shadowPending begun).2) :=
      Effect.bind_of_ok hloop
    change (guarded queuedForShadow shadowPending (drain queuedForShadow fuel 1 shadowPending) begun).1 = _
    rw [guarded, hdrain]
  exact ⟨by decide, hspins, fun h => h.ends 1 le_rfl (hspins 1)⟩

end QuiesceRunner

end MyFuzz
