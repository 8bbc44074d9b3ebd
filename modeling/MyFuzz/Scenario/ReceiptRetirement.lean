import MyFuzz.Scenario.StepOnce

/-!
# Scenario/ReceiptRetirement — when a refused retirement leaves the ledger alone

Receipts are dropped one after the other, in the order in which their commands were issued, and the
loop raises
at a command without one.  A command without a receipt is the last that was ever issued: its run has failed.

    keys    1 2 3 4 5        5 uncertain
    retire through 5         1 2 3 4 dropped, then refused

So a refused retirement leaves the ledger alone unless its boundary covers the uncertain command and
a receipt.
-/

namespace MyFuzz

open Outcome StepLedger Dict List

variable {World Inputs Observation : Type}

/-! ## Moves of the table -/

/-- **What a call does to the table of commands.** -/
inductive TableMove (s s' : RunnerState World Inputs Observation) : Prop
  | stay (hcommands : s'.stepCommands = s.stepCommands) (hfailed : s.status = .failed → s'.status = .failed)
  | issue (id : CommandId) (command : StepCommand Inputs Observation) (hactive : s.status ≠ .failed)
      (hkeys : s'.stepCommands.keys = s.stepCommands.keys ++ [id])
      (hcommands : ∀ id', s'.stepCommands.get? id' = if id' = id then some command
        else s.stepCommands.get? id')
      (huncertain : command.receipt = none → s'.status = .failed)
  | drop (epoch previous boundary : ℤ) (hcommands : s'.stepCommands =
        (dropReceipts epoch previous boundary s.stepCommands.keys s.stepCommands).2)
      (hstatus : s'.status = s.status)

variable {α : Type}

section Moves

variable (scene : Scene World Inputs Observation) {s s₀ t : RunnerState World Inputs Observation}

theorem failed_after (reply : SceneReply World α) (h : s.status = .failed) :
    (s.after reply).status = .failed := by
  change (if reply.fails then RunnerStatus.failed else s.status) = .failed
  rw [h, ite_self]

theorem move_issue (component : String) (sequence epoch : ℤ) (inputs : Inputs)
    (hcommands : s.stepCommands = s₀.stepCommands) (hactive : s₀.status ≠ .failed)
    (hfresh : s₀.stepCommands.get? (epoch, sequence) = none) :
    TableMove s₀ (issueCommand scene component sequence epoch inputs s).2 := by
  have hnew : (epoch, sequence) ∉ s.stepCommands.keys := by
    rw [mem_keys_iff, hcommands, hfresh]
    exact Bool.false_ne_true
  have hkeys : ∀ command, (s.stepCommands.set (epoch, sequence) command).keys =
      s₀.stepCommands.keys ++ [(epoch, sequence)] := by
    intro command
    rw [keys_set, if_neg hnew, hcommands]
  unfold issueCommand
  dsimp only
  split
  · refine .issue (epoch, sequence) ⟨component, inputs, none⟩ hactive (hkeys _) (fun id => ?_) fun _ => rfl
    rw [← hcommands]
    exact get?_set _ _ _ _
  · next observation _ =>
    refine .issue (epoch, sequence)
      ⟨component, inputs, some ⟨s.executionId, sequence, epoch, component, inputs, observation⟩⟩ hactive ?_
      (fun id => ?_) fun hnone => absurd hnone (Option.some_ne_none _)
    · rw [keys_set, if_pos, hkeys]
      rw [hkeys]
      exact mem_append_right _ (.head _)
    · rw [get?_set, get?_set, hcommands]
      split_ifs <;> rfl

section Calls

variable [DecidableEq Inputs]

theorem move_admit (component : String) (sequence epoch : ℤ) (inputs : Inputs)
    (hcommands : s.stepCommands = s₀.stepCommands) (hactive : s₀.status ≠ .failed)
    (hfresh : s₀.stepCommands.get? (epoch, sequence) = none) :
    TableMove s₀ (admitCommand scene component sequence epoch inputs s).2 := by
  have hstay : ∀ t : RunnerState World Inputs Observation, t.stepCommands = s.stepCommands → TableMove s₀ t :=
    fun t ht => .stay (ht.trans hcommands) fun hfailed => absurd hfailed hactive
  unfold admitCommand
  split
  · exact hstay s rfl
  · split_ifs
    · exact hstay s rfl
    · dsimp only
      split
      · exact hstay _ rfl
      · exact move_issue scene component sequence epoch inputs hcommands hactive hfresh

theorem move_execute (component executionId : String) (sequence epoch : ℤ) (inputs : Inputs)
    (hcommands : s.stepCommands = s₀.stepCommands) (hfailed : s₀.status = .failed → s.status = .failed) :
    TableMove s₀ (executeStep scene component executionId sequence epoch inputs s).2 := by
  have hstay : TableMove s₀ s := .stay hcommands hfailed
  unfold executeStep
  split_ifs with hexecution hidentity hretired
  · exact hstay
  · exact hstay
  · exact hstay
  cases hget : s.stepCommands.get? (epoch, sequence) with
  | some previous => exact hstay
  | none =>
    dsimp only
    unfold freshCommand
    split
    · exact hstay
    next hstatus =>
    split
    · exact hstay
    split
    · exact hstay
    split
    · exact hstay
    have hactive : s₀.status ≠ .failed := by
      intro h
      rw [hfailed h] at hstatus
      exact hstatus (by decide)
    dsimp only
    split
    · exact .stay hcommands fun h => absurd h hactive
    · exact move_admit scene component sequence epoch inputs hcommands hactive (hcommands ▸ hget)

/-- **Every call makes a move of the table.** -/
theorem table_move (s : RunnerState World Inputs Observation) (c : RunnerCall Inputs) :
    TableMove s (s.call scene c) := by
  cases c with
  | executeStep component executionId sequence epoch inputs =>
    exact move_execute scene component executionId sequence epoch inputs rfl id
  | step component =>
    change TableMove s (step scene component s).2
    unfold step
    split
    · exact .stay rfl id
    · dsimp only
      split
      · exact .stay rfl (failed_after _)
      · split
        · exact .stay rfl (failed_after _)
        · exact move_execute scene component _ _ _ _ rfl (failed_after _)
  | resetAll =>
    change TableMove s (resetAll scene s).2
    unfold resetAll
    split_ifs with hstatus
    · exact .stay rfl id
    · dsimp only
      split
      · exact .stay rfl (failed_after _)
      · exact .stay rfl fun h => failed_after _ (failed_after _ h)
  | retire epoch sequence =>
    change TableMove s (retireStepReceiptsThrough epoch sequence s).2
    unfold retireStepReceiptsThrough
    split_ifs
    · exact .stay rfl id
    · exact .stay rfl id
    · exact .stay rfl id
    · dsimp only
      split
      · exact .drop epoch (s.floor epoch) sequence rfl rfl
      · exact .drop epoch (s.floor epoch) sequence rfl rfl

end Calls

end Moves

/-! ## Dropping receipts -/

section Drop

variable {epoch previous boundary : ℤ}

/-- Dropping receipts binds nothing and keeps the order. -/
theorem dropReceipts_sub (epoch previous boundary : ℤ) :
    ∀ (ids : List CommandId) (commands : Dict CommandId (StepCommand Inputs Observation)),
    (dropReceipts epoch previous boundary ids commands).2.keys.Sublist commands.keys ∧
      ∀ id command, (dropReceipts epoch previous boundary ids commands).2.get? id = some command →
        commands.get? id = some command
  | [], _ => ⟨List.Sublist.refl _, fun _ _ h => h⟩
  | first :: rest, commands => by
    have hsub : (commands.erase first).keys.Sublist commands.keys := filter_sublist.map Prod.fst
    unfold dropReceipts
    split_ifs with hcovered
    · split
      · exact ⟨List.Sublist.refl _, fun _ _ h => h⟩
      · split_ifs with hreceipt
        · exact ⟨List.Sublist.refl _, fun _ _ h => h⟩
        · obtain ⟨hkeys, hget⟩ := dropReceipts_sub epoch previous boundary rest (commands.erase first)
          refine ⟨hkeys.trans hsub, fun id command h => ?_⟩
          have := hget id command h
          rw [get?_erase] at this
          split_ifs at this
          exact this
    · exact dropReceipts_sub epoch previous boundary rest commands

/-- **Receipts in front of an uncertain command are dropped before it is refused.** -/
theorem dropReceipts_refused {last : CommandId} : ∀ {before : List CommandId}
    {commands : Dict CommandId (StepCommand Inputs Observation)}, (before ++ [last]).Nodup →
    (∀ id ∈ before, ∃ command, commands.get? id = some command ∧ command.receipt ≠ none) →
    Covered epoch previous boundary last →
    (∃ command, commands.get? last = some command ∧ command.receipt = none) →
    (∃ e, (dropReceipts epoch previous boundary (before ++ [last]) commands).1 = .error e) ∧
      ∀ id ∈ before, Covered epoch previous boundary id →
        (dropReceipts epoch previous boundary (before ++ [last]) commands).2.get? id = none
  | [], commands, _, _, hlast, ⟨command, hget, hreceipt⟩ => by
    refine ⟨⟨.valueError "cannot retire an uncertain STEP command", ?_⟩, nofun⟩
    change (if Covered epoch previous boundary last then _ else _ : Except Exn Unit × _).1 = _
    rw [if_pos hlast, hget]
    dsimp only
    rw [if_pos hreceipt]
  | first :: before, commands, hnodup, hknown, hlast, ⟨command, hget, hreceipt⟩ => by
    obtain ⟨hfirst, hrest⟩ := nodup_cons.1 hnodup
    obtain ⟨command', hget', hreceipt'⟩ := hknown first (.head _)
    have hne : ∀ id ∈ before ++ [last], id ≠ first := fun id hid heq => hfirst (heq ▸ hid)
    rw [cons_append, dropReceipts]
    split_ifs with hcovered
    · rw [hget']
      dsimp only
      rw [if_neg hreceipt']
      have hknown' : ∀ id ∈ before,
          ∃ command, (commands.erase first).get? id = some command ∧ command.receipt ≠ none := by
        intro id hid
        rw [get?_erase, if_neg (hne id (mem_append_left _ hid))]
        exact hknown id (mem_cons_of_mem first hid)
      have hlast' : ∃ command, (commands.erase first).get? last = some command ∧ command.receipt = none := by
        rw [get?_erase, if_neg (hne last (mem_append_right _ mem_cons_self))]
        exact ⟨command, hget, hreceipt⟩
      obtain ⟨herror, hdropped⟩ := dropReceipts_refused hrest hknown' hlast hlast'
      refine ⟨herror, fun id hid hid' => ?_⟩
      rcases mem_cons.1 hid with rfl | hid
      · -- nothing is bound again
        by_contra hsome
        obtain ⟨command, hcommand⟩ := Option.ne_none_iff_exists'.1 hsome
        have := (dropReceipts_sub _ _ _ _ _).2 id command hcommand
        rw [get?_erase, if_pos rfl] at this
        cases this
      · exact hdropped id hid hid'
    · obtain ⟨herror, hdropped⟩ := dropReceipts_refused hrest
        (fun id hid => hknown id (mem_cons_of_mem first hid)) hlast ⟨command, hget, hreceipt⟩
      refine ⟨herror, fun id hid hid' => ?_⟩
      rcases mem_cons.1 hid with rfl | hid
      · exact absurd hid' hcovered
      · exact hdropped id hid hid'

end Drop

/-! ## Uncertain commands -/

/-- **A command without a receipt is the last one, and the run has failed.** -/
def UncertainLast (s : RunnerState World Inputs Observation) : Prop :=
  ∀ id command, s.stepCommands.get? id = some command → command.receipt = none →
    s.status = .failed ∧ ∃ before, s.stepCommands.keys = before ++ [id]

theorem uncertainLast_start (executionId : String) (world : World) :
    UncertainLast (RunnerState.start executionId world : RunnerState World Inputs Observation) := by
  intro id command hget
  rw [show (RunnerState.start executionId world : RunnerState World Inputs Observation).stepCommands = .empty
    from rfl, get?_empty] at hget
  cases hget

/-- A last item that is kept is the last of what is kept. -/
theorem exists_concat_of_sublist {l before : List α} {a : α} (h : l.Sublist (before ++ [a]))
    (hnodup : (before ++ [a]).Nodup) (ha : a ∈ l) : ∃ kept, l = kept ++ [a] := by
  obtain ⟨kept, rest, rfl, hkept, hrest⟩ := sublist_append_iff.1 h
  rcases sublist_singleton.1 hrest with rfl | rfl
  · rw [append_nil] at ha
    have hnotin := (nodup_append'.1 hnodup).2.2 (hkept.subset ha)
    exact absurd mem_cons_self hnotin
  · exact ⟨kept, rfl⟩

theorem UncertainLast.move {s s' : RunnerState World Inputs Observation} (hs : UncertainLast s)
    (h : TableMove s s') : UncertainLast s' := by
  intro id command hget hreceipt
  cases h with
  | stay hcommands hfailed =>
    rw [hcommands] at hget ⊢
    obtain ⟨hstatus, hlast⟩ := hs id command hget hreceipt
    exact ⟨hfailed hstatus, hlast⟩
  | issue new issued hactive hkeys hcommands huncertain =>
    rw [hcommands] at hget
    split_ifs at hget with hid
    · cases hget
      exact ⟨huncertain hreceipt, s.stepCommands.keys, hid ▸ hkeys⟩
    · exact absurd (hs id command hget hreceipt).1 hactive
  | drop epoch previous boundary hcommands hstatus =>
    rw [hcommands] at hget ⊢
    obtain ⟨hkeys, hsub⟩ := dropReceipts_sub epoch previous boundary s.stepCommands.keys s.stepCommands
    obtain ⟨hfailed, before, hlast⟩ := hs id command (hsub id command hget) hreceipt
    refine ⟨hstatus.trans hfailed, ?_⟩
    have hnodup := s.stepCommands.nodup
    change s.stepCommands.keys.Nodup at hnodup
    have hmem : id ∈ (dropReceipts epoch previous boundary s.stepCommands.keys s.stepCommands).2.keys :=
      mem_keys_iff.2 (Option.isSome_iff_exists.2 ⟨command, hget⟩)
    rw [hlast] at hnodup hkeys
    rw [hlast] at hmem ⊢
    exact exists_concat_of_sublist hkeys hnodup hmem

/-! ## Atomic retirements -/

/-- A boundary that is refused before any receipt is looked at. -/
def BoundaryRefused (s : RunnerState World Inputs Observation) (epoch sequence : ℤ) : Prop :=
  (epoch < 0 ∨ sequence < 0 ∨ s.commandEpoch < epoch) ∨
    (epoch = s.commandEpoch ∧ s.nextCommandSequence ≤ sequence) ∨ sequence < s.floor epoch

/-- A refusal leaves the receipts and the floors alone. -/
def RetiresAtomically (s : RunnerState World Inputs Observation) (epoch sequence : ℤ) : Prop :=
  ∀ e, (retireStepReceiptsThrough epoch sequence s).1 = .error e →
    (retireStepReceiptsThrough epoch sequence s).2.stepCommands = s.stepCommands ∧
      (retireStepReceiptsThrough epoch sequence s).2.retiredStepFloor = s.retiredStepFloor

section Retire

variable {s : RunnerState World Inputs Observation} {epoch sequence : ℤ}

theorem retire_of_refused (h : BoundaryRefused s epoch sequence) :
    (retireStepReceiptsThrough epoch sequence s).2 = s := by
  unfold retireStepReceiptsThrough
  split_ifs with hinvalid hunissued hbackwards
  · rfl
  · rfl
  · rfl
  · exact absurd h (not_or.2 ⟨hinvalid, not_or.2 ⟨hunissued, hbackwards⟩⟩)

/-- A boundary that is not refused is handed to the loop. -/
theorem retire_of_admitted (h : ¬ BoundaryRefused s epoch sequence) :
    (retireStepReceiptsThrough epoch sequence s).1 =
        (dropReceipts epoch (s.floor epoch) sequence s.stepCommands.keys s.stepCommands).1 ∧
      (retireStepReceiptsThrough epoch sequence s).2.stepCommands =
        (dropReceipts epoch (s.floor epoch) sequence s.stepCommands.keys s.stepCommands).2 ∧
      ∀ e, (retireStepReceiptsThrough epoch sequence s).1 = .error e →
        (retireStepReceiptsThrough epoch sequence s).2.retiredStepFloor = s.retiredStepFloor := by
  obtain ⟨hinvalid, h⟩ := not_or.1 h
  obtain ⟨hunissued, hbackwards⟩ := not_or.1 h
  unfold retireStepReceiptsThrough
  rw [if_neg hinvalid, if_neg hunissued, if_neg hbackwards]
  dsimp only
  cases hdrop : (dropReceipts epoch (s.floor epoch) sequence s.stepCommands.keys s.stepCommands).1 with
  | error e => exact ⟨rfl, rfl, fun _ _ => rfl⟩
  | ok u =>
    refine ⟨rfl, rfl, fun e h => ?_⟩
    cases h

/-- **A refusal is atomic exactly if its boundary is refused at once or does not cover both a receipt and an
uncertain command.** -/
theorem UncertainLast.retiresAtomically_iff (hs : UncertainLast s) : RetiresAtomically s epoch sequence ↔
    BoundaryRefused s epoch sequence ∨ SparesReceipts s (.retire epoch sequence : RunnerCall Inputs) := by
  constructor
  · intro hatomic
    by_contra hnot
    obtain ⟨hadmitted, hspares⟩ := not_or.1 hnot
    obtain ⟨hresult, hcommands, -⟩ := retire_of_admitted hadmitted
    unfold SparesReceipts at hspares
    push Not at hspares
    obtain ⟨boundary, hboundary, ⟨last, uncertain, hlast, hget, hnone⟩, id, command, hid, hget',
      hreceipt⟩ := hspares
    cases hboundary
    obtain ⟨-, before, hkeys⟩ := hs last uncertain hget hnone
    have hne : id ≠ last := by
      rintro rfl
      rw [hget] at hget'
      exact hreceipt (Option.some.inj hget' ▸ hnone)
    have hmem : ∀ id ∈ before, id ∈ s.stepCommands.keys := fun id hid => by
      rw [hkeys]
      exact mem_append_left _ hid
    have hin : id ∈ before := by
      have : id ∈ s.stepCommands.keys := mem_keys_iff.2 (Option.isSome_iff_exists.2 ⟨command, hget'⟩)
      rw [hkeys] at this
      exact (mem_append.1 this).resolve_right fun h => hne (mem_singleton.1 h)
    have hnodup : (before ++ [last]).Nodup := by
      rw [← hkeys]
      exact s.stepCommands.nodup
    -- a command in front of the last one has a receipt
    have hknown : ∀ id ∈ before, ∃ command, s.stepCommands.get? id = some command ∧
      command.receipt ≠ none := by
      intro id hid
      obtain ⟨command, hget⟩ := Option.isSome_iff_exists.1 (mem_keys_iff.1 (hmem id hid))
      refine ⟨command, hget, fun hnone => ?_⟩
      obtain ⟨-, before', hkeys'⟩ := hs id command hget hnone
      rw [hkeys] at hkeys'
      obtain rfl := (append_inj' hkeys' rfl).2 |> singleton_injective
      exact (nodup_append'.1 hnodup).2.2 hid (.head _)
    obtain ⟨⟨e, herror⟩, hdropped⟩ := dropReceipts_refused hnodup hknown hlast ⟨uncertain, hget, hnone⟩
    rw [← hkeys] at herror hdropped
    have hsame := (hatomic e (hresult.trans herror)).1
    rw [hcommands] at hsame
    have := hdropped id hin hid
    rw [hsame, hget'] at this
    cases this
  · rintro (hrefused | hspares)
    · intro e _
      rw [retire_of_refused hrefused]
      exact ⟨rfl, rfl⟩
    · by_cases hrefused : BoundaryRefused s epoch sequence
      · intro e _
        rw [retire_of_refused hrefused]
        exact ⟨rfl, rfl⟩
      · obtain ⟨hresult, hcommands, hfloors⟩ := retire_of_admitted hrefused
        intro e he
        refine ⟨?_, hfloors e he⟩
        rw [hcommands]
        rcases hspares (epoch, sequence) rfl with hall | hnone
        · -- every covered command has a receipt, so nothing is refused
          have hok := dropReceipts_eq_ok s.stepCommands.nodup fun id hid hcovered => by
            obtain ⟨command, hget⟩ := Option.isSome_iff_exists.1 (mem_keys_iff.1 hid)
            exact ⟨command, hget, hall id command hcovered hget⟩
          rw [hresult] at he
          cases he.symm.trans hok
        · exact dropReceipts_eq_self hnone

end Retire

/-- **Retirements over every run**: one that raises leaves receipts and floors exactly if its boundary is
refused at once, or the commands it covers all have a receipt, or none has. -/
theorem run_retiresAtomically_iff [DecidableEq Inputs] (scene : Scene World Inputs Observation)
    (executionId : String) (world : World) (calls : List (RunnerCall Inputs)) (epoch sequence : ℤ) :
    let s := Run.run (RunnerState.call scene)
      (RunnerState.start executionId world : RunnerState World Inputs Observation) calls
    RetiresAtomically s epoch sequence ↔
      BoundaryRefused s epoch sequence ∨ SparesReceipts s (.retire epoch sequence : RunnerCall Inputs) :=
  (Run.run_invariant (P := UncertainLast) (fun s c hs => hs.move (table_move scene s c)) calls
    (uncertainLast_start executionId world)).retiresAtomically_iff

/-- A retirement through a command that raised is refused after the receipt in front of it is dropped. -/
theorem failing_retirement_not_atomic :
    ¬ RetiresAtomically (Run.run (RunnerState.call failingScene) (RunnerState.start "run" 0)
      [.step "cpu", .step "cpu"]) 0 2 := by
  intro h
  have hsame := (h _ rfl).1
  have hget := congrArg (fun commands => (commands.get? (0, 1)).isSome) hsame
  cases hget

end MyFuzz
