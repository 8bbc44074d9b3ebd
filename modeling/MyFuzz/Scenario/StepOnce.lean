import MyFuzz.Scenario.StepCommands

/-!
# Scenario/StepOnce — STEP commands execute at most once

A call moves the ledger in one of five ways: not at all, by issuing the next command, by a reset
barrier, by a refused retirement or by a retirement.  Every result below is read off the moves: the
commands of an epoch are `1 .. n` in order, floors only rise, and a known command is in the log.

A refused retirement may already have dropped receipts, so retransmissions are answered as long as no
retirement boundary covers both a receipt and an uncertain command.
-/

namespace MyFuzz

open Outcome StepLedger RunnerState Dict List

variable {World Inputs Observation : Type}

/-! ## Executed commands -/

/-- The sequences an epoch executed, in order. -/
def sequencesOf (log : List (CommandId × StepCommand Inputs Observation)) (epoch : ℤ) : List ℤ :=
  (log.filter fun entry => entry.1.1 = epoch).map fun entry => entry.1.2

/-- The first `n` sequences. -/
def firstSequences (n : ℕ) : List ℤ := (List.range n).map fun i : ℕ => (i : ℤ) + 1

theorem firstSequences_succ (n : ℕ) : firstSequences (n + 1) = firstSequences n ++ [(n : ℤ) + 1] := by
  unfold firstSequences
  rw [range_succ, map_append, map_singleton]

theorem nodup_firstSequences (n : ℕ) : (firstSequences n).Nodup :=
  nodup_range.map fun i j h => by simpa using h

theorem pos_of_mem_firstSequences {n : ℕ} {q : ℤ} (h : q ∈ firstSequences n) : 1 ≤ q := by
  obtain ⟨i, -, rfl⟩ := mem_map.1 h
  omega

variable {entry : CommandId × StepCommand Inputs Observation} {r : Option CommandId}
  {s s' : RunnerState World Inputs Observation}

section Log

variable {log : List (CommandId × StepCommand Inputs Observation)}

theorem sequencesOf_append (id : CommandId) (command : StepCommand Inputs Observation)
    (epoch : ℤ) : sequencesOf (log ++ [(id, command)]) epoch
      = sequencesOf log epoch ++ if id.1 = epoch then [id.2] else [] := by
  unfold sequencesOf
  rw [filter_append, map_append]
  split_ifs with h
  · simp [h]
  · simp [h]

theorem mem_sequencesOf (h : entry ∈ log) : entry.1.2 ∈ sequencesOf log entry.1.1 :=
  mem_map.2 ⟨entry, mem_filter.2 ⟨h, decide_eq_true rfl⟩, rfl⟩

/-- Commands are distinct when the sequences of each epoch are. -/
theorem nodup_ids : ∀ {log : List (CommandId × StepCommand Inputs Observation)},
    (∀ epoch, (sequencesOf log epoch).Nodup) → (log.map Prod.fst).Nodup
  | [], _ => nodup_nil
  | entry :: rest, h => by
      have hhead : sequencesOf (entry :: rest) entry.1.1 = entry.1.2 :: sequencesOf rest entry.1.1 := by
        simp [sequencesOf]
      have htail : ∀ epoch, (sequencesOf rest epoch).Nodup := fun epoch =>
        (h epoch).sublist (((sublist_cons_self entry rest).filter _).map _)
      refine nodup_cons.2 ⟨fun hmem => ?_, nodup_ids htail⟩
      obtain ⟨other, hother, heq⟩ := mem_map.1 hmem
      have hin := mem_sequencesOf hother
      rw [heq] at hin
      have hnodup := h entry.1.1
      rw [hhead] at hnodup
      exact (nodup_cons.1 hnodup).1 hin

end Log

/-- **The ledger invariant**: the executed commands of an epoch are the first ones in order, up to
the next one in the current epoch, and every known command is on record. -/
structure LedgerValid (s : RunnerState World Inputs Observation) : Prop where
  epoch_nonneg : 0 ≤ s.commandEpoch
  next_pos : 1 ≤ s.nextCommandSequence
  ordered : ∀ epoch, ∃ n, sequencesOf s.log epoch = firstSequences n
  current : sequencesOf s.log s.commandEpoch = firstSequences (s.nextCommandSequence - 1).toNat
  future : ∀ epoch, s.commandEpoch < epoch → sequencesOf s.log epoch = []
  nonneg : ∀ entry ∈ s.log, 0 ≤ entry.1.1

theorem ledgerValid_start (executionId : String) (world : World) :
    LedgerValid (start executionId world : RunnerState World Inputs Observation) where
  epoch_nonneg := le_rfl
  next_pos := le_rfl
  ordered _ := ⟨0, rfl⟩
  current := rfl
  future _ _ := rfl
  nonneg _ h := nomatch h

/-! ## Moves -/

/-- The ledger of a runner without its surroundings. -/
def RunnerState.ledger (s : RunnerState World Inputs Observation) :
    String × ℤ × ℤ × Dict CommandId (StepCommand Inputs Observation) × Dict ℤ ℤ ×
      List (CommandId × StepCommand Inputs Observation) :=
  (s.executionId, s.commandEpoch, s.nextCommandSequence, s.stepCommands, s.retiredStepFloor, s.log)

@[simp] theorem ledger_after {α : Type} (s : RunnerState World Inputs Observation)
    (reply : SceneReply World α) : (s.after reply).ledger = s.ledger := rfl

/-- The identity of the next command. -/
def RunnerState.nextId (s : RunnerState World Inputs Observation) : CommandId :=
  (s.commandEpoch, s.nextCommandSequence)

/-- The epoch and boundary of a retirement. -/
def RunnerCall.retirement : RunnerCall Inputs → Option CommandId
  | .retire epoch sequence => some (epoch, sequence)
  | _ => none

/-- **What a call does to the ledger.** -/
inductive LedgerMove (retirement : Option CommandId) (s s' : RunnerState World Inputs Observation) : Prop
  | stay (h : s'.ledger = s.ledger)
  | issue (command : StepCommand Inputs Observation) (hfloor : s.floor s.commandEpoch < s.nextCommandSequence)
      (hexecution : s'.executionId = s.executionId) (hepoch : s'.commandEpoch = s.commandEpoch)
      (hnext : s'.nextCommandSequence = s.nextCommandSequence + 1) (hcommands : ∀ id, s'.stepCommands.get? id
        = if id = s.nextId then some command else s.stepCommands.get? id)
      (hfloors : s'.retiredStepFloor = s.retiredStepFloor) (hlog : s'.log = s.log ++ [(s.nextId, command)])
  | barrier (hledger : s'.ledger
      = (s.executionId, s.commandEpoch + 1, 1, s.stepCommands, s.retiredStepFloor, s.log))
  | retire (epoch boundary : ℤ) (floors : Dict ℤ ℤ) (hretire : retirement = some (epoch, boundary))
      (hledger : s'.ledger = (s.executionId, s.commandEpoch, s.nextCommandSequence,
        (dropReceipts epoch (s.floor epoch) boundary s.stepCommands.keys s.stepCommands).2, floors, s.log))
      (hfloor : s.floor epoch ≤ boundary)
      (hfloors : floors = s.retiredStepFloor ∧ (dropReceipts epoch (s.floor epoch) boundary
          s.stepCommands.keys s.stepCommands).1 ≠ .ok () ∨
        floors = s.retiredStepFloor.set epoch boundary)

section Moves

variable (scene : Scene World Inputs Observation) {s t : RunnerState World Inputs Observation}

/-- A move from a state is a move from every state with its ledger. -/
theorem LedgerMove.of_ledger_eq {s₀ : RunnerState World Inputs Observation}
    (hs : s.ledger = s₀.ledger) (h : LedgerMove r s t) : LedgerMove r s₀ t := by
  obtain ⟨status, executionId, epoch, next, commands, floors, world, log⟩ := s
  obtain ⟨status₀, executionId₀, epoch₀, next₀, commands₀, floors₀, world₀, log₀⟩ := s₀
  simp only [ledger, Prod.mk.injEq] at hs
  obtain ⟨rfl, rfl, rfl, rfl, rfl, rfl⟩ := hs
  cases h with
  | stay h => exact .stay h
  | issue command hfloor hexecution hepoch hnext hcommands hfloors hlog =>
    exact .issue command hfloor hexecution hepoch hnext hcommands hfloors hlog
  | barrier h => exact .barrier h
  | retire epoch boundary floors hretire h hfloor hfloors =>
    exact .retire epoch boundary floors hretire h hfloor hfloors

theorem move_issueCommand (component : String) (inputs : Inputs)
    (hfloor : s.floor s.commandEpoch < s.nextCommandSequence) :
    LedgerMove none s
      (issueCommand scene component s.nextCommandSequence s.commandEpoch inputs s).2 := by
  unfold issueCommand
  dsimp only
  split
  · exact .issue _ hfloor rfl rfl rfl (fun id => get?_set _ _ _ _) rfl rfl
  · refine .issue _ hfloor rfl rfl rfl (fun id => ?_) rfl rfl
    rw [get?_set, get?_set, nextId]
    split_ifs <;> rfl

theorem move_retire (epoch sequence : ℤ) :
    LedgerMove (some (epoch, sequence)) s (retireStepReceiptsThrough epoch sequence s).2 := by
  unfold retireStepReceiptsThrough
  split
  · exact .stay rfl
  split
  · exact .stay rfl
  split
  · exact .stay rfl
  next hfloor =>
  dsimp only
  split
  · next e he =>
    refine .retire epoch sequence _ rfl rfl (not_lt.1 hfloor) (.inl ⟨rfl, ?_⟩)
    rw [he]
    exact nofun
  · exact .retire epoch sequence _ rfl rfl (not_lt.1 hfloor) (.inr rfl)

theorem move_resetAll : LedgerMove none s (resetAll scene s).2 := by
  unfold resetAll
  split
  · exact .stay rfl
  dsimp only
  split
  · exact .stay (ledger_after _ _)
  · exact .barrier rfl

section Calls

variable [DecidableEq Inputs]

theorem move_admitCommand (component : String) (inputs : Inputs)
    (hfloor : s.floor s.commandEpoch < s.nextCommandSequence) :
    LedgerMove none s
      (admitCommand scene component s.nextCommandSequence s.commandEpoch inputs s).2 := by
  unfold admitCommand
  split
  · exact .stay rfl
  · split_ifs
    · exact .stay rfl
    · dsimp only
      split
      · exact .stay (ledger_after _ _)
      · exact (move_issueCommand (s := s.after _) scene component inputs hfloor).of_ledger_eq
          (ledger_after _ _)

theorem move_freshCommand (component : String) (sequence epoch : ℤ) (inputs : Inputs)
    (hfloor : s.floor epoch < sequence) :
    LedgerMove none s (freshCommand scene component sequence epoch inputs s).2 := by
  unfold freshCommand
  split
  · exact .stay rfl
  split
  · exact .stay rfl
  next hepoch =>
  split
  · exact .stay rfl
  next hsequence =>
  split
  · exact .stay rfl
  obtain rfl := not_not.1 hepoch
  obtain rfl := not_not.1 hsequence
  dsimp only
  split
  · exact .stay (ledger_after _ _)
  · exact (move_admitCommand (s := s.after _) scene component inputs hfloor).of_ledger_eq
      (ledger_after _ _)

theorem move_executeStep (component executionId : String) (sequence epoch : ℤ) (inputs : Inputs) :
    LedgerMove none s (executeStep scene component executionId sequence epoch inputs s).2 := by
  unfold executeStep
  split
  · exact .stay rfl
  split
  · exact .stay rfl
  split
  · exact .stay rfl
  next hfloor =>
  split
  · exact .stay rfl
  · exact move_freshCommand scene component sequence epoch inputs (not_le.1 hfloor)

theorem move_step (component : String) : LedgerMove none s (step scene component s).2 := by
  unfold step
  split
  · exact .stay rfl
  dsimp only
  split
  · exact .stay (ledger_after _ _)
  split
  · exact .stay (ledger_after _ _)
  · exact (move_executeStep (s := s.after _) scene component _ _ _ _).of_ledger_eq
      (ledger_after _ _)

/-- **Every call makes a move.** -/
theorem move_call (s : RunnerState World Inputs Observation) (c : RunnerCall Inputs) :
    LedgerMove c.retirement s (s.call scene c) := by
  cases c with
  | executeStep component executionId sequence epoch inputs =>
    exact move_executeStep scene component executionId sequence epoch inputs
  | step component => exact move_step scene component
  | resetAll => exact move_resetAll scene
  | retire epoch sequence => exact move_retire epoch sequence

end Calls

end Moves

/-! ## Runs -/

theorem LedgerValid.move (hs : LedgerValid s) (h : LedgerMove r s s') : LedgerValid s' := by
  obtain ⟨status', executionId', epoch', next', commands', floors', world', log'⟩ := s'
  cases h with
  | stay h =>
    simp only [ledger, Prod.mk.injEq] at h
    obtain ⟨rfl, rfl, rfl, rfl, rfl, rfl⟩ := h
    exact ⟨hs.epoch_nonneg, hs.next_pos, hs.ordered, hs.current, hs.future, hs.nonneg⟩
  | issue command hfloor hexecution hepoch hnext hcommands hfloors hlog =>
    subst hepoch hnext hlog
    have hnext := hs.next_pos
    have hcurrent : sequencesOf (s.log ++ [(s.nextId, command)]) s.commandEpoch
        = firstSequences (s.nextCommandSequence + 1 - 1).toNat := by
      have hcount : (s.nextCommandSequence + 1 - 1).toNat
          = (s.nextCommandSequence - 1).toNat + 1 := by omega
      have hlast : (((s.nextCommandSequence - 1).toNat : ℕ) : ℤ) + 1 = s.nextCommandSequence := by
        omega
      rw [sequencesOf_append, nextId, if_pos rfl, hs.current, hcount, firstSequences_succ, hlast]
    have hother : ∀ epoch, epoch ≠ s.commandEpoch →
        sequencesOf (s.log ++ [(s.nextId, command)]) epoch = sequencesOf s.log epoch := by
      intro epoch hne
      rw [sequencesOf_append, if_neg (fun h => hne h.symm), append_nil]
    refine ⟨hs.epoch_nonneg, by dsimp only; omega, fun epoch => ?_, hcurrent, fun epoch hepoch => ?_,
      fun entry hentry => ?_⟩
    · by_cases heq : epoch = s.commandEpoch
      · exact ⟨_, heq ▸ hcurrent⟩
      · rw [hother epoch heq]
        exact hs.ordered epoch
    · rw [hother epoch (ne_of_gt hepoch)]
      exact hs.future epoch hepoch
    · rcases mem_append.1 hentry with hold | hnew
      · exact hs.nonneg entry hold
      · rw [mem_singleton.1 hnew]
        exact hs.epoch_nonneg
  | barrier h =>
    simp only [ledger, Prod.mk.injEq] at h
    obtain ⟨rfl, rfl, rfl, rfl, rfl, rfl⟩ := h
    have hepoch := hs.epoch_nonneg
    refine ⟨by dsimp only; omega, le_rfl, hs.ordered, ?_, fun epoch hlt => ?_, hs.nonneg⟩
    · exact hs.future _ (lt_add_one _)
    · exact hs.future epoch (lt_trans (lt_add_one _) hlt)
  | retire epoch boundary floors hretire h hfloor hfloors =>
    simp only [ledger, Prod.mk.injEq] at h
    obtain ⟨rfl, rfl, rfl, rfl, rfl, rfl⟩ := h
    exact ⟨hs.epoch_nonneg, hs.next_pos, hs.ordered, hs.current, hs.future, hs.nonneg⟩

/-- Floors only rise. -/
theorem LedgerMove.floor_le (h : LedgerMove r s s') (epoch : ℤ) : s.floor epoch ≤ s'.floor epoch := by
  have hsame : s'.retiredStepFloor = s.retiredStepFloor → s.floor epoch ≤ s'.floor epoch :=
    fun heq => by rw [floor, floor, heq]
  cases h with
  | stay h => exact hsame (congrArg (·.2.2.2.2.1) h)
  | issue _ _ _ _ _ _ hfloors _ => exact hsame hfloors
  | barrier h => exact hsame (congrArg (·.2.2.2.2.1) h)
  | retire epoch' boundary floors _ h hfloor hfloors =>
    have hfloors' : s'.retiredStepFloor = floors := congrArg (·.2.2.2.2.1) h
    rcases hfloors with ⟨heq, -⟩ | heq
    · exact hsame (hfloors'.trans heq)
    · rw [floor, floor, hfloors', heq]
      by_cases hepoch : epoch = epoch'
      · rw [hepoch, getD_set_self]
        exact hfloor
      · rw [getD_set_of_ne _ hepoch]

/-- The execution of a runner never changes. -/
theorem LedgerMove.executionId_eq (h : LedgerMove r s s') : s'.executionId = s.executionId := by
  cases h with
  | stay h | barrier h | retire _ _ _ _ h _ _ => exact congrArg (·.1) h
  | issue _ _ hexecution _ _ _ _ _ => exact hexecution

/-- A move records at most one command, which is new and not retired. -/
theorem LedgerMove.log_eq (hs : LedgerValid s) (h : LedgerMove r s s') : s'.log = s.log ∨
      ∃ entry, s'.log = s.log ++ [entry] ∧ s.floor entry.1.1 < entry.1.2 ∧ entry.1 ∉ s.log.map Prod.fst := by
  cases h with
  | stay h | barrier h | retire _ _ _ _ h _ _ => exact .inl (congrArg (·.2.2.2.2.2) h)
  | issue command hfloor _ _ _ _ _ hlog =>
    refine .inr ⟨_, hlog, hfloor, fun hmem => ?_⟩
    obtain ⟨old, hold, heq⟩ := mem_map.1 hmem
    have hin := mem_sequencesOf hold
    rw [heq] at hin
    have hlt : ∀ q ∈ sequencesOf s.log s.commandEpoch, q < s.nextCommandSequence := by
      intro q hq
      rw [hs.current] at hq
      obtain ⟨i, hi, rfl⟩ := mem_map.1 hq
      have hi := mem_range.1 hi
      omega
    exact (lt_irrefl _ (hlt _ hin))

/-! ## Retransmissions -/

/-- A command lies above the floor of its epoch and up to a boundary. -/
def Covered (epoch previous boundary : ℤ) (id : CommandId) : Prop :=
  id.1 = epoch ∧ previous < id.2 ∧ id.2 ≤ boundary

instance (epoch previous boundary : ℤ) (id : CommandId) :
    Decidable (Covered epoch previous boundary id) := inferInstanceAs (Decidable (_ ∧ _))

section Drop

variable {epoch previous boundary : ℤ}

/-- Commands outside the boundary are kept. -/
theorem get?_dropReceipts {id : CommandId} (hid : ¬ Covered epoch previous boundary id) :
    ∀ (ids : List CommandId) (commands : Dict CommandId (StepCommand Inputs Observation)),
      (dropReceipts epoch previous boundary ids commands).2.get? id = commands.get? id
  | [], _ => rfl
  | first :: rest, commands => by
      unfold dropReceipts
      split_ifs with hcovered
      · split
        · rfl
        · split_ifs
          · rfl
          · have hne : id ≠ first := fun h => hid (h ▸ hcovered)
            rw [get?_dropReceipts hid rest, get?_erase, if_neg hne]
      · exact get?_dropReceipts hid rest commands

/-- Every covered command has a receipt: they are all dropped. -/
theorem dropReceipts_eq_ok : ∀ {ids : List CommandId}
    {commands : Dict CommandId (StepCommand Inputs Observation)}, ids.Nodup →
    (∀ id ∈ ids, Covered epoch previous boundary id →
      ∃ command, commands.get? id = some command ∧ command.receipt ≠ none) →
    (dropReceipts epoch previous boundary ids commands).1 = .ok ()
  | [], _, _, _ => rfl
  | first :: rest, commands, hnodup, h => by
      obtain ⟨hfirst, hrest⟩ := nodup_cons.1 hnodup
      unfold dropReceipts
      split_ifs with hcovered
      · obtain ⟨command, hget, hreceipt⟩ := h first mem_cons_self hcovered
        rw [hget]
        dsimp only
        rw [if_neg hreceipt]
        refine dropReceipts_eq_ok hrest fun id hid hc => ?_
        have hne : id ≠ first := fun heq => hfirst (heq ▸ hid)
        rw [get?_erase, if_neg hne]
        exact h id (mem_cons_of_mem first hid) hc
      · exact dropReceipts_eq_ok hrest fun id hid hc => h id (mem_cons_of_mem first hid) hc

/-- No covered command has a receipt: nothing is dropped. -/
theorem dropReceipts_eq_self : ∀ {ids : List CommandId}
    {commands : Dict CommandId (StepCommand Inputs Observation)},
    (∀ id command, Covered epoch previous boundary id → commands.get? id = some command →
      command.receipt = none) →
    (dropReceipts epoch previous boundary ids commands).2 = commands
  | [], _, _ => rfl
  | first :: rest, commands, h => by
      unfold dropReceipts
      split_ifs with hcovered
      · split
        · rfl
        · next command hget => rw [if_pos (h first command hcovered hget)]
      · exact dropReceipts_eq_self h

end Drop

/-- **A retirement spares the receipts it does not retire**: the commands its boundary covers all
have a receipt, or none of them has. -/
def SparesReceipts (s : RunnerState World Inputs Observation) (c : RunnerCall Inputs) : Prop :=
  ∀ id, c.retirement = some id →
    (∀ id' command, Covered id.1 (s.floor id.1) id.2 id' → s.stepCommands.get? id' = some command →
      command.receipt ≠ none) ∨
    ∀ id' command, Covered id.1 (s.floor id.1) id.2 id' → s.stepCommands.get? id' = some command →
      command.receipt = none

/-- Every executed command above its floor is known. -/
def ReceiptsKept (s : RunnerState World Inputs Observation) : Prop :=
  ∀ entry ∈ s.log, s.floor entry.1.1 < entry.1.2 → s.stepCommands.get? entry.1 = some entry.2

theorem ReceiptsKept.move {c : RunnerCall Inputs} (hs : LedgerValid s) (hkept : ReceiptsKept s)
    (hspares : SparesReceipts s c) (h : LedgerMove c.retirement s s') : ReceiptsKept s' := by
  have hsame : s'.stepCommands = s.stepCommands → s'.retiredStepFloor = s.retiredStepFloor →
      s'.log = s.log → ReceiptsKept s' := by
    intro hcommands hfloors hlog entry hentry hfloor
    rw [hlog] at hentry
    rw [floor, hfloors] at hfloor
    rw [hcommands]
    exact hkept entry hentry hfloor
  have hlogs := h.log_eq hs
  cases h with
  | stay h | barrier h =>
    exact hsame (congrArg (·.2.2.2.1) h) (congrArg (·.2.2.2.2.1) h) (congrArg (·.2.2.2.2.2) h)
  | issue command hfloor hexecution hepoch hnext hcommands hfloors hlog =>
    intro entry hentry hfloor'
    rw [floor, hfloors] at hfloor'
    rw [hlog] at hentry
    rw [hcommands]
    rcases mem_append.1 hentry with hold | hnew
    · have hne : entry.1 ≠ s.nextId := by
        intro heq
        rcases hlogs with hlogs | ⟨_, hlogs, -, hfresh⟩
        · exact absurd (hlog.symm.trans hlogs) (by simp)
        · obtain rfl := singleton_injective (append_cancel_left (hlog.symm.trans hlogs))
          exact hfresh (mem_map.2 ⟨entry, hold, heq⟩)
      rw [if_neg hne]
      exact hkept entry hold hfloor'
    · obtain rfl := mem_singleton.1 hnew
      exact if_pos rfl
  | retire epoch boundary floors hretire h hfloor hfloors =>
    have hcommands : s'.stepCommands = (dropReceipts epoch (s.floor epoch) boundary
        s.stepCommands.keys s.stepCommands).2 := congrArg (·.2.2.2.1) h
    have hfloors' : s'.retiredStepFloor = floors := congrArg (·.2.2.2.2.1) h
    have hlog : s'.log = s.log := congrArg (·.2.2.2.2.2) h
    rcases hfloors with ⟨heq, hrefused⟩ | heq
    · -- A refusal whose boundary covers no receipt drops nothing.
      rcases hspares _ hretire with hall | hnone
      · refine absurd (dropReceipts_eq_ok s.stepCommands.nodup fun id hid hcovered => ?_) hrefused
        obtain ⟨command, hget⟩ := Option.isSome_iff_exists.1 (mem_keys_iff.1 hid)
        exact ⟨command, hget, hall id command hcovered hget⟩
      · exact hsame (hcommands.trans (dropReceipts_eq_self hnone)) (hfloors'.trans heq) hlog
    · intro entry hentry hfloor'
      rw [hlog] at hentry
      have hold : s.floor entry.1.1 < entry.1.2 ∧ ¬ Covered epoch (s.floor epoch) boundary entry.1 := by
        rw [floor, hfloors', heq] at hfloor'
        by_cases hepoch : entry.1.1 = epoch
        · rw [hepoch, getD_set_self] at hfloor'
          refine ⟨?_, fun hcovered => absurd hcovered.2.2 (not_le.2 hfloor')⟩
          rw [hepoch]
          exact hfloor.trans_lt hfloor'
        · rw [getD_set_of_ne _ hepoch] at hfloor'
          exact ⟨hfloor', fun hcovered => hepoch hcovered.1⟩
      rw [hcommands, get?_dropReceipts hold.2]
      exact hkept entry hentry hold.1

section Runs

variable [DecidableEq Inputs] (scene : Scene World Inputs Observation)

/-- **A kept receipt answers its retransmission, and nothing moves.** -/
theorem executeStep_retransmission (hs : LedgerValid s) (hkept : ReceiptsKept s)
    (hexecution : s.executionId ≠ "") (hentry : entry ∈ s.log)
    (hfloor : s.floor entry.1.1 < entry.1.2) {receipt : StepReceipt Inputs Observation}
    (hreceipt : entry.2.receipt = some receipt) :
    executeStep scene entry.2.component s.executionId entry.1.2 entry.1.1 entry.2.inputs s
      = (.ok receipt, s) := by
  have hepoch := hs.nonneg entry hentry
  obtain ⟨n, hn⟩ := hs.ordered entry.1.1
  have hin := mem_sequencesOf hentry
  rw [hn] at hin
  have hsequence := pos_of_mem_firstSequences hin
  have hget : s.stepCommands.get? (entry.1.1, entry.1.2) = some entry.2 := hkept entry hentry hfloor
  unfold executeStep
  rw [if_neg (by simp [hexecution]), if_neg (by omega), if_neg (not_le.2 hfloor), hget]
  dsimp only
  unfold recallReceipt
  rw [ensure_of ⟨rfl, rfl⟩, ok_bind, hreceipt]
  rfl

/-- What a run adds to the log is new and above the floors it started from. -/
theorem run_log (calls : List (RunnerCall Inputs)) :
    ∀ {s : RunnerState World Inputs Observation}, LedgerValid s →
      ∃ added, (Run.run (call scene) s calls).log = s.log ++ added ∧
        ∀ entry ∈ added, s.floor entry.1.1 < entry.1.2 ∧ entry.1 ∉ s.log.map Prod.fst := by
  induction calls with
  | nil => exact fun {s} _ => ⟨[], (append_nil _).symm, nofun⟩
  | cons c calls ih =>
    intro s hs
    have hmove := move_call scene s c
    obtain ⟨added, hadded, hnew⟩ := ih (hs.move hmove)
    rcases hmove.log_eq hs with hlog | ⟨entry, hlog, hfloor, hfresh⟩
    · refine ⟨added, by rw [Run.run_cons, hadded, hlog], fun entry hentry => ?_⟩
      obtain ⟨hfloor, hfresh⟩ := hnew entry hentry
      rw [hlog] at hfresh
      exact ⟨(hmove.floor_le _).trans_lt hfloor, hfresh⟩
    · refine ⟨entry :: added, by rw [Run.run_cons, hadded, hlog, append_assoc]; rfl, ?_⟩
      intro other hother
      rcases mem_cons.1 hother with rfl | hother
      · exact ⟨hfloor, hfresh⟩
      · obtain ⟨hfloor', hfresh'⟩ := hnew other hother
        rw [hlog, map_append, mem_append, not_or] at hfresh'
        exact ⟨(hmove.floor_le _).trans_lt hfloor', hfresh'.1⟩

/-- **STEP commands execute at most once.** In every run of one execution the commands that advanced a
harness are distinct, and `1 .. n` in order within an epoch, and none is executed again after it raised or
was retired. While no retirement boundary covers both a receipt and a command without one, a retransmission
of an unretired command returns its receipt. -/
theorem step_commands_execute_once (executionId : String) (hexecution : executionId ≠ "")
    (world : World) (calls : List (RunnerCall Inputs)) :
    let s := Run.run (RunnerState.call scene)
      (RunnerState.start executionId world : RunnerState World Inputs Observation) calls
    (s.log.map Prod.fst).Nodup ∧
    (∀ epoch, ∃ n : ℕ, (s.log.filter fun entry => entry.1.1 = epoch).map (fun entry => entry.1.2)
      = (List.range n).map fun i : ℕ => (i : ℤ) + 1) ∧
    (∀ later, ∃ added, (Run.run (RunnerState.call scene) s later).log = s.log ++ added ∧
      ∀ entry ∈ added, s.floor entry.1.1 < entry.1.2 ∧ entry.1 ∉ s.log.map Prod.fst) ∧
    (Run.Guarded (RunnerState.call scene) SparesReceipts
        (RunnerState.start executionId world : RunnerState World Inputs Observation) calls →
      ∀ entry ∈ s.log, s.floor entry.1.1 < entry.1.2 → ∀ receipt, entry.2.receipt = some receipt →
        executeStep scene entry.2.component executionId entry.1.2 entry.1.1 entry.2.inputs s
          = (.ok receipt, s)) := by
  intro s
  have hvalid : LedgerValid s := Run.run_invariant
    (fun s c hs => hs.move (move_call scene s c)) calls (ledgerValid_start executionId world)
  have hid : s.executionId = executionId := Run.run_invariant
    (P := fun s : RunnerState World Inputs Observation => s.executionId = executionId)
    (fun s c hs => ((move_call scene s c).executionId_eq).trans hs) calls rfl
  refine ⟨nodup_ids fun epoch => ?_, hvalid.ordered, fun later => run_log scene later hvalid,
    fun hguarded entry hentry hfloor receipt hreceipt => ?_⟩
  · obtain ⟨n, hn⟩ := hvalid.ordered epoch
    rw [hn]
    exact nodup_firstSequences n
  · have hkept : LedgerValid s ∧ ReceiptsKept s := Run.run_invariant_of_guarded
      (P := fun s => LedgerValid s ∧ ReceiptsKept s)
      (fun s c hs hspares => ⟨hs.1.move (move_call scene s c),
        hs.2.move hs.1 hspares (move_call scene s c)⟩) calls
      ⟨ledgerValid_start executionId world, nofun⟩ hguarded
    have hresult := executeStep_retransmission scene hvalid hkept.2 (hid ▸ hexecution) hentry hfloor
      hreceipt
    rw [hid] at hresult
    exact hresult

end Runs

/-! ### A refused retirement -/

/-- A harness that answers its first step and raises in the second. -/
def failingScene : Scene ℕ ℕ ℕ where
  sessions := ["cpu"]
  syncSessionTicks w := ⟨.ok (), w, false⟩
  effectiveInputs _ _ := .ok 7
  ensureCapacity w _ _ := ⟨.ok (), w, false⟩
  stepOnce w _ := if w = 0 then ⟨.ok 5, 1, false⟩ else ⟨.error (.other "HarnessError"), w, true⟩
  resetSessions w := ⟨.ok (), w, false⟩
  afterBarrier w := ⟨.ok (), w, false⟩

theorem failing_commands_execute_once :
    let s := Run.run (RunnerState.call failingScene) (RunnerState.start "run" 0)
      [.step "cpu", .step "cpu"]
    s.log.length = 2 ∧ (s.log.map Prod.fst).Nodup ∧
      executeStep failingScene "cpu" "run" 1 0 7 s = (.ok ⟨"run", 1, 0, "cpu", 7, 5⟩, s) := by
  obtain ⟨hnodup, -, -, hanswers⟩ := step_commands_execute_once failingScene "run" (by decide) 0
    [.step "cpu", .step "cpu"]
  have hguarded : Run.Guarded (RunnerState.call failingScene) SparesReceipts
      (RunnerState.start "run" 0 : RunnerState ℕ ℕ ℕ) [.step "cpu", .step "cpu"] :=
    ⟨fun _ h => (by cases h), fun _ h => (by cases h), trivial⟩
  exact ⟨rfl, hnodup, hanswers hguarded ((0, 1), ⟨"cpu", 7, some ⟨"run", 1, 0, "cpu", 7, 5⟩⟩)
    (by decide) (by decide) _ rfl⟩

/-- Retiring through the raised command is refused, and yet the first receipt is gone. -/
theorem refused_retirement_drops_receipt :
    ¬ ∀ (scene : Scene ℕ ℕ ℕ) (executionId : String) (world : ℕ) (calls : List (RunnerCall ℕ)),
      executionId ≠ "" → let s := Run.run (RunnerState.call scene) (RunnerState.start executionId world) calls
      ∀ entry ∈ s.log, s.floor entry.1.1 < entry.1.2 → ∀ receipt, entry.2.receipt = some receipt →
        executeStep scene entry.2.component executionId entry.1.2 entry.1.1 entry.2.inputs s
          = (.ok receipt, s) := by
  intro h
  have hfirst := h failingScene "run" 0 [.step "cpu", .step "cpu", .retire 0 2] (by decide)
    ((0, 1), ⟨"cpu", 7, some ⟨"run", 1, 0, "cpu", 7, 5⟩⟩) (by decide) (by decide) _ rfl
  have hraised : (executeStep failingScene "cpu" "run" 1 0 7
      (Run.run (RunnerState.call failingScene) (RunnerState.start "run" 0)
        [.step "cpu", .step "cpu", .retire 0 2])).1
      = .error (.runtimeError "scenario is not running") := rfl
  rw [hfirst] at hraised
  cases hraised

end MyFuzz
