import MyFuzz.Scenario.LedgerDelivery
import MyFuzz.Scenario.ServiceMove

/-!
# Scenario/ServiceAdmission — what the checks before the ledger decide

A request passes the memory's validation before the ledger is asked.  Two things follow.

*Retransmissions.*  A request whose first answer is frozen in the ledger is validated again, against
the memory as it is now.  It gets the frozen answer exactly when that memory still admits the access.

    read a ── cold reset ── read b ── read a again
      │                        │         └─ no room for a: raises, though its snapshot is frozen
      └─ byte a determined     └─ byte b determined

*Effects.*  A request that is admitted has its callback run.  A read always returns; a store returns
when its version fits in 64 bits, and else raises after its effect.
-/

namespace MyFuzz

open Run Outcome PersistentMemory ServiceCore LedgerSystem Effect TransactionLedger

namespace MemoryService

variable {cfg : ServiceConfig} {s : MemoryService}

/-! ## Retransmissions -/

/-- The memory still admits the access of a request. -/
def Admits (cfg : ServiceConfig) (m : PersistentMemory) : ServiceCall → Prop
  | .read _ address width => ∀ region offset, cfg.memory.resolve address width false = .ok (region, offset) →
        Readable cfg.memory m region offset width.toNat
  | .write _ address _ width byteEnable => ∀ region offset,
      cfg.memory.resolve address width true = .ok (region, offset) →
        Storable cfg.memory m region offset width.toNat byteEnable.toNat
  | _ => True

variable {r r₀ : ServiceReceipt} {key : TransactionKey} {address width byteEnable value : ℤ}
  {s₀ : MemoryService} {e : Exn}

/-- **A request that is answered is frozen in the ledger.** -/
theorem Move.frozen {s' : MemoryService} {c : ServiceCall} (h : Move cfg s c (.ok (.receipt r)) s') :
    ∃ key payload, c.request? = some (key, payload) ∧
      s'.ledger.entries.get? key = some ⟨cfg.digest payload, .complete r⟩ := by
  cases h with
  | replayed hc hentry => exact ⟨_, _, hc, hentry⟩
  | fetched =>
    refine ⟨_, _, rfl, ?_⟩
    rw [get?_completed, if_pos rfl]
  | stored =>
    refine ⟨_, _, rfl, ?_⟩
    rw [ledger_published]
    rw [get?_completed, if_pos rfl]
  | @memory c a ha =>
    cases hcall : (s.memory.call cfg.memory c).1 with
    | error e | ok a =>
      rw [hcall] at ha
      cases ha

theorem entry_complete_run (hs : s.Inv cfg) (cs : List ServiceCall) {k : TransactionKey}
    {d : String} (hk : s.ledger.entries.get? k = some ⟨d, .complete r⟩) :
    (run (step cfg) s cs).ledger.entries.get? k = some ⟨d, .complete r⟩ :=
  (run_invariant (P := fun s : MemoryService => s.Inv cfg ∧ s.ledger.entries.get? k = some ⟨d, .complete r⟩)
    (fun _ c h => ⟨h.1.move (move_call h.1 c), (move_call h.1 c).entry_complete h.2⟩) cs ⟨hs, hk⟩).2

/-- A frozen read is answered when its validation passes. -/
theorem read_frozen_iff
    (hentry : s.ledger.entries.get? key = some ⟨cfg.digest (.read address width), .complete r⟩) :
    s.read cfg key address width = (.ok r, s) ↔ s.memory.validateRead cfg.memory address width = .ok () := by
  unfold read
  cases hv : s.memory.validateRead cfg.memory address width with
  | error e => simp
  | ok u =>
    rw [executeOnce_of_complete hentry]
    simp

/-- A frozen store is answered when its checks pass. -/
theorem write_frozen_iff 
    (hentry : s.ledger.entries.get? key
      = some ⟨cfg.digest (.write address value width byteEnable), .complete r⟩) :
    s.write cfg key address value width byteEnable = (.ok r, s) ↔
      s.admitWrite cfg key address value width byteEnable = .ok () := by
  unfold write
  cases hv : s.admitWrite cfg key address value width byteEnable with
  | error e => simp
  | ok u =>
    rw [executeOnce_of_complete hentry]
    dsimp only
    rw [finishWrite_replayed]
    simp

/-- A frozen read gets its answer when the memory admits it. -/
theorem read_frozen_iff_admits (hfirst : (s₀.read cfg key address width).1 = .ok r₀)
    (hentry : s.ledger.entries.get? key = some ⟨cfg.digest (.read address width), .complete r⟩) :
    s.read cfg key address width = (.ok r, s) ↔ Admits cfg s.memory (.read key address width) := by
  rw [read_frozen_iff hentry, validateRead_eq_ok]
  unfold read at hfirst
  cases hv : s₀.memory.validateRead cfg.memory address width with
  | error e =>
    rw [hv] at hfirst
    cases hfirst
  | ok u =>
    -- the address resolved at the first call, and resolving does not look at the memory
    obtain ⟨region, offset, hres, -⟩ := validateRead_eq_ok.1 hv
    constructor
    · rintro ⟨region', offset', hres', hr⟩ region'' offset'' hres''
      obtain ⟨rfl, rfl⟩ := Prod.mk.inj (Except.ok.inj (hres'.symm.trans hres''))
      exact hr
    · intro hadmits
      exact ⟨region, offset, hres, hadmits region offset hres⟩

/-- A frozen store gets its answer when the memory admits it. -/
theorem write_frozen_iff_admits 
    
    (hfirst : (s₀.write cfg key address value width byteEnable).1 = .ok r₀)
    (hentry : s.ledger.entries.get? key
      = some ⟨cfg.digest (.write address value width byteEnable), .complete r⟩) :
    s.write cfg key address value width byteEnable = (.ok r, s) ↔
      Admits cfg s.memory (.write key address value width byteEnable) := by
  rw [write_frozen_iff hentry, admitWrite_eq_ok, validateWrite_eq_ok]
  unfold write at hfirst
  cases ha : s₀.admitWrite cfg key address value width byteEnable with
  | error e =>
    rw [ha] at hfirst
    cases hfirst
  | ok u =>
    obtain ⟨hkey, hv, -⟩ := admitWrite_eq_ok.1 ha
    obtain ⟨region, offset, hres, hfits, -⟩ := validateWrite_eq_ok.1 hv
    constructor
    · rintro ⟨-, ⟨region', offset', hres', -, hroom⟩, -⟩ region'' offset'' hres''
      obtain ⟨rfl, rfl⟩ := Prod.mk.inj (Except.ok.inj (hres'.symm.trans hres''))
      exact hroom
    · intro hadmits
      refine ⟨hkey, ⟨region, offset, hres, hfits, hadmits region offset hres⟩, ?_⟩
      rintro ⟨hnone, -⟩
      rw [hentry] at hnone
      cases hnone

/-- The answer of a request as the service returned it. -/
theorem receipt_of_answer {x : Except Exn ServiceReceipt × MemoryService} :
    x.map (·.map ServiceAnswer.receipt) id = (.ok (.receipt r), s) ↔ x = (.ok r, s) := by
  obtain ⟨y, s'⟩ := x
  cases y with
  | error e | ok r' => simp [Except.map]

/-- **A retransmission gets the frozen answer exactly when the memory still admits it**: its bytes are not
awaited, not undetermined in a read-only memory, and those undetermined fit in the byte budget. -/
theorem retransmission_frozen_iff_admitted (cfg : ServiceConfig) (before after : List ServiceCall)
    (c : ServiceCall) (r : ServiceReceipt)
    (hfirst : ((run (step cfg) (init cfg) before).call cfg c).1 = .ok (.receipt r)) :
    (run (step cfg) (init cfg) (before ++ c :: after)).call cfg c
        = (.ok (.receipt r), run (step cfg) (init cfg) (before ++ c :: after)) ↔
      Admits cfg (run (step cfg) (init cfg) (before ++ c :: after)).memory c := by
  have hs := inv_run cfg before
  have hmove := move_call hs c
  rw [hfirst] at hmove
  obtain ⟨key, payload, hreq, hentry⟩ := hmove.frozen
  have hentry' := entry_complete_run (hs.move hmove) after hentry
  rw [run_append, run_cons]
  change (run (step cfg) (step cfg _ c) after).ledger.entries.get? key = _ at hentry'
  generalize run (step cfg) (step cfg (run (step cfg) (init cfg) before) c) after = s' at hentry' ⊢
  generalize run (step cfg) (init cfg) before = s₀ at hfirst
  have hcall : s₀.call cfg c = (.ok (.receipt r), (s₀.call cfg c).2) := Prod.ext hfirst rfl
  cases c with
  | read key' address width =>
    cases Option.some.inj hreq
    exact receipt_of_answer.trans (read_frozen_iff_admits
      (congrArg Prod.fst (receipt_of_answer.mp hcall)) hentry')
  | write key' address value width byteEnable =>
    cases Option.some.inj hreq
    exact receipt_of_answer.trans (write_frozen_iff_admits
      (congrArg Prod.fst (receipt_of_answer.mp hcall)) hentry')
  | _ => cases hreq

/-- A memory of sixteen bytes, `room` of which can be determined. -/
def exampleMemory (room : ℕ) : MemoryConfig :=
  { exampleConfig with
    maxInitializedBytes := room
    initialByte := fun _ _ generation offset => match generation, offset with
      | 0, 0 => 214
      | 0, 1 => 8
      | 1, 0 => 42
      | 1, 1 => 131
      | _, _ => 0 }

/-- A service over this memory, without a commit stream. -/
def exampleService (room : ℕ) : ServiceConfig where
  memory := exampleMemory room
  includeWriterKinds := false
  commitStreamCapacity := none
  printable _ := true
  digest
    | .read 0 1 => "6fbc526ce80c8157aad755cfa016db52d62136011ea9104087c7145c25923910"
    | .read 1 1 => "e971de42ce14a4766d95d9663b6a149090241b748cf4d53e725730c4931e2b3d"
    | .write 0 1 1 1 => "1ddd40ccb75239c35929d432c157228575c55737b65202a97a883bf190f95a69"
    | _ => ""
  commitHash _ := ""
  capacity_pos _ h := by cases h

/-- A read of one byte. -/
def exampleRead (sequence : ℕ) (address : ℤ) : ServiceCall :=
  .read (LedgerSystem.exampleKey sequence) address 1

/-- The snapshot of the first read. -/
def exampleSnapshot (room : ℕ) : ServiceReceipt := .snapshot {
  transactionId := (exampleService room).str (LedgerSystem.exampleKey 1)
  memoryId := "ram"
  generation := 0
  byteOffset := 0
  data := [214]
  versions := [(0, 1)]
  writerEventIds := [firstReadEvent ("ram", 0)]
  materializedOffsets := [0]
  writerKinds := [.firstRead] }

/-- With room for both bytes the first read is answered again after the second. -/
theorem first_read_answered_again :
    (run (step (exampleService 16)) (init (exampleService 16))
        [exampleRead 1 0, exampleRead 2 1]).call (exampleService 16) (exampleRead 1 0)
      = (.ok (.receipt (exampleSnapshot 16)), run (step (exampleService 16))
        (init (exampleService 16)) [exampleRead 1 0, exampleRead 2 1]) := by
  refine (retransmission_frozen_iff_admitted (exampleService 16) [] [exampleRead 2 1]
    (exampleRead 1 0) (exampleSnapshot 16) rfl).mpr ?_
  intro region offset hres
  change Except.ok (exampleRegion, 0) = Except.ok (region, offset) at hres
  cases Except.ok.inj hres
  exact ⟨by decide, by decide, by decide⟩

/-- **A frozen read is refused once its byte has no room left.** -/
theorem retransmission_not_always_answered :
    ¬ ∀ (cfg : ServiceConfig) (before after : List ServiceCall) (c : ServiceCall)
      (r : ServiceReceipt), ((run (step cfg) (init cfg) before).call cfg c).1 = .ok (.receipt r) →
      (run (step cfg) (init cfg) (before ++ c :: after)).call cfg c
        = (.ok (.receipt r), run (step cfg) (init cfg) (before ++ c :: after)) := by
  intro h
  have h' := congrArg Prod.fst (h (exampleService 1) [] [.memory .coldReset, exampleRead 2 1]
    (exampleRead 1 0) (exampleSnapshot 1) rfl)
  cases h'

/-! ## Effects -/

/-- The versions of the memory a store resolves to fit in 64 bits. -/
def StoreCountable (cfg : ServiceConfig) (m : PersistentMemory) (address width byteEnable : ℤ) : Prop :=
  ∀ region offset, cfg.memory.resolve address width true = .ok (region, offset) →
    Countable m region.memoryId byteEnable

theorem read_raised (hs : s.Inv cfg) (h : (s.call cfg (.read key address width)).1 = .error e) :
    (s.call cfg (.read key address width)).2 = s := by
  have hmove := move_call hs (.read key address width)
  rw [h] at hmove
  generalize (s.call cfg (.read key address width)).2 = s' at hmove
  cases hmove with
  | refused => rfl

theorem write_raised (hs : s.Inv cfg)
    (h : (s.call cfg (.write key address value width byteEnable)).1 = .error e)
    (hcount : StoreCountable cfg s.memory address width byteEnable) :
    (s.call cfg (.write key address value width byteEnable)).2 = s := by
  have hmove := move_call hs (.write key address value width byteEnable)
  rw [h] at hmove
  generalize (s.call cfg (.write key address value width byteEnable)).2 = s' at hmove
  cases hmove with
  | refused => rfl
  | uncertain _ _ hres _ _ hnot => exact absurd (hcount _ _ hres) hnot

/-- The validation of a read passes exactly when its callback returns. -/
theorem validateRead_iff_readCommit (hs : s.Inv cfg) (key : TransactionKey) (address width : ℤ) :
    s.memory.validateRead cfg.memory address width = .ok () ↔
      ∃ r, (readCommit cfg key address width s.toServiceCore).1 = .ok r := by
  constructor
  · intro hv
    obtain ⟨region, offset, hres, hr⟩ := validateRead_eq_ok.1 hv
    obtain ⟨events, -, hcommit⟩ :=
      readCommit_of_readable (show s.toServiceCore.memory.Inv cfg.memory from hs.memory) key hres hr
        rfl rfl
    exact ⟨_, congrArg Prod.fst hcommit⟩
  · rintro ⟨r, hr⟩
    obtain ⟨snapshot, core', hread, -⟩ := bind_ok (Prod.ext hr rfl)
    have hmem : (s.memory.read cfg.memory address width (cfg.str key)).1 = .ok snapshot := by
      have hfst := congrArg Prod.fst hread
      exact hfst
    cases change_read (Prod.ext hmem rfl) with
    | fetched hplace hready hwritable hroom hm' =>
      exact validateRead_eq_ok.2 ⟨_, _, hplace.resolved, hready, hwritable, hroom⟩

/-- The validation and the capacity test of a store pass exactly when its callback returns, if its
version fits. -/
theorem validateWrite_iff_writeCommit (key : TransactionKey) (address value width byteEnable : ℤ)
    (hcount : StoreCountable cfg s.memory address width byteEnable) :
    (s.memory.validateWrite cfg.memory address value width byteEnable = .ok () ∧ s.streamFull cfg = false) ↔
      ∃ r, (writeCommit cfg key address value width byteEnable
        (s.toServiceCore, ⟨none, false⟩)).1 = .ok r := by
  constructor
  · rintro ⟨hv, hfull⟩
    obtain ⟨region, offset, hres, hfits, hroom⟩ := validateWrite_eq_ok.1 hv
    exact ⟨_, congrArg Prod.fst
      (writeCommit_of_countable key hfull hres hfits hroom (hcount _ _ hres))⟩
  · rintro ⟨r, hr⟩
    have hfull : s.streamFull cfg = false := by
      by_contra hfull
      rw [Bool.not_eq_false] at hfull
      rw [writeCommit, bind_of_error (reserve_of_full hfull _)] at hr
      cases hr
    rw [writeCommit, bind_of_ok (reserve_of_not_full hfull),
      bind_of_ok (get_apply _)] at hr
    obtain ⟨_, c, hres, hr⟩ := bind_ok (Prod.ext hr rfl)
    obtain ⟨version, _, hwrite, -⟩ := bind_ok hr
    have hc : c.1.memory = s.memory := congrArg (fun x => x.2.1.memory) hres.symm
    have hmem : (c.1.memory.write cfg.memory address value width byteEnable (cfg.str key)).1
        = .ok version := by
      have hfst := congrArg Prod.fst hwrite
      exact hfst
    rw [hc] at hmem
    exact ⟨validateWrite_of_write hmem, hfull⟩

/-- **An admitted request has a certain effect.** A read that raises changes nothing, nor does a store as
long as the generation and the next version fit in 64 bits. The checks before the ledger pass exactly when
the callback would return. -/
theorem admitted_effect_certain (cfg : ServiceConfig) (cs : List ServiceCall) :
    (∀ (key : TransactionKey) (address width : ℤ) (e : Exn),
      ((run (step cfg) (init cfg) cs).call cfg (.read key address width)).1 = .error e →
      ((run (step cfg) (init cfg) cs).call cfg (.read key address width)).2
        = run (step cfg) (init cfg) cs) ∧
    (∀ (key : TransactionKey) (address value width byteEnable : ℤ) (e : Exn),
      ((run (step cfg) (init cfg) cs).call cfg (.write key address value width byteEnable)).1
        = .error e →
      StoreCountable cfg (run (step cfg) (init cfg) cs).memory address width byteEnable →
      ((run (step cfg) (init cfg) cs).call cfg (.write key address value width byteEnable)).2
        = run (step cfg) (init cfg) cs) ∧
    (∀ (key : TransactionKey) (address width : ℤ),
      (run (step cfg) (init cfg) cs).memory.validateRead cfg.memory address width = .ok () ↔
      ∃ r, (readCommit cfg key address width (run (step cfg) (init cfg) cs).toServiceCore).1
        = .ok r) ∧
    ∀ (key : TransactionKey) (address value width byteEnable : ℤ),
      StoreCountable cfg (run (step cfg) (init cfg) cs).memory address width byteEnable →
      (((run (step cfg) (init cfg) cs).memory.validateWrite cfg.memory address value width byteEnable
          = .ok () ∧ (run (step cfg) (init cfg) cs).streamFull cfg = false) ↔
        ∃ r, (writeCommit cfg key address value width byteEnable
          ((run (step cfg) (init cfg) cs).toServiceCore, ⟨none, false⟩)).1 = .ok r) := by
  have hs := inv_run cfg cs
  exact ⟨fun key address width e h => read_raised hs h,
    fun key address value width byteEnable e h hcount => write_raised hs h hcount,
    fun key address width => validateRead_iff_readCommit hs key address width,
    fun key address value width byteEnable hcount =>
      validateWrite_iff_writeCommit key address value width byteEnable hcount⟩

/-- Cold resets of an empty memory only count generations. -/
theorem run_coldReset (cfg : ServiceConfig) : ∀ n : ℕ,
    let s := run (step cfg) (init cfg) (List.replicate n (.memory .coldReset))
    s.ledger = .init ∧ s.memory.generation = n ∧ s.memory.bytes = .empty ∧ s.memory.initialImages = .empty
  | 0 => ⟨rfl, rfl, rfl, rfl⟩
  | n + 1 => by
      obtain ⟨hledger, hgen, -, himages⟩ := run_coldReset cfg n
      rw [List.replicate_succ', run_concat]
      refine ⟨hledger, congrArg (· + 1) hgen, ?_, himages⟩
      generalize run (step cfg) (init cfg) (List.replicate n (.memory .coldReset)) = s at himages
      change (s.memory.coldReset cfg.memory).bytes = .empty
      rw [coldReset, himages]
      rfl

/-- A store in a generation beyond 64 bits raises after its effect. -/
theorem uncertain_of_generation {n : ℕ} (hn : 2 ^ 64 ≤ n) :
    let s := run (step (exampleService 16)) (init (exampleService 16)) (List.replicate n (.memory .coldReset))
    s.ledger.entries.get? (exampleKey 1) = none ∧ ∃ e,
      (s.call (exampleService 16) (.write (exampleKey 1) 0 1 1 1)).1 = .error e ∧
      ((s.call (exampleService 16) (.write (exampleKey 1) 0 1 1 1)).2.ledger.entries.get?
        (exampleKey 1)).isSome := by
  obtain ⟨hledger, hgen, hbytes, -⟩ := run_coldReset (exampleService 16) n
  generalize run (step (exampleService 16)) (init (exampleService 16))
    (List.replicate n (.memory .coldReset)) = s at hledger hgen hbytes
  have hres : (exampleService 16).memory.resolve 0 1 true = .ok (exampleRegion, 0) := rfl
  have hfresh : s.ledger.Fresh (exampleKey 1) := by
    rw [hledger]
    exact ⟨rfl, rfl, rfl⟩
  have hroom : Storable (exampleService 16).memory s.memory exampleRegion 0 1 1 := by
    rw [Storable, missing, hbytes]
    decide
  have hchecks : s.admitWrite (exampleService 16) (exampleKey 1) 0 1 1 1 = .ok () :=
    admitWrite_eq_ok.2 ⟨by decide, validateWrite_eq_ok.2
      ⟨exampleRegion, 0, hres, ⟨by decide, by decide, by decide, by decide⟩, hroom⟩, by
        rintro ⟨-, hfull⟩
        cases hfull⟩
  obtain ⟨e, -, hwrite⟩ := write_of_not_countable hchecks hfresh hres fun hcount =>
    absurd hcount.1 (by rw [hgen]; exact not_lt.2 hn)
  refine ⟨hfresh.absent, e, ?_, ?_⟩
  · rw [call, hwrite]
    rfl
  · rw [call, hwrite]
    change ((s.ledger.raised _ _).entries.get? _).isSome = true
    rw [get?_raised, if_pos rfl]
    rfl

/-- **A store can raise after its effect**: its request stays in the ledger, uncertain. -/
theorem store_effect_not_always_certain :
    ¬ ∀ (cfg : ServiceConfig) (cs : List ServiceCall) (key : TransactionKey)
      (address value width byteEnable : ℤ) (e : Exn),
      ((run (step cfg) (init cfg) cs).call cfg (.write key address value width byteEnable)).1
        = .error e →
      ((run (step cfg) (init cfg) cs).call cfg
          (.write key address value width byteEnable)).2.ledger.entries.get? key
        = (run (step cfg) (init cfg) cs).ledger.entries.get? key := by
  intro h
  obtain ⟨hnone, e, hraise, hsome⟩ := uncertain_of_generation (le_refl (2 ^ 64))
  have hsame := h _ _ _ _ _ _ _ e hraise
  rw [hsame, hnone] at hsome
  cases hsome

end MemoryService

end MyFuzz
