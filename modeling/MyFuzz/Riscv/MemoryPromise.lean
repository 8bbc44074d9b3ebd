import MyFuzz.Riscv.ProgramMemory

/-!
# Riscv/MemoryPromise — which windows the promise holds for

A program promises that every access it makes is the recorded one, lies in the window and is aligned to
its size.  The window's base is checked for multiples of four only:

    ramBase % 8 = 4,  LD in the pool   ⟹   some draws give a doubleword access at an odd word

Every other choice of options keeps the promise, whatever is drawn.
-/

namespace MyFuzz

open Outcome BitField Machine Draw Draws List

variable {profile : RiscvProfile} {options : ProgramOptions} {program : Program}

/-! ## The promise -/

/-- **The memory promise of a program**, about every run from place zero. -/
structure MemoryPromise (profile : RiscvProfile) (options : ProgramOptions) (program : Program) : Prop where
  accesses : ∀ (s : Hart) (w width : ℕ) (a : Machine.Access), Reachable profile.xlen program.image s →
    fetch program.image s.pc = some (w, width) → access profile.xlen s.x w width = some a →
    ∃ item ∈ program.instructions, item.pc = s.pc ∧ item.word = w ∧ item.width = width ∧
      item.address = some a.address ∧ options.ramBase ≤ a.address ∧
      a.address + a.size ≤ options.ramBase + options.ramSize ∧ a.address % a.size = 0
  base_kept : ∀ item ∈ program.instructions.drop (prologueOf profile options).length,
    destination profile.xlen item.word item.width ≠ some (baseRegister profile options)
  registers_below : ∀ item ∈ program.instructions, ∀ name ∈ [OperandName.rd, .rs1, .rs2], ∀ v,
    item.operands.get? name = some v → 0 ≤ v ∧ v < profile.registerCount

/-- **The options that doublewords at odd words come from**: the base lies four bytes behind a
multiple of eight, `LD` and `SD` are in the pool, and there is a slot behind the prologue. -/
structure OddDoubleWords (profile : RiscvProfile) (options : ProgramOptions) : Prop where
  accepted : Accepted profile options
  doubleWords : DoubleWords profile options
  odd : options.ramBase % 8 ≠ 0
  slot : (prologueOf profile options).length < options.count

/-! ## Programs are laid out -/

theorem placed_prologue (profile : RiscvProfile) (options : ProgramOptions) :
    LaidFrom 0 (prologueItems profile options) ∧
      extent (prologueItems profile options) = 4 * (prologueItems profile options).length ∧
      ∀ item ∈ prologueItems profile options, item.width = 4 := by
  unfold prologueItems
  dsimp only
  split_ifs with hbase hlo
  · exact ⟨⟨rfl, trivial⟩, rfl, by simp⟩
  · exact ⟨⟨rfl, rfl, trivial⟩, rfl, by simp⟩
  · exact ⟨trivial, rfl, by simp⟩

/-- The base is a register that is kept. -/
theorem base_reserved (profile : RiscvProfile) (options : ProgramOptions) :
    baseRegister profile options = 0 ∨ baseRegister profile options ∈ reservedRegisters profile options := by
  unfold reservedRegisters
  by_cases h : options.hasBase
  · rw [if_pos h]
    exact .inr (.head _)
  · left
    unfold baseRegister
    rw [if_neg h]

/-- **A generated program is laid out.** -/
theorem laid_of_shaped (haccepted : Accepted profile options) (h : Shaped profile options program) :
    ∃ items, Laid profile options program items ∧
      (items ≠ [] → (prologueOf profile options).length < options.count) := by
  obtain ⟨records, items, hslots, hlength, hrecords, hitems⟩ := h
  obtain ⟨hplaced, hextent, hwidth⟩ := placed_prologue profile options
  have hbytes : (prologueItems profile options).flatMap ProgramInstruction.bytes =
      ((prologueItems profile options).map fun item => Bytes.leBytes 4 item.word).flatten := by
    rw [flatMap_def]
    refine congrArg List.flatten (map_congr_left fun item hmem => ?_)
    rw [ProgramInstruction.bytes, hwidth item hmem]
  refine ⟨items, ⟨haccepted, hitems, ?_, ?_, ?_⟩, fun hne => ?_⟩
  · rw [Program.image, hrecords, flatten_append, hitems, flatMap_append, hbytes,
      flatten_slots hslots]
  · rw [hitems]
    refine hplaced.append ?_
    rw [Nat.zero_add, hextent]
    exact placed_slots hslots
  · exact straight_slots (baseRegister_lt profile options) (base_reserved profile options)
      (fun hsize => (haccepted.window hsize).narrow) hslots
  · have hcons : records ≠ [] := by
      rintro rfl
      cases hslots
      exact hne rfl
    have := length_pos_iff.2 hcons
    omega

/-! ## Windows that keep the promise -/

variable {a : Machine.Access} {items : List ProgramInstruction}

/-- An access at a multiple of its size from an aligned base is aligned. -/
theorem AccessFits.address_mod {address : Option ℕ} (h : AccessFits options address a)
    (hbase : options.ramBase % 4 = 0) (h8 : a.size = 8 → options.ramBase % 8 = 0) :
    a.address % a.size = 0 := by
  have habove := h.above
  have haligned := h.aligned
  have hsize := h.size
  simp only [mem_cons, not_mem_nil, or_false] at hsize
  rcases hsize with hs | hs | hs | hs
  · rw [hs]
    exact Nat.mod_one _
  · rw [hs] at haligned ⊢
    omega
  · rw [hs] at haligned ⊢
    omega
  · have := h8 hs
    rw [hs] at haligned ⊢
    omega

/-- The registers of the prologue are those of the profile. -/
theorem registers_prologue : ∀ item ∈ prologueItems profile options,
    ∀ name ∈ [OperandName.rd, .rs1, .rs2], ∀ v, item.operands.get? name = some v →
      0 ≤ v ∧ v < profile.registerCount := by
  have key : ∀ {v : ℤ}, some (baseRegister profile options : ℤ) = some v →
      0 ≤ v ∧ v < profile.registerCount := by
    intro v hv
    have := baseRegister_lt profile options
    cases hv
    omega
  unfold prologueItems
  dsimp only
  intro item hmem name hname v hv
  simp only [mem_cons, not_mem_nil, or_false] at hname
  split_ifs at hmem
  · obtain rfl := mem_singleton.1 hmem
    rcases hname with rfl | rfl | rfl
    · exact key hv
    · cases hv
    · cases hv
  · rcases mem_pair.1 hmem with rfl | rfl
    · rcases hname with rfl | rfl | rfl
      · exact key hv
      · cases hv
      · cases hv
    · rcases hname with rfl | rfl | rfl
      · exact key hv
      · exact key hv
      · cases hv
  · cases hmem

/-- The access of a reachable state is that of an instruction behind the prologue. -/
theorem Laid.access_cases (h : Laid profile options program items) {s : Hart} {w width : ℕ}
    (hs : Reachable profile.xlen program.image s) (hfetch : fetch program.image s.pc = some (w, width))
    (ha : access profile.xlen s.x w width = some a) :
    ∃ item ∈ items, item.pc = s.pc ∧ item.word = w ∧ item.width = width ∧
      AccessFits options item.address a ∧ (a.size = 8 → DoubleWords profile options) := by
  obtain ⟨before, after, hsplit, hpc, hafter⟩ := h.standing hs
  cases after with
  | nil =>
    rw [append_nil] at hsplit
    rw [h.fetch_end (hsplit ▸ hpc)] at hfetch
    cases hfetch
  | cons item after =>
    rw [h.fetch_eq hsplit hpc] at hfetch
    cases Option.some.inj hfetch
    have hplaced := h.placed
    rw [hsplit] at hplaced
    rcases item_cases h.accepted (h.instructions.symm.trans hsplit) with ⟨hmem, hle⟩ | ⟨-, _, hsets, -⟩
    · refine ⟨item, hmem, ?_, rfl, rfl, (h.straight item hmem).accesses s.x a (hafter.whole hle) ha⟩
      rw [hplaced.pc_eq, hpc, Nat.zero_add]
    · rw [hsets.silent] at ha
      cases ha

/-- **The promise holds where no doubleword lies at an odd word.** -/
theorem Laid.memoryPromise (h : Laid profile options program items)
    (hitems : items ≠ [] → (prologueOf profile options).length < options.count)
    (hodd : ¬ OddDoubleWords profile options) : MemoryPromise profile options program := by
  refine ⟨fun s w width a hs hfetch ha => ?_, fun item hmem => ?_, fun item hmem => ?_⟩
  · obtain ⟨item, hmem, hpc, hword, hwidth, hfits, h8⟩ := h.access_cases hs hfetch ha
    have hsize : options.ramSize ≠ 0 := by
      have habove := hfits.above
      have hbelow := hfits.below
      have hpos := hfits.size
      simp only [mem_cons, not_mem_nil, or_false] at hpos
      omega
    refine ⟨item, ?_, hpc, hword, hwidth, hfits.recorded, hfits.above, hfits.below,
      hfits.address_mod (h.accepted.window hsize).base fun ha8 => ?_⟩
    · rw [h.instructions]
      exact mem_append_right _ hmem
    · by_contra hne
      exact hodd ⟨h.accepted, h8 ha8, hne, hitems (ne_nil_of_mem hmem)⟩
  · rw [h.instructions, ← length_prologueItems, drop_left] at hmem
    exact (h.straight item hmem).keeps
  · rw [h.instructions] at hmem
    rcases mem_append.1 hmem with hmem | hmem
    · exact registers_prologue item hmem
    · exact (h.straight item hmem).registers

/-! ## Windows that break it -/

/-- The entry of `ld`. -/
def ldSpec : InstructionSpec := InstructionSpec.ofLoad "LD" 3 8 false 64

theorem ldSpec_mem_pool (h : DoubleWords profile options) : ldSpec ∈ pool profile options false := by
  refine mem_filter.2 ⟨by decide +kernel, ?_⟩
  have havailable : extensionAvailable profile ldSpec := by
    refine ⟨le_of_eq h.wide.symm, ?_⟩
    rw [if_pos (show ldSpec.extension = "I" from rfl)]
    rcases profile.base with h | h
    · exact .inl h.1
    · exact .inr h.1
  have hroom := h.room
  refine decide_eq_true ⟨rfl, by decide, by decide, havailable, fun hn => hn.1 h.all, fun hw => ?_⟩
  rcases hw.2 with hw | hw
  · omega
  · exact absurd hw (by show ¬ options.ramSize < 8; omega)

/-- A slot of 32 bits can be drawn unless pairs are asked for. -/
theorem draws_useCompressed (h : options.compressed ≠ some true) :
    Draws (useCompressed profile options) false := by
  unfold useCompressed
  rw [if_neg h]
  split_ifs
  · exact coin false
  · exact pure false

/-- A generation whose last instruction is a `ld` at a place. -/
def EndsInLd (profile : RiscvProfile) (options : ProgramOptions) (g g' : Generation) : Prop :=
  ∃ item, WideOf profile options (reservedRegisters profile options) (baseRegister profile options)
      g.pc ldSpec item ∧ g'.program.instructions = g.program.instructions ++ [item]

/-- **A `ld` can be drawn for a slot.** -/
theorem can_emitSlot_ld (h : DoubleWords profile options) (g : Generation) :
    Can (emitSlot profile options (reservedRegisters profile options) (baseRegister profile options) g)
      (EndsInLd profile options g) := by
  refine (draws_useCompressed h.mode).bind ?_
  refine (choice (ldSpec_mem_pool h)).bind (Returns.can ?_)
  refine (returns_emit32 (inPool_of_mem (ldSpec_mem_pool h))
    (reservedFor_reservedRegisters profile options) (baseRegister_lt profile options) g.pc).bind ?_
  rintro ⟨item, written⟩ hitem
  exact Returns.pure ⟨item, hitem, rfl⟩

theorem can_emitSlots_ld (haccepted : Accepted profile options) (h : DoubleWords profile options) (n : ℕ)
    (g : Generation) :
    Can (emitSlots profile options (reservedRegisters profile options) (baseRegister profile options)
        (n + 1) g) fun g' => ∃ item rest, WideOf profile options (reservedRegisters profile options)
      (baseRegister profile options) g.pc ldSpec item ∧
      g'.program.instructions = g.program.instructions ++ item :: rest := by
  refine Can.bind (can_emitSlot_ld h g) ?_
  rintro g₁ ⟨item, hitem, hitems⟩
  refine (returns_emitSlots ⟨pool_ne_nil profile options, haccepted.narrow⟩
    (reservedFor_reservedRegisters profile options) (baseRegister_lt profile options) n g₁).mono ?_
  rintro g₂ ⟨records, rest, -, -, -, hrest⟩
  refine ⟨item, rest, hitem, ?_⟩
  rw [hrest, hitems, append_assoc]
  rfl

/-- **A program can begin with a `ld` behind its prologue.** -/
theorem can_generateProgram_ld (h : OddDoubleWords profile options) :
    Can (generateProgram profile options) fun program => ∃ item rest pc,
      WideOf profile options (reservedRegisters profile options) (baseRegister profile options) pc
        ldSpec item ∧ program.instructions = prologueItems profile options ++ item :: rest := by
  obtain ⟨haccepted, hdouble, -, hslot⟩ := h
  have hbase : options.hasBase → options.ramBase < 2 ^ 32 := fun hb => by
    have hwindow := haccepted.window hb.1
    have := hwindow.narrow
    have := hwindow.size
    omega
  have hpools : ¬ (pool profile options false = [] ∧ pool profile options true = []) :=
    fun hp => pool_ne_nil profile options hp.1
  have hnarrow : ¬ (options.compressed = some true ∧ pool profile options true = []) :=
    fun hp => haccepted.narrow hp.1 hp.2
  obtain ⟨n, hn⟩ := Nat.exists_eq_succ_of_ne_zero (Nat.sub_ne_zero_of_lt hslot)
  refine (lift haccepted.options_ok).bind ?_
  refine (lift (ensure_of haccepted.covers _)).bind ?_
  refine (lift (emitPrologue_prologueOf hbase _)).bind ?_
  refine (lift (ensure_of hpools _)).bind ?_
  refine (lift (ensure_of hnarrow _)).bind ?_
  rw [hn]
  refine Can.bind (can_emitSlots_ld haccepted hdouble n _) ?_
  rintro g ⟨item, rest, hitem, hitems⟩
  exact Returns.pure ⟨item, rest, _, hitem, hitems⟩

/-- **A `ld` accesses eight bytes.** -/
theorem WideOf.access_ld {pc : ℕ} {item : ProgramInstruction} (hpool : InPool profile options ldSpec)
    (h : WideOf profile options (reservedRegisters profile options) (baseRegister profile options) pc
      ldSpec item) (x : ℕ → ℕ) :
    ∃ a, access profile.xlen x item.word item.width = some a ∧ a.size = 8 := by
  have hw := encodeWord_of_emission hpool.mem (baseRegister_lt profile options) rfl h.emission
  have hop := opcode_of_filled hpool.mem hpool.kind hw
  have hf3 := funct3_of_filled hpool.mem rfl hw
  have hload : opcode item.word = 0x03 := hop
  have hsize : loadSize item.word = some 8 := by
    unfold loadSize
    rw [hf3]
    rfl
  refine ⟨⟨addressOf profile.xlen (x (rs1 item.word)) (immI item.word), 8⟩, ?_, rfl⟩
  unfold access wordAccess
  rw [if_pos h.width_eq, if_pos hload, hsize]
  rfl

/-- **The promise can be broken where a doubleword lies at an odd word.** -/
theorem OddDoubleWords.broken (h : OddDoubleWords profile options) :
    Can (generateProgram profile options) fun program => ¬ MemoryPromise profile options program := by
  obtain ⟨s, program, s', hgen, item, rest, pc, hitem, hitems⟩ := can_generateProgram_ld h
  refine ⟨s, program, s', hgen, fun hpromise => ?_⟩
  obtain ⟨items, hlaid, -⟩ := laid_of_shaped h.accepted (shaped_generateProgram hgen)
  obtain ⟨hart, hreachable, hpc, -⟩ := hlaid.run_prologue (append_nil _).symm
  have hfetch := hlaid.fetch_eq hitems hpc
  obtain ⟨a, ha, hsize⟩ := hitem.access_ld (inPool_of_mem (ldSpec_mem_pool h.doubleWords)) hart.x
  obtain ⟨-, -, -, -, -, -, habove, -, hmod⟩ := hpromise.accesses hart _ _ a hreachable hfetch ha
  obtain ⟨item', -, -, -, -, hfits, -⟩ := hlaid.access_cases hreachable hfetch ha
  have haligned := hfits.aligned
  have hodd := h.odd
  rw [hsize] at haligned hmod
  omega

/-! ## Exactly when -/

/-- **Whatever is drawn, a program keeps its memory promise, exactly when the options put no doubleword
at an odd word.** -/
theorem memoryPromise_iff (profile : RiscvProfile) (options : ProgramOptions) :
    (∀ s program s', generateProgram profile options s = .ok (program, s') →
        MemoryPromise profile options program) ↔ ¬ OddDoubleWords profile options := by
  constructor
  · intro hall hodd
    obtain ⟨s, program, s', hgen, hbroken⟩ := hodd.broken
    exact hbroken (hall s program s' hgen)
  · intro hodd s program s' hgen
    obtain ⟨items, hlaid, hitems⟩ := laid_of_shaped (accepted_of_generateProgram hgen)
      (shaped_generateProgram hgen)
    exact hlaid.memoryPromise hitems hodd

/-- RV64IMC over a window at `0x1004`, with every instruction of the pool. -/
theorem rv64imc_promise_broken : ∃ s program s',
    generateProgram rv64imc ⟨4, 0x1004, 64, true, none⟩ s = .ok (program, s') ∧
      ¬ MemoryPromise rv64imc ⟨4, 0x1004, 64, true, none⟩ program :=
  OddDoubleWords.broken
    ⟨⟨by decide +kernel, by decide +kernel, fun h => nomatch h⟩,
      ⟨rfl, rfl, by decide, by decide⟩, by decide, by decide +kernel⟩

end MyFuzz
