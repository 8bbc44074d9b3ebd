import MyFuzz.Riscv.ProgramEmission

/-!
# Riscv/ProgramSlots — the shape of a program

A program is its prologue and then slots, each one instruction of 32 bits or a pair of 16, at places
four bytes apart:

    records       lui   addi   r₀   r₁   …
    instructions  lui   addi   i    i i  …
    pc            0     4      8    12   …

Acceptance of the options is all that generation can fail on.
-/

namespace MyFuzz

open Outcome BitField Draw Returns List

variable {profile : RiscvProfile} {options : ProgramOptions} {reserved : List ℕ} {baseReg : ℕ}

/-! ## Slots -/

/-- A record and its instructions at a place. -/
inductive Slot (profile : RiscvProfile) (options : ProgramOptions) (reserved : List ℕ) (baseReg pc : ℕ) :
    List UInt8 → List ProgramInstruction → Prop where
  | wide {item : ProgramInstruction} (hmode : options.compressed ≠ some true)
      (h : Wide profile options reserved baseReg pc item) :
      Slot profile options reserved baseReg pc (Bytes.leBytes 4 item.word) [item]
  | pair {first second : ProgramInstruction} (h₁ : Narrow profile reserved pc first)
      (h₂ : Narrow profile reserved (pc + 2) second) :
      Slot profile options reserved baseReg pc
        (Bytes.leBytes 4 (first.word ||| second.word <<< 16)) [first, second]

/-- Slots from a place on. -/
inductive Slots (profile : RiscvProfile) (options : ProgramOptions) (reserved : List ℕ) (baseReg : ℕ) :
    ℕ → List (List UInt8) → List ProgramInstruction → Prop where
  | nil (pc : ℕ) : Slots profile options reserved baseReg pc [] []
  | cons {pc : ℕ} {record : List UInt8} {items : List ProgramInstruction}
      {records : List (List UInt8)} {rest : List ProgramInstruction}
      (head : Slot profile options reserved baseReg pc record items)
      (tail : Slots profile options reserved baseReg (pc + 4) records rest) :
      Slots profile options reserved baseReg pc (record :: records) (items ++ rest)

/-- The fixed bits and fields of a compressed entry fit 16 bits and name no longer word. -/
theorem compressed_layouts (xlen : ℕ) (h : xlen = 32 ∨ xlen = 64) :
    ∀ spec ∈ specs, spec.compressed = true → spec.fixed < 2 ^ 16 ∧ spec.fixed &&& 3 ≠ 3 ∧
      spec.layoutMask xlen < 2 ^ 16 ∧ spec.layoutMask xlen &&& 3 = 0 := by
  rcases h with rfl | rfl <;> decide +kernel

variable {pc d xlen : ℕ} {s s' : Rng} {program : Program}

/-- A word of 16 bits is half a slot. -/
theorem Narrow.word_lt {item : ProgramInstruction} (h : Narrow profile reserved pc item) :
    item.word < 2 ^ 16 ∧ item.word &&& 3 ≠ 3 := by
  obtain ⟨spec, hspec, hword⟩ := h.drawn
  obtain ⟨hfixed, hquadrant, hmask, hapart⟩ :=
    compressed_layouts _ profile.xlen_eq spec hspec.mem hspec.compressed
  have hfilled := filled_encodeWord profile.xlen_eq hspec.mem
    (encodeWord_of_compressed hspec.mem hspec.compressed hspec.safe hword)
  exact ⟨hfilled.lt hfixed hmask, by rw [hfilled.and_eq hapart]; exact hquadrant⟩

theorem packCompressedPair_of_narrow {first second : ProgramInstruction}
    (h₁ : Narrow profile reserved pc first) (h₂ : Narrow profile reserved (pc + 2) second) :
    packCompressedPair first.word second.word =
      .ok (Bytes.leBytes 4 (first.word ||| second.word <<< 16)) := by
  have hhalf : ∀ {word : ℕ} {field : String}, word < 2 ^ 16 ∧ word &&& 3 ≠ 3 →
      half word field = .ok word := by
    rintro word field ⟨hlt, hquadrant⟩
    unfold half
    rw [ensure_of (by omega), ok_bind, ensure_of hquadrant]
    rfl
  unfold packCompressedPair
  rw [hhalf h₁.word_lt, ok_bind, hhalf h₂.word_lt]
  rfl

/-- The options let the pools be drawn from. -/
structure Drawable (profile : RiscvProfile) (options : ProgramOptions) : Prop where
  wide : pool profile options false ≠ []
  narrow : options.compressed = some true → pool profile options true ≠ []

/-- A slot is one that follows a generation. -/
def Extends (profile : RiscvProfile) (options : ProgramOptions) (reserved : List ℕ) (baseReg : ℕ)
    (g g' : Generation) : Prop :=
  ∃ record items, Slot profile options reserved baseReg g.pc record items ∧
    g'.program.records = g.program.records ++ [record] ∧
    g'.program.instructions = g.program.instructions ++ items ∧ g'.pc = g.pc + 4

theorem returns_useCompressed (hdraw : Drawable profile options) :
    Returns (useCompressed profile options) fun use =>
      if use then pool profile options true ≠ [] else options.compressed ≠ some true := by
  unfold useCompressed
  split_ifs with hforced hmixed
  · exact pure (hdraw.narrow hforced)
  · refine coin.mono fun use _ => ?_
    split_ifs
    · exact hmixed.2
    · exact hforced
  · exact pure hforced

/-- **Whatever is drawn, a slot is filled.** -/
theorem returns_emitSlot (hdraw : Drawable profile options) (hreserved : ReservedFor profile reserved)
    (hbase : baseReg < profile.registerCount) (g : Generation) :
    Returns (emitSlot profile options reserved baseReg g) (Extends profile options reserved baseReg g) := by
  refine (returns_useCompressed hdraw).bind fun use hpool => ?_
  split_ifs at hpool ⊢ with hcompressed
  · have hchoice := choice hpool fun _ ha => inCompressedPool_of_mem ha
    refine hchoice.bind fun spec₁ h₁ => ?_
    refine (returns_emitCompressed h₁ hreserved g.pc).bind ?_
    rintro ⟨first, written₁⟩ hfirst
    refine hchoice.bind fun spec₂ h₂ => ?_
    refine (returns_emitCompressed h₂ hreserved (g.pc + 2)).bind ?_
    rintro ⟨second, written₂⟩ hsecond
    refine bind (P := (· = Bytes.leBytes 4 (first.word ||| second.word <<< 16)))
      (lift (packCompressedPair_of_narrow hfirst hsecond) rfl) ?_
    rintro _ rfl
    exact pure ⟨_, _, .pair hfirst hsecond, rfl, rfl, rfl⟩
  · refine (choice hdraw.wide fun _ ha => inPool_of_mem ha).bind fun spec hspec => ?_
    refine (returns_emit32 hspec hreserved hbase g.pc).bind ?_
    rintro ⟨item, written⟩ hitem
    exact pure ⟨_, _, .wide hpool (hitem.wide hspec), rfl, rfl, rfl⟩

/-- **Whatever is drawn, the slots are filled.** -/
theorem returns_emitSlots (hdraw : Drawable profile options) (hreserved : ReservedFor profile reserved)
    (hbase : baseReg < profile.registerCount) : ∀ (n : ℕ) (g : Generation),
    Returns (emitSlots profile options reserved baseReg n g) fun g' =>
      ∃ records items, Slots profile options reserved baseReg g.pc records items ∧
        records.length = n ∧ g'.program.records = g.program.records ++ records ∧
        g'.program.instructions = g.program.instructions ++ items
  | 0, g => pure ⟨[], [], .nil g.pc, rfl, (append_nil _).symm, (append_nil _).symm⟩
  | n + 1, g => by
    refine (returns_emitSlot hdraw hreserved hbase g).bind fun g₁ h₁ => ?_
    refine (returns_emitSlots hdraw hreserved hbase n g₁).mono ?_
    rintro g₂ ⟨records, rest, hslots, hlength, hrecords, hitems⟩
    obtain ⟨record, items, hslot, hrecord, hitem, hpc⟩ := h₁
    rw [hpc] at hslots
    refine ⟨record :: records, items ++ rest, .cons hslot hslots, ?_, ?_, ?_⟩
    · rw [length_cons, hlength]
    · rw [hrecords, hrecord, append_assoc, singleton_append]
    · rw [hitems, hitem, append_assoc]

/-! ## The prologue -/

/-- The word of `lui`. -/
def luiWord (d imm : ℕ) : ℕ := 0x37 ||| d <<< 7 ||| imm <<< 12

/-- The word of `addi`. -/
def addiWord (d s : ℕ) (imm : ℤ) : ℕ := 0x13 ||| d <<< 7 ||| s <<< 15 ||| intField imm 0 12 <<< 20

/-- The lower half of a base is a signed immediate of 12 bits, and the halves add up to the base. -/
theorem lowerHalf_spec {ramBase : ℕ} (h : ramBase < 2 ^ 32) :
    -2048 ≤ lowerHalf ramBase ∧ lowerHalf ramBase < 2048 ∧
      ((upperHalf ramBase * 2 ^ 12 : ℕ) + lowerHalf ramBase) % 2 ^ 32 = (ramBase : ℤ) := by
  unfold lowerHalf upperHalf
  simp only []
  split_ifs with hneg <;> omega

/-- The entry of `lui`. -/
def luiSpec : InstructionSpec :=
  { name := "LUI", extension := "I", kind := .u, fixed := 0x37, operands := [.rd, .imm],
    writesRd := true, f1Safe := true, immBits := 20, immSigned := false }

/-- The entry of `addi`. -/
def addiSpec : InstructionSpec := InstructionSpec.ofI "ADDI" 0 0x13 true 1 32 false

theorem encode_lui {imm : ℕ} (hxlen : 32 ≤ xlen) (hd : d ≤ 31) (himm : imm < 2 ^ 20) :
    encode "LUI" xlen ((noOperands.set .rd d).set .imm imm) = .ok (luiWord d imm) := by
  have hmem : luiSpec ∈ specs := by decide +kernel
  refine encode_of_word hmem hxlen ⟨List.Subset.refl _, List.Subset.refl _⟩ ?_
  have hok : immOperand luiSpec (some (imm : ℤ)) = .ok (imm : ℤ) := by
    refine immOperand_eq_ok.2 ⟨rfl, ?_, ?_, ?_, fun h => absurd h Bool.false_ne_true⟩
    · exact Int.natCast_nonneg imm
    · show (imm : ℤ) ≤ 2 ^ 20 - 1
      omega
    · exact Int.emod_one _
  exact bind_ok.2 ⟨d, reg_eq_ok.2 ⟨rfl, by omega, by omega⟩, bind_ok.2 ⟨imm, hok, rfl⟩⟩

theorem encode_addi {s : ℕ} {imm : ℤ} (hxlen : 32 ≤ xlen) (hd : d ≤ 31) (hs : s ≤ 31)
    (hlow : -2048 ≤ imm) (hhigh : imm < 2048) :
    encode "ADDI" xlen (((noOperands.set .rd d).set .rs1 s).set .imm imm) = .ok (addiWord d s imm) := by
  have hmem : addiSpec ∈ specs := by decide +kernel
  refine encode_of_word hmem hxlen ⟨List.Subset.refl _, List.Subset.refl _⟩ ?_
  have hok : immOperand addiSpec (some imm) = .ok imm := by
    refine immOperand_eq_ok.2 ⟨rfl, ?_, ?_, ?_, fun h => absurd h Bool.false_ne_true⟩
    · show (-2 ^ 11 : ℤ) ≤ imm
      omega
    · show imm ≤ 2 ^ 11 - 1
      omega
    · exact Int.emod_one _
  exact bind_ok.2 ⟨d, reg_eq_ok.2 ⟨rfl, by omega, by omega⟩, bind_ok.2
    ⟨s, reg_eq_ok.2 ⟨rfl, by omega, by omega⟩, bind_ok.2 ⟨imm, hok, rfl⟩⟩⟩

/-- The instructions of the prologue. -/
def prologueItems (profile : RiscvProfile) (options : ProgramOptions) : List ProgramInstruction :=
  let reg := baseRegister profile options
  let hi := upperHalf options.ramBase
  let lo := lowerHalf options.ramBase
  if options.hasBase then
    ⟨0, luiWord reg hi, 4, "I", (noOperands.set .rd reg).set .imm hi, none⟩ :: if lo = 0 then []
      else [⟨4, addiWord reg reg lo, 4, "I", ((noOperands.set .rd reg).set .rs1 reg).set .imm lo, none⟩]
  else []

theorem length_prologueItems (profile : RiscvProfile) (options : ProgramOptions) :
    (prologueItems profile options).length = (prologueOf profile options).length := by
  unfold prologueItems prologueOf prologue
  dsimp only
  split_ifs <;> rfl

theorem baseRegister_lt (profile : RiscvProfile) (options : ProgramOptions) :
    baseRegister profile options < profile.registerCount := by
  have := profile.registerCount_le
  unfold baseRegister
  split_ifs <;> omega

theorem upperHalf_lt (ramBase : ℕ) : upperHalf ramBase < 2 ^ 20 := Nat.mod_lt _ (by decide)

/-- **The prologue is encoded as it stands.** -/
theorem emitPrologue_prologueOf (hbase : options.hasBase → options.ramBase < 2 ^ 32) (written : List ℕ) :
    emitPrologue profile (prologueOf profile options) ⟨⟨[], []⟩, written, 0⟩ =
      .ok ⟨⟨(prologueItems profile options).map fun item => Bytes.leBytes 4 item.word,
        prologueItems profile options⟩, written, 4 * (prologueItems profile options).length⟩ := by
  have hcount := profile.registerCount_le
  have hreg := baseRegister_lt profile options
  have hxlen : 32 ≤ profile.xlen := by rcases profile.xlen_eq with h | h <;> omega
  unfold prologueOf prologueItems prologue
  dsimp only
  by_cases h : options.hasBase
  · obtain ⟨hlow, hhigh, -⟩ := lowerHalf_spec (hbase h)
    have hlui := encode_lui (d := baseRegister profile options) hxlen (by omega)
      (upperHalf_lt options.ramBase)
    have haddi := encode_addi (d := baseRegister profile options) hxlen (by omega)
      (show baseRegister profile options ≤ 31 by omega) hlow hhigh
    rw [if_pos h, if_pos h]
    by_cases hlo : lowerHalf options.ramBase = 0
    · rw [if_pos hlo, if_pos hlo]
      unfold emitPrologue emitPrologue
      rw [hlui, ok_bind]
      rfl
    · rw [if_neg hlo, if_neg hlo]
      unfold emitPrologue
      rw [hlui, ok_bind]
      change (do
        let word ← encode "ADDI" profile.xlen (((noOperands.set .rd (baseRegister profile options)).set
          .rs1 (baseRegister profile options)).set .imm (lowerHalf options.ramBase))
        let spec ← specFor "ADDI"
        _) = _
      rw [haddi, ok_bind]
      rfl
  · rw [if_neg h, if_neg h]
    rfl

/-! ## Programs -/

/-- **The options are accepted.** -/
structure Accepted (profile : RiscvProfile) (options : ProgramOptions) : Prop where
  options_ok : checkOptions profile options = .ok ()
  covers : (prologueOf profile options).length ≤ options.count
  narrow : options.compressed = some true → pool profile options true ≠ []

/-- What acceptance says about the window. -/
structure WindowFits (profile : RiscvProfile) (options : ProgramOptions) : Prop where
  base : options.ramBase % 4 = 0
  size : 4 ≤ options.ramSize
  narrow : options.ramBase + options.ramSize ≤ 2 ^ 32
  wide : profile.xlen = 64 → options.ramBase + options.ramSize + 0x800 ≤ 2 ^ 31

theorem windowFits_of_checkOptions (h : checkOptions profile options = .ok ())
    (hsize : options.ramSize ≠ 0) : WindowFits profile options := by
  obtain ⟨-, halign, h⟩ := ensure_ok₂ h
  obtain ⟨hnarrow, hwide, -⟩ := ensure_ok₂ h
  refine ⟨?_, ?_, ?_, fun hx => ?_⟩
  · by_contra hne
    exact halign ⟨hsize, .inl hne⟩
  · by_contra hlt
    exact halign ⟨hsize, .inr (.inr (by omega))⟩
  · by_contra hgt
    exact hnarrow ⟨hsize, by omega⟩
  · by_contra hgt
    exact hwide ⟨hsize, hx, by omega⟩

theorem Accepted.window (h : Accepted profile options) (hsize : options.ramSize ≠ 0) :
    WindowFits profile options := windowFits_of_checkOptions h.options_ok hsize

/-- The pool of 32 bits is never empty. -/
theorem pool_ne_nil (profile : RiscvProfile) (options : ProgramOptions) :
    pool profile options false ≠ [] := by
  refine ne_nil_of_mem (a := addiSpec) (mem_filter.2 ⟨by decide +kernel, ?_⟩)
  have hxlen : 32 ≤ profile.xlen := by rcases profile.xlen_eq with h | h <;> omega
  have havailable : extensionAvailable profile addiSpec := by
    refine ⟨hxlen, ?_⟩
    rw [if_pos (show addiSpec.extension = "I" from rfl)]
    rcases profile.base with h | h
    · exact .inl h.1
    · exact .inr h.1
  exact decide_eq_true ⟨rfl, by decide, by decide, havailable, fun h => h.2 rfl,
    fun h => absurd h.1 (by decide)⟩

/-- **The shape of a program**: the prologue, then slots. -/
def Shaped (profile : RiscvProfile) (options : ProgramOptions) (program : Program) : Prop :=
  ∃ records items, Slots profile options (reservedRegisters profile options)
      (baseRegister profile options) (4 * (prologueItems profile options).length) records items ∧
    records.length = options.count - (prologueOf profile options).length ∧ program.records =
      (prologueItems profile options).map (fun item => Bytes.leBytes 4 item.word) ++ records ∧
    program.instructions = prologueItems profile options ++ items

theorem reservedFor_reservedRegisters (profile : RiscvProfile) (options : ProgramOptions) :
    ReservedFor profile (reservedRegisters profile options) := by
  unfold reservedRegisters baseRegister
  by_cases h : options.hasBase
  · rw [if_pos h, if_pos h]
    exact .inr rfl
  · rw [if_neg h]
    exact .inl rfl

/-- **Accepted options give a program, whatever is drawn.** -/
theorem returns_generateProgram (h : Accepted profile options) :
    Returns (generateProgram profile options) (Shaped profile options) := by
  have hbase : options.hasBase → options.ramBase < 2 ^ 32 := fun hb => by
    have hwindow := h.window hb.1
    have := hwindow.narrow
    have := hwindow.size
    omega
  refine bind (P := fun _ => True) (lift h.options_ok trivial) fun _ _ => ?_
  refine bind (P := fun _ => True) (lift (ensure_of h.covers _) trivial) fun _ _ => ?_
  refine bind (P := (· = _)) (lift (emitPrologue_prologueOf hbase _) rfl) ?_
  rintro _ rfl
  have hpools : ¬ (pool profile options false = [] ∧ pool profile options true = []) :=
    fun hp => pool_ne_nil profile options hp.1
  refine bind (P := fun _ => True) (lift (ensure_of hpools _) trivial) fun _ _ => ?_
  have hnarrow : ¬ (options.compressed = some true ∧ pool profile options true = []) :=
    fun hp => h.narrow hp.1 hp.2
  refine bind (P := fun _ => True) (lift (ensure_of hnarrow _) trivial) fun _ _ => ?_
  refine (returns_emitSlots ⟨pool_ne_nil profile options, h.narrow⟩
    (reservedFor_reservedRegisters profile options) (baseRegister_lt profile options) _ _).bind ?_
  rintro g ⟨records, items, hslots, hlength, hrecords, hitems⟩
  exact pure ⟨records, items, hslots, hlength, hrecords, hitems⟩

/-- A computation behind one that does not draw. -/
theorem lift_bind_eq_ok {α β : Type} {x : Except Exn α} {f : α → Draw β} {b : β}
    (h : (Draw.lift x >>= f) s = .ok (b, s')) : ∃ a, x = .ok a ∧ f a s = .ok (b, s') := by
  cases x with
  | error e => exact absurd h (by intro h; cases h)
  | ok a => exact ⟨a, rfl, h⟩

/-- **A program is generated from accepted options only.** -/
theorem accepted_of_generateProgram (h : generateProgram profile options s = .ok (program, s')) :
    Accepted profile options := by
  obtain ⟨u, hoptions, h⟩ := lift_bind_eq_ok h
  obtain ⟨_, hcovers, h⟩ := lift_bind_eq_ok h
  obtain ⟨g, -, h⟩ := lift_bind_eq_ok h
  obtain ⟨_, -, h⟩ := lift_bind_eq_ok h
  obtain ⟨_, hnarrow, -⟩ := lift_bind_eq_ok h
  exact ⟨hoptions, ensure_eq_ok.1 hcovers, fun hc hp => ensure_eq_ok.1 hnarrow ⟨hc, hp⟩⟩

/-- **Every program has the shape.** -/
theorem shaped_generateProgram (h : generateProgram profile options s = .ok (program, s')) :
    Shaped profile options program :=
  (returns_generateProgram (accepted_of_generateProgram h)).of_eq_ok h

end MyFuzz
