import MyFuzz.Riscv.ProgramAdmissible
import MyFuzz.Riscv.ProgramItems

/-!
# Riscv/ProgramMemory — programs keep to their window

A program is run from place zero on its records.  The instructions lie one behind the other, so every
reachable state stands at one of them; the prologue leaves the window's base in its register, and no
later instruction writes it:

    Reachable s   ⟹   s stands before an instruction,  behind the prologue  x[base] = ramBase

Every access is then the recorded one.  It is aligned to its size but for the eight-byte accesses of
RV64 over a window that starts at an odd word.
-/

namespace MyFuzz

open Outcome BitField Machine Bytes ProgramInstruction List

variable {profile : RiscvProfile} {options : ProgramOptions} {reserved : List ℕ} {baseReg pc w : ℕ}

/-! ## Images -/

/-- The bytes a program is run on. -/
def Program.image (program : Program) : List UInt8 := program.records.flatten

/-- The bytes of one instruction. -/
def ProgramInstruction.bytes (item : ProgramInstruction) : List UInt8 :=
  Bytes.leBytes item.width item.word

/-- The bytes of two halves of a slot. -/
theorem leBytes_pair {a : ℕ} (ha : a < 2 ^ 16) (b : ℕ) :
    leBytes 4 (a ||| b <<< 16) = leBytes 2 a ++ leBytes 2 b := by
  have hadd : a ||| b <<< 16 = 2 ^ 16 * b + a := by
    rw [Nat.or_comm, Nat.shiftLeft_eq, Nat.mul_comm, ← Nat.two_pow_add_eq_or_of_lt ha]
  rw [hadd]
  have hbyte : ∀ {m n : ℕ}, m % 256 = n % 256 → UInt8.ofNat m = UInt8.ofNat n := by
    intro m n h
    apply UInt8.toNat_inj.1
    simpa using h
  simp only [leBytes, cons_append, nil_append, List.cons.injEq, and_true]
  refine ⟨hbyte (by omega), hbyte (by omega), hbyte (by omega), hbyte (by omega)⟩

variable {records : List (List UInt8)} {item : ProgramInstruction} {spec : InstructionSpec}
  {operands : Dict OperandName ℤ} {d : ℕ} {after before : List ProgramInstruction}

/-- The image of slots is the bytes of their instructions. -/
theorem flatten_slots {items : List ProgramInstruction}
    (h : Slots profile options reserved baseReg pc records items) :
    records.flatten = items.flatMap bytes := by
  induction h with
  | nil => rfl
  | cons head tail ih =>
    rw [flatten_cons, flatMap_append, ih]
    cases head with
    | @wide item hmode hitem =>
      rw [flatMap_singleton, bytes, hitem.width_eq]
    | @pair first second h₁ h₂ =>
      rw [flatMap_cons, flatMap_singleton, bytes,
        bytes, h₁.width_eq, h₂.width_eq, leBytes_pair h₁.word_lt.1]

/-- An instruction that is fetched as itself. -/
def Fetchable (item : ProgramInstruction) : Prop :=
  item.width = 4 ∧ item.word < 2 ^ 32 ∧ item.word &&& 3 = 3 ∨
    item.width = 2 ∧ item.word < 2 ^ 16 ∧ item.word &&& 3 ≠ 3

theorem readLe_take_two (w : ℕ) (rest : List UInt8) :
    readLe ((leBytes 4 w ++ rest).take 2) = w % 2 ^ 16 := by
  have htake : (leBytes 4 w ++ rest).take 2 = leBytes 2 w := rfl
  have hlow : leBytes 2 w = leBytes 2 (w % 2 ^ 16) := by
    have hpair := leBytes_pair (a := w % 2 ^ 16) (by omega) (w / 2 ^ 16)
    have hadd : w % 2 ^ 16 ||| (w / 2 ^ 16) <<< 16 = w := by
      rw [Nat.or_comm, Nat.shiftLeft_eq, Nat.mul_comm,
        ← Nat.two_pow_add_eq_or_of_lt (Nat.mod_lt w (by decide)), Nat.div_add_mod]
    rw [hadd] at hpair
    exact congrArg (List.take 2) hpair
  rw [htake, hlow, readLe_leBytes (by omega)]

/-- **An instruction is fetched at its place.** -/
theorem fetch_of_split (h : Fetchable item) (before after : List UInt8) :
    fetch (before ++ (item.bytes ++ after)) before.length = some (item.word, item.width) := by
  unfold fetch bytes
  rw [drop_left]
  obtain ⟨hwidth, hlt, hfull⟩ | ⟨hwidth, hlt, hhalf⟩ := h
  · rw [hwidth]
    have hlow : item.word % 2 ^ 16 &&& 3 = 3 := by
      rw [← Nat.and_two_pow_sub_one_eq_mod, Nat.and_assoc]
      exact hfull
    have htake : (leBytes 4 item.word ++ after).take 4 = leBytes 4 item.word := rfl
    have hlength : ¬ (leBytes 4 item.word ++ after).length < 4 := by simp
    have hlength' : ¬ (leBytes 4 item.word ++ after).length < 2 := by simp; omega
    rw [if_neg hlength', readLe_take_two item.word, if_neg (not_not.2 hlow), if_neg hlength, htake,
      readLe_leBytes (by omega)]
  · rw [hwidth]
    have htake : (leBytes 2 item.word ++ after).take 2 = leBytes 2 item.word := rfl
    have hlength : ¬ (leBytes 2 item.word ++ after).length < 2 := by simp; omega
    rw [if_neg hlength, htake, readLe_leBytes (by omega), if_pos hhalf]

/-! ## Instructions behind the prologue -/

/-- A window that an eight-byte access may be drawn for. -/
structure DoubleWords (profile : RiscvProfile) (options : ProgramOptions) : Prop where
  wide : profile.xlen = 64
  all : options.includeNonF1 = true
  room : 8 ≤ options.ramSize
  mode : options.compressed ≠ some true

/-- **What the machine sees of an instruction behind the prologue.** -/
structure Straight (profile : RiscvProfile) (options : ProgramOptions) (baseReg : ℕ)
    (item : ProgramInstruction) : Prop where
  fetchable : Fetchable item
  straight : ¬ transfers profile.xlen item.word item.width
  keeps : destination profile.xlen item.word item.width ≠ some baseReg
  accesses : ∀ (x : ℕ → ℕ) (a : Machine.Access), (options.ramSize ≠ 0 → x baseReg = options.ramBase) →
    access profile.xlen x item.word item.width = some a →
    AccessFits options item.address a ∧ (a.size = 8 → DoubleWords profile options)
  registers : ∀ name ∈ [OperandName.rd, .rs1, .rs2], ∀ v, item.operands.get? name = some v →
    0 ≤ v ∧ v < profile.registerCount

theorem registers_of_emission {address : Option ℕ} (hbase : baseReg < profile.registerCount)
    (h : Emission profile options reserved baseReg spec operands address w) :
    ∀ name ∈ [OperandName.rd, .rs1, .rs2], ∀ v, operands.get? name = some v →
      0 ≤ v ∧ v < profile.registerCount := by
  have key : ∀ {d : ℕ} {v : ℤ}, d < profile.registerCount → some (d : ℤ) = some v →
      0 ≤ v ∧ v < profile.registerCount := by
    intro d v hd hv
    cases hv
    omega
  intro name hname v hv
  simp only [mem_cons, not_mem_nil, or_false] at hname
  cases h with
  | r _ hd h₁ h₂ =>
    rcases hname with rfl | rfl | rfl
    · exact key (mem_destinations hd).2.1 hv
    · exact key h₁ hv
    · exact key h₂ hv
  | i _ hd h₁ | shift _ hd h₁ =>
    rcases hname with rfl | rfl | rfl
    · exact key (mem_destinations hd).2.1 hv
    · exact key h₁ hv
    · cases hv
  | load _ hd | lr _ hd =>
    rcases hname with rfl | rfl | rfl
    · exact key (mem_destinations hd).2.1 hv
    · exact key hbase hv
    · cases hv
  | store _ h₂ =>
    rcases hname with rfl | rfl | rfl
    · cases hv
    · exact key hbase hv
    · exact key h₂ hv
  | u _ hd =>
    rcases hname with rfl | rfl | rfl
    · exact key (mem_destinations hd).2.1 hv
    · cases hv
    · cases hv
  | fence | fencei => rcases hname with rfl | rfl | rfl <;> cases hv
  | amo _ hd h₂ =>
    rcases hname with rfl | rfl | rfl
    · exact key (mem_destinations hd).2.1 hv
    · exact key hbase hv
    · exact key h₂ hv

/-- An instruction of 32 bits behind the prologue. -/
theorem Wide.straight {item : ProgramInstruction} (h : Wide profile options reserved baseReg pc item)
    (hmode : options.compressed ≠ some true) (hbase : baseReg < profile.registerCount)
    (hreserved : baseReg = 0 ∨ baseReg ∈ reserved)
    (hwindow : options.ramSize ≠ 0 → options.ramBase + options.ramSize ≤ 2 ^ 32) :
    Straight profile options baseReg item := by
  obtain ⟨spec, hpool, hemission⟩ := h.drawn
  have hw := encodeWord_of_emission hpool.mem hbase hpool.flow hemission
  have hfilled := filled_encodeWord profile.xlen_eq hpool.mem hw
  obtain ⟨hclear, -, hmask, hfixed, hfull⟩ := wide_layouts _ profile.xlen_eq spec hpool.mem hpool.kind
  have hlow : spec.layoutMask profile.xlen &&& 3 = 0 := by
    rw [show 3 = 0x7f &&& 3 from rfl, ← Nat.and_assoc, hclear, Nat.zero_and]
  refine ⟨.inl ⟨h.width_eq, hfilled.lt hfixed hmask, (hfilled.and_eq hlow).trans hfull⟩, ?_, ?_, ?_, ?_⟩
  · unfold transfers
    rw [if_pos h.width_eq, opcode_of_filled hpool.mem hpool.kind hw]
    exact (opcode_specs spec hpool.mem hpool.kind hpool.flow).1
  · unfold destination
    rw [if_pos h.width_eq]
    intro hd
    obtain ⟨hpos, -, hnot⟩ := mem_destinations (wordDestination_of_emission hpool hbase hemission hd)
    rcases hreserved with hzero | hmem
    · omega
    · exact hnot hmem
  · intro x a hx ha
    unfold access at ha
    rw [if_pos h.width_eq] at ha
    obtain ⟨hfits, h8⟩ := wordAccess_of_emission hpool hbase hwindow hemission hx ha
    exact ⟨hfits, fun hsize => ⟨(h8 hsize).1, (h8 hsize).2.1, (h8 hsize).2.2, hmode⟩⟩
  · exact registers_of_emission hbase hemission

theorem registers_of_compressed (h : CompressedEmission profile reserved spec operands w) :
    ∀ name ∈ [OperandName.rd, .rs1, .rs2], ∀ v, operands.get? name = some v →
      0 ≤ v ∧ v < profile.registerCount := by
  have key : ∀ {d : ℕ} {v : ℤ}, d ∈ primes profile reserved → some (d : ℤ) = some v →
      0 ≤ v ∧ v < profile.registerCount := by
    intro d v hd hv
    cases hv
    have := (mem_primes hd).2.2.1
    omega
  intro name hname v hv
  simp only [mem_cons, not_mem_nil, or_false] at hname
  cases h with
  | ci _ hd | candi _ hd | cshift _ hd =>
    rcases hname with rfl | rfl | rfl
    · exact key hd hv
    · cases hv
    · cases hv
  | cr _ hd h₂ | ca _ hd h₂ =>
    rcases hname with rfl | rfl | rfl
    · exact key hd hv
    · cases hv
    · exact key h₂ hv

/-- A compressed word accesses no memory and stays on the straight line. -/
theorem parcel_of_fields (xlen : ℕ) (h : NarrowFields profile reserved w) :
    (∀ x, parcelAccess xlen x w = none) ∧ ¬ parcelControl xlen w ∧
      ∀ d, parcelDestination xlen w = some d → d ∈ primes profile reserved := by
  have hbits : ∀ offset, bits w offset 3 = w >>> offset &&& 7 := fun _ => rfl
  have hfive : bits w 2 5 = w >>> 2 &&& 31 := rfl
  unfold parcelAccess parcelControl parcelDestination prime quadrant cFunct3 rd
  cases h with
  | immediate hq hf hrd =>
    simp only [mem_cons, not_mem_nil, or_false] at hf
    simp only [hq]
    refine ⟨fun x => ?_, ?_, fun d hd => ?_⟩
    · simp
    · simp only [true_and, OfNat.one_ne_ofNat, false_and, or_false]
      omega
    · simp only [one_ne_zero, if_false, if_true] at hd
      rw [if_neg (by omega), if_pos (by omega)] at hd
      cases hd
      exact hrd
  | compact hq hf hrd hrs2 =>
    simp only [hq, hf]
    refine ⟨fun x => ?_, ?_, fun d hd => ?_⟩
    · simp
    · simp
    · simp only [OfNat.ofNat_ne_one, one_ne_zero, false_and, lt_irrefl, if_false, if_true] at hd
      cases hd
      rw [hbits]
      exact hrd
  | shift hq hf hrd =>
    simp only [hq, hf]
    refine ⟨fun x => ?_, ?_, fun d hd => ?_⟩
    · simp
    · simp
    · simp at hd
      obtain rfl := hd
      exact hrd
  | move hq hf hrd hrs2 =>
    have hne : bits w 2 5 ≠ 0 := by
      rw [hfive]
      have := (mem_primes hrs2).1
      omega
    simp only [hq, hf]
    refine ⟨fun x => ?_, ?_, fun d hd => ?_⟩
    · simp
    · simp [hne]
    · simp [hne] at hd
      obtain rfl := hd
      exact hrd

/-- An instruction of 16 bits. -/
theorem Narrow.straight {item : ProgramInstruction} (h : Narrow profile reserved pc item)
    (hreserved : baseReg = 0 ∨ baseReg ∈ reserved) : Straight profile options baseReg item := by
  obtain ⟨spec, -, hemission⟩ := h.drawn
  obtain ⟨haccess, hcontrol, hdestination⟩ := parcel_of_fields profile.xlen
    (fields_of_narrow h)
  have hwidth : item.width ≠ 4 := by rw [h.width_eq]; decide
  refine ⟨.inr ⟨h.width_eq, h.word_lt⟩, ?_, ?_, ?_, registers_of_compressed hemission⟩
  · unfold transfers
    rw [if_neg hwidth]
    exact hcontrol
  · unfold destination
    rw [if_neg hwidth]
    intro hd
    obtain ⟨hpos, -, -, hnot⟩ := mem_primes (hdestination _ hd)
    rcases hreserved with hzero | hmem
    · omega
    · exact hnot hmem
  · intro x a _ ha
    unfold access at ha
    rw [if_neg hwidth, haccess] at ha
    cases ha

/-! ## Places -/

/-- The bytes a list of instructions takes. -/
def extent (items : List ProgramInstruction) : ℕ := (items.map ProgramInstruction.width).sum

theorem length_flatMap_bytes (items : List ProgramInstruction) :
    (items.flatMap bytes).length = extent items := by
  induction items with
  | nil => rfl
  | cons item items ih =>
    rw [flatMap_cons, length_append, ih, bytes, length_leBytes]
    rfl

theorem extent_append (items items' : List ProgramInstruction) :
    extent (items ++ items') = extent items + extent items' := by
  unfold extent
  rw [map_append, sum_append]

/-- Instructions that lie one behind the other from a place on. -/
def LaidFrom : ℕ → List ProgramInstruction → Prop
  | _, [] => True
  | pc, item :: rest => item.pc = pc ∧ LaidFrom (pc + item.width) rest

theorem LaidFrom.append : ∀ {pc : ℕ} {items items' : List ProgramInstruction}, LaidFrom pc items →
    LaidFrom (pc + extent items) items' → LaidFrom pc (items ++ items')
  | _, [], _, _, h' => h'
  | pc, item :: rest, items', h, h' => by
    refine ⟨h.1, h.2.append ?_⟩
    rwa [show pc + item.width + extent rest = pc + extent (item :: rest) by
      unfold extent
      rw [map_cons, sum_cons, Nat.add_assoc]]

theorem LaidFrom.pc_eq : ∀ {pc : ℕ} {before after : List ProgramInstruction} {item : ProgramInstruction},
    LaidFrom pc (before ++ item :: after) → item.pc = pc + extent before
  | _, [], _, _, h => h.1
  | pc, first :: before, after, item, h => by
    have hrest : item.pc = pc + first.width + extent before := LaidFrom.pc_eq h.2
    rw [hrest, Nat.add_assoc]
    rfl

theorem placed_slots {items : List ProgramInstruction}
    (h : Slots profile options reserved baseReg pc records items) : LaidFrom pc items := by
  induction h with
  | nil => trivial
  | cons head tail ih =>
    refine LaidFrom.append ?_ ?_
    · cases head with
      | wide _ hitem => exact ⟨hitem.pc_eq, trivial⟩
      | pair h₁ h₂ => exact ⟨h₁.pc_eq, by rw [h₁.width_eq]; exact h₂.pc_eq, trivial⟩
    · cases head with
      | wide _ hitem =>
        rw [extent, map_singleton, sum_singleton, hitem.width_eq]
        exact ih
      | pair h₁ h₂ =>
        rw [extent, map_cons, map_singleton, sum_cons, sum_singleton, h₁.width_eq,
          h₂.width_eq]
        exact ih

theorem straight_slots (hbase : baseReg < profile.registerCount)
    (hreserved : baseReg = 0 ∨ baseReg ∈ reserved)
    (hwindow : options.ramSize ≠ 0 → options.ramBase + options.ramSize ≤ 2 ^ 32)
    {items : List ProgramInstruction} (h : Slots profile options reserved baseReg pc records items) :
    ∀ item ∈ items, Straight profile options baseReg item := by
  induction h with
  | nil => exact nofun
  | cons head tail ih =>
    intro item hmem
    rcases mem_append.1 hmem with hmem | hmem
    · cases head with
      | wide hmode hitem =>
        obtain rfl := mem_singleton.1 hmem
        exact hitem.straight hmode hbase hreserved hwindow
      | pair h₁ h₂ =>
        rcases mem_pair.1 hmem with rfl | rfl
        · exact h₁.straight hreserved
        · exact h₂.straight hreserved
    · exact ih item hmem

/-! ## The prologue -/

/-- The value of the upper half on its own. -/
def upperValue (xlen ramBase : ℕ) : ℕ := (signed (upperHalf ramBase * 2 ^ 12) 32 % 2 ^ xlen).toNat

/-- The immediate of an addition is read back. -/
theorem signed_intField {lo : ℤ} (hlow : -2048 ≤ lo) (hhigh : lo < 2048) :
    signed (intField lo 0 12) 12 = lo := by
  unfold signed intField
  split_ifs with h <;> omega

/-- **The halves of a base add up to it.** -/
theorem halves_eq_base (hwindow : WindowFits profile options) :
    addressOf profile.xlen (upperValue profile.xlen options.ramBase) (lowerHalf options.ramBase) =
      options.ramBase := by
  have hnarrow := hwindow.narrow
  have hsize := hwindow.size
  have hwide := hwindow.wide
  have hhi := upperHalf_lt options.ramBase
  obtain ⟨hlow, hhigh, hsum⟩ := lowerHalf_spec (show options.ramBase < 2 ^ 32 by omega)
  unfold addressOf upperValue signed
  rcases profile.xlen_eq with h | h
  · rw [h]
    split_ifs with hs <;> omega
  · have hwide := hwide h
    have hupper : upperHalf options.ramBase = (options.ramBase + 0x800) / 2 ^ 12 := by
      omega
    rw [h, if_pos (by omega)]
    omega

/-- An instruction that puts a value into a register, and does nothing else. -/
structure Sets (xlen : ℕ) (item : ProgramInstruction) (d : ℕ) (value : (ℕ → ℕ) → ℕ) : Prop where
  fetchable : Fetchable item
  straight : ¬ transfers xlen item.word item.width
  silent : ∀ x, access xlen x item.word item.width = none
  writes : destination xlen item.word item.width = some d
  result_eq : ∀ x, result xlen x item.word item.width = some (value x)

theorem sets_lui (xlen : ℕ) {hi : ℕ} (hword : item.word = luiWord d hi) (hwidth : item.width = 4)
    (hd : d < 32) (hhi : hi < 2 ^ 20) :
    Sets xlen item d fun _ => (signed (hi * 2 ^ 12) 32 % 2 ^ xlen).toNat := by
  obtain ⟨hop, hrd, himm, hlt, hfull⟩ := lui_fields hd hhi
  rw [← hword] at hop hrd himm hlt hfull
  refine ⟨.inl ⟨hwidth, hlt, hfull⟩, ?_, fun x => ?_, ?_, fun x => ?_⟩
  · unfold transfers
    rw [if_pos hwidth, hop]
    decide
  · unfold access wordAccess
    rw [if_pos hwidth, hop]
    rfl
  · unfold destination wordDestination
    rw [if_pos hwidth, hop, hrd]
    rfl
  · unfold result wordResult immU
    rw [if_pos hwidth, hop, himm]
    rfl

theorem sets_addi (xlen : ℕ) {lo : ℤ} (hword : item.word = addiWord d d lo)
    (hwidth : item.width = 4) (hd : d < 32) (hlow : -2048 ≤ lo) (hhigh : lo < 2048) :
    Sets xlen item d fun x => addressOf xlen (x d) lo := by
  obtain ⟨hop, hf3, hrd, hrs1, himm, hlt, hfull⟩ := addi_fields (d := d) lo hd
  rw [← hword] at hop hf3 hrd hrs1 himm hlt hfull
  refine ⟨.inl ⟨hwidth, hlt, hfull⟩, ?_, fun x => ?_, ?_, fun x => ?_⟩
  · unfold transfers
    rw [if_pos hwidth, hop]
    decide
  · unfold access wordAccess
    rw [if_pos hwidth, hop]
    rfl
  · unfold destination wordDestination
    rw [if_pos hwidth, hop, hrd]
    rfl
  · unfold result wordResult immI
    rw [if_pos hwidth, hop, hf3, hrs1, himm, signed_intField hlow hhigh]
    rfl

/-- What the prologue has done after `n` instructions of the program. -/
structure BaseAfter (profile : RiscvProfile) (options : ProgramOptions) (n : ℕ) (s : Hart) : Prop where
  upper : n = 1 → (prologueItems profile options).length = 2 →
    s.x (baseRegister profile options) = upperValue profile.xlen options.ramBase
  whole : (prologueItems profile options).length ≤ n → options.ramSize ≠ 0 →
    s.x (baseRegister profile options) = options.ramBase

/-- The last register is no `x0`. -/
theorem baseRegister_ne_zero (hbase : options.hasBase) : baseRegister profile options ≠ 0 := by
  have := profile.registerCount_le
  unfold baseRegister
  rw [if_pos hbase]
  omega

/-- A prologue is the upper half, or both halves. -/
theorem prologue_sets (h : Accepted profile options) (hbase : options.hasBase) :
    ∃ lui : ProgramInstruction, Sets profile.xlen lui (baseRegister profile options)
        (fun _ => upperValue profile.xlen options.ramBase) ∧ lui.width = 4 ∧
      (prologueItems profile options = [lui] ∧ upperValue profile.xlen options.ramBase = options.ramBase ∨
        ∃ addi : ProgramInstruction, Sets profile.xlen addi (baseRegister profile options)
            (fun x => addressOf profile.xlen (x (baseRegister profile options))
              (lowerHalf options.ramBase)) ∧ addi.width = 4 ∧
          prologueItems profile options = [lui, addi]) := by
  have hcount := profile.registerCount_le
  have hreg := baseRegister_lt profile options
  have hwindow := h.window hbase.1
  obtain ⟨hlow, hhigh, -⟩ := lowerHalf_spec (show options.ramBase < 2 ^ 32 by
    have := hwindow.narrow
    have := hwindow.size
    omega)
  have hsum := halves_eq_base hwindow
  refine ⟨⟨0, luiWord (baseRegister profile options) (upperHalf options.ramBase), 4, "I",
    (noOperands.set .rd (baseRegister profile options)).set .imm (upperHalf options.ramBase), none⟩,
    sets_lui _ rfl rfl (by omega) (upperHalf_lt _), rfl, ?_⟩
  unfold prologueItems
  dsimp only
  rw [if_pos hbase]
  by_cases hlo : lowerHalf options.ramBase = 0
  · left
    rw [if_pos hlo]
    refine ⟨rfl, ?_⟩
    rw [hlo] at hsum
    have hlt : upperValue profile.xlen options.ramBase < 2 ^ profile.xlen := by
      unfold upperValue
      have hpos : (0 : ℤ) < 2 ^ profile.xlen := by positivity
      have := Int.emod_lt_of_pos (signed (upperHalf options.ramBase * 2 ^ 12) 32) hpos
      have := Int.emod_nonneg (signed (upperHalf options.ramBase * 2 ^ 12) 32) hpos.ne'
      have hcast : ((2 ^ profile.xlen : ℕ) : ℤ) = 2 ^ profile.xlen := by push_cast; rfl
      omega
    exact (addressOf_of_lt (show upperValue profile.xlen options.ramBase + 0 < _ from hlt)).symm.trans
      hsum
  · right
    rw [if_neg hlo]
    exact ⟨_, sets_addi _ rfl rfl (by omega) hlow hhigh, rfl, rfl⟩

/-! ## Runs -/

/-- A state before an instruction of the program, with the prologue done as far as it stands. -/
def Standing (profile : RiscvProfile) (options : ProgramOptions) (program : Program) (s : Hart) : Prop :=
  ∃ before after, program.instructions = before ++ after ∧ s.pc = extent before ∧
    BaseAfter profile options before.length s

/-- What an instruction of the prologue does to the base. -/
def Advances (profile : RiscvProfile) (options : ProgramOptions) (n : ℕ) (value : (ℕ → ℕ) → ℕ) : Prop :=
  ∀ s s' : Hart, s'.x (baseRegister profile options) = value s.x → BaseAfter profile options n s →
    BaseAfter profile options (n + 1) s'

/-- **An instruction of a program is one of the prologue, or lies behind it.** -/
theorem item_cases (h : Accepted profile options) {items : List ProgramInstruction}
    (hsplit : prologueItems profile options ++ items = before ++ item :: after) :
    (item ∈ items ∧ (prologueItems profile options).length ≤ before.length) ∨
      options.hasBase ∧ ∃ value, Sets profile.xlen item (baseRegister profile options) value ∧
        Advances profile options before.length value := by
  by_cases hbase : options.hasBase
  · obtain ⟨lui, hlui, -, ⟨hone, hvalue⟩ | ⟨addi, haddi, -, htwo⟩⟩ := prologue_sets h hbase
    · rw [hone] at hsplit
      cases before with
      | nil =>
        cases hsplit
        refine .inr ⟨hbase, _, hlui, fun s s' hx _ => ⟨fun _ htwo => ?_, fun _ _ => hx.trans hvalue⟩⟩
        rw [hone] at htwo
        cases htwo
      | cons b before =>
        obtain ⟨-, hrest⟩ := List.cons.inj hsplit
        refine .inl ⟨?_, by rw [hone]; exact Nat.succ_le_succ (Nat.zero_le _)⟩
        rw [show items = before ++ item :: after from hrest]
        exact mem_append_right _ (.head _)
    · rw [htwo] at hsplit
      have hlength : (prologueItems profile options).length = 2 := by rw [htwo]; rfl
      cases before with
      | nil =>
        cases hsplit
        refine .inr ⟨hbase, _, hlui, fun s s' hx _ => ⟨fun _ _ => hx, fun hle => ?_⟩⟩
        rw [hlength] at hle
        exact absurd hle (by decide)
      | cons b before =>
        obtain ⟨-, hrest⟩ := List.cons.inj hsplit
        cases before with
        | nil =>
          cases hrest
          refine .inr ⟨hbase, _, haddi, fun s s' hx hafter => ⟨fun hn => absurd hn (by simp), fun _ _ => ?_⟩⟩
          rw [hx, hafter.upper rfl hlength]
          exact halves_eq_base (h.window hbase.1)
        | cons b' before =>
          obtain ⟨-, hrest⟩ := List.cons.inj hrest
          refine .inl ⟨?_, by rw [hlength]; exact Nat.succ_le_succ (Nat.succ_le_succ (Nat.zero_le _))⟩
          rw [show items = before ++ item :: after from hrest]
          exact mem_append_right _ (.head _)
  · have hnil : prologueItems profile options = [] := by
      unfold prologueItems
      dsimp only
      rw [if_neg hbase]
    rw [hnil, nil_append] at hsplit
    refine .inl ⟨?_, by rw [hnil]; exact Nat.zero_le _⟩
    rw [hsplit]
    exact mem_append_right _ (.head _)

/-- The facts about a program that its runs depend on. -/
structure Laid (profile : RiscvProfile) (options : ProgramOptions) (program : Program)
    (items : List ProgramInstruction) : Prop where
  accepted : Accepted profile options
  instructions : program.instructions = prologueItems profile options ++ items
  image : program.image = program.instructions.flatMap ProgramInstruction.bytes
  placed : LaidFrom 0 program.instructions
  straight : ∀ item ∈ items, Straight profile options (baseRegister profile options) item

variable {program : Program} {items : List ProgramInstruction} {s s' : Hart}

/-- The instruction a state stands before is the one that is fetched. -/
theorem Laid.fetch_eq (h : Laid profile options program items)
    (hsplit : program.instructions = before ++ item :: after) (hpc : s.pc = extent before) :
    fetch program.image s.pc = some (item.word, item.width) := by
  have hfetchable : Fetchable item := by
    rcases item_cases h.accepted (h.instructions.symm.trans hsplit) with ⟨hmem, -⟩ | ⟨-, _, hsets, -⟩
    · exact (h.straight item hmem).fetchable
    · exact hsets.fetchable
  rw [h.image, hsplit, flatMap_append, flatMap_cons, hpc, ← length_flatMap_bytes]
  exact fetch_of_split hfetchable _ _

/-- Behind the last instruction nothing is fetched. -/
theorem Laid.fetch_end (h : Laid profile options program items)
    (hpc : s.pc = extent program.instructions) : fetch program.image s.pc = none := by
  have hdrop : program.image.drop s.pc = [] := by
    rw [h.image, hpc, ← length_flatMap_bytes]
    exact drop_length
  unfold fetch
  rw [hdrop]
  rfl

/-- **A step leads from before one instruction to before the next.** -/
theorem Laid.standing_step (h : Laid profile options program items)
    (hs : Standing profile options program s) (hstep : Step profile.xlen program.image s s') :
    Standing profile options program s' := by
  obtain ⟨before, after, hsplit, hpc, hafter⟩ := hs
  obtain ⟨w, width, hfetch, hframe, hresult, hnext⟩ := hstep
  cases after with
  | nil =>
    rw [append_nil] at hsplit
    rw [h.fetch_end (hsplit ▸ hpc)] at hfetch
    cases hfetch
  | cons item after =>
    rw [h.fetch_eq hsplit hpc] at hfetch
    cases Option.some.inj hfetch
    have hextent : extent (before ++ [item]) = extent before + item.width := by
      rw [extent_append]
      rfl
    refine ⟨before ++ [item], after, by rw [hsplit, append_assoc]; rfl, ?_, ?_⟩
    · rcases item_cases h.accepted (h.instructions.symm.trans hsplit) with ⟨hmem, -⟩ | ⟨-, _, hsets, -⟩
      · rw [hnext (h.straight item hmem).straight, hextent, hpc]
      · rw [hnext hsets.straight, hextent, hpc]
    · rw [length_append, length_singleton]
      rcases item_cases h.accepted (h.instructions.symm.trans hsplit) with ⟨hmem, hle⟩ |
        ⟨hbase, value, hsets, hadvances⟩
      · have hkeep := hframe _ (h.straight item hmem).keeps
        refine ⟨fun hone htwo => ?_, fun _ hsize => hkeep.trans (hafter.whole hle hsize)⟩
        exact absurd hle (by omega)
      · exact hadvances s s' (hresult _ _ (hsets.result_eq s.x) hsets.writes
          (baseRegister_ne_zero hbase)) hafter

/-- Before the first instruction the base is in its register only if there is no prologue. -/
theorem baseAfter_zero (h : Accepted profile options) (s : Hart) : BaseAfter profile options 0 s := by
  refine ⟨fun hn => absurd hn (by decide), fun hle hsize => ?_⟩
  have hno : ¬ options.hasBase := fun hbase => by
    obtain ⟨lui, -, -, ⟨hone, -⟩ | ⟨addi, -, -, htwo⟩⟩ := prologue_sets h hbase
    · rw [hone] at hle
      cases hle
    · rw [htwo] at hle
      cases hle
  have hzero : options.ramBase = 0 := by
    by_contra hne
    exact hno ⟨hsize, hne⟩
  unfold baseRegister
  rw [if_neg hno, hzero]
  rfl

/-- **Every reachable state stands before an instruction.** -/
theorem Laid.standing (h : Laid profile options program items)
    (hs : Reachable profile.xlen program.image s) : Standing profile options program s := by
  obtain ⟨regs, hrun⟩ := hs
  induction hrun with
  | refl => exact ⟨[], program.instructions, rfl, rfl, baseAfter_zero h.accepted _⟩
  | tail _ hstep ih => exact h.standing_step ih hstep

/-- A register is set in one step. -/
theorem Sets.step {xlen : ℕ} {image : List UInt8} {value : (ℕ → ℕ) → ℕ} (h : Sets xlen item d value)
    (hd : d ≠ 0) (hfetch : fetch image s.pc = some (item.word, item.width)) :
    ∃ s', Step xlen image s s' ∧ s'.pc = s.pc + item.width ∧ s'.x d = value s.x := by
  have hset : (⟨s.pc + item.width, Function.update s.regs d (value s.x)⟩ : Hart).x d = value s.x := by
    rw [Hart.x, if_neg hd]
    exact Function.update_self ..
  refine ⟨⟨s.pc + item.width, Function.update s.regs d (value s.x)⟩, ?_, rfl, hset⟩
  refine ⟨item.word, item.width, hfetch, fun r hr => ?_, fun v r hv hr _ => ?_, fun _ => rfl⟩
  · have hne : r ≠ d := by
      rintro rfl
      exact hr h.writes
    have hregs : Function.update s.regs d (value s.x) r = s.regs r := Function.update_of_ne hne ..
    exact congrArg (fun v => if r = 0 then 0 else v) hregs
  · rw [h.writes] at hr
    cases hr
    rw [h.result_eq] at hv
    cases hv
    exact hset

/-- **The prologue can be run**, from any registers. -/
theorem Laid.run_prologue (h : Laid profile options program items) : ∀ {before after},
    prologueItems profile options = before ++ after → ∃ s, Reachable profile.xlen program.image s ∧
      s.pc = extent before ∧ BaseAfter profile options before.length s := by
  intro before
  induction before using List.reverseRecOn with
  | nil => exact fun _ => ⟨⟨0, fun _ => 0⟩, ⟨_, .refl⟩, rfl, baseAfter_zero h.accepted _⟩
  | append_singleton before item ih =>
    intro after hsplit
    rw [append_assoc] at hsplit
    obtain ⟨s, ⟨regs, hrun⟩, hpc, hafter⟩ := ih hsplit
    have hitems : program.instructions = before ++ item :: (after ++ items) := by
      rw [h.instructions, hsplit, append_assoc]
      rfl
    rcases item_cases h.accepted (h.instructions.symm.trans hitems) with ⟨-, hle⟩ |
      ⟨hbase, value, hsets, hadvances⟩
    · rw [hsplit, length_append] at hle
      exact absurd hle (by simp)
    · obtain ⟨s', hstep, hpc', hx⟩ := hsets.step (baseRegister_ne_zero hbase) (h.fetch_eq hitems hpc)
      refine ⟨s', ⟨regs, hrun.tail hstep⟩, ?_, ?_⟩
      · rw [hpc', hpc, extent_append]
        rfl
      · rw [length_append, length_singleton]
        exact hadvances s s' hx hafter

end MyFuzz
