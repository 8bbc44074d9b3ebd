import Mathlib.Combinatorics.Colex
import MyFuzz.Foundations.Rv32i
import MyFuzz.Scenario.RetirementMoves

/-!
# Scenario/RetirementEffects — an accepted load or store is the one its word encodes

A retired access names an address and a memory word; the beats it takes from the queue name aligned
words with byte enables.  The bytes between them are the same:

    address + i  ──mod 2^32──▸  word k, lane l  ──▸  beat with aligned address k, enable bit l

`expectedLanes` tabulates the right-hand side, and a beat is checked against one line of the table.
-/

namespace MyFuzz

open CpuEvents Rv32i CpuState Dict

/-! ## The expected lanes -/

/-- The offset expected in a lane of a word. -/
def laneOf (expected : Dict ℕ (Dict ℕ ℕ)) (word lane : ℕ) : Option ℕ :=
  (expected.get? word).bind fun lanes => lanes.get? lane

/-- The address of a byte of an access. -/
def byteAddress (address offset : ℕ) : ℕ := (address + offset) % 2 ^ 32

theorem expectedLanes_succ (address width : ℕ) : expectedLanes address (width + 1) =
    (expectedLanes address width).set (wordOf (byteAddress address width))
      (((expectedLanes address width).getD (wordOf (byteAddress address width)) .empty).set
        (byteAddress address width % 4) width) := by
  unfold expectedLanes
  rw [List.range_succ, List.foldl_append]
  rfl

theorem laneOf_expectedLanes_succ (address width word lane : ℕ) :
    laneOf (expectedLanes address (width + 1)) word lane =
      if wordOf (byteAddress address width) = word ∧ byteAddress address width % 4 = lane then
        some width
      else laneOf (expectedLanes address width) word lane := by
  rw [expectedLanes_succ]
  unfold laneOf
  by_cases hword : word = wordOf (byteAddress address width)
  · subst hword
    rw [get?_set_self, Option.bind_some, get?_set]
    by_cases hlane : lane = byteAddress address width % 4
    · rw [if_pos hlane, if_pos ⟨rfl, hlane.symm⟩]
    · rw [if_neg hlane, if_neg fun h => hlane h.2.symm]
      unfold getD
      cases (expectedLanes address width).get? (wordOf (byteAddress address width)) with
      | none | some lanes => rfl
  · rw [get?_set_of_ne _ hword, if_neg fun h => hword h.1.symm]

/-- **The lanes of the table are the bytes of the access.** -/
theorem laneOf_expectedLanes (address : ℕ) : ∀ {width : ℕ}, width ≤ 2 ^ 32 →
    ∀ word lane offset : ℕ, laneOf (expectedLanes address width) word lane = some offset ↔
      offset < width ∧ wordOf (byteAddress address offset) = word ∧
        byteAddress address offset % 4 = lane := by
  intro width hwidth word lane offset
  induction width with
  | zero => simp [expectedLanes, laneOf]
  | succ width ih =>
    rw [laneOf_expectedLanes_succ]
    split_ifs with hlast
    · constructor
      · intro h
        cases h
        exact ⟨Nat.lt_succ_self _, hlast⟩
      · rintro ⟨hlt, hword, hlane⟩
        -- bytes of one access have different addresses
        have hsame : byteAddress address offset = byteAddress address width := by
          unfold wordOf at hword hlast
          omega
        unfold byteAddress at hsame
        have : offset = width := by omega
        rw [this]
    · rw [ih (by omega)]
      constructor
      · rintro ⟨hlt, h⟩
        exact ⟨by omega, h⟩
      · rintro ⟨hlt, h⟩
        refine ⟨lt_of_le_of_ne (Nat.lt_succ_iff.1 hlt) ?_, h⟩
        rintro rfl
        exact hlast h

variable {address width raw word lane : ℕ} {α β : Type} {R : α → β → Prop} {write : Bool}
  {r : Retirement} {lanes : Dict ℕ ℕ} {beat : DataBeat} {offset : Rv32i.Word}
  {beats : List DataBeat} {operation : RetiredOperation}

/-- Every word of the table holds a byte of the access. -/
theorem exists_of_mem_expectedLanes : ∀ {width word : ℕ}, ((expectedLanes address width).get? word).isSome →
      ∃ offset < width, wordOf (byteAddress address offset) = word
  | 0, word, h => by simp [expectedLanes] at h
  | width + 1, word, h => by
      rw [expectedLanes_succ, get?_set] at h
      split_ifs at h with hword
      · exact ⟨width, Nat.lt_succ_self _, hword.symm⟩
      · obtain ⟨offset, hlt, hoffset⟩ := exists_of_mem_expectedLanes h
        exact ⟨offset, by omega, hoffset⟩

/-- **An access of at most four bytes touches one or two words.** -/
theorem length_expectedLanes (hpos : 0 < width) (hwidth : width ≤ 4) :
    (expectedLanes address width).length = 1 ∨ (expectedLanes address width).length = 2 := by
  have hfirst : ((expectedLanes address width).get? (wordOf (byteAddress address 0))).isSome := by
    have hlane := (laneOf_expectedLanes address (by omega : width ≤ 2 ^ 32) _ _ 0).2 ⟨hpos, rfl, rfl⟩
    obtain ⟨lanes, hlanes, -⟩ := Option.bind_eq_some_iff.1 hlane
    rw [hlanes]
    rfl
  have hsubset : (expectedLanes address width).keys ⊆
      [wordOf (byteAddress address 0), wordOf (byteAddress address 3)] := by
    intro word hword
    obtain ⟨offset, hlt, rfl⟩ := exists_of_mem_expectedLanes (mem_keys_iff.1 hword)
    have hcases : wordOf (byteAddress address offset) = wordOf (byteAddress address 0) ∨
        wordOf (byteAddress address offset) = wordOf (byteAddress address 3) := by
      unfold wordOf byteAddress
      omega
    simpa using hcases
  have hle := (List.subperm_of_subset (expectedLanes address width).nodup hsubset).length_le
  have hge : 0 < (expectedLanes address width).keys.length :=
    List.length_pos_of_mem (mem_keys_iff.2 hfirst)
  rw [length_keys] at hge
  have hle' : (expectedLanes address width).length ≤ 2 := by
    rw [← length_keys]
    exact hle
  omega

/-! ## Byte enables -/

/-- **The enable bits of a list of lanes.** -/
theorem testBit_sum_shiftLeft {lanes : List ℕ} (h : lanes.Nodup) (i : ℕ) :
    ((lanes.map fun lane => 1 <<< lane).sum).testBit i = true ↔ i ∈ lanes := by
  have hpow : (lanes.map fun lane => 1 <<< lane).sum = ∑ lane ∈ lanes.toFinset, 2 ^ lane := by
    rw [List.sum_toFinset _ h]
    refine congrArg List.sum (List.map_congr_left fun lane _ => ?_)
    rw [Nat.shiftLeft_eq, one_mul]
  rw [hpow, ← Nat.mem_bitIndices, ← List.mem_toFinset, Finset.toFinset_bitIndices_sum_two_pow,
    List.mem_toFinset]

/-! ## Paired lists -/

theorem exists_left_of_forall₂ {b : β} : ∀ {as : List α}
    {bs : List β}, List.Forall₂ R as bs → b ∈ bs → ∃ a ∈ as, R a b
  | _, _, .nil, hb => nomatch hb
  | _, _, .cons (a := a) h hrest, hb => by
      rcases List.mem_cons.1 hb with rfl | hb
      · exact ⟨a, .head _, h⟩
      · obtain ⟨a', ha', h'⟩ := exists_left_of_forall₂ hrest hb
        exact ⟨a', .tail _ ha', h'⟩

theorem exists_right_of_forall₂ {a : α} {as : List α} {bs : List β} (h : List.Forall₂ R as bs)
    (ha : a ∈ as) : ∃ b ∈ bs, R a b :=
  exists_left_of_forall₂ h.flip ha

/-! ## What the checks of the beats say -/

/-- A beat carries the lanes of one word of an access. -/
structure CarriesLanes (write : Bool) (r : Retirement) (word : ℕ) (lanes : Dict ℕ ℕ)
    (beat : DataBeat) : Prop where
  aligned : beat.alignedAddress = word
  direction : beat.write ≠ 0 ↔ write = true
  enables : ∀ i, beat.be.testBit i = true ↔ (lanes.get? i).isSome
  answered : ∃ response, beat.response = some response ∧ response.error = 0 ∧
    ∀ lane offset, lanes.get? lane = some offset →
      byteOf (if write then beat.wdata else response.rdata) lane =
        byteOf (if write then r.memWdata else r.memRdata) offset

theorem carriesLanes_of_checkBeat {u : Unit} (h : checkBeat write r raw word lanes beat = .ok u) :
    CarriesLanes write r word lanes beat := by
  unfold checkBeat at h
  split at h
  · cases h
  rename_i hmatch
  rw [not_not] at hmatch
  obtain ⟨-, haligned, hdirection, henables⟩ := hmatch
  split at h
  · cases h
  rename_i response hresponse
  split at h
  · cases h
  rename_i herror
  by_cases hbytes : ∀ p ∈ lanes.entries, byteOf (if write then beat.wdata else response.rdata) p.1 =
        byteOf (if write then r.memWdata else r.memRdata) p.2
  swap
  · rw [if_pos hbytes] at h
    cases h
  refine ⟨haligned, hdirection, fun i => ?_, response, hresponse, not_not.1 herror, ?_⟩
  · have hnodup : lanes.keys.Nodup := lanes.nodup
    rw [henables, testBit_sum_shiftLeft hnodup, mem_keys_iff]
  · intro lane offset hlane
    exact hbytes (lane, offset) (mem_entries_iff.2 hlane)

/-- The beats carry the words of an access one after the other. -/
theorem forall₂_of_checkBeats : ∀ {raw : ℕ}
    {expected : List (ℕ × Dict ℕ ℕ)} {beats : List DataBeat} {u : Unit},
    beats.length = expected.length → checkBeats write r raw expected beats = .ok u →
      List.Forall₂ (fun entry beat => CarriesLanes write r entry.1 entry.2 beat) expected beats
  | _, [], [], _, _, _ => .nil
  | raw, [(word, lanes)], [beat], _, _, h => by
      obtain ⟨u, hbeat, -⟩ := Outcome.bind_ok.1 h
      exact .cons (carriesLanes_of_checkBeat hbeat) .nil
  | raw, (word, lanes) :: (next, more) :: expected, beat :: beat' :: beats, _, hlength, h => by
      obtain ⟨u, hbeat, hrest⟩ := Outcome.bind_ok.1 h
      refine .cons (carriesLanes_of_checkBeat hbeat) (forall₂_of_checkBeats ?_ hrest)
      simpa using hlength

/-! ## Decoding -/

section Decode

variable {insn : ℕ}

theorem and_low (n : ℕ) (word : ℕ) : word &&& (2 ^ n - 1) = word % 2 ^ n :=
  Nat.and_two_pow_sub_one_eq_mod word n

theorem opcode_eq (insn : ℕ) : insn &&& 127 = field insn 0 7 := by
  have h := and_low 7 insn
  norm_num at h
  rw [h]
  simp [field]

theorem funct3_eq (insn : ℕ) : insn >>> 12 &&& 7 = field insn 12 3 := by
  have h := and_low 3 (insn >>> 12)
  norm_num at h
  rw [h, Nat.shiftRight_eq_div_pow]
  rfl

/-- The high fields of a word are what is left of it. -/
theorem shiftRight_eq_field {lo len : ℕ} (h : insn < 2 ^ (lo + len)) :
    insn >>> lo = field insn lo len := by
  rw [Nat.shiftRight_eq_div_pow, field, Nat.mod_eq_of_lt]
  rw [Nat.div_lt_iff_lt_mul (by positivity), ← pow_add, Nat.add_comm len lo]
  exact h

theorem signedField_eq {value : ℕ} (h : value < 2 ^ 12) : signedField value 12 = signed 12 value := by
  have hbit : value &&& 1 <<< 11 = 0 ↔ value < 2 ^ 11 := by
    rw [Nat.one_shiftLeft, Nat.and_two_pow, Nat.testBit_eq_decide_div_mod_eq]
    by_cases hone : value / 2 ^ 11 % 2 = 1
    · rw [decide_eq_true hone]
      exact ⟨fun h => absurd h (by norm_num), fun h => by omega⟩
    · rw [decide_eq_false hone]
      exact ⟨fun _ => by omega, fun _ => by norm_num⟩
  unfold signedField signed
  by_cases hlow : value < 2 ^ 11
  · rw [if_neg (not_not.2 (hbit.2 hlow)), if_pos hlow]
  · rw [if_pos fun h => hlow (hbit.1 h), if_neg hlow]
    rfl

/-- The immediate of a store is put together from its two fields. -/
theorem storeImmediate_eq (h : insn < 2 ^ 32) : memoryImmediate true insn =
    field insn 25 7 * 2 ^ 5 + field insn 7 5 := by
  have hlow : insn >>> 7 &&& 31 = field insn 7 5 := by
    have hand := and_low 5 (insn >>> 7)
    norm_num at hand
    rw [hand, Nat.shiftRight_eq_div_pow]
    rfl
  have hlt : field insn 7 5 < 2 ^ 5 := Nat.mod_lt _ (by norm_num)
  change (insn >>> 25) <<< 5 ||| (insn >>> 7 &&& 31) = _
  rw [hlow, shiftLeft_or_eq_add hlt, shiftRight_eq_field (show insn < 2 ^ (25 + 7) from h)]

theorem loadImmediate_eq (h : insn < 2 ^ 32) :
    memoryImmediate false insn = field insn 20 12 := shiftRight_eq_field h

theorem word32_add_eq (value : ℕ) (offset : ℤ) :
    word32 (value + offset) = (BitVec.ofNat 32 value + BitVec.ofInt 32 offset).toNat := by
  have hsum : BitVec.ofNat 32 value + BitVec.ofInt 32 offset = BitVec.ofInt 32 (value + offset) := by
    rw [BitVec.ofInt_add, BitVec.ofInt_natCast]
  rw [hsum, BitVec.toNat_ofInt]
  rfl

end Decode

/-! ## Accepted accesses -/

/-- **The beats of an access agree with it byte by byte.** -/
structure AccessAgrees (r : Retirement) (write : Bool) (width : ℕ) (offset : Rv32i.Word)
    (beats : List DataBeat) : Prop where
  address : r.memAddr = (BitVec.ofNat 32 r.rs1Rdata + offset).toNat
  count : beats.length = 1 ∨ beats.length = 2
  distinct : (beats.map DataBeat.alignedAddress).Nodup
  covers : ∀ x : ℕ, (∃ i < width, x = byteAddress r.memAddr i) ↔
    ∃ beat ∈ beats, ∃ lane < 4, beat.be.testBit lane = true ∧ x = beat.alignedAddress + lane
  enables : ∀ beat ∈ beats, ∀ lane, beat.be.testBit lane = true → lane < 4
  direction : ∀ beat ∈ beats, (beat.write ≠ 0 ↔ write = true)
  bytes : ∀ beat ∈ beats, ∃ response, beat.response = some response ∧ response.error = 0 ∧
    ∀ lane, beat.be.testBit lane = true → ∀ i < width, byteAddress r.memAddr i = beat.alignedAddress + lane →
        byteOf (if write then beat.wdata else response.rdata) lane =
          byteOf (if write then r.memWdata else r.memRdata) i

/-- The accepted beats are those of the instruction its word encodes: an access takes its own, and
nothing else takes any. -/
def EffectAgrees (r : Retirement) (beats : List DataBeat) : Prop :=
  match Rv32i.decode r.insn with
  | some (.load width _ _ _ offset) => AccessAgrees r false width offset beats
  | some (.store width _ _ offset) => AccessAgrees r true width offset beats
  | _ => beats = []

theorem wordOf_add_mod (x : ℕ) : x = wordOf x + x % 4 := by
  unfold wordOf
  omega

/-- The lanes of a word of the table. -/
theorem get?_lane_iff {offset : ℕ} (hwidth : width ≤ 2 ^ 32)
    (h : (word, lanes) ∈ (expectedLanes address width).entries) :
    lanes.get? lane = some offset ↔ offset < width ∧
      wordOf (byteAddress address offset) = word ∧ byteAddress address offset % 4 = lane := by
  rw [← laneOf_expectedLanes address hwidth word lane offset, laneOf, mem_entries_iff.1 h,
    Option.bind_some]

/-- An enabled lane of a beat is a byte of the access. -/
theorem CarriesLanes.exists_offset (h : CarriesLanes write r word lanes beat)
    (hwidth : width ≤ 2 ^ 32) (hentry : (word, lanes) ∈ (expectedLanes address width).entries)
    (henabled : beat.be.testBit lane = true) : ∃ i < width,
      wordOf (byteAddress address i) = word ∧ byteAddress address i % 4 = lane := by
  obtain ⟨i, hi⟩ := Option.isSome_iff_exists.1 ((h.enables lane).1 henabled)
  exact ⟨i, (get?_lane_iff hwidth hentry).1 hi⟩

/-- Beats that carry the words of the table agree with the access. -/
theorem accessAgrees_of_forall₂ 
    (hpos : 0 < width) (hwidth : width ≤ 4)
    (haddress : r.memAddr = (BitVec.ofNat 32 r.rs1Rdata + offset).toNat)
    (h : List.Forall₂ (fun entry beat => CarriesLanes write r entry.1 entry.2 beat)
      (expectedLanes r.memAddr width).entries beats) : AccessAgrees r write width offset beats := by
  have hbig : width ≤ 2 ^ 32 := by omega
  have hbeat := fun beat => exists_left_of_forall₂ (b := beat) h
  refine ⟨haddress, ?_, ?_, fun x => ⟨?_, ?_⟩, ?_, ?_, ?_⟩
  · rw [← h.length_eq]
    exact length_expectedLanes hpos hwidth
  · have hkeys : beats.map DataBeat.alignedAddress = (expectedLanes r.memAddr width).keys := by
      refine List.forall₂_eq_eq_eq ▸ List.forall₂_map_left_iff.2 (List.forall₂_map_right_iff.2 ?_)
      exact (h.imp fun _ _ hcarries => hcarries.aligned).flip
    rw [hkeys]
    exact (expectedLanes r.memAddr width).nodup
  · -- a byte of the access has a lane in the table, and the beat of that word enables it
    rintro ⟨i, hi, rfl⟩
    have hlane := (laneOf_expectedLanes r.memAddr hbig _ _ i).2 ⟨hi, rfl, rfl⟩
    obtain ⟨lanes, hlanes, hget⟩ := Option.bind_eq_some_iff.1 hlane
    obtain ⟨beat, hmem, hcarries⟩ := exists_right_of_forall₂ h (mem_entries_iff.2 hlanes)
    refine ⟨beat, hmem, byteAddress r.memAddr i % 4, Nat.mod_lt _ (by norm_num),
      (hcarries.enables _).2 ?_, ?_⟩
    · rw [hget]
      rfl
    · rw [hcarries.aligned]
      exact wordOf_add_mod _
  · rintro ⟨beat, hmem, lane, -, henabled, rfl⟩
    obtain ⟨⟨word, lanes⟩, hentry, hcarries⟩ := hbeat beat hmem
    obtain ⟨i, hlt, hword, hlane⟩ := hcarries.exists_offset hbig hentry henabled
    refine ⟨i, hlt, ?_⟩
    rw [hcarries.aligned, wordOf_add_mod (byteAddress r.memAddr i), hword, hlane]
  · intro beat hmem lane henabled
    obtain ⟨⟨word, lanes⟩, hentry, hcarries⟩ := hbeat beat hmem
    obtain ⟨i, -, -, rfl⟩ := hcarries.exists_offset hbig hentry henabled
    exact Nat.mod_lt _ (by norm_num)
  · intro beat hmem
    obtain ⟨entry, -, hcarries⟩ := hbeat beat hmem
    exact hcarries.direction
  · intro beat hmem
    obtain ⟨⟨word, lanes⟩, hentry, hcarries⟩ := hbeat beat hmem
    obtain ⟨response, hresponse, herror, hbytes⟩ := hcarries.answered
    refine ⟨response, hresponse, herror, fun lane henabled i hi heq => hbytes lane i ?_⟩
    obtain ⟨j, -, hword, hlane⟩ := hcarries.exists_offset hbig hentry henabled
    have hlow : lane < 4 := hlane ▸ Nat.mod_lt _ (by norm_num)
    have hmultiple : word % 4 = 0 := by
      rw [show word = wordOf (byteAddress r.memAddr j) from hword.symm]
      exact Nat.mul_mod_left _ _
    rw [hcarries.aligned] at heq
    refine (get?_lane_iff hbig hentry).2 ⟨hi, ?_, ?_⟩
    · rw [heq]
      change (word + lane) / 4 * 4 = word
      omega
    · rw [heq]
      change (word + lane) % 4 = lane
      omega

namespace CpuState

variable {s : CpuState} {witnesses : List (WitnessSignature × Fetch)} {r : Retirement}

variable {status : ReportStatus} {reason : String}

theorem checkBeat_ne_accepted (h : checkBeat write r raw word lanes beat = .error
    (status, reason)) : status ≠ .accepted := by
  unfold checkBeat at h
  split at h
  · cases h
    simp
  split at h
  · cases h
    simp
  rename_i response _
  split at h
  · cases h
    simp
  by_cases hbytes : ∀ p ∈ lanes.entries, byteOf (if write then beat.wdata else response.rdata) p.1 =
        byteOf (if write then r.memWdata else r.memRdata) p.2
  · rw [if_neg (not_not.2 hbytes)] at h
    cases h
  · rw [if_pos hbytes] at h
    cases h
    simp

theorem checkBeats_cons (write : Bool) (raw word : ℕ) (lanes : Dict ℕ ℕ)
    (expected : List (ℕ × Dict ℕ ℕ)) (beat : DataBeat) (beats : List DataBeat) :
    checkBeats write r raw ((word, lanes) :: expected) (beat :: beats) =
      checkBeat write r raw word lanes beat >>= fun _ => match expected with
        | [] => pure ()
        | (next, _) :: _ => checkBeats write r next expected beats := by
  cases expected <;> rfl

/-- A beat that fails its check does not make a retirement accepted. -/
theorem checkBeats_ne_accepted :
    ∀ {raw : ℕ} {expected : List (ℕ × Dict ℕ ℕ)} {beats : List DataBeat},
      checkBeats write r raw expected beats = .error (status, reason) → status ≠ .accepted
  | _, [], _, h => by cases h
  | _, _ :: _, [], h => by cases h
  | raw, (word, lanes) :: expected, beat :: beats, h => by
      rw [checkBeats_cons] at h
      cases hbeat : checkBeat write r raw word lanes beat with
      | error e =>
        rw [hbeat] at h
        cases h
        exact checkBeat_ne_accepted hbeat
      | ok u =>
        rw [hbeat, Outcome.ok_bind] at h
        cases expected with
        | nil => cases h
        | cons next expected => exact checkBeats_ne_accepted h

/-- **The beats of an accepted access agree with it.** -/
theorem retireMemory_accepted (hpos : 0 < width) (hwidth : width ≤ 4)
    (hoffset : memoryAddress write r = (BitVec.ofNat 32 r.rs1Rdata + offset).toNat)
    (h : (s.retireMemory witnesses write width r).1.status = .accepted) :
    AccessAgrees r write width offset (s.retireMemory witnesses write width r).1.dataBeats := by
  unfold retireMemory at h ⊢
  split_ifs at h with heffect
  · cases h
  rw [if_neg heffect]
  have haddress : r.memAddr = memoryAddress write r := by
    unfold memoryEffect at heffect
    simp only [Bool.not_eq_eq_eq_not, Bool.not_true, decide_eq_false_iff_not, not_not] at heffect
    exact heffect.2.1
  dsimp only at h ⊢
  split_ifs at h with hlength
  · cases h
  rw [if_neg hlength]
  split at h
  · rename_i status reason hcheck
    exact absurd h (checkBeats_ne_accepted hcheck)
  · rename_i hcheck
    rw [← haddress] at hcheck hlength ⊢
    exact accessAgrees_of_forall₂ hpos hwidth (haddress.trans hoffset)
      (forall₂_of_checkBeats (not_not.1 hlength) hcheck)

/-- The operations with a memory effect, with their direction and width. -/
def accessOf : RetiredOperation → Option (Bool × ℕ)
  | .lw => some (false, 4)
  | .sw => some (true, 4)
  | .sb => some (true, 1)
  | _ => none

theorem retireOperation_access (h : accessOf operation = some (write, width)) :
    s.retireOperation witnesses operation r = s.retireMemory witnesses write width r := by
  cases operation <;> cases h <;> rfl

/-- An operation without a memory effect is checked against its register. -/
theorem retireOperation_register (h : accessOf operation = none) :
    s.retireOperation witnesses operation r =
      if registerEffect operation r then (witnessed witnesses .accepted "matched_instruction", s)
      else (witnessed witnesses .rejected "illegal_register_effect", s) := by
  cases operation <;> first | rfl | cases h

theorem dataBeats_retireOperation (h : accessOf operation = none) :
    (s.retireOperation witnesses operation r).1.dataBeats = [] := by
  rw [retireOperation_register h]
  split
  · rfl
  · rfl

end CpuState

/-! ## The instruction of a retired word -/

section Instruction

variable {insn : ℕ}

theorem operationOf_eq (insn : ℕ) : operationOf insn = if field insn 0 7 = 0x37 then some .lui
    else if field insn 0 7 = 0x13 ∧ field insn 12 3 = 0 then some .addi
    else if field insn 0 7 = 0x13 ∧ field insn 12 3 = 4 then some .xori
    else if field insn 0 7 = 3 ∧ field insn 12 3 = 2 then some .lw
    else if field insn 0 7 = 0x23 ∧ field insn 12 3 = 2 then some .sw
    else if field insn 0 7 = 0x23 ∧ field insn 12 3 = 0 then some .sb
    else shiftOperation insn (field insn 0 7) (field insn 12 3) := by
  unfold operationOf
  dsimp only
  rw [opcode_eq, funct3_eq]

/-- The offset of an access, as its word has it. -/
def accessOffset (write : Bool) (insn : ℕ) : Rv32i.Word :=
  BitVec.ofInt 32 (Rv32i.signed 12 (if write then
    Rv32i.field insn 25 7 * 2 ^ 5 + Rv32i.field insn 7 5 else Rv32i.field insn 20 12))

/-- An access in the words of the machine. -/
def accessInstr (write : Bool) (width insn : ℕ) : Rv32i.Instr :=
  if write then .store width (Rv32i.reg insn 15) (Rv32i.reg insn 20) (accessOffset write insn)
  else .load width true (Rv32i.reg insn 7) (Rv32i.reg insn 15) (accessOffset write insn)

/-- **The address of an access is its base register and its offset.** -/
theorem memoryAddress_eq (h : r.insn < 2 ^ 32) (write : Bool) :
    memoryAddress write r = (BitVec.ofNat 32 r.rs1Rdata + accessOffset write r.insn).toNat := by
  unfold memoryAddress accessOffset
  have hfield : ∀ lo len, field r.insn lo len < 2 ^ len := fun lo len => Nat.mod_lt _ (by positivity)
  cases write with
  | false =>
    rw [loadImmediate_eq h, signedField_eq (hfield 20 12), word32_add_eq]
    rfl
  | true =>
    have hhigh := hfield 25 7
    have hlow := hfield 7 5
    rw [storeImmediate_eq h, signedField_eq (by omega), word32_add_eq]
    rfl

/-- A shift word is not an access. -/
theorem shiftOperation_register {insn opcode funct3 : ℕ}
    (h : shiftOperation insn opcode funct3 = some operation) :
    accessOf operation = none ∧ opcode = 0x13 := by
  unfold shiftOperation at h
  split at h
  · cases h
  rename_i hopcode
  have heq : opcode = 0x13 := by
    by_contra hne
    exact hopcode (.inl hne)
  refine ⟨?_, heq⟩
  split at h
  · split at h
    · cases h
      rfl
    · cases h
      rfl
  · split at h
    · cases h
      rfl
    · cases h

/-- **A word with a memory effect encodes that access, and the other words of the matcher encode
none.** -/
theorem decode_of_operationOf (h : operationOf insn = some operation) :
    (∀ write width, accessOf operation = some (write, width) →
        decode insn = some (accessInstr write width insn)) ∧
      (accessOf operation = none → ∀ i, decode insn = some i → ¬ i.IsAccess) := by
  -- the words without an effect have the opcode of `lui` or of the immediate operations
  have hregister : field insn 0 7 = 0x37 ∨ field insn 0 7 = 0x13 →
      ∀ i, decode insn = some i → ¬ i.IsAccess := by
    intro hopcode i hi
    unfold decode at hi
    dsimp only at hi
    rcases hopcode with hopcode | hopcode
    · rw [if_pos hopcode] at hi
      cases hi
      exact id
    · rw [if_neg (by omega), if_pos hopcode] at hi
      obtain ⟨alu, -, rfl⟩ := Option.map_eq_some_iff.1 hi
      exact id
  have hload : ∀ {funct3 : ℕ} {form : ℕ × Bool}, field insn 0 7 = 0x03 →
      field insn 12 3 = funct3 → loadOf funct3 = some form → form.2 = true →
      decode insn = some (accessInstr false form.1 insn) := by
    rintro funct3 ⟨width, extends_⟩ hopcode hfunct3 hform rfl
    unfold decode
    dsimp only
    rw [if_neg (by omega), if_neg (by omega), if_neg (by omega), if_pos hopcode, hfunct3, hform]
    rfl
  have hstore : ∀ {funct3 width : ℕ}, field insn 0 7 = 0x23 →
      field insn 12 3 = funct3 → storeOf funct3 = some width →
      decode insn = some (accessInstr true width insn) := by
    intro funct3 width hopcode hfunct3 hform
    unfold decode
    dsimp only
    rw [if_neg (by omega), if_neg (by omega), if_neg (by omega), if_neg (by omega), if_pos hopcode,
      hfunct3, hform]
    rfl
  rw [operationOf_eq] at h
  split_ifs at h with hlui haddi hxori hlw hsw hsb
  · cases h
    exact ⟨fun _ _ h => (nomatch h), fun _ => hregister (.inl hlui)⟩
  · cases h
    exact ⟨fun _ _ h => (nomatch h), fun _ => hregister (.inr haddi.1)⟩
  · cases h
    exact ⟨fun _ _ h => (nomatch h), fun _ => hregister (.inr hxori.1)⟩
  · cases h
    refine ⟨fun write width h => ?_, fun h => (nomatch h)⟩
    cases h
    exact hload hlw.1 hlw.2 (show loadOf 2 = some (4, true) from rfl) rfl
  · cases h
    refine ⟨fun write width h => ?_, fun h => (nomatch h)⟩
    cases h
    exact hstore hsw.1 hsw.2 rfl
  · cases h
    refine ⟨fun write width h => ?_, fun h => (nomatch h)⟩
    cases h
    exact hstore hsb.1 hsb.2 rfl
  · obtain ⟨hnone, hopcode⟩ := shiftOperation_register h
    refine ⟨fun write width h => ?_, fun _ => hregister (.inr hopcode)⟩
    rw [hnone] at h
    cases h

/-- What an access asks of its beats. -/
theorem effectAgrees_of_access
    (hdecode : decode r.insn = some (accessInstr write width r.insn))
    (h : AccessAgrees r write width (accessOffset write r.insn) beats) : EffectAgrees r beats := by
  unfold EffectAgrees
  rw [hdecode]
  cases write with
  | false | true => exact h

theorem effectAgrees_of_register (hdecode : ∀ i, decode r.insn = some i → ¬ i.IsAccess) :
    EffectAgrees r [] := by
  unfold EffectAgrees
  split
  · rename_i h
    exact absurd trivial (hdecode _ h)
  · rename_i h
    exact absurd trivial (hdecode _ h)
  · rfl

end Instruction

namespace CpuState

/-- The access of a retired operation is one of at most four bytes. -/
theorem width_of_accessOf (h : accessOf operation = some (write, width)) : 0 < width ∧ width ≤ 4 := by
  cases operation <;> cases h <;> decide

/-- **The beats of an accepted retirement are those of its instruction.** -/
theorem retire_effect {s : CpuState} (hinsn : r.insn < 2 ^ 32)
    (h : (s.retire (.fields r)).1.status = .accepted) :
    EffectAgrees r (s.retire (.fields r)).1.dataBeats := by
  obtain ⟨r', operation, witnesses, hr, -, -, -, hoperation, hretire⟩ := retire_accepted h
  cases hr
  obtain ⟨haccess, hregister⟩ := decode_of_operationOf hoperation
  rw [hretire] at h ⊢
  cases hkind : accessOf operation with
  | none =>
    rw [dataBeats_retireOperation hkind]
    exact effectAgrees_of_register (hregister hkind)
  | some access =>
    obtain ⟨write, width⟩ := access
    obtain ⟨hpos, hwidth⟩ := width_of_accessOf hkind
    rw [retireOperation_access hkind] at h ⊢
    exact effectAgrees_of_access (haccess write width hkind)
      (retireMemory_accepted hpos hwidth (memoryAddress_eq hinsn write) h)

end CpuState

end MyFuzz
