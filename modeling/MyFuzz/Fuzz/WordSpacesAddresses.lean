import MyFuzz.Fuzz.WordSpaces
import Mathlib.Data.Nat.Size

/-!
# Fuzz/WordSpacesAddresses — declared words and addresses

The words that are drawn are under their mask, and the addresses of the flows are declared ones:

    randomWord, differentWord ──▸ under the mask
    readable, writable rows   ──▸ 32-bit registers inside their targets
    data window               ──▸ words inside the RAM

The window is clipped above and not below: its addresses are at its base or behind it.
-/

namespace MyFuzz

namespace WordSpaces

open Outcome Draw Returns List

/-! ## Masks -/

/-- A mask of low bits, at most 32 of them. -/
def IsMask (mask : ℕ) : Prop := ∃ width ≤ 32, mask = 2 ^ width - 1

theorem isMask_mask32 : IsMask mask32 := ⟨32, le_rfl, rfl⟩

variable {mask : ℕ}

theorem land_eq {width : ℕ} (hwidth : width ≤ 32) (value : ℤ) :
    (land (2 ^ width - 1) value : ℤ) = value % 2 ^ width := by
  have hnonneg : 0 ≤ value % 2 ^ 32 := Int.emod_nonneg _ (by norm_num)
  have hdvd : (2 : ℤ) ^ width ∣ 2 ^ 32 := pow_dvd_pow 2 hwidth
  unfold land
  rw [Nat.and_two_pow_sub_one_eq_mod, Int.natCast_mod, Int.toNat_of_nonneg hnonneg, Int.natCast_pow,
    Nat.cast_ofNat, Int.emod_emod_of_dvd _ hdvd]

theorem land_le (mask : ℕ) (value : ℤ) : land mask value ≤ mask := Nat.and_le_right

theorem land_of_le (hmask : IsMask mask) {value : ℕ} (h : value ≤ mask) : land mask value = value := by
  obtain ⟨width, hwidth, rfl⟩ := hmask
  have hpos := Nat.two_pow_pos width
  have hcast := land_eq hwidth (value : ℤ)
  have hmod : (value : ℤ) % 2 ^ width = value := by
    exact_mod_cast congrArg (Nat.cast (R := ℤ)) (Nat.mod_eq_of_lt (a := value) (b := 2 ^ width) (by omega))
  exact_mod_cast hcast.trans hmod

theorem le_mask32 (hmask : IsMask mask) : mask ≤ mask32 := by
  obtain ⟨width, hwidth, rfl⟩ := hmask
  exact Nat.sub_le_sub_right (Nat.pow_le_pow_right (by decide) hwidth) 1

/-! ## Words -/

theorem poolWord_returns : Returns poolWord fun v => v < 2 ^ 32 := by
  refine (Returns.randrange (by norm_num)).bind fun pick _ => ?_
  cases hpool : interesting[pick.toNat]? with
  | none => exact Returns.getrandbits 32
  | some word =>
    refine Returns.pure ?_
    have hmem := mem_of_getElem? hpool
    unfold interesting at hmem
    simp only [mem_cons, not_mem_nil, or_false] at hmem
    omega

theorem randomWord_returns (mask : ℕ) : Returns (randomWord mask) fun v => v ≤ mask := by
  unfold randomWord
  split_ifs with hzero
  · exact Returns.pure (Nat.zero_le _)
  · refine (Returns.chance 2 5).bind fun pooled _ => ?_
    refine Returns.bind (P := fun _ => True) ?_ fun v _ => Returns.pure (land_le _ _)
    cases pooled with
    | true => exact poolWord_returns.mono fun _ _ => trivial
    | false => exact (Returns.getrandbits 32).mono fun _ _ => trivial

variable {old : ℕ}

theorem proposedWord_returns (h : mask ≠ 0) : Returns (proposedWord old mask) fun _ => True := by
  refine (Returns.randrange (by norm_num)).bind fun strategy _ => ?_
  split_ifs
  · have hsize : 0 < Nat.size mask := Nat.size_pos.2 (Nat.pos_of_ne_zero h)
    exact (Returns.randrange (by exact_mod_cast hsize)).bind fun bit _ => Returns.pure trivial
  · refine (Returns.choice (by decide) fun _ _ => trivial).bind fun delta _ => ?_
    exact (Returns.choice (P := fun _ => True) (by decide) fun _ _ => trivial).bind fun _ _ =>
      Returns.pure trivial
  · exact poolWord_returns.bind fun _ _ => Returns.pure trivial

/-- **Another word is found**, by a proposal or behind them. -/
theorem anotherWord_returns (hmask : IsMask mask) (hne : mask ≠ 0) (hold : old ≤ mask) (tries : ℕ) :
    Returns (anotherWord old mask tries) fun v => v ≤ mask ∧ v ≠ old := by
  induction tries with
  | zero =>
    refine pure ⟨land_le _ _, fun heq => ?_⟩
    obtain ⟨width, hwidth, rfl⟩ := hmask
    have hcast := land_eq hwidth ((old : ℤ) + 1)
    have hpow : 2 ≤ 2 ^ width := by
      have := Nat.two_pow_pos width
      omega
    rw [heq] at hcast
    by_cases htop : old + 1 = 2 ^ width
    · have htop' : (old : ℤ) + 1 = 2 ^ width := by exact_mod_cast htop
      rw [htop', Int.emod_self] at hcast
      omega
    · have hlt : old + 1 < 2 ^ width := by omega
      have hlt' : (old : ℤ) + 1 < 2 ^ width := by exact_mod_cast hlt
      rw [Int.emod_eq_of_lt (by omega) hlt'] at hcast
      omega
  | succ tries ih =>
    refine (proposedWord_returns hne).bind fun candidate _ => ?_
    dsimp only
    split_ifs with hcandidate
    · exact pure ⟨land_le _ _, hcandidate⟩
    · exact ih

/-- **A different word** is under the mask, and differs wherever the mask has two words. -/
theorem differentWord_returns (hmask : IsMask mask) (old : ℤ) :
    Returns (differentWord old mask) fun v => v ≤ mask ∧ (mask ≠ 0 → (v : ℤ) ≠ old) := by
  unfold differentWord
  split_ifs with hzero
  · exact pure ⟨Nat.zero_le _, fun hne => absurd hzero hne⟩
  · refine (anotherWord_returns hmask hzero (land_le mask old) 8).mono fun v hv =>
      ⟨hv.1, fun _ heq => hv.2 ?_⟩
    rw [← heq, land_of_le hmask hv.1]

theorem otherAddress_returns (addresses : List ℤ) (current : ℤ) :
    Returns (otherAddress addresses current) fun r => match r with
      | some other => other ∈ addresses ∧ other ≠ current
      | none => ∀ a ∈ addresses, a = current := by
  unfold otherAddress
  dsimp only
  split_ifs with hnone
  · refine pure fun a ha => ?_
    by_contra hne
    have hmem : a ∈ addresses.filter (· ≠ current) := mem_filter.2 ⟨ha, by simpa using hne⟩
    rw [hnone] at hmem
    cases hmem
  · refine (choice hnone fun a ha => ha).bind fun a ha => pure ?_
    exact ⟨(mem_filter.1 ha).1, by simpa using (mem_filter.1 ha).2⟩

namespace WordSpace

variable (space : WordSpace)

/-! ## Declared addresses -/

/-- A declared 32-bit register with the access, inside its target. -/
def DeclaredRegister (access : List String) (address : ℤ) : Prop :=
  ∃ target ∈ space.targetRows, ∃ row ∈ target.registers, row.width = .int 32 ∧
    (∃ text, row.access = some text ∧ space.casing.lower text ∈ access) ∧
    ∃ offset, row.offset = .int offset ∧ InsideTarget offset target.base target.size ∧
      address = target.base + offset

/-- A word of the data window inside the RAM. -/
def DataWord (address : ℤ) : Prop :=
  ∃ k : ℕ, address = space.dataBase + 4 * k ∧ (k : ℤ) < space.programDataWords ∧
    space.ramBase ≤ address ∧ address + 4 ≤ space.ramBase + space.ramSize

variable {space} {address : ℤ} {access : List String}

theorem aligned_of_insideTarget {offset base size : ℤ} (h : InsideTarget offset base size) :
    (base + offset) % 4 = 0 ∧ 0 ≤ base + offset ∧ base + offset ≤ mask32 := by
  obtain ⟨hbase, hoffset, hnonneg, hle⟩ := h
  exact ⟨by omega, hnonneg, hle⟩

variable {row : Register}

/-- A row that is kept was there, or is the row that is added. -/
theorem mem_addRow {rows : List Register} {kept : Register} (h : kept ∈ addRow access rows row) :
    kept ∈ rows ∨ kept = row ∧ row.width = 32 ∧ row.access ∈ access := by
  unfold addRow at h
  split_ifs at h with hskip hseen
  · exact .inl h
  · exact .inl h
  · rcases mem_append.1 h with h | h
    · exact .inl h
    · rw [not_or, not_not, not_not] at hskip
      exact .inr ⟨mem_singleton.1 h, hskip⟩

theorem mem_foldl_addRow : ∀ {l kept : List Register}, row ∈ l.foldl (addRow access) kept →
    row ∈ kept ∨ row ∈ l ∧ row.width = 32 ∧ row.access ∈ access := by
  intro l
  induction l with
  | nil => exact fun h => .inl h
  | cons head l ih =>
    intro kept h
    rcases ih h with h | ⟨h, hrow⟩
    · rcases mem_addRow h with h | ⟨rfl, hrow⟩
      · exact .inl h
      · exact .inr ⟨.head _, hrow⟩
    · exact .inr ⟨.tail _ h, hrow⟩

/-- What a register row says about its target. -/
theorem readRegister_eq_some {target : Target} {item : RegisterRow}
    (h : space.readRegister target item = some row) :
    ∃ offset width text, item.offset = .int offset ∧ item.width = .int width ∧ item.access = some text ∧
      InsideTarget offset target.base target.size ∧
      row = ⟨offset, target.base + offset, item.name.getD "", width, space.casing.lower text⟩ := by
  unfold readRegister at h
  split at h
  · rename_i offset width text hoffset hwidth htext
    split_ifs at h with hinside
    exact ⟨offset, width, text, hoffset, hwidth, htext, hinside, (Option.some.inj h).symm⟩
  · cases h

/-- **The rows for an access are declared registers.** -/
theorem declaredRegister_of_mem (h : address ∈ (space.rowsForAccess access).map Register.address) :
    space.DeclaredRegister access address := by
  obtain ⟨row, hrow, rfl⟩ := mem_map.1 h
  rcases mem_foldl_addRow hrow with hnil | ⟨hrow, hwidth, haccess⟩
  · cases hnil
  obtain ⟨target, htarget, hrow⟩ := mem_flatMap.1 hrow
  obtain ⟨item, hitem, hread⟩ := mem_filterMap.1 hrow
  obtain ⟨offset, width, text, hoffset, hitemWidth, htext, hinside, rfl⟩ := readRegister_eq_some hread
  subst hwidth
  exact ⟨target, htarget, item, hitem, hitemWidth, ⟨text, htext, haccess⟩, offset, hoffset, hinside, rfl⟩

theorem DeclaredRegister.aligned (h : space.DeclaredRegister access address) :
    address % 4 = 0 ∧ 0 ≤ address ∧ address ≤ mask32 := by
  obtain ⟨target, -, row, -, -, -, offset, -, hinside, rfl⟩ := h
  exact aligned_of_insideTarget hinside

/-- **PADIN is aligned.** -/
theorem padin_aligned (h : space.padinAddress = some address) :
    address % 4 = 0 ∧ 0 ≤ address ∧ address ≤ mask32 := by
  obtain ⟨pin, hpin, rfl⟩ := Option.map_eq_some_iff.1 h
  unfold pinDeclaration at hpin
  split at hpin
  · cases hpin
  split at hpin
  · cases hpin
  split_ifs at hpin with hinside
  cases hpin
  exact aligned_of_insideTarget hinside

/-- The addresses of the data window, above zero or not. -/
theorem dataWord_of_mem (h : address ∈ space.ramAddresses) :
    space.DataWord address ∧ address % 4 = 0 ∧ address ≤ mask32 ∧ space.dataBase ≤ address := by
  unfold ramAddresses at h
  dsimp only at h
  split_ifs at h with hempty hshort
  · cases h
  · cases h
  · obtain ⟨hmem, hle⟩ := mem_filter.1 h
    obtain ⟨k, hk, rfl⟩ := mem_map.1 hmem
    rw [mem_range] at hk
    rw [decide_eq_true_eq] at hle
    refine ⟨⟨k, rfl, ?_, ?_, ?_⟩, ?_, hle, ?_⟩ <;> omega

/-- **A window starts with its base.** -/
theorem dataBase_mem (h : space.ramAddresses ≠ []) : space.dataBase ∈ space.ramAddresses := by
  obtain ⟨address, haddress⟩ := exists_mem_of_ne_nil _ h
  unfold ramAddresses at haddress ⊢
  dsimp only at haddress ⊢
  split_ifs at haddress ⊢ with hempty hshort
  · cases haddress
  · cases haddress
  · obtain ⟨hmem, hle⟩ := mem_filter.1 haddress
    obtain ⟨k, hk, rfl⟩ := mem_map.1 hmem
    rw [mem_range] at hk
    rw [decide_eq_true_eq] at hle
    refine mem_filter.2 ⟨mem_map.2 ⟨0, mem_range.2 (by omega), by simp⟩, ?_⟩
    rw [decide_eq_true_eq]
    omega

theorem mem_f2Addresses : address ∈ space.f2Addresses ↔ address ∈ space.readableAddresses ∨
    space.padinAddress = some address ∨ address ∈ space.ramAddresses := by
  unfold f2Addresses
  rw [Sequence.mem_foldl_addNew]
  cases hpadin : space.padinAddress with
  | none => simp
  | some padin =>
    rw [Sequence.mem_addNew, Option.some.injEq, or_assoc, eq_comm (a := padin)]

/-- **The pin mask keeps low bits.** -/
theorem isMask_pinMask (space : WordSpace) : IsMask space.pinMask := by
  unfold pinMask
  split_ifs with hwidth
  · exact ⟨space.pinWidth, hwidth.le, by rw [Nat.one_shiftLeft]⟩
  · exact isMask_mask32

theorem isMask_maskFor (space : WordSpace) (address : ℤ) : IsMask (space.maskFor address) := by
  unfold maskFor
  split
  · exact isMask_mask32
  · split_ifs
    · exact isMask_pinMask space
    · exact isMask_mask32

end WordSpace

end WordSpaces

end MyFuzz
