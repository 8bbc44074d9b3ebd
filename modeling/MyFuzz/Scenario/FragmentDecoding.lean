import MyFuzz.Scenario.MmioFragments

/-!
# Scenario/FragmentDecoding — decoded fragments stay in their windows

A fragment is `Confined` when it holds at most one load or store and every access it makes, from any
register file, is aligned and inside a window that permits it.  Arithmetic is confined because it
accesses nothing, an access fragment because of its address, and a constant in front changes neither.
-/

namespace MyFuzz

open Outcome Rv32i Rv32iInstruction List

/-- An access is aligned and inside one window that permits its direction and width. -/
def InWindow (windows : List MmioWindow) : Rv32i.Access → Prop
  | .load width address => address.toNat % width = 0 ∧ ∃ window ∈ windows,
      window.Contains address.toNat width ∧ window.readable = true
  | .store width address _ => address.toNat % width = 0 ∧ ∃ window ∈ windows,
      window.Contains address.toNat width ∧ window.writable = true ∧ width ∈ window.writeWidths

/-- The instruction is a load or a store. -/
def Rv32iInstruction.IsMemory (i : Rv32iInstruction) : Prop := i.operation ∈ Operation.memory

instance (i : Rv32iInstruction) : Decidable i.IsMemory := inferInstanceAs (Decidable (_ ∈ _))

theorem isAccess_meaning (i : Rv32iInstruction) : i.meaning.IsAccess ↔ i.IsMemory := by
  unfold Rv32iInstruction.IsMemory meaning
  cases i.operation <;> simp only [Instr.IsAccess] <;> decide

/-- A nonempty fragment with at most one access, which stays in the windows. -/
structure Confined (windows : List MmioWindow) (fragment : List Rv32iInstruction) : Prop where
  ne_nil : fragment ≠ []
  count_le : fragment.countP (fun i => i.IsMemory) ≤ 1
  inWindow : ∀ (device : List Rv32i.Access → Word) (m : Machine), m.trace = [] →
    ∀ access ∈ (run device (fragment.map Rv32iInstruction.meaning) m).trace, InWindow windows access

variable {operation : Operation} {immediate rd register : ℤ} {windows : List MmioWindow}
  {entropy : List UInt8}

section Confined

variable {windows : List MmioWindow} {fragment quiet : List Rv32iInstruction}

theorem trace_quiet (h : ∀ i ∈ quiet, ¬ i.IsMemory) (device : List Rv32i.Access → Word) (m : Machine) :
    (run device (quiet.map meaning) m).trace = m.trace := by
  refine trace_run device (fun i hi => ?_) m
  obtain ⟨j, hj, rfl⟩ := mem_map.1 hi
  exact mt (isAccess_meaning j).1 (h j hj)

theorem countP_quiet (h : ∀ i ∈ quiet, ¬ i.IsMemory) : quiet.countP (fun i => i.IsMemory) = 0 :=
  countP_eq_zero.2 fun i hi => by simpa using h i hi

/-- Arithmetic is confined. -/
theorem confined_of_quiet (hne : quiet ≠ []) (h : ∀ i ∈ quiet, ¬ i.IsMemory) : Confined windows quiet where
  ne_nil := hne
  count_le := (countP_quiet h).le.trans zero_le_one
  inWindow := fun device m hm access haccess => by
    rw [trace_quiet h, hm] at haccess
    cases haccess

/-- Arithmetic in front of a confined fragment. -/
theorem Confined.append (hf : Confined windows fragment) (h : ∀ i ∈ quiet, ¬ i.IsMemory) :
    Confined windows (quiet ++ fragment) where
  ne_nil := append_ne_nil_of_right_ne_nil _ hf.ne_nil
  count_le := by
    rw [countP_append, countP_quiet h, Nat.zero_add]
    exact hf.count_le
  inWindow := fun device m hm access haccess => by
    rw [map_append, run_append] at haccess
    exact hf.inWindow device _ ((trace_quiet h device m).trans hm) access haccess

variable {address : ℤ}

/-- The access of a declared address. -/
theorem inWindow_access {base data : Reg} {m : Machine} (hrange : 0 ≤ address ∧ address < 2 ^ 32)
    (haligned : address % accessWidth operation = 0) (hd : Declared operation address windows)
    (hm : m.trace = []) (hbase : HoldsUpper m base address) (device : List Rv32i.Access → Word) :
    ∀ access ∈ (step device (accessMeaning operation base data address) m).trace,
      InWindow windows access := by
  obtain ⟨window, hw, hc, hp, hwidth⟩ := hd
  have haddress : ((BitVec.ofInt 32 address).toNat : ℤ) = address := by
    rw [BitVec.toNat_ofInt, Int.toNat_of_nonneg (Int.emod_nonneg _ (by positivity))]
    exact Int.emod_eq_of_lt hrange.1 (by exact_mod_cast hrange.2)
  have hmod : (BitVec.ofInt 32 address).toNat % accessWidth operation = 0 := by
    rw [← haddress] at haligned
    exact_mod_cast haligned
  rw [← haddress] at hc
  unfold accessMeaning
  intro access haccess
  by_cases hlw : operation = .lw
  · subst hlw
    rw [if_pos rfl, step, Machine.trace_set, Machine.trace_record, hm, hbase.add] at haccess
    obtain rfl := mem_singleton.1 haccess
    exact ⟨hmod, window, hw, hc, hp⟩
  · rw [if_neg hlw, step, Machine.trace_record, hm, hbase.add] at haccess
    obtain rfl := mem_singleton.1 haccess
    rw [MmioWindow.Permits, if_neg hlw] at hp
    exact ⟨hmod, window, hw, hc, hp, hwidth hlw⟩

/-- **A returned access fragment is confined.** -/
theorem confined_access {baseRegister dataRegister : ℤ}
    (h : mmioAccessFragment operation address windows baseRegister dataRegister = .ok fragment) :
    Confined windows fragment := by
  obtain ⟨⟨hrange, haligned, hd⟩, base, data, upper, access, rfl, hr, hupper, haccess⟩ :=
    mmioAccessFragment_spec h
  have hquiet : ¬ upper.IsMemory := by
    rw [← isAccess_meaning, hupper]
    exact id
  refine ⟨cons_ne_nil _ _, ?_, fun device m hm => ?_⟩
  · rw [countP_cons_of_neg (by simpa using hquiet)]
    exact countP_le_length
  · rw [map_cons, map_cons, map_nil, run_cons, run_cons, run_nil, hupper, haccess]
    refine inWindow_access hrange haligned hd ?_ ?_ device
    · exact hm
    · exact Machine.get_set_self m hr.base_ne _

end Confined

/-! ## Decoded arithmetic -/

/-- A computation that returns a nonempty fragment of arithmetic. -/
def Quiet (x : Except Exn (List Rv32iInstruction)) : Prop :=
  ∃ fragment, x = .ok fragment ∧ fragment ≠ [] ∧ ∀ i ∈ fragment, ¬ i.IsMemory

/-- Arithmetic on operands that fit is built. -/
theorem exists_arithmetic (operation : Operation) {rs1 : ℤ} (hop : operation ∉ Operation.memory)
    (hrd : 0 ≤ rd ∧ rd < 32) (hrs1 : 0 ≤ rs1 ∧ rs1 < 32) (h : operation.Operands rd rs1 0 immediate) :
    ∃ i, new operation rd rs1 0 immediate = .ok i ∧ ¬ i.IsMemory := by
  obtain ⟨i, hi⟩ := exists_new hrd hrs1 (by decide) h
  refine ⟨i, hi, ?_⟩
  rw [Rv32iInstruction.IsMemory, (new_eq_ok hi).1]
  exact hop

/-- The upper half of a constant is built. -/
theorem exists_lui (hrd : 0 ≤ rd ∧ rd < 32) (himm : 0 ≤ immediate ∧ immediate < 2 ^ 20) :
    ∃ i, new .lui rd 0 0 immediate = .ok i ∧ ¬ i.IsMemory :=
  exists_arithmetic .lui (by decide) hrd (by decide) ⟨himm, rfl, rfl⟩

theorem and_fffff (value : ℕ) : (0 : ℤ) ≤ (value &&& 0xfffff : ℕ) ∧
    ((value &&& 0xfffff : ℕ) : ℤ) < 2 ^ 20 := by
  have hlt : value &&& 0xfffff < 2 ^ 20 := Nat.and_lt_two_pow _ (by decide)
  omega

theorem and_31 (value : ℕ) : (0 : ℤ) ≤ (value &&& 31 : ℕ) ∧ ((value &&& 31 : ℕ) : ℤ) < 32 := by
  have hlt : value &&& 31 < 2 ^ 5 := Nat.and_lt_two_pow _ (by decide)
  omega

theorem signExtend12_bounds (value : ℕ) :
    -2 ^ 11 ≤ signExtend12 (value &&& 0xfff) ∧ signExtend12 (value &&& 0xfff) < 2 ^ 11 := by
  have hlt : value &&& 0xfff < 2 ^ 12 := Nat.and_lt_two_pow _ (by decide)
  have hbit : (value &&& 0xfff) &&& 0x800 ≠ 0 ↔ 2 ^ 11 ≤ value &&& 0xfff := by
    rw [show 0x800 = 2 ^ 11 from rfl, Nat.and_two_pow, Nat.testBit_eq_decide_div_mod_eq]
    by_cases hhigh : (value &&& 0xfff) / 2 ^ 11 % 2 = 1
    · simp only [hhigh, decide_true, Bool.toNat_true]
      omega
    · simp only [hhigh, decide_false, Bool.toNat_false]
      omega
  unfold signExtend12
  split_ifs with h
  · rw [hbit] at h
    omega
  · rw [hbit] at h
    omega

theorem quiet_decodeEdit (raw : List UInt8) (edit : ℕ) (hr : 0 ≤ register ∧ register < 32)
    (himm : -2 ^ 11 ≤ immediate ∧ immediate < 2 ^ 11) :
    Quiet (decodeEdit raw register immediate edit) := by
  obtain ⟨upper, hupper, hu⟩ := exists_lui hr (and_fffff (Bytes.readLe ((raw.drop 7).take 4)))
  obtain ⟨lower, hlower, hl⟩ := exists_arithmetic .addi (by decide) hr hr ⟨himm, rfl⟩
  obtain ⟨flip, hflip, hf⟩ := exists_arithmetic .xori (by decide) hr hr
    ⟨signExtend12_bounds (Bytes.readLe ((raw.drop 4).take 2)), rfl⟩
  unfold decodeEdit
  rw [hupper, ok_bind, hlower, ok_bind]
  split_ifs
  · exact ⟨[upper], rfl, cons_ne_nil _ _, by simpa using hu⟩
  · rw [hflip, ok_bind]
    exact ⟨[upper, flip, lower], rfl, cons_ne_nil _ _, by simpa using ⟨hu, hf, hl⟩⟩
  · exact ⟨[upper, lower], rfl, cons_ne_nil _ _, by simpa using ⟨hu, hl⟩⟩

theorem quiet_bind_single {x : Except Exn Rv32iInstruction}
    (h : ∃ i, x = .ok i ∧ ¬ i.IsMemory) : Quiet (x >>= fun i => pure [i]) := by
  obtain ⟨i, rfl, hi⟩ := h
  exact ⟨[i], rfl, cons_ne_nil _ _, by simpa using hi⟩

theorem quiet_decodeArithmetic (raw : List UInt8) (hr : 0 ≤ register ∧ register < 32) :
    Quiet (decodeArithmetic raw register) := by
  have himm := signExtend12_bounds (Bytes.readLe ((raw.drop 2).take 2))
  have hrs1 := and_31 (raw.getD 4 0).toNat
  unfold decodeArithmetic
  dsimp only
  split_ifs
  · exact quiet_decodeEdit raw _ hr himm
  all_goals
    refine quiet_bind_single (exists_arithmetic _ (by decide) hr hrs1 ?_)
  · exact ⟨⟨by omega, by omega⟩, rfl⟩
  · exact ⟨⟨by omega, by omega⟩, rfl⟩
  · exact ⟨⟨by omega, by omega⟩, rfl⟩
  all_goals exact ⟨himm, rfl⟩

theorem quiet_decodeConstant (raw : List UInt8) : Quiet (decodeConstant raw) := by
  have hr : (0 : ℤ) ≤ 2 ∧ (2 : ℤ) < 32 := by decide
  obtain ⟨upper, hupper, hu⟩ := exists_lui hr (splitAddress_high (Bytes.readLe ((raw.drop 8).take 4)))
  obtain ⟨lower, hlower, hl⟩ := exists_arithmetic .addi (by decide) hr hr
    ⟨splitAddress_low (Bytes.readLe ((raw.drop 8).take 4)), rfl⟩
  refine ⟨[upper, lower], ?_, cons_ne_nil _ _, by simpa using ⟨hu, hl⟩⟩
  exact bind_ok.2 ⟨upper, hupper, bind_ok.2 ⟨lower, hlower, rfl⟩⟩

/-! ## Decoded fragments -/

/-- What a choice decodes to: a confined fragment, unless a window was to be selected and none
could be. -/
def Decodes (windows : List MmioWindow) (selected : Option (Except Exn MmioWindow))
    (x : Except Exn (List Rv32iInstruction)) : Prop :=
  (∃ fragment, x = .ok fragment ∧ Confined windows fragment) ∨ ∃ e, selected = some (.error e) ∧ x = .error e

theorem Quiet.decodes {selected : Option (Except Exn MmioWindow)}
    {x : Except Exn (List Rv32iInstruction)} (h : Quiet x) : Decodes windows selected x := by
  obtain ⟨fragment, rfl, hne, hquiet⟩ := h
  exact .inl ⟨fragment, rfl, confined_of_quiet hne hquiet⟩

/-- **Once a window is selected its access decodes, in front of it the constant of a store.** -/
theorem decodes_decodeAccess (raw : List UInt8) (windows : List MmioWindow) (operation : Operation) :
    Decodes windows (some (selectWindow operation ((raw.drop 1).take 4) windows))
      (decodeAccess raw windows operation) := by
  unfold decodeAccess mutateMmioAccess
  cases hselect : selectWindow operation ((raw.drop 1).take 4) windows with
  | error e => exact .inr ⟨e, rfl, rfl⟩
  | ok window =>
    have hb : (0 : ℤ) < 1 ∧ (1 : ℤ) < 32 := by decide
    have hd : (0 : ℤ) < 2 ∧ (2 : ℤ) < 32 := by decide
    obtain ⟨access, haccess⟩ := exists_mutateMmioAccess hb hd (by decide) hselect
    have hconfined := confined_access haccess
    rw [ok_bind, haccess, ok_bind]
    refine .inl ?_
    split_ifs
    · exact ⟨access, rfl, hconfined⟩
    · obtain ⟨constant, hconstant, -, hquiet⟩ := quiet_decodeConstant raw
      rw [hconstant, ok_bind]
      exact ⟨constant ++ access, rfl, hconfined.append hquiet⟩

/-- The allowed operations are a nonempty choice of memory operations. -/
def AllowedOperations (allowed : List Operation) : Prop :=
  allowed ≠ [] ∧ (∀ operation ∈ allowed, operation ∈ Operation.memory) ∧ allowed.Nodup

/-- The selection of a window, when the entropy chooses an access. -/
def selectedWindow (entropy : List UInt8) (windows : List MmioWindow) (allowed : List Operation) :
    Option (Except Exn MmioWindow) :=
  let raw := rawEntropy entropy
  let choice := fragmentChoice raw windows allowed
  if choice < 3 then none
  else some (selectWindow (allowed.getD (choice - 3) .lw) ((raw.drop 1).take 4) windows)

theorem decodes_fragment (windows : List MmioWindow) {allowed : List Operation}
    (hentropy : entropy ≠ []) (hallowed : AllowedOperations allowed) :
    Decodes windows (selectedWindow entropy windows allowed)
      (decodeInstructionFragment entropy windows allowed) := by
  have hr : 0 ≤ 1 + ((rawEntropy entropy).getD 1 0).toNat % 31 ∧
      1 + ((rawEntropy entropy).getD 1 0).toNat % 31 < 32 := by omega
  unfold AllowedOperations at hallowed
  unfold decodeInstructionFragment
  rw [ensure_of hentropy, ok_bind, ensure_of hallowed, ok_bind]
  dsimp only
  split_ifs with hnop hlui harithmetic
  · exact (quiet_bind_single (exists_arithmetic .nop (by decide) (by decide) (by decide)
      ⟨rfl, rfl, rfl, rfl⟩)).decodes
  · exact (quiet_bind_single (exists_lui (by exact_mod_cast hr) (and_fffff _))).decodes
  · exact (quiet_decodeArithmetic _ (by exact_mod_cast hr)).decodes
  · unfold selectedWindow
    dsimp only
    rw [if_neg (by omega)]
    exact decodes_decodeAccess _ _ _

/-- The refusals of a selection name a code, a message and a field. -/
theorem selectWindow_error {e : Exn} (h : selectWindow operation entropy windows = .error e) :
    ∃ code message pointer, e = reject code message pointer := by
  rcases ensure_bind_eq_error.1 h with ⟨-, rfl⟩ | ⟨-, h⟩
  · exact ⟨_, _, _, rfl⟩
  rcases ensure_bind_eq_error.1 h with ⟨-, rfl⟩ | ⟨-, h⟩
  · exact ⟨_, _, _, rfl⟩
  rcases ensure_bind_eq_error.1 h with ⟨-, rfl⟩ | ⟨-, h⟩
  · exact ⟨_, _, _, rfl⟩
  rcases ensure_bind_eq_error.1 h with ⟨-, rfl⟩ | ⟨-, h⟩
  · exact ⟨_, _, _, rfl⟩
  rcases ensure_bind_eq_error.1 h with ⟨-, rfl⟩ | ⟨-, h⟩
  · exact ⟨_, _, _, rfl⟩
  dsimp only at h
  split at h
  · exact ⟨_, _, _, (Except.error.inj h).symm⟩
  · cases h

/-- **Decoded fragments are legal and stay in the declared windows.** A fragment that is returned passes the
check, holds at most one load or store, and from any registers accesses only aligned addresses inside a
window that permits it. With good arguments only the selection of a window refuses. -/
theorem decoded_fragment_in_window (entropy : List UInt8) (windows : List MmioWindow)
    (allowed : List Operation) :
    (∀ e, decodeInstructionFragment entropy windows allowed = .error e →
      ∃ code message pointer, e = reject code message pointer) ∧
    (∀ fragment, decodeInstructionFragment entropy windows allowed = .ok fragment →
      ∃ data, fragmentBytes fragment = .ok data ∧ validateInstructionBytes data none = .ok () ∧
        fragment.countP (fun i => i.IsMemory) ≤ 1 ∧ ∀ (device : List Rv32i.Access → Word) (regs : Reg → Word),
          ∃ m, exec device (Bytes.words data) ⟨regs, []⟩ = some m ∧
            ∀ access ∈ m.trace, InWindow windows access) ∧
    (entropy ≠ [] → AllowedOperations allowed →
      ∀ e, decodeInstructionFragment entropy windows allowed = .error e →
        selectedWindow entropy windows allowed = some (.error e)) := by
  have hselected : entropy ≠ [] → AllowedOperations allowed →
      ∀ e, decodeInstructionFragment entropy windows allowed = .error e →
        selectedWindow entropy windows allowed = some (.error e) := fun hentropy hallowed e h => by
    rcases decodes_fragment windows hentropy hallowed with
      ⟨fragment, hfragment, -⟩ | ⟨e', hselected, he⟩
    · cases h.symm.trans hfragment
    · cases h.symm.trans he
      exact hselected
  refine ⟨fun e h => ?_, fun fragment h => ?_, hselected⟩
  · have hraised := h
    rcases ensure_bind_eq_error.mp h with ⟨-, rfl⟩ | ⟨hentropy, h⟩
    · exact ⟨_, _, _, rfl⟩
    rcases ensure_bind_eq_error.mp h with ⟨-, rfl⟩ | ⟨hallowed, h⟩
    · exact ⟨_, _, _, rfl⟩
    have herror := hselected hentropy hallowed e hraised
    unfold selectedWindow at herror
    dsimp only at herror
    split_ifs at herror
    exact selectWindow_error (Option.some.inj herror)
  · obtain ⟨hentropy, h'⟩ := ensure_ok.mp h
    obtain ⟨hallowed, -⟩ := ensure_ok.mp h'
    rcases decodes_fragment windows hentropy hallowed with
      ⟨fragment', hfragment, hconfined⟩ | ⟨e, -, he⟩
    · cases h.symm.trans hfragment
      obtain ⟨data, hdata⟩ : ∃ data, fragmentBytes fragment = .ok data :=
        ⟨_, ensure_ok.mpr ⟨hconfined.ne_nil, rfl⟩⟩
      obtain ⟨hvalid, hwords⟩ := Rv32iInstruction.validate_fragmentBytes hdata
      refine ⟨data, hdata, hvalid, hconfined.count_le, fun device regs => ?_⟩
      rw [hwords, Rv32iInstruction.exec_words]
      exact ⟨_, rfl, hconfined.inWindow device _ rfl⟩
    · cases h.symm.trans he

end MyFuzz
