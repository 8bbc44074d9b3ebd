import MyFuzz.Fuzz.F1Rv64Words

/-!
# Fuzz/F1Rv64Portable — one expectation for every machine

An accepted record runs on any RV64I machine whose data-window base and data window are the declared ones,
and the machine retires what the expectation says:

    execute ── registers that were written, x18, doublewords of the window ──▸ machine

Nothing else of the machine matters: a register is read only after the record wrote it, and a load or a
store stays inside the window.
-/

namespace MyFuzz

namespace F1Rv64

open Outcome Rv64i Dict
open Rv32i (Reg)
open Rv64i (Instr Machine readBytes writeBytes)

open List hiding next getD

/-! ## Windows in memory -/

/-- The words of a window, in memory. -/
def HoldsWindow (memory : Rv64i.Memory) (dataBase : ℕ) (window : List ℕ) : Prop :=
  ∀ i w, window[i]? = some w → readBytes memory (BitVec.ofNat 64 (dataBase + 4 * i)) 4 = w

/-- **Some machine holds the window.** -/
theorem exists_machine (pc : Rv64i.Word) {dataBase : ℕ} {window : List ℕ} (hwords : ∀ w ∈ window, w < 2 ^ 32)
    (hfits : dataBase + 4 * window.length ≤ 2 ^ 64) :
    ∃ m : Machine, m.pc = pc ∧ m.x 18 = BitVec.ofNat 64 dataBase ∧ HoldsWindow m.memory dataBase window := by
  refine ⟨⟨pc, fun _ => BitVec.ofNat 64 dataBase, fun a => BitVec.ofNat 8
    (window.getD ((a.toNat - dataBase) / 4) 0 / 256 ^ ((a.toNat - dataBase) % 4))⟩, rfl, rfl,
    fun i w hw => ?_⟩
  obtain ⟨hi, rfl⟩ := List.getElem?_eq_some_iff.1 hw
  have hlt := hwords _ (List.getElem_mem hi)
  rw [readBytes_of_bytes window[i] fun j hj => ?_]
  · exact Nat.mod_eq_of_lt hlt
  · have haddress : (BitVec.ofNat 64 (dataBase + 4 * i) + BitVec.ofNat 64 j).toNat =
      dataBase + (4 * i + j) := by
      rw [← BitVec.ofNat_add, BitVec.toNat_ofNat]
      omega
    dsimp only
    rw [haddress, Nat.add_sub_cancel_left, show (4 * i + j) / 4 = i by omega,
      show (4 * i + j) % 4 = j by omega, List.getD_eq_getElem _ _ hi, BitVec.toNat_ofNat]

/-! ## The declared data -/

/-- A doubleword of the window. -/
theorem get?_windowMemory {window : List ℤ} {dataBase a v : ℕ} :
    (windowMemory window dataBase).get? a = some v ↔ ∃ k, 2 * k + 1 < window.length ∧
      a = dataBase + 8 * k ∧ v = mask32 (window.getD (2 * k) 0) +
        2 ^ 32 * mask32 (window.getD (2 * k + 1) 0) := by
  have hupdate : windowMemory window dataBase = empty.update
      ((List.range (window.length / 2)).map fun k => (dataBase + 4 * (2 * k),
        u64 (mask32 (window.getD (2 * k) 0) ||| mask32 (window.getD (2 * k + 1) 0) <<< 32 : ℕ))) := by
    unfold windowMemory update
    rw [foldl_map]
  have hvalue : ∀ k, u64 (mask32 (window.getD (2 * k) 0) |||
      mask32 (window.getD (2 * k + 1) 0) <<< 32 : ℕ) = mask32 (window.getD (2 * k) 0) +
        2 ^ 32 * mask32 (window.getD (2 * k + 1) 0) := fun k => by
    have hlow := mask32_lt (window.getD (2 * k) 0)
    have hhigh := mask32_lt (window.getD (2 * k + 1) 0)
    rw [Nat.or_comm, Rv32i.shiftLeft_or_eq_add hlow, u64_natCast (by omega)]
    omega
  have hkeys : (((List.range (window.length / 2)).map fun k => (dataBase + 4 * (2 * k),
      u64 (mask32 (window.getD (2 * k) 0) ||| mask32 (window.getD (2 * k + 1) 0) <<< 32 : ℕ))).map
        Prod.fst).Nodup := by
    rw [map_map]
    refine nodup_range.map fun k k' h => ?_
    simp only [Function.comp_apply] at h
    omega
  rw [hupdate, get?_update hkeys, get?_empty, Option.or_none]
  constructor
  · intro h
    obtain ⟨k, hk, hpair⟩ := mem_map.1 (mem_of_lookup_eq_some h)
    cases hpair
    rw [mem_range] at hk
    exact ⟨k, by omega, by omega, hvalue k⟩
  · rintro ⟨k, hk, rfl, rfl⟩
    refine lookup_eq_some_of_mem hkeys (mem_map.2 ⟨k, mem_range.2 (by omega), ?_⟩)
    rw [hvalue, ← Nat.mul_assoc]

/-! ## The simulation -/

/-- The retirement as the trace states it. -/
def retiredOf (r : Rv64i.Retirement) : Retired := ⟨r.pc.toNat, r.word, r.rd, r.value.toNat⟩

/-- **The interpreter and a machine agree** on what an accepted record may read. -/
structure Simulates (dataBase : ℕ) (window : List ℕ) (written : List ℕ) (s : Execution) (m : Machine) :
    Prop where
  pc : s.pc = m.pc.toNat
  regs : ∀ r, r ∈ written ∨ r = 0 ∨ r = 18 → s.registers.getD r 0 = valueOf m r
  base : valueOf m 18 = dataBase % 2 ^ 64
  cells : ∀ k, 2 * k + 1 < window.length →
    s.memory.get? (dataBase + 8 * k) = some (readBytes m.memory (BitVec.ofNat 64 (dataBase + 8 * k)) 8)
  keys : ∀ a v, s.memory.get? a = some v → ∃ k, 2 * k + 1 < window.length ∧ a = dataBase + 8 * k
  tail : ∀ i w, window[i]? = some w → window.length ≤ 2 * (i / 2) + 1 →
    readBytes m.memory (BitVec.ofNat 64 (dataBase + 4 * i)) 4 = w

variable {dataBase : ℕ} {window written written' : List ℕ} {s : Execution} {m : Machine}

/-- What the check of a word leaves. -/
structure Checked (windowBytes : ℤ) (written : List ℕ) (d : Decoded) : Prop where
  access : d.Accesses → d.rs1 = 18 ∧ 0 ≤ d.imm ∧ d.imm % 8 = 0 ∧ d.imm ≤ windowBytes - 8
  sources : ∀ r ∈ readRegisters d, r ∈ written ∨ r = 0 ∨ r = 18
  rd : d.rd ∉ reservedDestinations

variable {windowBytes : ℤ} {index k : ℕ} {d : Decoded} {i : Instr} {words : List ℤ} {final : List ℕ}

theorem checked_of_checkWord {word : ℕ} (h : checkWord windowBytes index written word = .ok written') :
    ∃ d, decode word = .ok d ∧ Checked windowBytes written d ∧
      written' = if d.rd ≠ 0 then d.rd :: written else written := by
  obtain ⟨d, hd, ⟨⟩, haccess, ⟨⟩, hsources, h⟩ := bind_ok₃ h
  obtain ⟨hrd, h⟩ := ensure_ok.1 h
  refine ⟨d, hd, ⟨fun hd => ?_, fun r hr => ?_, hrd⟩, (Except.ok.inj h).symm⟩
  · unfold checkAccess at haccess
    rw [if_pos (show d.name = .ld ∨ d.name = .sd from hd)] at haccess
    obtain ⟨hbase, haccess⟩ := ensure_ok.1 haccess
    have hoffset := ensure_eq_ok.1 haccess
    exact ⟨hbase, by omega, by omega, by omega⟩
  · exact ensure_eq_ok.1 (forM_eq_ok.1 hsources r hr)

theorem decode_mask32 (word : ℤ) : decode (mask32 word : ℕ) = decode word := by
  unfold decode
  rw [mask32_natCast (mask32_lt word)]

theorem valueOf_next (m : Machine) (o : Rv64i.Outcome) (r : ℕ) :
    valueOf (next m o) r = if r = o.rd ∧ r ≠ 0 then o.value.toNat else valueOf m r := by
  by_cases hr : r = o.rd ∧ r ≠ 0
  · obtain ⟨rfl, hne⟩ := hr
    rw [if_pos ⟨rfl, hne⟩, valueOf_reg, x_next_self _ _ fun h => hne (by rw [h]; rfl)]
  · rw [if_neg hr]
    unfold valueOf
    split_ifs with hlt
    · by_cases heq : (⟨r, hlt⟩ : Reg) = o.rd
      · have hzero : r = 0 := by
          by_contra hne
          exact hr ⟨congrArg Fin.val heq, hne⟩
        subst hzero
        rw [show (⟨0, hlt⟩ : Reg) = 0 from rfl, x_zero, x_zero]
      · rw [x_next_of_ne _ _ heq]
    · rfl

theorem pc_next (m : Machine) (o : Rv64i.Outcome) : u64 (m.pc.toNat + 4) = (next m o).pc.toNat := by
  unfold next u64
  dsimp only
  rw [BitVec.toNat_add]
  rfl

/-- The operands that a checked word reads. -/
theorem operands_eq (hs : Simulates dataBase window written s m) (hmeans : Means d i)
    (hsources : ∀ r ∈ readRegisters d, r ∈ written ∨ r = 0 ∨ r = 18) :
    s.registers.getD d.rs1 0 = valueOf m d.rs1 ∧
      (d.rs2.map fun rs2 => s.registers.getD rs2 0).getD 0 = (d.rs2.map (valueOf m)).getD 0 := by
  have hread : ∀ r, r ∈ readRegisters d → s.registers.getD r 0 = valueOf m r :=
    fun r hr => hs.regs r (hsources r hr)
  cases hmeans with
  | lui => exact ⟨hs.regs 0 (.inr (.inl rfl)), rfl⟩
  | addi rd rs1 | addiw rd rs1 => exact ⟨hread rs1 (by simp [readRegisters]), rfl⟩
  | op rd rs1 rs2 hpair =>
    have hname : ∀ {name : Name} {alu : Rv32i.Alu}, (name, alu) ∈ [(.add, .add), (.sub, .sub), (.and, .and),
        (.or, .or), ((.xor : Name), (.xor : Rv32i.Alu))] → name ≠ .lui := fun h => by
      rintro rfl
      simp at h
    have hlui := hname hpair
    exact ⟨hread rs1 (by simp [readRegisters, hlui]), hread rs2 (by simp [readRegisters, hlui])⟩
  | addw rd rs1 rs2 =>
    exact ⟨hread rs1 (by simp [readRegisters]), hread rs2 (by simp [readRegisters])⟩
  | shift rd rs1 shamt hlt hpair =>
    have hname : ∀ {name : Name} {alu : Rv32i.Alu}, (name, alu) ∈ [(.slliw, .sll), (.srliw, .srl),
        ((.sraiw : Name), (.sra : Rv32i.Alu))] → name ≠ .lui := fun h => by
      rintro rfl
      simp at h
    exact ⟨hread rs1 (by simp [readRegisters, hname hpair]), rfl⟩
  | ld rd rs1 => exact ⟨hread rs1 (by simp [readRegisters]), rfl⟩
  | sd rs1 rs2 => exact ⟨hread rs1 (by simp [readRegisters]), hread rs2 (by simp [readRegisters])⟩

/-- A word that writes a register and no memory. -/
theorem simulates_retire (hs : Simulates dataBase window written s m) {o : Rv64i.Outcome} {rd : ℕ}
    (hrd : (o.rd : ℕ) = rd) (hreserved : rd ∉ reservedDestinations) (hmemory : o.memory = m.memory)
    (word : ℤ) :
    Simulates dataBase window (if rd ≠ 0 then rd :: written else written)
        (s.retire word rd o.value.toNat) (next m o) ∧
      (s.retire word rd o.value.toNat).trace = s.trace ++ [retiredOf (retire m (mask32 word) o)] := by
  subst hrd
  have hne : (18 : ℕ) ≠ o.rd := fun h => hreserved (h ▸ by decide)
  refine ⟨⟨?_, fun r hr => ?_, ?_, fun k hk => ?_, hs.keys, fun i w hw hi => ?_⟩, ?_⟩
  · rw [← pc_next m o, ← hs.pc]
    rfl
  · rw [valueOf_next]
    unfold Execution.retire
    dsimp only
    by_cases hzero : (o.rd : ℕ) ≠ 0
    · rw [if_pos hzero] at hr ⊢
      by_cases heq : r = o.rd
      · rw [if_pos ⟨heq, heq ▸ hzero⟩, heq, getD, get?_set_self, Option.getD_some]
      · rw [if_neg fun h => heq h.1, getD_set_of_ne _ heq]
        exact hs.regs r (hr.imp_left fun hmem => (List.mem_cons.1 hmem).resolve_left heq)
    · rw [if_neg hzero] at hr ⊢
      rw [if_neg fun h => h.2 (h.1.trans (not_not.1 hzero))]
      exact hs.regs r hr
  · rw [valueOf_next, if_neg fun h => hne h.1]
    exact hs.base
  · have hcell := hs.cells k hk
    unfold next
    rw [hmemory]
    exact hcell
  · unfold next
    rw [hmemory]
    exact hs.tail i w hw hi
  · unfold Execution.retire retiredOf retire
    dsimp only
    rw [hs.pc]
    by_cases hzero : o.rd = 0
    · rw [if_neg (not_not.2 (show (o.rd : ℕ) = 0 by rw [hzero]; rfl)), if_pos hzero]
      rfl
    · rw [if_pos (show (o.rd : ℕ) ≠ 0 from fun h => hzero (Fin.ext h)), if_neg hzero]

/-! ## Loads and stores -/

/-- The two words that access memory. -/
theorem access_cases (h : Means d i) (hd : d.Accesses) :
    (∃ (rd rs1 : Reg) (imm : ℤ), d = { name := .ld, rd := rd, rs1 := rs1, imm := imm } ∧
      i = .load 8 true rd rs1 (BitVec.ofInt 64 imm)) ∨
    ∃ (rs1 rs2 : Reg) (imm : ℤ), d = { name := .sd, rd := 0, rs1 := rs1, rs2 := some (rs2 : ℕ), imm := imm } ∧
      i = .store 8 rs1 rs2 (BitVec.ofInt 64 imm) := by
  cases h with
  | ld rd rs1 imm => exact .inl ⟨rd, rs1, imm, rfl, rfl⟩
  | sd rs1 rs2 imm => exact .inr ⟨rs1, rs2, imm, rfl, rfl⟩
  | op rd rs1 rs2 hpair | shift rd rs1 shamt hlt hpair =>
    rcases hd with hname | hname <;> dsimp only at hname <;> subst hname <;> simp at hpair
  | _ => rcases hd with hname | hname <;> cases hname

/-- **A checked access reaches a doubleword of the window.** -/
theorem exists_cell (hs : Simulates dataBase window written s m) {rs1 : Reg} (hrs1 : d.rs1 = rs1)
    (hchecked : Checked (4 * window.length) written d) (hd : d.Accesses)
    (hfits : dataBase + 4 * window.length ≤ 2 ^ 64) :
    ∃ k, 2 * k + 1 < window.length ∧ u64 (s.registers.getD d.rs1 0 + d.imm) = dataBase + 8 * k ∧
      m.x rs1 + BitVec.ofInt 64 d.imm = BitVec.ofNat 64 (dataBase + 8 * k) := by
  obtain ⟨hbase, hnonneg, haligned, hlast⟩ := hchecked.access hd
  obtain ⟨k, hk⟩ : ∃ k : ℕ, d.imm = 8 * k := ⟨(d.imm / 8).toNat, by omega⟩
  have hread : s.registers.getD d.rs1 0 = dataBase := by
    rw [hs.regs _ (.inr (.inr hbase)), hbase, hs.base]
    omega
  have hx : m.x rs1 = BitVec.ofNat 64 dataBase := by
    have hvalue := hs.base
    rw [← hbase, hrs1, valueOf_reg] at hvalue
    apply BitVec.eq_of_toNat_eq
    rw [hvalue, BitVec.toNat_ofNat]
  refine ⟨k, by omega, ?_, ?_⟩
  · rw [hread, hk, show (dataBase : ℤ) + 8 * k = (dataBase + 8 * k : ℕ) by push_cast; rfl]
    exact u64_natCast (by omega)
  · rw [hx, hk, show (8 * k : ℤ) = (8 * k : ℕ) by push_cast; rfl, BitVec.ofInt_natCast, ← BitVec.ofNat_add]

/-- A store changes one doubleword of the window. -/
theorem simulates_store (hs : Simulates dataBase window written s m)
    (hfits : dataBase + 4 * window.length ≤ 2 ^ 64) (hk : 2 * k + 1 < window.length)
    (value : BitVec 64) (word : ℤ) :
    Simulates dataBase window written (s.store word (dataBase + 8 * k) value.toNat)
      (next m ⟨0, 0, writeBytes m.memory (BitVec.ofNat 64 (dataBase + 8 * k)) value.toNat 8⟩) := by
  have hother : ∀ r, valueOf (next m
      ⟨0, 0, writeBytes m.memory (BitVec.ofNat 64 (dataBase + 8 * k)) value.toNat 8⟩) r = valueOf m r :=
    fun r => by
      rw [valueOf_next]
      exact if_neg fun h => h.2 h.1
  refine ⟨?_, fun r hr => ?_, ?_, fun j hj => ?_, fun a v hget => ?_, fun i w hw hi => ?_⟩
  · rw [← pc_next m, ← hs.pc]
    rfl
  · rw [hother]
    exact hs.regs r hr
  · rw [hother]
    exact hs.base
  · unfold Execution.store next
    dsimp only
    by_cases heq : j = k
    · subst heq
      rw [get?_set_self, readBytes_writeBytes _ _ _ (by decide)]
      exact congrArg some (Nat.mod_eq_of_lt value.isLt).symm
    · rw [get?_set_of_ne _ (by omega), hs.cells j hj,
        readBytes_writeBytes_of_disjoint _ _ (by omega) (by omega) (by omega)]
  · unfold Execution.store at hget
    dsimp only at hget
    by_cases heq : a = dataBase + 8 * k
    · exact ⟨k, hk, heq⟩
    · rw [get?_set_of_ne _ heq] at hget
      exact hs.keys a v hget
  · unfold next
    dsimp only
    obtain ⟨hlt, -⟩ := List.getElem?_eq_some_iff.1 hw
    rw [readBytes_writeBytes_of_disjoint _ _ (by omega) (by omega) (by omega)]
    exact hs.tail i w hw hi

/-- **One word**: the interpreter and the machine take the same step. -/
theorem executeWord_simulates (hs : Simulates dataBase window written s m) (haligned : 8 ∣ dataBase)
    (hfits : dataBase + 4 * window.length ≤ 2 ^ 64) {word : ℤ}
    (h : checkWord (4 * window.length) index written (mask32 word) = .ok written') :
    ∃ s' i, executeWord s word = .ok s' ∧ Rv64i.decode (mask32 word) = some i ∧
      Simulates dataBase window written' s' (Rv64i.next m (Rv64i.outcome m i)) ∧
      s'.trace = s.trace ++ [retiredOf (Rv64i.retire m (mask32 word) (Rv64i.outcome m i))] := by
  obtain ⟨d, hd, hchecked, rfl⟩ := checked_of_checkWord h
  rw [decode_mask32] at hd
  obtain ⟨i, hi, hmeans⟩ := exists_means hd
  obtain ⟨ha, hb⟩ := operands_eq hs hmeans hchecked.sources
  unfold executeWord
  rw [hd, ok_bind, hi]
  by_cases haccess : d.Accesses
  · rcases access_cases hmeans haccess with ⟨rd, rs1, imm, rfl, rfl⟩ | ⟨rs1, rs2, imm, rfl, rfl⟩
    · obtain ⟨k, hk, hu64, haddress⟩ := exists_cell hs rfl hchecked haccess hfits
      have hlt := Rv64i.readBytes_lt m.memory (BitVec.ofNat 64 (dataBase + 8 * k)) 8
      have hcell : s.memory.getD (dataBase + 8 * k) 0 =
          readBytes m.memory (BitVec.ofNat 64 (dataBase + 8 * k)) 8 := by
        rw [getD, hs.cells k hk, Option.getD_some]
      obtain ⟨hsim, htrace⟩ := simulates_retire hs (o := Rv64i.outcome m
        (.load 8 true rd rs1 (BitVec.ofInt 64 imm))) rfl hchecked.rd rfl word
      have hvalue : (Rv64i.outcome m (.load 8 true rd rs1 (BitVec.ofInt 64 imm))).value.toNat =
          u64 (s.memory.getD (dataBase + 8 * k) 0) := by
        unfold Rv64i.outcome Rv64i.extend
        dsimp only
        rw [haddress, hcell, if_pos rfl, BitVec.signExtend_eq, BitVec.toNat_ofNat, u64_natCast hlt]
        exact Nat.mod_eq_of_lt hlt
      rw [hvalue] at hsim htrace
      refine ⟨_, _, ?_, rfl, hsim, htrace⟩
      dsimp only at hu64 ⊢
      rw [hu64, ensure_of (by omega), ok_bind]
      rfl
    · obtain ⟨k, hk, hu64, haddress⟩ := exists_cell hs rfl hchecked haccess hfits
      have hsim := simulates_store hs hfits hk (m.x rs2) word
      refine ⟨s.store word (dataBase + 8 * k) (m.x rs2).toNat, _, ?_, rfl, ?_, ?_⟩
      · dsimp only at hu64 hb ⊢
        rw [hu64, ensure_of (by omega), ok_bind, hb, Option.map_some, Option.getD_some, valueOf_reg,
          u64_natCast (m.x rs2).isLt]
        rfl
      · unfold Rv64i.outcome
        dsimp only
        rw [haddress]
        exact hsim
      · unfold Execution.store retiredOf Rv64i.retire Rv64i.outcome
        dsimp only
        rw [hs.pc]
        rfl
  · obtain ⟨hrd, hmemory, hvalue⟩ := outcome_arithmetic hmeans haccess m
    obtain ⟨hsim, htrace⟩ := simulates_retire hs hrd hchecked.rd hmemory word
    rw [hvalue, ← ha, ← hb] at hsim htrace
    refine ⟨_, i, ?_, rfl, hsim, htrace⟩
    obtain ⟨name, rd, rs1, rs2, imm, shamt⟩ := d
    cases name with
    | ld => exact absurd (.inl rfl) haccess
    | sd => exact absurd (.inr rfl) haccess
    | _ => rfl

/-! ## Whole records -/

/-- **A whole record**, by induction on its words. -/
theorem execute_simulates (haligned : 8 ∣ dataBase) (hfits : dataBase + 4 * window.length ≤ 2 ^ 64)
    (hs : Simulates dataBase window written s m)
    (h : checkWords (4 * window.length) index written (words.map mask32) = .ok ()) :
    ∃ s' written' rs m', words.foldlM executeWord s = .ok s' ∧
      run (words.map mask32) m = some (rs, m') ∧ Simulates dataBase window written' s' m' ∧
      s'.trace = s.trace ++ rs.map retiredOf := by
  induction words generalizing index written s m with
  | nil => exact ⟨s, written, [], m, rfl, rfl, hs, (append_nil _).symm⟩
  | cons word words ih =>
    rw [map_cons] at h ⊢
    obtain ⟨written₁, hword, h⟩ := bind_ok.1 h
    obtain ⟨s₁, i, hstep, hi, hs₁, htrace₁⟩ := executeWord_simulates hs haligned hfits hword
    obtain ⟨s', written', rs, m', hrest, hrun, hs', htrace⟩ := ih hs₁ h
    refine ⟨s', written', retire m (mask32 word) (outcome m i) :: rs, m', ?_, ?_, hs', ?_⟩
    · rw [foldlM_cons, hstep]
      exact hrest
    · unfold run
      rw [hi, Option.bind_eq_bind, Option.bind_some]
      dsimp only
      rw [hrun]
      rfl
    · rw [htrace, htrace₁, map_cons, append_assoc, singleton_append]

/-- A doubleword of memory is two words. -/
theorem readBytes_eight (memory : Rv64i.Memory) (a : ℕ) :
    readBytes memory (BitVec.ofNat 64 a) 8 = readBytes memory (BitVec.ofNat 64 a) 4 +
      2 ^ 32 * readBytes memory (BitVec.ofNat 64 (a + 4)) 4 := by
  rw [readBytes_add memory _ 4 4, ← BitVec.ofNat_add]
  rfl

/-- The machine and the interpreter start together. -/
theorem simulates_start {slot : ℤ} {data : List ℤ} (hpc : m.pc = BitVec.ofInt 64 slot)
    (hbase : m.x 18 = BitVec.ofNat 64 dataBase) (hwindow : HoldsWindow m.memory dataBase (data.map mask32)) :
    Simulates dataBase (data.map mask32) [0]
      { pc := u64 slot, registers := (empty.set 0 0).set 18 (u64 dataBase),
        memory := windowMemory data dataBase } m := by
  have hword : ∀ i < data.length, readBytes m.memory (BitVec.ofNat 64 (dataBase + 4 * i)) 4 =
      mask32 (data.getD i 0) := fun i hi => by
    refine hwindow i _ ?_
    rw [getElem?_map, getElem?_eq_getElem hi, getD_eq_getElem _ _ hi]
    rfl
  have hvalue : valueOf m 18 = dataBase % 2 ^ 64 := by
    rw [show (18 : ℕ) = ((18 : Reg) : ℕ) from rfl, valueOf_reg, hbase, BitVec.toNat_ofNat]
  refine ⟨?_, fun r hr => ?_, hvalue, fun k hk => ?_, fun a v hget => ?_, fun i w hw _ => hwindow i w hw⟩
  · rw [hpc, u64_eq]
  · by_cases h18 : r = 18
    · subst h18
      rw [getD_set_self, hvalue]
      unfold u64
      omega
    · have hzero : r = 0 := by
        rcases hr with hr | hr | hr
        · exact mem_singleton.1 hr
        · exact hr
        · exact absurd hr h18
      subst hzero
      rw [getD_set_of_ne _ h18, getD_set_self, show (0 : ℕ) = ((0 : Reg) : ℕ) from rfl, valueOf_reg,
        x_zero]
      rfl
  · rw [length_map] at hk
    refine get?_windowMemory.2 ⟨k, hk, rfl, ?_⟩
    have hlow := hword (2 * k) (by omega)
    have hhigh := hword (2 * k + 1) hk
    rw [show dataBase + 4 * (2 * k) = dataBase + 8 * k by omega] at hlow
    rw [show dataBase + 4 * (2 * k + 1) = dataBase + 8 * k + 4 by omega] at hhigh
    rw [readBytes_eight, hlow, hhigh]
  · obtain ⟨k, hk, ha, -⟩ := get?_windowMemory.1 hget
    exact ⟨k, by rwa [length_map], ha⟩

/-! ## The window afterwards -/

/-- The word of memory at a place of the window. -/
def wordAt (memory : Rv64i.Memory) (dataBase i : ℕ) :
    ℕ := readBytes memory (BitVec.ofNat 64 (dataBase + 4 * i)) 4

/-- Putting one doubleword back. -/
theorem getD_mergeWindow (memory : Rv64i.Memory) (hk : 2 * k + 1 < final.length) (i : ℕ) :
    (mergeWindow dataBase final
      (dataBase + 8 * k, readBytes memory (BitVec.ofNat 64 (dataBase + 8 * k)) 8)).getD
      i 0 = if i / 2 = k then wordAt memory dataBase i else final.getD i 0 := by
  have hlow := readBytes_lt memory (BitVec.ofNat 64 (dataBase + 8 * k)) 4
  have hhigh := readBytes_lt memory (BitVec.ofNat 64 (dataBase + 8 * k + 4)) 4
  have hplace : ((((dataBase + 8 * k : ℕ) : ℤ) - dataBase) / 4).toNat = 2 * k := by omega
  have hfirst : mask32 (readBytes memory (BitVec.ofNat 64 (dataBase + 8 * k)) 8) =
      wordAt memory dataBase (2 * k) := by
    rw [readBytes_eight]
    unfold mask32 wordAt
    rw [show dataBase + 4 * (2 * k) = dataBase + 8 * k by omega]
    omega
  have hsecond : mask32 ((readBytes memory (BitVec.ofNat 64 (dataBase + 8 * k)) 8 >>> 32 : ℕ) : ℤ) =
      wordAt memory dataBase (2 * k + 1) := by
    rw [readBytes_eight, Nat.shiftRight_eq_div_pow]
    unfold mask32 wordAt
    rw [show dataBase + 4 * (2 * k + 1) = dataBase + 8 * k + 4 by omega]
    omega
  unfold mergeWindow
  dsimp only
  rw [if_pos (by omega), hplace, length_set, if_pos hk, hfirst, hsecond, getD_eq_getElem?_getD,
    getD_eq_getElem?_getD, getElem?_set, getElem?_set, length_set]
  by_cases hi : i / 2 = k
  · rw [if_pos hi]
    by_cases hodd : 2 * k + 1 = i
    · rw [if_pos hodd, if_pos hk, Option.getD_some, hodd]
    · rw [if_neg hodd, if_pos (show 2 * k = i by omega), if_pos (by omega), Option.getD_some,
        show 2 * k = i by omega]
  · rw [if_neg hi, if_neg (by omega), if_neg (by omega)]

theorem length_mergeWindow (final : List ℕ) (e : ℕ × ℕ) :
    (mergeWindow dataBase final e).length = final.length := by
  unfold mergeWindow
  dsimp only
  split_ifs
  · rw [length_set, length_set]
  · rw [length_set]
  · rfl

/-- **Every doubleword is put back**: a word is right when it was right before or its doubleword is among
the entries. -/
theorem getD_foldl_mergeWindow {memory : Rv64i.Memory} {entries : List (ℕ × ℕ)}
    (hentries : ∀ e ∈ entries, ∃ k, 2 * k + 1 < final.length ∧
      e = (dataBase + 8 * k, readBytes memory (BitVec.ofNat 64 (dataBase + 8 * k)) 8)) :
    (entries.foldl (mergeWindow dataBase) final).length = final.length ∧
      ∀ i, (final.getD i 0 = wordAt memory dataBase i ∨ dataBase + 8 * (i / 2) ∈ entries.map Prod.fst) →
        (entries.foldl (mergeWindow dataBase) final).getD i 0 = wordAt memory dataBase i := by
  induction entries generalizing final with
  | nil => exact ⟨rfl, fun i hi => hi.resolve_right not_mem_nil⟩
  | cons e entries ih =>
    obtain ⟨k, hk, rfl⟩ := hentries e (.head _)
    rw [foldl_cons]
    have hnext : ∀ e ∈ entries, ∃ j, 2 * j + 1 < (mergeWindow dataBase final
        (dataBase + 8 * k, readBytes memory (BitVec.ofNat 64 (dataBase + 8 * k)) 8)).length ∧
        e = (dataBase + 8 * j, readBytes memory (BitVec.ofNat 64 (dataBase + 8 * j)) 8) := fun e he => by
      rw [length_mergeWindow]
      exact hentries e (.tail _ he)
    obtain ⟨hlength, hrest⟩ := ih hnext
    refine ⟨hlength.trans (length_mergeWindow _ _), fun i hi => hrest i ?_⟩
    rw [getD_mergeWindow memory hk]
    split_ifs with heq
    · exact .inl rfl
    · refine hi.imp_right fun hmem => ?_
      rw [map_cons, mem_cons] at hmem
      exact hmem.resolve_left (by dsimp only; omega)

/-- The words of the window that the interpreter ends with. -/
theorem holdsWindow_merge {dataBase : ℕ} {window written : List ℕ} {s : Execution} {m : Machine}
    (hs : Simulates dataBase window written s m) :
    (s.memory.entries.foldl (mergeWindow dataBase) window).length = window.length ∧
      HoldsWindow m.memory dataBase (s.memory.entries.foldl (mergeWindow dataBase) window) := by
  have hentries : ∀ e ∈ s.memory.entries, ∃ k, 2 * k + 1 < window.length ∧
      e = (dataBase + 8 * k, readBytes m.memory (BitVec.ofNat 64 (dataBase + 8 * k)) 8) := fun e he => by
    have hget := mem_entries_iff.1 he
    obtain ⟨k, hk, ha⟩ := hs.keys _ _ hget
    rw [ha, hs.cells k hk] at hget
    exact ⟨k, hk, Prod.ext ha (Option.some.inj hget).symm⟩
  obtain ⟨hlength, hwords⟩ := getD_foldl_mergeWindow hentries
  refine ⟨hlength, fun i w hw => ?_⟩
  obtain ⟨hi, rfl⟩ := List.getElem?_eq_some_iff.1 hw
  rw [← List.getD_eq_getElem _ 0 hi]
  refine (hwords i ?_).symm
  rw [hlength] at hi
  by_cases hcell : 2 * (i / 2) + 1 < window.length
  · exact .inr (List.mem_map.2 ⟨_, mem_entries_iff.2 (hs.cells (i / 2) hcell), rfl⟩)
  · left
    rw [List.getD_eq_getElem _ _ hi]
    exact (hs.tail i window[i] (List.getElem?_eq_getElem hi) (not_lt.1 hcell)).symm

/-! ## The expectation -/

/-- The check of a record's words. -/
theorem accepted_eq {maxWords : ℕ} {accepted : List ℕ}
    (h : validateRv64Record (.words words) maxWords windowBytes = .ok accepted) :
    accepted = words.map mask32 ∧ words ≠ [] ∧ checkWords windowBytes 0 [0] (words.map mask32) = .ok () := by
  unfold validateRv64Record recordWords at h
  rw [ok_bind] at h
  obtain ⟨hne, -, h⟩ := ensure_ok₂ h
  obtain ⟨⟨⟩, hchecked, h⟩ := bind_ok.1 h
  exact ⟨(Except.ok.inj h).symm, fun hnil => hne (hnil ▸ rfl), hchecked⟩

/-- **One expectation for every machine**: an accepted record has one, and every RV64I machine with the
declared base and window retires its trace and ends with its window. -/
theorem expectation_portable {words window : List ℤ} {maxWords dataBase : ℕ} {accepted : List ℕ}
    (haccepted : validateRv64Record (.words words) maxWords (4 * window.length) = .ok accepted)
    (haligned : 8 ∣ dataBase) (hfits : dataBase + 4 * window.length ≤ 2 ^ 64) (slot : ℤ) :
    ∃ e, expectation words slot dataBase window = .ok e ∧ e.windowAfter.length = window.length ∧
      ∀ m : Machine, m.pc = BitVec.ofInt 64 slot → m.x 18 = BitVec.ofNat 64 dataBase →
        HoldsWindow m.memory dataBase (window.map mask32) →
        ∃ rs m', Rv64i.run accepted m = some (rs, m') ∧ e.trace = rs.map retiredOf ∧
          HoldsWindow m'.memory dataBase e.windowAfter := by
  obtain ⟨rfl, hne, hchecked⟩ := accepted_eq haccepted
  have hlength : (window.map mask32).length = window.length := List.length_map _
  -- The interpreter does not see the machine, so its result is the same for all of them.
  have hall : ∀ m : Machine, m.pc = BitVec.ofInt 64 slot → m.x 18 = BitVec.ofNat 64 dataBase →
      HoldsWindow m.memory dataBase (window.map mask32) →
      ∃ s written rs m', execute words slot dataBase (windowMemory window dataBase) = .ok s ∧
        Rv64i.run (words.map mask32) m = some (rs, m') ∧
        Simulates dataBase (window.map mask32) written s m' ∧ s.trace = rs.map retiredOf :=
    fun m hpc hbase hwindow => execute_simulates haligned (by rwa [hlength])
      (simulates_start hpc hbase hwindow) (by rwa [hlength])
  have hmasked : ∀ w ∈ window.map mask32, w < 2 ^ 32 := fun w hw => by
    obtain ⟨v, -, rfl⟩ := List.mem_map.mp hw
    exact mask32_lt v
  have hfits' : dataBase + 4 * (window.map mask32).length ≤ 2 ^ 64 := by rwa [hlength]
  obtain ⟨m₀, hpc₀, hbase₀, hwindow₀⟩ := exists_machine (BitVec.ofInt 64 slot) hmasked hfits'
  obtain ⟨s, written₀, rs₀, m₀', hexecute, -, hs₀, -⟩ := hall m₀ hpc₀ hbase₀ hwindow₀
  have hvalid : validateRv64Record (.words words) words.length (4 * window.length) =
    .ok (words.map mask32) := by
    unfold validateRv64Record recordWords
    rw [ok_bind, ensure_of (by rwa [ne_eq, List.map_eq_nil_iff]), ok_bind,
      ensure_of (List.length_map _).le, ok_bind, hchecked]
    rfl
  refine ⟨_, by unfold expectation; rw [hvalid, ok_bind, hexecute, ok_bind]; rfl, ?_,
    fun m hpc hbase hwindow => ?_⟩
  · exact (holdsWindow_merge hs₀).1.trans hlength
  · obtain ⟨s', written, rs, m', hexecute', hrun, hs, htrace⟩ := hall m hpc hbase hwindow
    obtain rfl : s = s' := Except.ok.inj (hexecute.symm.trans hexecute')
    exact ⟨rs, m', hrun, htrace, (holdsWindow_merge hs).2⟩

/-- `addi x5, x18, 4; ld x6, 8(x18); sd x5, 0(x18)` on a window of five words. -/
theorem expectation_odd_window :
    ∃ e, expectation [0x00490293, 0x00893303, 0x00593023] 0x80000000 0x80001000 [1, 2, 3, 4, 5] = .ok e ∧
      e.windowAfter.length = 5 ∧
      ∀ m : Machine, m.pc = BitVec.ofInt 64 0x80000000 → m.x 18 = BitVec.ofNat 64 0x80001000 →
        HoldsWindow m.memory 0x80001000 [1, 2, 3, 4, 5] →
        ∃ rs m', Rv64i.run [0x00490293, 0x00893303, 0x00593023] m = some (rs, m') ∧
          e.trace = rs.map retiredOf ∧ HoldsWindow m'.memory 0x80001000 e.windowAfter :=
  @expectation_portable [0x00490293, 0x00893303, 0x00593023] [1, 2, 3, 4, 5] 16 0x80001000
    [0x00490293, 0x00893303, 0x00593023] rfl (by decide) (by decide) 0x80000000

end F1Rv64

end MyFuzz
