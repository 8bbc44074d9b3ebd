import MyFuzz.Fuzz.WordSpacesAddresses
import Mathlib.Data.List.GetD

/-!
# Fuzz/WordSpacesLaw — what the flows draw

Every record that is generated or mutated has a declared address and words under the masks of that address:

    fresh, mutate ──▸ Produces ──▸ declared, aligned, valid

The addresses of the data window are clipped above and not below, so a window that starts below zero gives
`F2` and `F3` records that no declaration accepts.
-/

namespace MyFuzz

namespace WordSpaces

namespace WordSpace

open Outcome Draw Returns List

variable {space : WordSpace}

/-! ## What is drawn -/

def Under (mask : ℕ) (value : ℤ) : Prop := 0 ≤ value ∧ value ≤ mask

variable {mask v : ℕ} {address : ℤ} {read read' : Read} {addresses fields r : List ℤ}
  {write write' : Write} {flow : String} {known : Flow} {words : Option ℕ} {s s' : Rng}

theorem under_natCast (h : v ≤ mask) : Under mask v := ⟨Int.natCast_nonneg v, Int.ofNat_le.2 h⟩

theorem Under.mono {mask' : ℕ} {value : ℤ} (h : Under mask value) (hle : mask ≤ mask') : Under mask' value :=
  ⟨h.1, h.2.trans (Int.ofNat_le.2 hle)⟩

/-- A read of a declared address; only PADIN has a pin word. -/
structure ReadOk (space : WordSpace) (read : Read) : Prop where
  address : read.address ∈ space.f2Addresses
  stimulus : ∀ v, read.stimulus = some v → space.padinAddress = some read.address ∧ Under space.pinMask v

/-- A write to one of the addresses, under its mask. -/
structure WriteOk (addresses : List ℤ) (mask : ℤ → ℕ) (write : Write) : Prop where
  address : write.address ∈ addresses
  value : Under (mask write.address) write.value

/-- **The records that a flow can produce.** -/
def Produces (space : WordSpace) : Flow → Option ℕ → List ℤ → Prop
  | .f2, _, fields => ∃ read, space.ReadOk read ∧ fields = read.fields
  | .f3, _, fields => ∃ write, WriteOk space.ramAddresses (fun _ => mask32) write ∧ fields = write.fields
  | .f4, _, fields => ∃ write, WriteOk space.writableAddresses space.maskFor write ∧ fields = write.fields
  | .f5, words, fields => words = some fields.length ∧ ∀ v ∈ fields, Under mask32 v
  | .f6, words, fields => words = some fields.length ∧ ∀ v ∈ fields, Under mask32 v

/-- The result of a mutation: another record, unless there is no other one. -/
def Mutated {α : Type} (Ok : α → Prop) (old new : α) : Prop := Ok new ∧
    (new = old → ∀ other, Ok other → other = old)

theorem Mutated.of_ne {α : Type} {Ok : α → Prop} {old new : α} (h : Ok new) (hne : new ≠ old) :
    Mutated Ok old new :=
  ⟨h, fun heq => absurd heq hne⟩

/-! ## Reads -/

theorem padin_mem (h : space.padinAddress = some address) : address ∈ space.f2Addresses :=
  mem_f2Addresses.2 (.inr (.inl h))

theorem readOk_pin (h : space.padinAddress = some address) (hv : v ≤ space.pinMask) :
    space.ReadOk { address := address, stimulus := some (v : ℤ) } :=
  ⟨padin_mem h, fun _ hw => ⟨h, Option.some.inj hw ▸ under_natCast hv⟩⟩

theorem readOk_plain (h : address ∈ space.f2Addresses) : space.ReadOk { address := address } :=
  ⟨h, fun _ hv => by cases hv⟩

theorem readOf_returns (h : address ∈ space.f2Addresses) :
    Returns (space.readOf address) fun read => space.ReadOk read ∧ read.address = address := by
  unfold readOf
  split_ifs with hpadin
  · refine coin.bind fun pinned _ => ?_
    cases pinned with
    | true => exact (randomWord_returns _).bind fun v hv => pure ⟨readOk_pin hpadin hv, rfl⟩
    | false => exact pure ⟨readOk_plain h, rfl⟩
  · exact pure ⟨readOk_plain h, rfl⟩

/-- **One change of a read.** -/
theorem changeRead_returns (hread : space.ReadOk read)
    (hready : (!(space.readChanges space.f2Addresses read).isEmpty) = true) :
    Returns (space.changeRead space.f2Addresses read) space.ReadOk := by
  have hne : space.readChanges space.f2Addresses read ≠ [] := by simpa using hready
  have hpadin : ∀ change ∈ space.readChanges space.f2Addresses read, change ≠ .address →
      space.padinAddress = some read.address := fun change hchange hother => by
    unfold readChanges at hchange
    by_contra hpadin
    rw [if_neg hpadin, append_nil] at hchange
    split_ifs at hchange
    · exact hother (mem_singleton.1 hchange)
    · cases hchange
  refine (choice hne fun change hchange => hchange).bind fun change hchange => ?_
  cases change with
  | address =>
    refine (otherAddress_returns _ _).bind fun other hother => ?_
    cases other with
    | none => exact pure hread
    | some other => exact (readOf_returns hother.1).mono fun r hr => hr.1
  | form =>
    have hpin := hpadin .form hchange (by simp)
    dsimp only
    split
    · exact pure (readOk_plain hread.address)
    · exact (randomWord_returns _).bind fun v hv => pure (readOk_pin hpin hv)
  | stimulus =>
    have hpin := hpadin .stimulus hchange (by simp)
    exact (differentWord_returns (isMask_pinMask space) _).bind fun v hv => pure (readOk_pin hpin hv.1)

theorem forcedRead_returns (hread : space.ReadOk read) :
    Returns (space.forcedRead space.f2Addresses read) (Mutated space.ReadOk read) := by
  obtain ⟨address, stimulus⟩ := read
  unfold forcedRead
  cases stimulus with
  | some v =>
    exact pure (.of_ne (readOk_plain hread.address) fun heq => by cases heq)
  | none =>
    split_ifs with hpadin
    · exact (randomWord_returns _).bind fun v hv =>
        pure (.of_ne (readOk_pin hpadin hv) fun heq => by cases heq)
    · refine (otherAddress_returns _ _).bind fun other hother => ?_
      cases other with
      | none =>
        -- Every address is this one, and it is not PADIN: no read carries a pin word.
        refine pure ⟨hread, fun _ r hr => ?_⟩
        have haddress := hother _ hr.address
        obtain ⟨raddress, rstimulus⟩ := r
        subst haddress
        cases rstimulus with
        | none => rfl
        | some v => exact absurd (hr.stimulus v rfl).1 hpadin
      | some other =>
        refine (readOf_returns hother.1).mono fun r hr => .of_ne hr.1 fun heq => hother.2 ?_
        rw [← hr.2, heq]

theorem mutateF2_returns (hread : space.ReadOk read) :
    Returns (space.mutateF2 space.f2Addresses read) (Mutated space.ReadOk read) := by
  refine (Returns.randint (by norm_num)).bind fun count _ => ?_
  refine (Returns.rounds (fun r hready hr => changeRead_returns hr hready) count.toNat hread).bind
    fun current hcurrent => ?_
  split_ifs with heq
  · exact forcedRead_returns hread
  · exact Returns.pure (.of_ne hcurrent heq)

/-! ## Writes -/

theorem changeF3Value_returns (write : Write) : Returns (changeF3Value write) fun w =>
    w.address = write.address ∧ Under mask32 w.value ∧ w ≠ write := by
  refine (differentWord_returns isMask_mask32 _).bind fun v hv =>
    pure ⟨rfl, under_natCast hv.1, fun heq => ?_⟩
  exact hv.2 (by decide) (congrArg Write.value heq)

theorem movedAddress_returns (addresses : List ℤ) (current : ℤ) :
    Returns (movedAddress addresses current) fun r => ∀ other, r = some other → other ∈ addresses := by
  refine bind (P := fun _ => True) ?_ fun move _ => ?_
  · split_ifs
    · exact coin
    · exact pure trivial
  · cases move with
    | false => exact pure fun other h => by cases h
    | true =>
      refine (otherAddress_returns _ _).mono fun r hr other hother => ?_
      subst hother
      exact hr.1

theorem mutateF3_returns (hwrite : WriteOk addresses (fun _ => mask32) write) :
    Returns (mutateF3 addresses write) (Mutated (WriteOk addresses fun _ => mask32) write) := by
  have hround : ∀ w, WriteOk addresses (fun _ => mask32) w →
      Returns (changeF3 addresses w) (WriteOk addresses fun _ => mask32) := fun w hw => by
    refine (movedAddress_returns _ _).bind fun other hother => ?_
    cases other with
    | some other => exact Returns.pure ⟨hother other rfl, hw.value⟩
    | none => exact (changeF3Value_returns w).mono fun w' hw' => ⟨by rw [hw'.1]; exact hw.address, hw'.2.1⟩
  refine (Returns.randint (by norm_num)).bind fun count _ => ?_
  refine (Returns.rounds (fun w _ hw => hround w hw) count.toNat hwrite).bind fun current hcurrent => ?_
  split_ifs with heq
  · subst heq
    exact (changeF3Value_returns current).mono fun w hw =>
      .of_ne ⟨by rw [hw.1]; exact hwrite.address, hw.2.1⟩ hw.2.2
  · exact Returns.pure (.of_ne hcurrent heq)

/-- Another word, or what is done where the mask has one word only. -/
theorem changeF4Value_returns {otherwise : Draw Write} {Q : Write → Prop}
    (hchanged : ∀ v : ℕ, v ≤ space.maskFor write.address → (v : ℤ) ≠ write.value →
      Q { write with value := v })
    (hotherwise : space.maskFor write.address = 0 → write.value = 0 → Returns otherwise Q) :
    Returns (space.changeF4Value write otherwise) Q := by
  refine (differentWord_returns (isMask_maskFor space write.address) _).bind fun v hv => ?_
  split_ifs with hne
  · exact pure (hchanged v hv.1 hne)
  · rw [not_not] at hne
    have hzero : space.maskFor write.address = 0 := by
      by_contra hmask
      exact hv.2 hmask hne
    refine hotherwise hzero ?_
    have hle := hv.1
    omega

theorem moveF4_returns (write : Write) : Returns (space.moveF4 space.writableAddresses write) fun w =>
    (WriteOk space.writableAddresses space.maskFor w ∧ w ≠ write) ∨
      (w = write ∧ ∀ a ∈ space.writableAddresses, a = write.address) := by
  refine (otherAddress_returns _ _).bind fun other hother => ?_
  cases other with
  | none => exact pure (.inr ⟨rfl, hother⟩)
  | some other =>
    refine pure (.inl ⟨⟨hother.1, under_natCast (land_le _ _)⟩, fun heq => hother.2 ?_⟩)
    exact congrArg Write.address heq

theorem mutateF4_returns {write : Write} (haddress : write.address ∈ space.writableAddresses) :
    Returns (space.mutateF4 space.writableAddresses write)
      (Mutated (WriteOk space.writableAddresses space.maskFor) write) := by
  have hround : ∀ w : Write, w.address ∈ space.writableAddresses →
      Returns (space.changeF4 space.writableAddresses w) (WriteOk space.writableAddresses space.maskFor) :=
    fun w hw => by
      refine (movedAddress_returns _ _).bind fun other hother => ?_
      cases other with
      | some other => exact Returns.pure ⟨hother other rfl, under_natCast (land_le _ _)⟩
      | none =>
        refine changeF4Value_returns (fun v hv _ => ⟨hw, under_natCast hv⟩) fun hmask hvalue => ?_
        have hok : WriteOk space.writableAddresses space.maskFor w :=
          ⟨hw, by rw [hmask, hvalue]; exact ⟨le_rfl, le_rfl⟩⟩
        split_ifs
        · refine (moveF4_returns w).mono fun w' hw' => ?_
          rcases hw' with hw' | ⟨rfl, -⟩
          · exact hw'.1
          · exact hok
        · exact Returns.pure hok
  refine (Returns.randint (by norm_num)).bind fun count hcount => ?_
  refine (Returns.rounds_of_pos (by omega) (hround write haddress) fun w hw => hround w hw.address).bind
    fun current hcurrent => ?_
  split_ifs with heq
  · subst heq
    refine changeF4Value_returns (fun v hv hne => .of_ne ⟨haddress, under_natCast hv⟩ fun heq =>
      hne (congrArg Write.value heq)) fun hmask hvalue => ?_
    refine (moveF4_returns current).mono fun w hw => ?_
    rcases hw with ⟨hok, hne⟩ | ⟨rfl, hall⟩
    · exact .of_ne hok hne
    · refine ⟨hcurrent, fun _ other hother => ?_⟩
      have haddress' := hall _ hother.address
      have hvalue' := hother.value
      rw [haddress', hmask] at hvalue'
      obtain ⟨a, v⟩ := other
      obtain ⟨a', v'⟩ := w
      dsimp only at haddress' hvalue hvalue'
      subst haddress' hvalue
      rw [le_antisymm hvalue'.2 hvalue'.1, Nat.cast_zero]
  · exact Returns.pure (.of_ne hcurrent heq)

/-! ## Blocks of words -/

def WordsOk (words : ℕ) (fields : List ℤ) : Prop := fields.length = words ∧ ∀ v ∈ fields, Under mask32 v

theorem randomWords_returns (words : ℕ) : Returns (randomWords words) (WordsOk words) := by
  refine (mapM (Q := Under mask32) fun mask hmask => ?_).mono fun r hr =>
    ⟨hr.1.trans length_replicate, hr.2⟩
  rw [eq_of_mem_replicate hmask]
  exact (randomWord_returns mask32).bind fun v hv => pure (under_natCast hv)

theorem freshF5_returns (words : ℕ) : Returns (space.freshF5 words) (WordsOk words) := by
  unfold freshF5
  dsimp only
  split_ifs with hrows
  · exact (pure (P := fun reuse => reuse = false) rfl).bind fun reuse hreuse => by
      rw [hreuse]
      exact randomWords_returns words
  · refine coin.bind fun reuse _ => ?_
    cases reuse with
    | false => exact randomWords_returns words
    | true =>
      refine (choice hrows fun row hrow => hrow).bind fun row hrow => ?_
      have hlength : row.length = words := by simpa using (mem_filter.1 hrow).2
      refine (mapM (Q := Under mask32) fun value _ => ?_).mono fun r hr => ⟨hr.1.trans hlength, hr.2⟩
      refine coin.bind fun replaced _ => ?_
      cases replaced with
      | true => exact (randomWord_returns mask32).bind fun v hv => pure (under_natCast hv)
      | false => exact pure (under_natCast (land_le _ _))

theorem freshF6_returns (exampleUsed : Bool) (words : ℕ) :
    Returns (freshF6 exampleUsed words) (WordsOk words) := by
  unfold freshF6
  split_ifs
  · exact randomWords_returns words
  · refine (mapM (Q := Under mask32) fun position _ => ?_).mono fun r hr =>
      ⟨hr.1.trans length_range, hr.2⟩
    unfold exampleWord
    cases hword : f6Example[position]? with
    | none => exact (randomWord_returns mask32).bind fun v hv => pure (under_natCast hv)
    | some word =>
      have hmem := mem_of_getElem? hword
      have hall : ∀ w ∈ f6Example, w ≤ mask32 := by decide
      exact pure (under_natCast (hall word hmem))

/-- **One change of a block** gives another block. -/
theorem changeValues_returns {words : ℕ} (hwords : 1 ≤ words) (h : WordsOk words fields) :
    Returns (changeValues words fields) fun r => WordsOk words r ∧ r ≠ fields := by
  refine (Returns.randrange (by omega)).bind fun position hposition => ?_
  refine (differentWord_returns isMask_mask32 _).bind fun v hv =>
    Returns.pure ⟨⟨?_, fun w hw => ?_⟩, fun heq => ?_⟩
  · rw [length_set]
    exact h.1
  · rcases mem_or_eq_of_mem_set hw with hw | rfl
    · exact h.2 w hw
    · exact under_natCast hv.1
  · have hlt : position.toNat < fields.length := by
      rw [h.1]
      omega
    refine hv.2 (by decide) ?_
    have hread := congrArg (fun l : List ℤ => l.getD position.toNat 0) heq
    rw [← hread, getD_eq_getElem _ _ (by rwa [length_set]), getElem_set_self]

theorem mutateValues_returns {words : ℕ} (hwords : 1 ≤ words) (h : WordsOk words fields) :
    Returns (mutateValues words fields) fun r => WordsOk words r ∧ r ≠ fields := by
  refine (Returns.randint (by norm_num)).bind fun count _ => ?_
  refine (Returns.rounds (fun r _ hr => (changeValues_returns hwords hr).mono fun r' hr' => hr'.1)
    count.toNat h).bind
    fun current hcurrent => ?_
  split_ifs with heq
  · exact heq ▸ changeValues_returns hwords (heq ▸ h)
  · exact Returns.pure ⟨hcurrent, heq⟩

/-! ## Flows -/

theorem requireFlow_eq_ok (h : space.requireFlow flow = .ok known) :
    Flow.ofName flow = some known ∧ known ∈ space.flows := by
  unfold requireFlow at h
  cases hname : Flow.ofName flow with
  | none =>
    rw [hname] at h
    cases h
  | some flow' =>
    rw [hname] at h
    obtain ⟨hmem, h⟩ := ensure_ok.1 h
    cases h
    exact ⟨rfl, hmem⟩

theorem candidates_eq_ok (h : space.candidates known = .ok addresses) :
    match known with
    | .f2 => addresses = space.f2Addresses ∧ addresses ≠ []
    | .f3 => addresses = space.ramAddresses ∧ addresses ≠ []
    | .f4 => addresses = space.writableAddresses ∧ addresses ≠ []
    | _ => True := by
  cases known with
  | f5 | f6 => trivial
  | _ =>
    obtain ⟨hne, h⟩ := ensure_ok.1 h
    cases h
    exact ⟨rfl, hne⟩

/-- A block has at least one word. -/
theorem flowArity_block (hknown : known = .f5 ∨ known = .f6) (h : space.flowArity known = .ok
    words) : ∃ n, words = some n ∧ 1 ≤ n ∧ (known = .f6 → n = space.blockWords) := by
  rcases hknown with rfl | rfl
  · obtain ⟨hpos, h⟩ := ensure_ok.1 h
    exact ⟨_, (Except.ok.inj h).symm, by omega, fun h => by cases h⟩
  · obtain ⟨hpos, -, h⟩ := ensure_ok₂ h
    exact ⟨_, (Except.ok.inj h).symm, hpos, fun _ => rfl⟩

/-- **What is generated is produced.** -/
theorem fresh_produces {exampleUsed exampleUsed' : Bool}
    (h : space.fresh exampleUsed flow s = .ok ((r, exampleUsed'), s')) :
    ∃ known words, space.requireFlow flow = .ok known ∧ space.flowArity known = .ok words ∧
      space.Produces known words r := by
  obtain ⟨known, hflow, h⟩ := lift_bind_eq_ok h
  obtain ⟨words, harity, h⟩ := lift_bind_eq_ok h
  obtain ⟨addresses, haddresses, h⟩ := lift_bind_eq_ok h
  refine ⟨known, words, hflow, harity, ?_⟩
  cases known with
  | f2 =>
    obtain ⟨rfl, hne⟩ := candidates_eq_ok haddresses
    refine of_eq_ok (P := fun p => space.Produces .f2 words p.1) ?_ h
    refine (choice hne fun a ha => ha).bind fun address haddress => ?_
    exact (readOf_returns haddress).bind fun read hread => pure ⟨read, hread.1, rfl⟩
  | f3 =>
    obtain ⟨rfl, hne⟩ := candidates_eq_ok haddresses
    refine of_eq_ok (P := fun p => space.Produces .f3 words p.1) ?_ h
    refine (choice hne fun a ha => ha).bind fun address haddress => ?_
    exact (randomWord_returns _).bind fun v hv => pure ⟨⟨address, v⟩, ⟨haddress, under_natCast hv⟩, rfl⟩
  | f4 =>
    obtain ⟨rfl, hne⟩ := candidates_eq_ok haddresses
    refine of_eq_ok (P := fun p => space.Produces .f4 words p.1) ?_ h
    refine (choice hne fun a ha => ha).bind fun address haddress => ?_
    exact (randomWord_returns _).bind fun v hv => pure ⟨⟨address, v⟩, ⟨haddress, under_natCast hv⟩, rfl⟩
  | f5 =>
    obtain ⟨n, rfl, -⟩ := flowArity_block (.inl rfl) harity
    refine of_eq_ok (P := fun p => space.Produces .f5 (some n) p.1) ?_ h
    exact (freshF5_returns n).bind fun fields hfields => pure ⟨congrArg some hfields.1.symm, hfields.2⟩
  | f6 =>
    obtain ⟨n, rfl, -⟩ := flowArity_block (.inr rfl) harity
    refine of_eq_ok (P := fun p => space.Produces .f6 (some n) p.1) ?_ h
    exact (freshF6_returns exampleUsed n).bind fun fields hfields =>
      pure ⟨congrArg some hfields.1.symm, hfields.2⟩

/-! ## Validity -/

theorem valid_iff (hname : Flow.ofName flow = some known)
    (harity : space.flowArity known = .ok words) (fields : List ℤ) :
    space.valid flow fields = true ↔
      known ∈ space.flows ∧ (∀ v ∈ fields, Under mask32 v) ∧ space.validFields known fields words = true := by
  unfold valid Under
  rw [hname]
  dsimp only
  rw [harity]
  rw [decide_eq_true_eq]

theorem fields_injective (h : read.fields = read'.fields) : read = read' := by
  obtain ⟨a, v⟩ := read
  obtain ⟨a', v'⟩ := read'
  cases v with
  | none =>
    cases v' with
    | none => rw [singleton_inj.1 h]
    | some v' => cases h
  | some v =>
    cases v' with
    | none => cases h
    | some v' =>
      cases h
      rfl

theorem writeFields_injective (h : write.fields = write'.fields) : write = write' := by
  obtain ⟨a, v⟩ := write
  obtain ⟨a', v'⟩ := write'
  cases h
  rfl

/-- A record that is another one unless the flow has no other one. -/
structure MutatedFields (space : WordSpace) (known : Flow) (words : Option ℕ) (fields r : List ℤ) : Prop where
  produces : space.Produces known words r
  length : known ≠ .f2 → r.length = fields.length
  other : r = fields → ∀ r', space.Produces known words r' → r' = fields

theorem mutatedFields_read (h : Mutated space.ReadOk read read') :
    space.MutatedFields .f2 words read.fields read'.fields where
  produces := ⟨read', h.1, rfl⟩
  length hne := absurd rfl hne
  other heq := by
    rintro r' ⟨other, hother, rfl⟩
    rw [h.2 (fields_injective heq) other hother]

theorem mutatedFields_f3 (h : Mutated (WriteOk space.ramAddresses fun _ => mask32) write write') :
    space.MutatedFields .f3 words write.fields write'.fields where
  produces := ⟨write', h.1, rfl⟩
  length _ := rfl
  other heq := by
    rintro r' ⟨other, hother, rfl⟩
    rw [h.2 (writeFields_injective heq) other hother]

theorem mutatedFields_f4 (h : Mutated (WriteOk space.writableAddresses space.maskFor) write write') :
    space.MutatedFields .f4 words write.fields write'.fields where
  produces := ⟨write', h.1, rfl⟩
  length _ := rfl
  other heq := by
    rintro r' ⟨other, hother, rfl⟩
    rw [h.2 (writeFields_injective heq) other hother]

theorem mutatedFields_block (hknown : known = .f5 ∨ known = .f6) {n : ℕ}
    (hlength : fields.length = n) (h : WordsOk n r ∧ r ≠ fields) :
    space.MutatedFields known (some n) fields r where
  produces := by
    rcases hknown with rfl | rfl <;> exact ⟨congrArg some h.1.1.symm, h.1.2⟩
  length _ := h.1.1.trans hlength.symm
  other heq := absurd heq h.2

/-- **What a mutation gives is produced.** -/
theorem mutate_produces (h : space.mutate flow fields s = .ok (r, s')) :
    ∃ known words, space.requireFlow flow = .ok known ∧ space.flowArity known = .ok words ∧
      space.MutatedFields known words fields r := by
  obtain ⟨known, hflow, h⟩ := lift_bind_eq_ok h
  obtain ⟨words, harity, h⟩ := lift_bind_eq_ok h
  obtain ⟨addresses, haddresses, h⟩ := lift_bind_eq_ok h
  obtain ⟨⟨⟩, hvalid, h⟩ := lift_bind_eq_ok h
  refine ⟨known, words, hflow, harity, ?_⟩
  have hvalid := (valid_iff (requireFlow_eq_ok hflow).1 harity fields).1 (ensure_eq_ok.1 hvalid)
  obtain ⟨-, hrange, hfields⟩ := hvalid
  cases known with
  | f2 =>
    obtain ⟨rfl, -⟩ := candidates_eq_ok haddresses
    match fields, hfields with
    | [address], hfields =>
      have hread : space.ReadOk { address := address } := readOk_plain (of_decide_eq_true hfields)
      refine of_eq_ok (P := space.MutatedFields .f2 words [address]) ?_ h
      exact (mutateF2_returns hread).bind fun read hmutated => pure (mutatedFields_read hmutated)
    | [address, stimulus], hfields =>
      obtain ⟨hpadin, hle⟩ := of_decide_eq_true hfields
      have hnonneg := (hrange stimulus (by simp)).1
      have hread : space.ReadOk ⟨address, some stimulus⟩ :=
        ⟨padin_mem hpadin, fun v hv => ⟨hpadin, Option.some.inj hv ▸ ⟨hnonneg, hle⟩⟩⟩
      refine of_eq_ok (P := space.MutatedFields .f2 words [address, stimulus]) ?_ h
      exact (mutateF2_returns hread).bind fun read hmutated => pure (mutatedFields_read hmutated)
  | f3 =>
    obtain ⟨rfl, -⟩ := candidates_eq_ok haddresses
    match fields, hfields with
    | [address, value], hfields =>
      have hwrite : WriteOk space.ramAddresses (fun _ => mask32) ⟨address, value⟩ :=
        ⟨of_decide_eq_true hfields, hrange value (by simp)⟩
      refine of_eq_ok (P := space.MutatedFields .f3 words [address, value]) ?_ h
      exact (mutateF3_returns hwrite).bind fun write hmutated => pure (mutatedFields_f3 hmutated)
  | f4 =>
    obtain ⟨rfl, -⟩ := candidates_eq_ok haddresses
    match fields, hfields with
    | [address, value], hfields =>
      have hmutate := @mutateF4_returns space ⟨address, value⟩ (of_decide_eq_true hfields)
      refine of_eq_ok (P := space.MutatedFields .f4 words [address, value]) ?_ h
      exact hmutate.bind fun write hmutated => pure (mutatedFields_f4 hmutated)
  | f5 =>
    obtain ⟨n, rfl, hpos, -⟩ := flowArity_block (.inl rfl) harity
    have hlength : fields.length = n := (Option.some.inj (of_decide_eq_true hfields)).symm
    exact mutatedFields_block (.inl rfl) hlength
      ((mutateValues_returns hpos ⟨hlength, hrange⟩).of_eq_ok h)
  | f6 =>
    obtain ⟨n, rfl, hpos, hn⟩ := flowArity_block (.inr rfl) harity
    have hlength : fields.length = n := (of_decide_eq_true hfields).trans (hn rfl).symm
    exact mutatedFields_block (.inr rfl) hlength
      ((mutateValues_returns hpos ⟨hlength, hrange⟩).of_eq_ok h)

/-! ## The law -/

/-- An address that takes pin values. -/
def PinRegister (space : WordSpace) (address : ℤ) : Prop :=
  space.padinAddress = some address ∨ space.padinAddress ≠ none ∧ ∃ row ∈ space.registerRows,
    space.casing.upper row.name ∈ ["PADOUT", "PADOUTSET", "PADOUTCLR"] ∧ row.address = address

theorem maskFor_of_pinRegister (h : space.PinRegister address) : space.maskFor address = space.pinMask := by
  unfold maskFor
  cases hpadin : space.padinAddress with
  | none =>
    rcases h with h | h
    · rw [hpadin] at h
      cases h
    · exact absurd hpadin h.1
  | some padin =>
    refine if_pos ?_
    unfold pinMaskAddresses
    rw [hpadin]
    rcases h with h | ⟨-, row, hrow, hname, rfl⟩
    · rw [hpadin, Option.some.injEq] at h
      exact mem_append_right _ (mem_singleton.2 h.symm)
    · refine mem_append_left _ (mem_map.2 ⟨row, mem_filter.2 ⟨hrow, ?_⟩, rfl⟩)
      rw [decide_eq_true_eq]
      exact hname

/-- **What a flow may say to an address.** -/
def Declared (space : WordSpace) : Flow → List ℤ → Prop
  | .f2, [address] =>
    space.DeclaredRegister ["ro", "rw"] address ∨ space.padinAddress = some address ∨ space.DataWord address
  | .f2, [address, stimulus] => space.padinAddress = some address ∧ Under space.pinMask stimulus
  | .f3, [address, value] => space.DataWord address ∧ Under mask32 value
  | .f4, [address, value] => space.DeclaredRegister ["wo", "rw"] address ∧ Under mask32 value ∧
      (space.PinRegister address → Under space.pinMask value)
  | .f5, fields => ∀ v ∈ fields, Under mask32 v
  | .f6, fields => ∀ v ∈ fields, Under mask32 v
  | _, _ => False

/-- The flow's records start with an address. -/
def Addressed (flow : Flow) : Prop := flow = .f2 ∨ flow = .f3 ∨ flow = .f4

/-- **A legal record**: it is accepted, its address is an aligned 32-bit one, and both are declared. -/
structure Legal (space : WordSpace) (flow : String) (fields : List ℤ) : Prop where
  valid : space.valid flow fields = true
  declared : ∃ known, Flow.ofName flow = some known ∧ space.Declared known fields ∧
    (Addressed known → ∃ address, fields.head? = some address ∧ address % 4 = 0 ∧ Under mask32 address)

/-- Some draws, in `fresh` or in a mutation of a valid record, give the record. -/
def CanProduce (space : WordSpace) (flow : String) (r : List ℤ) : Prop :=
  (∃ used used' s s', space.fresh used flow s = .ok ((r, used'), s')) ∨
    ∃ fields s s', space.valid flow fields = true ∧ space.mutate flow fields s = .ok (r, s')

/-- **The law of a flow.** -/
structure Lawful (space : WordSpace) (flow : String) : Prop where
  fresh : ∀ {used used' s s' r}, space.fresh used flow s = .ok ((r, used'), s') → space.Legal flow r
  mutate : ∀ {fields s s' r}, space.valid flow fields = true → space.mutate flow fields s = .ok (r, s') →
    space.Legal flow r
  length : ∀ {fields s s' r}, flow ≠ "F2" → space.valid flow fields = true →
    space.mutate flow fields s = .ok (r, s') → r.length = fields.length
  differs : ∀ {fields s s' r}, space.valid flow fields = true → space.mutate flow fields s = .ok (r, s') →
    (∃ r', r' ≠ fields ∧ space.CanProduce flow r') → r ≠ fields

theorem canProduce_produces (h : space.CanProduce flow r) :
    ∃ known words, space.requireFlow flow = .ok known ∧ space.flowArity known = .ok words ∧
      space.Produces known words r := by
  rcases h with ⟨used, used', s, s', h⟩ | ⟨fields, s, s', -, h⟩
  · exact fresh_produces h
  · obtain ⟨known, words, hflow, harity, hmutated⟩ := mutate_produces h
    exact ⟨known, words, hflow, harity, hmutated.produces⟩

/-- The addresses of the data window are not below zero. -/
def WindowNonneg (space : WordSpace) : Prop := space.ramAddresses ≠ [] → 0 ≤ space.dataBase

theorem under_of_mem_ram (hwindow : space.WindowNonneg) (h : address ∈ space.ramAddresses) :
    Under mask32 address := by
  obtain ⟨-, -, hle, hbase⟩ := dataWord_of_mem h
  exact ⟨(hwindow (ne_nil_of_mem h)).trans hbase, hle⟩

/-- The addresses of a read. -/
theorem mem_f2_law (hwindow : space.WindowNonneg) (h : address ∈ space.f2Addresses) :
    (space.DeclaredRegister ["ro", "rw"] address ∨ space.padinAddress = some address ∨
      space.DataWord address) ∧
      address % 4 = 0 ∧ Under mask32 address := by
  rcases mem_f2Addresses.1 h with h | h | h
  · have hdeclared := declaredRegister_of_mem h
    exact ⟨.inl hdeclared, hdeclared.aligned⟩
  · exact ⟨.inr (.inl h), padin_aligned h⟩
  · obtain ⟨hword, haligned, -⟩ := dataWord_of_mem h
    exact ⟨.inr (.inr hword), haligned, under_of_mem_ram hwindow h⟩

/-- **What is produced is legal**, where the window is not below zero. -/
theorem legal_of_produces (hflow : space.requireFlow flow = .ok known)
    (harity : space.flowArity known = .ok words)
    (hwindow : known = .f2 ∨ known = .f3 → space.WindowNonneg) (h : space.Produces known words r) :
    space.Legal flow r := by
  obtain ⟨hname, hserved⟩ := requireFlow_eq_ok hflow
  cases known with
  | f2 =>
    obtain ⟨⟨address, stimulus⟩, hread, rfl⟩ := h
    obtain ⟨hdeclared, haligned, hunder⟩ := mem_f2_law (hwindow (.inl rfl)) hread.address
    cases stimulus with
    | none =>
      refine ⟨(valid_iff hname harity _).2 ⟨hserved, ?_, decide_eq_true hread.address⟩, .f2, hname, hdeclared,
        fun _ => ⟨address, rfl, haligned, hunder⟩⟩
      intro v hv
      rw [mem_singleton.1 hv]
      exact hunder
    | some stimulus =>
      obtain ⟨hpadin, hpin⟩ := hread.stimulus stimulus rfl
      refine ⟨(valid_iff hname harity _).2 ⟨hserved, ?_, decide_eq_true ⟨hpadin, hpin.2⟩⟩, .f2, hname,
        ⟨hpadin, hpin⟩, fun _ => ⟨address, rfl, haligned, hunder⟩⟩
      intro v hv
      rcases mem_cons.1 hv with rfl | hv
      · exact hunder
      · rw [mem_singleton.1 hv]
        exact hpin.mono (le_mask32 (isMask_pinMask space))
  | f3 =>
    obtain ⟨⟨address, value⟩, hwrite, rfl⟩ := h
    obtain ⟨hword, haligned, -⟩ := dataWord_of_mem hwrite.address
    have hunder := under_of_mem_ram (hwindow (.inr rfl)) hwrite.address
    refine ⟨(valid_iff hname harity _).2 ⟨hserved, ?_, decide_eq_true hwrite.address⟩, .f3, hname,
      ⟨hword, hwrite.value⟩, fun _ => ⟨address, rfl, haligned, hunder⟩⟩
    intro v hv
    rcases mem_cons.1 hv with rfl | hv
    · exact hunder
    · rw [mem_singleton.1 hv]
      exact hwrite.value
  | f4 =>
    obtain ⟨⟨address, value⟩, hwrite, rfl⟩ := h
    have hdeclared := declaredRegister_of_mem hwrite.address
    have hvalue := hwrite.value.mono (le_mask32 (isMask_maskFor space address))
    refine ⟨(valid_iff hname harity _).2 ⟨hserved, ?_, decide_eq_true hwrite.address⟩, .f4, hname,
      ⟨hdeclared, hvalue, fun hpin => maskFor_of_pinRegister hpin ▸ hwrite.value⟩,
      fun _ => ⟨address, rfl, hdeclared.aligned⟩⟩
    intro v hv
    rcases mem_cons.1 hv with rfl | hv
    · exact hdeclared.aligned.2
    · rw [mem_singleton.1 hv]
      exact hvalue
  | f5 =>
    refine ⟨(valid_iff hname harity _).2 ⟨hserved, h.2, decide_eq_true h.1⟩, .f5, hname, h.2,
      fun haddressed => ?_⟩
    rcases haddressed with h | h | h <;> cases h
  | f6 =>
    obtain ⟨n, rfl, -, hn⟩ := flowArity_block (.inr rfl) harity
    refine ⟨(valid_iff hname harity _).2 ⟨hserved, h.2, decide_eq_true ?_⟩, .f6, hname, h.2,
      fun haddressed => ?_⟩
    · exact (Option.some.inj h.1).symm.trans (hn rfl)
    · rcases haddressed with h | h | h <;> cases h

theorem head?_fields (read : Read) : read.fields.head? = some read.address := by
  obtain ⟨address, stimulus⟩ := read
  cases stimulus with
  | none | some stimulus => rfl

/-- **The base of the window can be drawn.** -/
theorem can_draw_dataBase (hname : Flow.ofName flow = some known)
    (hknown : known = .f2 ∨ known = .f3) (harity : space.flowArity known = .ok words)
    (hram : space.ramAddresses ≠ []) :
    Can (space.fresh false flow) fun p => p.1.head? = some space.dataBase := by
  have hbase := dataBase_mem hram
  have hf2 : space.dataBase ∈ space.f2Addresses := mem_f2Addresses.2 (.inr (.inr hbase))
  have hserved : known ∈ space.flows := by
    unfold flows
    rcases hknown with rfl | rfl <;> simp
  have hflow : space.requireFlow flow = .ok known := by
    unfold requireFlow
    rw [hname]
    dsimp only
    rw [ensure_of hserved, ok_bind]
    rfl
  refine (Draws.lift hflow).bind ((Draws.lift harity).bind ?_)
  rcases hknown with rfl | rfl
  · have hcandidates : space.candidates .f2 = .ok space.f2Addresses := by
      unfold candidates
      rw [ensure_of (ne_nil_of_mem hf2), ok_bind]
      rfl
    refine (Draws.lift hcandidates).bind ((Draws.choice hf2).bind ?_)
    exact ((readOf_returns hf2).bind fun read hread => pure (by
      rw [← hread.2]
      exact head?_fields read)).can
  · have hcandidates : space.candidates .f3 = .ok space.ramAddresses := by
      unfold candidates
      rw [ensure_of hram, ok_bind]
      rfl
    refine (Draws.lift hcandidates).bind ((Draws.choice hbase).bind ?_)
    refine can ((randomWord_returns mask32).bind fun v _ => pure ?_)
    rfl

/-- **The law of the flows**: it holds of a flow exactly when the flow draws no address below zero, and only
`F2` and `F3` draw from the data window. -/
theorem lawful_iff (space : WordSpace) (flow : String) : space.Lawful flow ↔
    ∀ known words, Flow.ofName flow = some known → known = .f2 ∨ known = .f3 →
      space.flowArity known = .ok words → space.ramAddresses ≠ [] → 0 ≤ space.dataBase := by
  constructor
  · intro hlaw known words hname hknown harity hram
    obtain ⟨s, ⟨r, used'⟩, s', h, hhead⟩ := can_draw_dataBase hname hknown harity hram
    obtain ⟨known', hname', -, haddress⟩ := (hlaw.fresh h).declared
    obtain rfl : known = known' := Option.some.inj (hname.symm.trans hname')
    obtain ⟨address, haddress, -, hunder⟩ := haddress (hknown.imp_right .inl)
    obtain rfl : space.dataBase = address := Option.some.inj (hhead.symm.trans haddress)
    exact hunder.1
  · intro hwindow
    have hlegal : ∀ {known words r}, space.requireFlow flow = .ok known → space.flowArity known = .ok words →
        space.Produces known words r → space.Legal flow r := fun hflow harity hr =>
      legal_of_produces hflow harity (fun hknown => hwindow _ _ (requireFlow_eq_ok hflow).1 hknown harity) hr
    refine ⟨fun h => ?_, fun _ h => ?_, fun hne _ h => ?_, fun _ h hother heq => ?_⟩
    · obtain ⟨known, words, hflow, harity, hr⟩ := fresh_produces h
      exact hlegal hflow harity hr
    · obtain ⟨known, words, hflow, harity, hmutated⟩ := mutate_produces h
      exact hlegal hflow harity hmutated.produces
    · obtain ⟨known, words, hflow, harity, hmutated⟩ := mutate_produces h
      refine hmutated.length fun hknown => hne ?_
      subst hknown
      have hname := (requireFlow_eq_ok hflow).1
      have hfound := List.find?_some hname
      exact (of_decide_eq_true hfound).symm
    · obtain ⟨known, words, hflow, harity, hmutated⟩ := mutate_produces h
      obtain ⟨r', hne, hproduce⟩ := hother
      obtain ⟨known', words', hflow', harity', hproduces⟩ := canProduce_produces hproduce
      obtain rfl : known = known' := Except.ok.inj (hflow.symm.trans hflow')
      obtain rfl : words = words' := Except.ok.inj (harity.symm.trans harity')
      exact hne (hmutated.other heq r' hproduces)

/-- A RAM image and its data window that start below zero. -/
def negativeWindow : WordSpace where
  casing := ⟨String.toUpper, String.toLower⟩
  declaration := {
    ramBase := .int (-8), ramSize := .int 16, dataBase := .int (-8), targetBase :=
      .int 0, targetSize := .int 0
    arity := fun _ => none, registers := [], pins := none }

/-- **An address below zero is drawn**, and refused by the declaration it was drawn from. -/
theorem negative_drawn : (∃ s s', negativeWindow.fresh false "F3" s = .ok (([-8, 0], false), s')) ∧
    negativeWindow.valid "F3" [-8, 0] = false :=
  ⟨⟨fun _ => 0, fun _ => 0, rfl⟩, rfl⟩

end WordSpace

end WordSpaces

end MyFuzz
