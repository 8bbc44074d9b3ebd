import MyFuzz.Fuzz.F1Rv64Encoding
import MyFuzz.Fuzz.F1Rv64Portable

/-!
# Fuzz/F1Rv64Admissible — what the generator promises, and what its fields keep

A draft keeps, word by word, what the validator will ask of it:

    sources written before · no reserved destination · an offset inside the window, on a doubleword

Two things are lost on the way through the words: the low bits of the first immediate, and an offset
of 2048 or more.
-/

namespace MyFuzz

namespace F1Rv64

open Outcome Draw.Returns List

/-! ## What the validator asks -/

/-- The registers that are written after some words. -/
def writtenAfter (written : List ℕ) (operands : List Decoded) : List ℕ :=
  operands.foldl (fun written d => if d.rd ≠ 0 then d.rd :: written else written) written

theorem writtenAfter_concat (written : List ℕ) (operands : List Decoded) (d : Decoded) :
    writtenAfter written (operands ++ [d]) =
      if d.rd ≠ 0 then d.rd :: writtenAfter written operands else writtenAfter written operands := by
  rw [writtenAfter, foldl_append]
  rfl

/-- **What a draw brings**: operands of a form, that the registers written before them allow. -/
structure Drawable (windowBytes : ℤ) (written : List ℕ) (d : Decoded) : Prop where
  form : d.Form
  sources : ∀ r ∈ readRegisters d, r ∈ written ∨ r = 0 ∨ r = 18
  rd : d.rd ∉ reservedDestinations
  access : d.Accesses → d.rs1 = 18 ∧ 0 ≤ d.imm ∧ d.imm % 8 = 0 ∧ d.imm ≤ windowBytes - 8

/-- Every word is drawable after the words before it. -/
def Disciplined (windowBytes : ℤ) : List ℕ → List Decoded → Prop
  | _, [] => True
  | written, d :: operands => Drawable windowBytes written d ∧
      Disciplined windowBytes (if d.rd ≠ 0 then d.rd :: written else written) operands

theorem Disciplined.concat {windowBytes : ℤ} {d : Decoded} : ∀ {operands : List Decoded} {written : List ℕ},
    Disciplined windowBytes written operands → Drawable windowBytes (writtenAfter written operands) d →
    Disciplined windowBytes written (operands ++ [d])
  | [], _, _, hd => ⟨hd, trivial⟩
  | _ :: _, _, h, hd => ⟨h.1, h.2.concat hd⟩

theorem Disciplined.form {windowBytes : ℤ} : ∀ {operands : List Decoded} {written : List ℕ},
    Disciplined windowBytes written operands → ∀ d ∈ operands, d.Form
  | [], _, _ => nofun
  | _ :: _, _, h => forall_mem_cons.2 ⟨h.1.form, h.2.form⟩

theorem Disciplined.offset {windowBytes : ℤ} : ∀ {operands : List Decoded} {written : List ℕ},
    Disciplined windowBytes written operands → ∀ d ∈ operands, d.Accesses → 0 ≤ d.imm ∧
      d.imm ≤ windowBytes - 8
  | [], _, _ => nofun
  | _ :: _, _, h => forall_mem_cons.2
      ⟨fun hmemory => ⟨(h.1.access hmemory).2.1, (h.1.access hmemory).2.2.2⟩, h.2.offset⟩

/-- **The validator accepts words that keep the offsets of a disciplined program.** -/
theorem Disciplined.checkWords {windowBytes : ℤ} : ∀ {operands : List Decoded} {written : List ℕ} (index : ℕ),
    Disciplined windowBytes written operands → (∀ d ∈ operands, d.Accesses → d.keptImm = d.imm) →
    checkWords windowBytes index written (operands.map encode) = .ok ()
  | [], _, _, _, _ => rfl
  | d :: _, written, index, ⟨hd, h⟩, hkept => by
      have hword : checkWord windowBytes index written (encode d) =
          .ok (if d.rd ≠ 0 then d.rd :: written else written) := by
        rw [checkWord, decode_encoded hd.form, ok_bind]
        have haccess : checkAccess windowBytes index d.kept = .ok () := by
          unfold checkAccess
          by_cases hmemory : d.Accesses
          · obtain ⟨hbase, hlow, haligned, hhigh⟩ := hd.access hmemory
            have himm := hkept d mem_cons_self hmemory
            rw [if_pos (show d.kept.name = .ld ∨ d.kept.name = .sd from hmemory),
              ensure_of (show d.kept.rs1 = 18 from hbase), ok_bind]
            refine ensure_of ?_ _
            rw [show d.kept.imm = d.imm from himm]
            omega
          · exact if_neg hmemory
        rw [haccess, ok_bind]
        have hsources : (readRegisters d.kept).forM (m := Except Exn) (fun source =>
            ensure (source ∈ written ∨ source = 0 ∨ source = 18)
              (.valueError ("F1 RV64 word " ++ toString index ++
              " reads x" ++ toString source ++
              " before this program wrote it; the reference trace would depend on firmware state")))
                = .ok () :=
          forM_eq_ok.2 fun r hr => ensure_of (hd.sources r hr) _
        rw [hsources, ok_bind, ensure_of (show d.kept.rd ∉ reservedDestinations from hd.rd), ok_bind]
        rfl
      rw [map_cons, F1Rv64.checkWords, hword, ok_bind]
      exact h.checkWords (index + 1) fun d' hd' => hkept d' (mem_cons_of_mem d hd')

/-! ## What the generator keeps -/

theorem tempRegisters_free : ∀ r ∈ tempRegisters, r < 32 ∧ r ≠ 0 ∧ r ∉ reservedDestinations := by decide

@[simp] theorem operands_write (draft : Draft) (rd : ℕ) : (draft.write rd).operands = draft.operands := by
  unfold Draft.write
  split_ifs <;> rfl

/-- A word after the first one: its field keeps the immediate, unless it is an offset. -/
def Later (d : Decoded) : Prop := d.name ≠ .lui ∧ (¬ d.Accesses → d.keptImm = d.imm)

/-- **A draft and its written registers.** -/
structure Draft.Sound (windowBytes : ℤ) (draft : Draft) : Prop where
  written_ne : draft.written ≠ []
  temporary : ∀ r ∈ draft.written, r ∈ tempRegisters
  known : ∀ r ∈ draft.written, r ∈ writtenAfter [0] draft.operands
  first : ∃ rd, ∃ imm ∈ upperImmediates, ∃ rest,
    draft.operands = { name := .lui, rd := rd, imm := imm } :: rest ∧ ∀ d ∈ rest, Later d
  disciplined : Disciplined windowBytes [0] draft.operands

variable {windowBytes : ℤ} {draft : Draft} {d : Decoded}

theorem Draft.Sound.append (h : draft.Sound windowBytes) (hd : Drawable windowBytes draft.written d)
    (hlater : Later d) :
    (draft.append d).Sound windowBytes := by
  obtain ⟨hne, htemp, hknown, ⟨rd, imm, himm, rest, hfirst, hrest⟩, hdisciplined⟩ := h
  refine ⟨hne, htemp, fun r hr => ?_, ⟨rd, imm, himm, rest ++ [d], ?_, fun d' hd' => ?_⟩, ?_⟩
  · rw [Draft.append, writtenAfter_concat]
    split_ifs
    · exact .tail _ (hknown r hr)
    · exact hknown r hr
  · rw [Draft.append, hfirst, cons_append]
  · rcases mem_append.1 hd' with hd' | hd'
    · exact hrest d' hd'
    · rwa [mem_singleton.1 hd']
  · refine hdisciplined.concat ⟨hd.form, fun r hr => ?_, hd.rd, hd.access⟩
    exact (hd.sources r hr).imp (hknown r) id

variable {rd maxWords : ℕ} {imm : ℤ} {operands : List Decoded} {written : List ℕ}

/-- The register of the last word may be listed as written. -/
theorem Draft.Sound.write (h : draft.Sound windowBytes) (htemp : rd ∈ tempRegisters)
    (hknown : rd ∈ writtenAfter [0] draft.operands) : (draft.write rd).Sound windowBytes := by
  unfold Draft.write
  split_ifs
  · exact h
  · refine ⟨by simp, fun r hr => ?_, fun r hr => ?_, h.first, h.disciplined⟩
    · rcases mem_append.1 hr with hr | hr
      · exact h.temporary r hr
      · rwa [mem_singleton.1 hr]
    · rcases mem_append.1 hr with hr | hr
      · exact h.known r hr
      · rwa [mem_singleton.1 hr]

/-- An offset of a doubleword of the window. -/
theorem returns_drawOffset (hwindow : 8 ≤ windowBytes) :
    Draw.Returns (drawOffset windowBytes) fun offset => 0 ≤ offset ∧ offset % 8 = 0 ∧
      offset ≤ windowBytes - 8 := by
  refine (randrange (by omega)).bind fun n hn => pure ⟨?_, ?_, ?_⟩ <;> omega

/-- What one more word makes of a draft. -/
def Extends (windowBytes : ℤ) (draft next : Draft) : Prop :=
  next.Sound windowBytes ∧ ∃ d, next.operands = draft.operands ++ [d]

theorem returns_drawStore (hwindow : 8 ≤ windowBytes) (h : draft.Sound windowBytes) :
    Draw.Returns (drawStore windowBytes draft) (Extends windowBytes draft) := by
  refine (returns_drawOffset hwindow).bind fun offset hoffset => ?_
  refine (choice h.written_ne fun r hr => hr).bind fun target htarget => pure ⟨?_, _, rfl⟩
  have hlt := (tempRegisters_free target (h.temporary target htarget)).1
  refine h.append ⟨.store 18 target offset (by decide) hlt, fun r hr => ?_,
    (by decide : 0 ∉ reservedDestinations), fun _ => ⟨rfl, hoffset⟩⟩
    ⟨(by decide : Name.sd ≠ .lui), fun hmemory => absurd (.inr rfl) hmemory⟩
  simp only [readRegisters, reduceCtorEq, if_false, mem_cons, not_mem_nil, or_false] at hr
  rcases hr with rfl | rfl
  · exact .inr (.inr rfl)
  · exact .inl htarget

theorem returns_drawLoad (hwindow : 8 ≤ windowBytes) (h : draft.Sound windowBytes) :
    Draw.Returns (drawLoad windowBytes draft) (Extends windowBytes draft) := by
  refine (returns_drawOffset hwindow).bind fun offset hoffset => ?_
  have hchoice : ∀ r ∈ (if (tempRegisters.filter fun reg => reg ∉ draft.written) = [] then tempRegisters
      else tempRegisters.filter fun reg => reg ∉ draft.written), r ∈ tempRegisters := fun r hr => by
    split_ifs at hr
    · exact hr
    · exact mem_of_mem_filter hr
  refine (choice ?_ hchoice).bind fun rd hrd => ?_
  · split_ifs with hfresh
    · decide
    · exact hfresh
  obtain ⟨hlt, hzero, hfree⟩ := tempRegisters_free rd hrd
  have hsound := h.append (d := { name := .ld, rd := rd, rs1 := 18, imm := offset })
    ⟨.immediate rd 18 offset (by decide) hlt (by decide), fun r hr => .inr (.inr ?_), hfree,
      fun _ => ⟨rfl, hoffset⟩⟩
    ⟨(by decide : Name.ld ≠ .lui), fun hmemory => absurd (.inl rfl) hmemory⟩
  · refine pure ⟨hsound.write hrd ?_, { name := .ld, rd := rd, rs1 := 18, imm := offset }, ?_⟩
    · rw [Draft.append, writtenAfter_concat, if_pos hzero]
      exact .head _
    · exact operands_write _ rd
  · simpa [readRegisters] using hr

/-- A word that is no access and whose field keeps its immediate. -/
theorem Draft.Sound.append_alu (h : draft.Sound windowBytes) (hform : d.Form) (hrd : d.rd ∈ draft.written)
    (hsources : ∀ r ∈ readRegisters d, r ∈ draft.written ∨ r = 0 ∨ r = 18)
    (hname : d.name ∉ [Name.lui, .ld, .sd]) (hkept : d.keptImm = d.imm) :
    Extends windowBytes draft (draft.append d) := by
  simp only [mem_cons, not_mem_nil, or_false, not_or] at hname
  obtain ⟨hlui, hld, hsd⟩ := hname
  refine ⟨h.append ⟨hform, hsources, (tempRegisters_free _ (h.temporary _ hrd)).2.2, fun hmemory => ?_⟩
    ⟨hlui, fun _ => hkept⟩, d, rfl⟩
  exact absurd hmemory (not_or.2 ⟨hld, hsd⟩)

theorem immediates_kept : ∀ imm ∈ immediates, -2 ^ 11 ≤ imm ∧ imm < 2 ^ 11 := by decide

theorem returns_drawAlu (h : draft.Sound windowBytes) :
    Draw.Returns (drawAlu draft) (Extends windowBytes draft) := by
  refine (choice h.written_ne fun r hr => hr).bind fun rd hrd => ?_
  have hlt : ∀ r ∈ draft.written, r < 32 := fun r hr => (tempRegisters_free r (h.temporary r hr)).1
  refine (choice (by decide) fun name hname => hname).bind fun name hname => ?_
  by_cases himmediate : name = .addi ∨ name = .addiw
  · rw [if_pos himmediate]
    refine (choice (by decide) immediates_kept).bind fun imm himm => pure ?_
    have hkept := (sext_mask32_eq_iff imm).2 himm
    rcases himmediate with rfl | rfl
    · exact h.append_alu (.immediate rd rd imm (by decide) (hlt rd hrd) (hlt rd hrd)) hrd
        (by simp [readRegisters, hrd]) (by simp) hkept
    · exact h.append_alu (.immediate rd rd imm (by decide) (hlt rd hrd) (hlt rd hrd)) hrd
        (by simp [readRegisters, hrd]) (by simp) hkept
  rw [if_neg himmediate]
  split_ifs with hshift
  · refine (randrange (by decide)).bind fun shamt hshamt => pure ?_
    have hamount : shamt.toNat < 32 := by omega
    rcases hshift with rfl | rfl | rfl
    all_goals
      refine h.append_alu (.shift rd rd shamt.toNat ?_ (hlt rd hrd) (hlt rd hrd) hamount) hrd ?_ ?_ rfl
      · simp
      · simp [readRegisters, hrd]
      · simp
  · refine (choice (by simp) fun r hr => hr).bind fun source hsource => pure ?_
    have hsource' : source ∈ draft.written ∨ source = 18 := by simpa using hsource
    have hsourceLt : source < 32 := by
      rcases hsource' with hmem | rfl
      · exact hlt source hmem
      · decide
    have hregister : name ∈ [Name.add, .sub, .and, .or, .xor, .addw] := by
      revert hname himmediate hshift
      cases name <;> decide
    refine h.append_alu (.register rd rd source hregister (hlt rd hrd) (hlt rd hrd) hsourceLt) hrd
      (fun r hr => ?_) ?_ ?_
    · rw [readRegisters, if_neg (by rintro rfl; exact absurd hregister (by decide))] at hr
      rcases mem_pair.1 hr with rfl | rfl
      · exact .inl hrd
      · exact hsource'.imp id .inr
    all_goals
      revert hregister
      cases name <;> simp [Decoded.keptImm]

/-- **One more word keeps a draft sound.** -/
theorem returns_drawWord (hwindow : 8 ≤ windowBytes) (h : draft.Sound windowBytes) :
    Draw.Returns (drawWord windowBytes draft) (Extends windowBytes draft) := by
  intro s
  unfold drawWord
  rw [Draw.bind_apply, Draw.next, Outcome.ok_bind]
  split_ifs
  · exact returns_drawStore hwindow h _
  · exact returns_drawLoad hwindow h _
  · exact returns_drawAlu h _

/-- The draft of the first word. -/
theorem sound_start (hrd : rd ∈ tempRegisters) (himm : imm ∈ upperImmediates) :
    Draft.Sound windowBytes ⟨[{ name := .lui, rd := rd, imm := imm }], [rd]⟩ := by
  obtain ⟨hlt, hzero, hfree⟩ := tempRegisters_free rd hrd
  refine ⟨by simp, by simpa using hrd, ?_, ⟨rd, imm, himm, [], rfl, by simp⟩,
    ⟨.upper rd imm hlt, ?_, hfree, ?_⟩, trivial⟩
  · simp [writtenAfter, hzero]
  · simp [readRegisters]
  · exact fun hmemory => absurd hmemory (by simp [Decoded.Accesses])

/-- **Whatever is drawn, the operands are those of a sound draft, one for each word.** -/
theorem returns_drawOperands (hwords : 1 ≤ maxWords) (hwindow : 8 ≤ windowBytes) :
    Draw.Returns (drawOperands maxWords windowBytes) fun operands =>
      operands.length = maxWords ∧ ∃ written, Draft.Sound windowBytes ⟨operands, written⟩ := by
  refine (choice (by decide) fun r hr => hr).bind fun rd hrd => ?_
  refine (choice (by decide) fun imm himm => himm).bind fun imm himm => ?_
  have hrounds := rounds_until (P := fun draft : Draft => draft.Sound windowBytes ∧
    draft.operands.length ≤ maxWords)
    (fun draft => decide (draft.operands.length < maxWords)) (f := drawWord windowBytes)
    (fun draft => maxWords - draft.operands.length) (fun draft hready hdraft => ?_) maxWords
    (a := ⟨[{ name := .lui, rd := rd, imm := imm }], [rd]⟩) ⟨sound_start hrd himm, hwords⟩ (Nat.sub_le _ _)
  · refine hrounds.bind fun draft hdraft => pure ⟨?_, draft.written, hdraft.1.1⟩
    exact le_antisymm hdraft.1.2 (not_lt.1 (of_decide_eq_false hdraft.2))
  · have hlt : draft.operands.length < maxWords := of_decide_eq_true hready
    refine (returns_drawWord hwindow hdraft.1).mono fun next ⟨hsound, d, hnext⟩ => ?_
    have hlength : next.operands.length = draft.operands.length + 1 := by rw [hnext, length_append]; rfl
    exact ⟨⟨hsound, by omega⟩, by omega⟩

/-! ## The promise -/

/-- **The words are accepted, and some of them return the operands they were encoded from.** -/
def Admissible (maxWords : ℕ) (windowBytes : ℤ) (operands returned : List Decoded) : Prop :=
  validateRv64Record (.words (operands.map fun d => (encode d : ℤ))) maxWords windowBytes =
      .ok (operands.map encode) ∧
    ∀ d ∈ returned, decode (encode d) = .ok d

theorem encode_lt (d : Decoded) : encode d < 2 ^ 32 := by
  unfold encode
  split <;> exact lt_of_le_of_lt Nat.and_le_right (by decide)

/-- The validator takes the words for themselves. -/
theorem validate_eq_ok (hne : operands ≠ []) (hle : operands.length ≤ maxWords)
    (hcheck : checkWords windowBytes 0 [0] (operands.map encode) = .ok ()) :
    validateRv64Record (.words (operands.map fun d => (encode d : ℤ))) maxWords windowBytes =
      .ok (operands.map encode) := by
  have hwords : (operands.map fun d => (encode d : ℤ)).map mask32 = operands.map encode := by
    rw [map_map]
    exact map_congr_left fun d _ => mask32_natCast (encode_lt d)
  rw [validateRv64Record, recordWords, ok_bind, hwords, ensure_of (by simpa using hne), ok_bind,
    ensure_of (by simpa using hle), ok_bind, hcheck]
  rfl

/-- The first word never returns its operands. -/
theorem upper_not_kept (himm : imm ∈ upperImmediates) :
    Decoded.keptImm { name := .lui, rd := rd, imm := imm } ≠ imm := by
  revert himm
  revert imm
  exact (by decide : ∀ imm ∈ upperImmediates, ((mask32 imm &&& 0xFFFFF000 : ℕ) : ℤ) ≠ imm)

/-- An access returns its operands exactly when its offset has twelve signed bits. -/
theorem access_kept_iff (h : d.Accesses) : d.keptImm = d.imm ↔ -2 ^ 11 ≤ d.imm ∧ d.imm < 2 ^ 11 := by
  rw [← sext_mask32_eq_iff, Decoded.keptImm]
  rcases h with hname | hname
  all_goals rw [hname]

/-- **Behind the first word the promise holds exactly when no offset is too long for its field.** -/
theorem admissible_tail_iff (h : Draft.Sound windowBytes ⟨operands, written⟩)
    (hle : operands.length ≤ maxWords) :
    Admissible maxWords windowBytes operands operands.tail ↔ ∀ d ∈ operands, d.Accesses → d.imm < 2 ^ 11 := by
  obtain ⟨rd, imm, -, rest, hfirst, hrest⟩ := h.first
  change operands = _ at hfirst
  have hupper : ¬ Decoded.Accesses { name := .lui, rd := rd, imm := imm } := by simp [Decoded.Accesses]
  have hform := h.disciplined.form
  constructor
  · rintro ⟨-, hreturned⟩ d hd hmemory
    rw [hfirst] at hd hreturned
    rcases mem_cons.1 hd with rfl | hd'
    · exact absurd hmemory hupper
    · exact ((access_kept_iff hmemory).1 ((decode_encode_iff (hform d (hfirst ▸ hd))).1 (hreturned d hd'))).2
  · intro hshort
    have hkept : ∀ d ∈ operands, d.Accesses → d.keptImm = d.imm := fun d hd hmemory =>
      (access_kept_iff hmemory).2 ⟨by have := h.disciplined.offset d hd hmemory; omega, hshort d hd hmemory⟩
    refine ⟨validate_eq_ok (by rw [hfirst]; simp) hle (h.disciplined.checkWords 0 hkept), fun d hd => ?_⟩
    have hmem : d ∈ operands := mem_of_mem_tail hd
    refine (decode_encode_iff (hform d hmem)).2 ?_
    by_cases hmemory : d.Accesses
    · exact hkept d hmem hmemory
    · rw [hfirst] at hd
      exact (hrest d hd).2 hmemory

/-- The promise as a whole never holds. -/
theorem not_admissible (h : Draft.Sound windowBytes ⟨operands, written⟩) :
    ¬ Admissible maxWords windowBytes operands operands := by
  rintro ⟨-, hreturned⟩
  obtain ⟨rd, imm, himm, rest, hfirst, -⟩ := h.first
  have hmem : { name := .lui, rd := rd, imm := imm } ∈ operands := by
    change operands = _ at hfirst
    rw [hfirst]
    exact .head _
  exact upper_not_kept himm ((decode_encode_iff (h.disciplined.form _ hmem)).1 (hreturned _ hmem))

/-- An offset that is too long for its field. -/
def HasLong (draft : Draft) : Prop := ∃ d ∈ draft.operands, d.Accesses ∧ ¬ d.imm < 2 ^ 11

/-- A window of more than 256 doublewords has an offset that is too long, and the second word can draw it. -/
theorem can_draw_long (hwords : 2 ≤ maxWords) (hwindow : 2056 ≤ windowBytes) :
    Draw.Can (drawOperands maxWords windowBytes) fun operands => ∃ d ∈ operands, d.Accesses ∧
      ¬ d.imm < 2 ^ 11 := by
  refine (Draw.Draws.choice (a := 5) (by decide)).bind ((Draw.Draws.choice (a := 1) (by decide)).bind ?_)
  have hsound : Draft.Sound windowBytes ⟨[{ name := .lui, rd := 5, imm := 1 }], [5]⟩ :=
    sound_start (by decide) (by decide)
  obtain ⟨n, rfl⟩ := Nat.exists_eq_add_of_le hwords
  have hround : Draw.Can (drawWord windowBytes ⟨[{ name := .lui, rd := 5, imm := 1 }], [5]⟩) HasLong := by
    refine (Draw.Draws.next 20).bind ?_
    rw [if_neg (by decide), if_pos (by decide)]
    refine Draw.Draws.bind (a := 2048)
      (Draw.Draws.then (Draw.Draws.randrange (v := 256) (by omega)) (.pure _)) ?_
    refine can ((choice (by decide) fun r hr => hr).bind fun rd _ => pure ?_)
    rw [HasLong, operands_write]
    exact ⟨_, mem_append_right _ (.head _), .inl rfl, (by decide : ¬ (2048 : ℤ) < 2 ^ 11)⟩
  refine Draw.Can.bind (P := HasLong) ?_ fun draft hlong => pure hlong
  rw [Nat.add_comm, Draw.rounds, if_pos (by simp)]
  refine Draw.Can.bind (hround.and (returns_drawWord (by omega) hsound)) fun draft hdraft => ?_
  refine (rounds (P := fun draft => HasLong draft ∧ draft.Sound windowBytes) (fun draft _ hdraft => ?_) _
    ⟨hdraft.1, hdraft.2.1⟩).mono fun _ h => h.1
  refine (returns_drawWord (by omega) hdraft.2).mono fun next ⟨hnext, d, heq⟩ => ⟨?_, hnext⟩
  obtain ⟨d', hd', hlong⟩ := hdraft.1
  exact ⟨d', by rw [heq]; exact mem_append_left _ hd', hlong⟩

/-- **Generation and its inverse.** -/
theorem generation_admissible_iff (maxWords : ℕ) (windowBytes : ℤ) (hwords : 1 ≤ maxWords)
    (hwindow : 8 ≤ windowBytes) :
    (∀ s : Rng, ∃ operands s', drawOperands maxWords windowBytes s = .ok (operands, s') ∧
      generateProgram maxWords windowBytes s = .ok (operands.map encode, s') ∧ operands.length = maxWords ∧
      ¬ Admissible maxWords windowBytes operands operands ∧
      (Admissible maxWords windowBytes operands operands.tail ↔ ∀ d ∈ operands, d.Accesses →
        d.imm < 2 ^ 11)) ∧
    ((∀ s operands s', drawOperands maxWords windowBytes s = .ok (operands, s') →
      Admissible maxWords windowBytes operands operands.tail) ↔ maxWords = 1 ∨ windowBytes < 2056) := by
  have hreturns := returns_drawOperands hwords hwindow
  refine ⟨fun s => ?_, fun hall => ?_, fun hsmall s operands s' hdraw => ?_⟩
  · obtain ⟨operands, s', hdraw, hlength, written, hsound⟩ := hreturns s
    refine ⟨operands, s', hdraw, ?_, hlength, not_admissible hsound, admissible_tail_iff hsound hlength.le⟩
    rw [generateProgram, Draw.bind_apply, hdraw]
    rfl
  · by_contra hlarge
    obtain ⟨s, operands, s', hdraw, d, hd, hmemory, himm⟩ :=
      can_draw_long (show 2 ≤ maxWords by omega) (show 2056 ≤ windowBytes by omega)
    obtain ⟨hlength, written, hsound⟩ := hreturns.of_eq_ok hdraw
    exact himm ((admissible_tail_iff hsound hlength.le).mp (hall s operands s' hdraw) d hd hmemory)
  · obtain ⟨hlength, written, hsound⟩ := hreturns.of_eq_ok hdraw
    refine (admissible_tail_iff hsound hlength.le).mpr fun d hd hmemory => ?_
    rcases hsmall with rfl | hshort
    · obtain ⟨rd, imm, -, rest, hfirst, -⟩ := hsound.first
      obtain ⟨e, rfl⟩ := List.length_eq_one_iff.mp hlength
      cases hfirst
      rw [List.mem_singleton] at hd
      subst hd
      exact absurd hmemory (by simp [Decoded.Accesses])
    · have := hsound.disciplined.offset d hd hmemory
      omega

/-- A window of sixteen words: every program of two words is admissible behind its first word. -/
theorem generation_admissible_small : (∀ s operands s', drawOperands 2 64 s = .ok (operands, s') →
    Admissible 2 64 operands operands.tail) ∧ (64 : ℤ) < 2056 :=
  ⟨(generation_admissible_iff 2 64 (by decide) (by decide)).2.mpr (.inr (by decide)), by decide⟩

/-- **The operand of the first word is lost**: `LUI x5` with 1 is encoded as `LUI x5` with 0. -/
theorem generation_not_admissible :
    ∃ s', drawOperands 1 64 (fun _ => 0) = .ok ([{ name := .lui, rd := 5, imm := 1 }], s') ∧
    encode { name := .lui, rd := 5, imm := 1 } = 0x000002B7 ∧
    decode 0x000002B7 = .ok { name := .lui, rd := 5, imm := 0 } ∧
    ¬ Admissible 1 64 [{ name := .lui, rd := 5, imm := 1 }] [{ name := .lui, rd := 5, imm := 1 }] := by
  refine ⟨_, rfl, by decide, by rfl, ?_⟩
  rintro ⟨-, hreturned⟩
  have hsame := (decode_encode_iff (.upper 5 1 (by decide))).mp (hreturned _ (.head _))
  cases hsame

end F1Rv64

end MyFuzz
