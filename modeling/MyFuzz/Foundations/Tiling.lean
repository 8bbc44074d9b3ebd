import Mathlib.Tactic

/-!
# Foundations/Tiling — pieces laid end to end

A sequence arrives as pieces, each with the offset it belongs at.  Pieces are **laid** from a start
when each begins where the one before it ends and none is empty:

    start          o₂        o₃             end
      ├─── p₁ ──────┼─── p₂ ──┼──── p₃ ──────┤

Then every offset of the interval is in exactly one piece (`Laid.existsUnique`), and the pieces are
found in the joined sequence where they say they are, which determines it (`Assembles.unique`).
-/

namespace Tiling

open List

variable {α : Type*} {start : ℤ} {pieces : List (ℤ × List α)}

/-- Pieces laid end to end from `start`. -/
def Laid (start : ℤ) : List (ℤ × List α) → Prop
  | [] => True
  | p :: pieces => p.1 = start ∧ p.2 ≠ [] ∧ Laid (start + p.2.length) pieces

/-- The sequence the pieces make. -/
def joined (pieces : List (ℤ × List α)) : List α := pieces.flatMap Prod.snd

/-- An offset is inside a piece. -/
def Covers (p : ℤ × List α) (i : ℤ) : Prop := p.1 ≤ i ∧ i < p.1 + p.2.length

theorem length_joined_cons (p : ℤ × List α) (pieces : List (ℤ × List α)) :
    ((joined (p :: pieces)).length : ℤ) = p.2.length + (joined pieces).length := by
  rw [joined, flatMap_cons, length_append, Nat.cast_add]
  rfl

theorem joined_concat (pieces : List (ℤ × List α)) (p : ℤ × List α) :
    joined (pieces ++ [p]) = joined pieces ++ p.2 := by
  rw [joined, flatMap_append, flatMap_singleton]
  rfl

/-- **A piece laid at the end.** -/
theorem Laid.concat {data : List α} (h : Laid start pieces) (hdata : data ≠ []) :
    Laid start (pieces ++ [(start + (joined pieces).length, data)]) := by
  induction pieces generalizing start with
  | nil =>
    refine ⟨?_, hdata, trivial⟩
    change start + (0 : ℕ) = start
    omega
  | cons p pieces ih =>
    obtain ⟨hp, hne, hrest⟩ := h
    refine ⟨hp, hne, ?_⟩
    have hplace : start + ((joined (p :: pieces)).length : ℤ)
        = start + p.2.length + (joined pieces).length := by
      rw [length_joined_cons, Int.add_assoc]
    rw [hplace]
    exact ih hrest

/-- **Where a piece lies.** -/
theorem Laid.bounds (h : Laid start pieces) {p : ℤ × List α} (hp : p ∈ pieces) :
    start ≤ p.1 ∧ p.1 + p.2.length ≤ start + (joined pieces).length ∧ p.2 ≠ [] := by
  induction pieces generalizing start with
  | nil => cases hp
  | cons q pieces ih =>
    obtain ⟨hq, hne, hrest⟩ := h
    rw [length_joined_cons]
    rcases mem_cons.1 hp with rfl | hp
    · exact ⟨hq.ge, by omega, hne⟩
    · obtain ⟨hlow, hhigh, hnonempty⟩ := ih hrest hp
      exact ⟨by omega, by omega, hnonempty⟩

/-- The offsets of laid pieces increase. -/
theorem Laid.pairwise (h : Laid start pieces) : (pieces.map Prod.fst).Pairwise (· ≤ ·) := by
  induction pieces generalizing start with
  | nil => exact List.Pairwise.nil
  | cons p pieces ih =>
    obtain ⟨hp, -, hrest⟩ := h
    refine List.Pairwise.cons (fun offset hoffset => ?_) (ih hrest)
    obtain ⟨q, hq, rfl⟩ := mem_map.1 hoffset
    have hlow := (hrest.bounds hq).1
    omega

/-- **Every offset of the interval is in exactly one piece**, and no piece leaves the interval. -/
theorem Laid.existsUnique (h : Laid start pieces) (i : ℤ) :
    (start ≤ i ∧ i < start + (joined pieces).length) ↔ ∃! p, p ∈ pieces ∧ Covers p i := by
  constructor
  · induction pieces generalizing start with
    | nil =>
      rintro ⟨hlow, hhigh⟩
      change i < start + ((0 : ℕ) : ℤ) at hhigh
      omega
    | cons p pieces ih =>
      obtain ⟨hp, -, hrest⟩ := h
      rw [length_joined_cons]
      rintro ⟨hlow, hhigh⟩
      by_cases hin : i < start + p.2.length
      · refine ⟨p, ⟨.head _, by unfold Covers; omega⟩, ?_⟩
        rintro q ⟨hq, hcovers⟩
        rcases mem_cons.1 hq with rfl | hq
        · rfl
        · have hlater := (hrest.bounds hq).1
          have hbegins := hcovers.1
          omega
      · obtain ⟨q, ⟨hq, hcovers⟩, hunique⟩ := ih hrest ⟨by omega, by omega⟩
        refine ⟨q, ⟨.tail _ hq, hcovers⟩, ?_⟩
        rintro r ⟨hr, hcovers'⟩
        rcases mem_cons.1 hr with rfl | hr
        · have hends := hcovers'.2
          omega
        · exact hunique r ⟨hr, hcovers'⟩
  · rintro ⟨p, ⟨hp, hcovers⟩, -⟩
    obtain ⟨hlow, hhigh, -⟩ := h.bounds hp
    exact ⟨le_trans hlow hcovers.1, lt_of_lt_of_le hcovers.2 hhigh⟩

/-! ## The sequence pieces determine -/

/-- A sequence holds every piece at its offset and nothing else. -/
structure Assembles (pieces : List (ℤ × List α)) (raw : List α) : Prop where
  placed : ∀ p ∈ pieces, 0 ≤ p.1 ∧ (raw.drop p.1.toNat).take p.2.length = p.2
  covered : ∀ i : ℕ, i < raw.length → ∃ p ∈ pieces, Covers p i

/-- **The joined pieces hold each piece at its offset.** -/
theorem Laid.slice (h : Laid start pieces) {p : ℤ × List α} (hp : p ∈ pieces) :
    ((joined pieces).drop (p.1 - start).toNat).take p.2.length = p.2 := by
  induction pieces generalizing start with
  | nil => cases hp
  | cons q pieces ih =>
    obtain ⟨hq, -, hrest⟩ := h
    have hjoined : joined (q :: pieces) = q.2 ++ joined pieces := flatMap_cons
    rcases mem_cons.1 hp with rfl | hp
    · have hzero : (p.1 - start).toNat = 0 := by omega
      rw [hzero, drop_zero, hjoined, take_left']
      rfl
    · have hlater := (hrest.bounds hp).1
      have hplace : (p.1 - start).toNat = q.2.length + (p.1 - (start + q.2.length)).toNat := by
        omega
      rw [hplace, hjoined, drop_length_add_append]
      exact ih hrest hp

/-- **Pieces laid from 0 assemble their join.** -/
theorem Laid.assembles (h : Laid 0 pieces) : Assembles pieces (joined pieces) where
  placed p hp := by
    have hslice := h.slice hp
    rw [Int.sub_zero] at hslice
    exact ⟨(h.bounds hp).1, hslice⟩
  covered i hi := by
    obtain ⟨p, ⟨hp, hcovers⟩, -⟩ := (h.existsUnique i).1 ⟨by omega, by omega⟩
    exact ⟨p, hp, hcovers⟩

variable {raw : List α}

/-- A covered offset holds what the piece holds there. -/
theorem Assembles.getElem?_eq (h : Assembles pieces raw) {p : ℤ × List α} (hp : p ∈ pieces) {i : ℕ}
    (hcovers : Covers p i) : raw[i]? = p.2[i - p.1.toNat]? := by
  obtain ⟨-, hplaced⟩ := h.placed p hp
  obtain ⟨hlow, hhigh⟩ := hcovers
  have hin : i - p.1.toNat < p.2.length := by omega
  have hplace : p.1.toNat + (i - p.1.toNat) = i := by omega
  calc raw[i]? = (raw.drop p.1.toNat)[i - p.1.toNat]? := by rw [getElem?_drop, hplace]
    _ = ((raw.drop p.1.toNat).take p.2.length)[i - p.1.toNat]? := by
        rw [getElem?_take_of_lt hin]
    _ = p.2[i - p.1.toNat]? := by rw [hplaced]

/-- **One sequence holds the pieces.** -/
theorem Assembles.unique {raw' : List α} (h : Assembles pieces raw) (h' : Assembles pieces raw') :
    raw = raw' := by
  have hsome : ∀ {r : List α}, Assembles pieces r → ∀ {p : ℤ × List α}, p ∈ pieces → ∀ {i : ℕ},
      Covers p i → i < r.length := by
    intro r hr p hp i hcovers
    have hitem := hr.getElem?_eq hp hcovers
    have hpos := (hr.placed p hp).1
    have hin : i - p.1.toNat < p.2.length := by
      have hlow := hcovers.1
      have hhigh := hcovers.2
      omega
    rw [List.getElem?_eq_getElem hin] at hitem
    exact (List.getElem?_eq_some_iff.1 hitem).1
  apply List.ext_getElem?
  intro i
  by_cases hi : i < raw.length
  · obtain ⟨p, hp, hcovers⟩ := h.covered i hi
    rw [h.getElem?_eq hp hcovers, h'.getElem?_eq hp hcovers]
  · have hi' : ¬ i < raw'.length := by
      intro hlt
      obtain ⟨p, hp, hcovers⟩ := h'.covered i hlt
      exact hi (hsome h hp hcovers)
    rw [List.getElem?_eq_none (by omega), List.getElem?_eq_none (by omega)]

/-- Which pieces there are decides what they assemble. -/
theorem Assembles.congr {pieces' : List (ℤ × List α)} (hmem : ∀ p, p ∈ pieces ↔ p ∈ pieces')
    (h : Assembles pieces raw) : Assembles pieces' raw where
  placed p hp := h.placed p ((hmem p).2 hp)
  covered i hi := by
    obtain ⟨p, hp, hcovers⟩ := h.covered i hi
    exact ⟨p, (hmem p).1 hp, hcovers⟩

end Tiling
