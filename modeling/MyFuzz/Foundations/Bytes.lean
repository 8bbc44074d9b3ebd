import Mathlib.Tactic

/-!
# Foundations/Bytes — byte strings

Fixed-width little-endian numbers, and the lines of a byte string: a line ends at `\n`, at `\r` or at
the two together, so a text is cut where it was joined only when its lines hold neither.
-/

namespace Bytes

open List

/-! ## Little-endian numbers -/

/-- The bytes of a number, the lowest first. -/
def leBytes : ℕ → ℕ → List UInt8
  | 0, _ => []
  | width + 1, value => UInt8.ofNat value :: leBytes width (value / 256)

/-- The number of bytes, the lowest first. -/
def readLe : List UInt8 → ℕ
  | [] => 0
  | b :: rest => b.toNat + 256 * readLe rest

@[simp] theorem length_leBytes : ∀ width value : ℕ, (leBytes width value).length = width
  | 0, _ => rfl
  | width + 1, value => by rw [leBytes, length_cons, length_leBytes width]

/-- **A number that fits is read back.** -/
theorem readLe_leBytes : ∀ {width value : ℕ}, value < 256 ^ width → readLe (leBytes width value) = value
  | 0, value, h => by
      rw [leBytes, readLe]
      omega
  | width + 1, value, h => by
      have hhigh : value / 256 < 256 ^ width := by
        rw [Nat.div_lt_iff_lt_mul (by norm_num), ← pow_succ]
        exact h
      have hlow : (UInt8.ofNat value).toNat = value % 256 := UInt8.toNat_ofNat
      rw [leBytes, readLe, readLe_leBytes hhigh, hlow, Nat.mod_add_div]

theorem readLe_lt : ∀ bytes : List UInt8, readLe bytes < 256 ^ bytes.length
  | [] => by simp [readLe]
  | b :: rest => by
      have hb := b.toNat_lt
      have hrest := readLe_lt rest
      rw [readLe, length_cons, pow_succ]
      omega

/-- The numbers of four bytes each; a rest that is shorter is left out. -/
def words : List UInt8 → List ℕ
  | a :: b :: c :: d :: rest => readLe [a, b, c, d] :: words rest
  | _ => []

/-- **Words that were joined are cut apart again.** -/
theorem words_flatMap : ∀ {ws : List ℕ}, (∀ w ∈ ws, w < 2 ^ 32) → words (ws.flatMap (leBytes 4)) = ws
  | [], _ => rfl
  | w :: ws, h => by
      have hw : w < 256 ^ 4 := h w (.head _)
      have ih := words_flatMap fun v hv => h v (mem_cons_of_mem w hv)
      rw [flatMap_cons]
      change readLe (leBytes 4 w) :: words (ws.flatMap (leBytes 4)) = w :: ws
      rw [readLe_leBytes hw, ih]

/-! ## Lines -/

/-- The lines of a byte string, after the part of a line that was read already. -/
def splitLinesFrom (current : List UInt8) : List UInt8 → List (List UInt8)
  | [] => if current = [] then [] else [current]
  | 13 :: 10 :: rest => current :: splitLinesFrom [] rest
  | b :: rest =>
      if b = 10 ∨ b = 13 then current :: splitLinesFrom [] rest
      else splitLinesFrom (current ++ [b]) rest

/-- The lines of a byte string. -/
def splitLines (raw : List UInt8) : List (List UInt8) := splitLinesFrom [] raw

example : splitLines [97, 13, 10, 98, 10, 10, 99] = [[97], [98], [], [99]] := by decide

/-- Nothing ends a line. -/
def OneLine (line : List UInt8) : Prop := ∀ b ∈ line, b ≠ 10 ∧ b ≠ 13

theorem splitLinesFrom_append (rest : List UInt8) : ∀ {line current : List UInt8}, OneLine line →
    splitLinesFrom current (line ++ 10 :: rest) = (current ++ line) :: splitLinesFrom [] rest
  | [], current, _ => by
      rw [nil_append, append_nil]
      simp [splitLinesFrom]
  | b :: line, current, h => by
      obtain ⟨hlf, hcr⟩ := h b (.head _)
      have hline : OneLine line := fun c hc => h c (mem_cons_of_mem b hc)
      have hstep : splitLinesFrom current (b :: (line ++ 10 :: rest)) =
          splitLinesFrom (current ++ [b]) (line ++ 10 :: rest) := by
        rw [splitLinesFrom.eq_def]
        simp [hlf, hcr]
      rw [cons_append, hstep, splitLinesFrom_append rest hline, append_assoc, singleton_append]

/-- **Lines that were joined are cut apart again.** -/
theorem splitLines_flatMap : ∀ {lines : List (List UInt8)}, (∀ line ∈ lines, OneLine line) →
    splitLines (lines.flatMap fun line => line ++ [10]) = lines
  | [], _ => rfl
  | line :: lines, h => by
      have ih := splitLines_flatMap fun l hl => h l (mem_cons_of_mem line hl)
      rw [flatMap_cons, append_assoc, singleton_append, splitLines,
        splitLinesFrom_append _ (h line (.head _)), nil_append]
      exact congrArg (line :: ·) ih

end Bytes
