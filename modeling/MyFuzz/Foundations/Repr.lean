import Mathlib.Tactic

/-!
# Foundations/Repr — texts that can be read back

A text built from fields determines its fields when every field is a **code**: whatever follows it,
the field and the rest can be told apart.

    Name(a='…', n=17, …)
           └ repr ┘  └ digits, then a comma

`reprText` is the quoted and escaped form of a string: single quotes unless only they occur in it,
and an escape for the quote, the backslash and every character that is not printable.  Which
characters beyond ASCII are printable is a table of the running Unicode version, so it is a
parameter here.
-/

namespace Repr

open List

/-- A code: followed by anything, it can be split off again. -/
def IsCode {α : Type*} (f : α → List Char) : Prop :=
  ∀ {a b : α} {x y : List Char}, f a ++ x = f b ++ y → a = b ∧ x = y

variable {q quote : Char} {x y : List Char} {m n : ℕ}

/-- **A terminated sequence of codes is a code**, when no code starts with the terminator. -/
theorem IsCode.flatMap_terminated {α : Type*} {f : α → List Char} (hf : IsCode f)
    (hq : ∀ a, ∃ c l, f a = c :: l ∧ c ≠ q) : IsCode fun as : List α => as.flatMap f ++ [q] := by
  have key : ∀ (as bs : List α) {x y : List Char},
      as.flatMap f ++ q :: x = bs.flatMap f ++ q :: y → as = bs ∧ x = y := by
    intro as
    induction as with
    | nil =>
      intro bs x y h
      cases bs with
      | nil => exact ⟨rfl, (List.cons.inj h).2⟩
      | cons b bs =>
        obtain ⟨c, l, hb, hc⟩ := hq b
        rw [flatMap_cons, hb] at h
        exact absurd (List.cons.inj h).1.symm hc
    | cons a as ih =>
      intro bs x y h
      cases bs with
      | nil =>
        obtain ⟨c, l, ha, hc⟩ := hq a
        rw [flatMap_cons, ha] at h
        exact absurd (List.cons.inj h).1 hc
      | cons b bs =>
        rw [flatMap_cons, flatMap_cons, append_assoc, append_assoc] at h
        obtain ⟨rfl, hrest⟩ := hf h
        obtain ⟨rfl, rfl⟩ := ih bs hrest
        exact ⟨rfl, rfl⟩
  intro as bs x y h
  simp only [append_assoc, singleton_append] at h
  exact key as bs h

/-! ## Hexadecimal escapes -/

/-- A hexadecimal digit. -/
def hexDigit (d : ℕ) : Char := if d < 10 then Char.ofNat (48 + d) else Char.ofNat (87 + d)

/-- The last `w` hexadecimal digits of a number. -/
def hexDigits : ℕ → ℕ → List Char
  | 0, _ => []
  | w + 1, n => hexDigits w (n / 16) ++ [hexDigit (n % 16)]

theorem length_hexDigits : ∀ w n : ℕ, (hexDigits w n).length = w
  | 0, _ => rfl
  | w + 1, n => by rw [hexDigits, length_append, length_hexDigits w, length_singleton]

theorem hexDigit_inj {d e : ℕ} (hd : d < 16) (he : e < 16) (h : hexDigit d = hexDigit e) : d = e := by
  interval_cases d <;> interval_cases e <;> first | rfl | cases h

/-- **Numbers below `16 ^ w` are told apart by `w` digits.** -/
theorem hexDigits_inj : ∀ {w m n : ℕ}, m < 16 ^ w → n < 16 ^ w → hexDigits w m = hexDigits w n → m = n
  | 0, m, n, hm, hn, _ => by omega
  | w + 1, m, n, hm, hn, h => by
      obtain ⟨hl, hr⟩ := append_inj h (by rw [length_hexDigits, length_hexDigits])
      rw [pow_succ] at hm hn
      have hdiv := hexDigits_inj (by omega) (by omega) hl
      have hmod := hexDigit_inj (Nat.mod_lt _ (by omega)) (Nat.mod_lt _ (by omega)) (List.cons.inj hr).1
      omega

/-! ## Quoted strings -/

/-- The single quote. -/
def singleQuote : Char := Char.ofNat 39

/-- The double quote. -/
def doubleQuote : Char := Char.ofNat 34

/-- The quote a string is written in: single, unless only single quotes occur in it. -/
def quoteOf (s : List Char) : Char :=
  if singleQuote ∈ s ∧ doubleQuote ∉ s then doubleQuote else singleQuote

/-- A backslash, a tag and digits. -/
def escaped (tag : Char) (w n : ℕ) : List Char := '\\' :: tag :: hexDigits w n

/-- A character inside quotes. -/
def escapeChar (printable : Char → Bool) (quote c : Char) : List Char :=
  if c = quote ∨ c = '\\' then escaped c 0 0
  else if c = '\t' then escaped 't' 0 0
  else if c = '\n' then escaped 'n' 0 0
  else if c = '\r' then escaped 'r' 0 0
  else if c.toNat < 32 ∨ c.toNat = 127 then escaped 'x' 2 c.toNat
  else if c.toNat < 127 ∨ printable c then [c]
  else if c.toNat < 256 then escaped 'x' 2 c.toNat
  else if c.toNat < 65536 then escaped 'u' 4 c.toNat
  else escaped 'U' 8 c.toNat

/-- The characters of a quoted string. -/
def reprChars (printable : Char → Bool) (s : List Char) : List Char :=
  quoteOf s :: (s.flatMap (escapeChar printable (quoteOf s)) ++ [quoteOf s])

/-- The quoted form of a string. -/
def reprText (printable : Char → Bool) (s : String) : String :=
  String.ofList (reprChars printable s.toList)

/-- The number of digits a tag announces. -/
def tagWidth (tag : Char) : ℕ :=
  if tag = 'x' then 2 else if tag = 'u' then 4 else if tag = 'U' then 8 else 0

/-- The character a tag without digits stands for. -/
def tagChar (tag : Char) : Char :=
  if tag = 't' then '\t' else if tag = 'n' then '\n' else if tag = 'r' then '\r' else tag

section

variable (printable : Char → Bool) (hq : quote = singleQuote ∨ quote = doubleQuote)

include hq

/-- **A character stands for itself or is escaped** under a tag that says how to read it. -/
theorem escapeChar_cases (c : Char) :
    (escapeChar printable quote c = [c] ∧ c ≠ '\\' ∧ c ≠ quote) ∨
    (∃ tag, escapeChar printable quote c = escaped tag 0 0 ∧ tagWidth tag = 0 ∧ tagChar tag = c) ∨
    ∃ tag, escapeChar printable quote c = escaped tag (tagWidth tag) c.toNat ∧ tagWidth tag ≠ 0 ∧
      c.toNat < 16 ^ tagWidth tag := by
  have hval : c.toNat < 16 ^ 8 := lt_of_lt_of_le c.val.toNat_lt (by norm_num)
  unfold escapeChar
  split_ifs with h1 h2 h3 h4 h5 h6 h7 h8
  · refine .inr (.inl ⟨c, rfl, ?_⟩)
    rcases h1 with rfl | rfl
    · rcases hq with rfl | rfl <;> decide
    · decide
  · exact .inr (.inl ⟨'t', rfl, by decide, h2.symm⟩)
  · exact .inr (.inl ⟨'n', rfl, by decide, h3.symm⟩)
  · exact .inr (.inl ⟨'r', rfl, by decide, h4.symm⟩)
  · exact .inr (.inr ⟨'x', rfl, by decide, by
      change c.toNat < 256
      omega⟩)
  · exact .inl ⟨rfl, fun h => h1 (.inr h), fun h => h1 (.inl h)⟩
  · exact .inr (.inr ⟨'x', rfl, by decide, h7⟩)
  · exact .inr (.inr ⟨'u', rfl, by decide, h8⟩)
  · exact .inr (.inr ⟨'U', rfl, by decide, hval⟩)

/-- **Escaped characters are a code.** -/
theorem isCode_escapeChar : IsCode (escapeChar printable quote) := by
  intro c d x y h
  rcases escapeChar_cases printable hq c with ⟨hc, hc', -⟩ | ⟨t, hc, ht, htc⟩ | ⟨t, hc, ht, htc⟩ <;>
    rcases escapeChar_cases printable hq d with ⟨hd, hd', -⟩ | ⟨u, hd, hu, hud⟩ | ⟨u, hd, hu, hud⟩ <;>
    rw [hc, hd] at h
  · exact ⟨(List.cons.inj h).1, (List.cons.inj h).2⟩
  · exact absurd (List.cons.inj h).1 hc'
  · exact absurd (List.cons.inj h).1 hc'
  · exact absurd (List.cons.inj h).1.symm hd'
  · obtain ⟨rfl, hrest⟩ := List.cons.inj (List.cons.inj h).2
    exact ⟨htc.symm.trans hud, hrest⟩
  · obtain ⟨rfl, -⟩ := List.cons.inj (List.cons.inj h).2
    exact absurd ht hu
  · exact absurd (List.cons.inj h).1.symm hd'
  · obtain ⟨rfl, -⟩ := List.cons.inj (List.cons.inj h).2
    exact absurd hu ht
  · obtain ⟨rfl, hrest⟩ := List.cons.inj (List.cons.inj h).2
    obtain ⟨hdigits, hrest⟩ := append_inj hrest (by rw [length_hexDigits, length_hexDigits])
    exact ⟨Char.toNat_inj.1 (hexDigits_inj htc hud hdigits), hrest⟩

/-- No character inside quotes starts with the quote. -/
theorem escapeChar_head (c : Char) : ∃ d l, escapeChar printable quote c = d :: l ∧ d ≠ quote := by
  have hslash : '\\' ≠ quote := by
    rcases hq with rfl | rfl <;> decide
  rcases escapeChar_cases printable hq c with ⟨hc, -, hne⟩ | ⟨t, hc, -⟩ | ⟨t, hc, -⟩
  · exact ⟨c, [], hc, hne⟩
  · exact ⟨'\\', _, hc, hslash⟩
  · exact ⟨'\\', _, hc, hslash⟩

end

theorem quoteOf_eq (s : List Char) : quoteOf s = singleQuote ∨ quoteOf s = doubleQuote := by
  unfold quoteOf
  split_ifs
  · exact .inr rfl
  · exact .inl rfl

/-- **Quoted strings are a code.** -/
theorem isCode_reprChars (printable : Char → Bool) : IsCode (reprChars printable) := by
  intro s t x y h
  obtain ⟨hquote, hbody⟩ := List.cons.inj h
  rw [← hquote] at hbody
  exact IsCode.flatMap_terminated (isCode_escapeChar printable (quoteOf_eq s))
    (escapeChar_head printable (quoteOf_eq s)) hbody

/-! ## Decimal numbers -/

/-- **A text up to the first occurrence of a character is read back.** -/
theorem append_cons_inj {a b : List Char} (ha : q ∉ a) (hb : q ∉ b)
    (h : a ++ q :: x = b ++ q :: y) : a = b ∧ x = y := by
  have hlen : a.length = b.length := by
    have hidx := congrArg (List.idxOf q) h
    rwa [idxOf_append_of_notMem ha, idxOf_append_of_notMem hb,
      idxOf_cons_self, idxOf_cons_self, Nat.add_zero, Nat.add_zero] at hidx
  obtain ⟨hab, hrest⟩ := append_inj h hlen
  exact ⟨hab, (List.cons.inj hrest).2⟩

theorem toList_repr_inj (h : m.repr.toList = n.repr.toList) : m = n := by
  rw [Nat.toList_repr, Nat.toList_repr] at h
  have hm := Nat.ofDigitChars_ten_toDigits (n := m)
  rw [h, Nat.ofDigitChars_ten_toDigits] at hm
  exact hm.symm

/-- **Digits up to a character that is no digit are a code.** -/
theorem digits_append_inj (hq : q.isDigit = false)
    (h : m.repr.toList ++ q :: x = n.repr.toList ++ q :: y) : m = n ∧ x = y := by
  have hnot : ∀ k : ℕ, q ∉ k.repr.toList := by
    intro k hk
    rw [Nat.toList_repr] at hk
    have := Nat.isDigit_of_mem_toDigits (by norm_num) (by norm_num) hk
    rw [hq] at this
    cases this
  obtain ⟨hdigits, hrest⟩ := append_cons_inj (hnot m) (hnot n) h
  exact ⟨toList_repr_inj hdigits, hrest⟩

end Repr
