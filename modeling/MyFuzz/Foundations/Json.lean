import MyFuzz.Foundations.Repr
import MyFuzz.Foundations.Value

/-!
# Foundations/Json — serialised trees

A `JsonCodec` turns a tree into bytes and back; what comes back is the canonical form of the tree, on
one line.  That is what a program may rely on when it stores documents.  `Json.codec` is such a codec
for trees of `null`, Booleans and integers: compact text with sorted keys in UTF-8, read back by a
recursive-descent parser.

    {"b": (1, 2), "a": null}  ──dumps──▸  {"a":null,"b":[1,2]}  ──loads──▸  {"a": null, "b": [1, 2]}
-/

/-- A way to store trees. -/
structure JsonCodec (σ : Type) where
  dumps : Value σ → List UInt8
  loads : List UInt8 → Option (Value σ)
  loads_dumps : ∀ v : Value σ, v.WellFormed → loads (dumps v) = some v.canonical

/-- The scalars of a text without fractions. -/
inductive JsonScalar where
  | null
  | bool (b : Bool)
  | int (i : ℤ)
  deriving DecidableEq

namespace Json

open List

/-! ## Text -/

/-- The quotation mark. -/
def quote : Char := Repr.doubleQuote

/-- A character of a string. -/
def escape (c : Char) : List Char :=
  if c = quote then ['\\', quote]
  else if c = '\\' then ['\\', '\\']
  else if c = '\n' then ['\\', 'n']
  else if c = '\r' then ['\\', 'r']
  else if c = '\t' then ['\\', 't']
  else if c = Char.ofNat 8 then ['\\', 'b']
  else if c = Char.ofNat 12 then ['\\', 'f']
  else if c.toNat < 32 then '\\' :: 'u' :: Repr.hexDigits 4 c.toNat
  else [c]

/-- The text of a string. -/
def stringText (s : String) : List Char := quote :: (s.toList.flatMap escape ++ [quote])

/-- The text of a scalar. -/
def scalarText : JsonScalar → List Char
  | .null => ['n', 'u', 'l', 'l']
  | .bool true => ['t', 'r', 'u', 'e']
  | .bool false => ['f', 'a', 'l', 's', 'e']
  | .int (.ofNat n) => n.repr.toList
  | .int (.negSucc n) => '-' :: (n + 1).repr.toList

mutual

/-- The text of a tree. -/
def text : Value JsonScalar → List Char
  | .scalar x => scalarText x
  | .str s => stringText s
  | .list items => '[' :: textItems items
  | .tuple items => '[' :: textItems items
  | .dict entries => '{' :: textEntries entries

/-- The items of a list, separated and closed. -/
def textItems : List (Value JsonScalar) → List Char
  | [] => [']']
  | [v] => text v ++ [']']
  | v :: items => text v ++ ',' :: textItems items

/-- The entries of a dictionary, separated and closed. -/
def textEntries : List (String × Value JsonScalar) → List Char
  | [] => ['}']
  | [(k, v)] => stringText k ++ ':' :: (text v ++ ['}'])
  | (k, v) :: entries => stringText k ++ ':' :: (text v ++ ',' :: textEntries entries)

end

/-! ## Reading -/

/-- The value of a hexadecimal digit. -/
def hexValue (c : Char) : ℕ := if c.toNat < 58 then c.toNat - 48 else c.toNat - 87

/-- What a letter after a backslash stands for. -/
def unescape (c : Char) : Char :=
  if c = 'n' then '\n'
  else if c = 'r' then '\r'
  else if c = 't' then '\t'
  else if c = 'b' then Char.ofNat 8
  else if c = 'f' then Char.ofNat 12
  else c

/-- Read a string up to its closing quotation mark. -/
def parseString : List Char → Option (List Char × List Char)
  | [] => none
  | c :: rest =>
      if c = quote then some ([], rest)
      else if c = '\\' then
        match rest with
        | 'u' :: a :: b :: d :: e :: rest =>
            (parseString rest).map fun p =>
              (Char.ofNat (((hexValue a * 16 + hexValue b) * 16 + hexValue d) * 16 + hexValue e) :: p.1, p.2)
        | t :: rest => (parseString rest).map fun p => (unescape t :: p.1, p.2)
        | [] => none
      else (parseString rest).map fun p => (c :: p.1, p.2)

/-- Read a number. -/
def parseNat (cs : List Char) : Option (ℕ × List Char) :=
  if cs.takeWhile Char.isDigit = [] then none
  else some (Nat.ofDigitChars 10 (cs.takeWhile Char.isDigit) 0, cs.dropWhile Char.isDigit)

/-- Read a scalar. -/
def parseScalar : List Char → Option (JsonScalar × List Char)
  | 'n' :: 'u' :: 'l' :: 'l' :: rest => some (.null, rest)
  | 't' :: 'r' :: 'u' :: 'e' :: rest => some (.bool true, rest)
  | 'f' :: 'a' :: 'l' :: 's' :: 'e' :: rest => some (.bool false, rest)
  | '-' :: rest => (parseNat rest).map fun p => (.int (-p.1), p.2)
  | cs => (parseNat cs).map fun p => (.int p.1, p.2)

mutual

/-- Read a tree, to a depth. -/
def parse : ℕ → List Char → Option (Value JsonScalar × List Char)
  | 0, _ => none
  | n + 1, c :: rest =>
      if c = quote then (parseString rest).map fun p => (.str (String.ofList p.1), p.2)
      else if c = '[' then (parseItems n rest).map fun p => (.list p.1, p.2)
      else if c = '{' then (parseEntries n rest).map fun p => (.dict p.1, p.2)
      else (parseScalar (c :: rest)).map fun p => (.scalar p.1, p.2)
  | _, [] => none

/-- Read the items of a list. -/
def parseItems : ℕ → List Char → Option (List (Value JsonScalar) × List Char)
  | 0, _ => none
  | n + 1, cs =>
      match cs with
      | ']' :: rest => some ([], rest)
      | _ => do
          let (v, rest) ← parse n cs
          match rest with
          | ']' :: rest => some ([v], rest)
          | ',' :: rest => (parseItems n rest).map fun p => (v :: p.1, p.2)
          | _ => none

/-- Read the entries of a dictionary. -/
def parseEntries : ℕ → List Char → Option (List (String × Value JsonScalar) × List Char)
  | 0, _ => none
  | n + 1, cs =>
      match cs with
      | '}' :: rest => some ([], rest)
      | c :: rest =>
          if c = quote then do
            let (k, rest) ← parseString rest
            match rest with
            | ':' :: rest => do
                let (v, rest) ← parse n rest
                match rest with
                | '}' :: rest => some ([(String.ofList k, v)], rest)
                | ',' :: rest => (parseEntries n rest).map fun p => ((String.ofList k, v) :: p.1, p.2)
                | _ => none
            | _ => none
          else none
      | [] => none

end

/-! ## Strings are read back -/

theorem quote_ne_backslash : ('\\' : Char) ≠ quote := by decide

theorem parseString_quote (rest : List Char) : parseString (quote :: rest) = some ([], rest) := by
  rw [parseString.eq_def]
  simp only [if_true]

variable {c : Char} {n : ℕ} {rest : List Char}

theorem parseString_plain (h : c ≠ quote) (h' : c ≠ '\\') (rest : List Char) :
    parseString (c :: rest) = (parseString rest).map fun p => (c :: p.1, p.2) := by
  rw [parseString.eq_def]
  simp only [if_neg h, if_neg h']

theorem parseString_escaped {t : Char} (h : t ≠ 'u') (rest : List Char) :
    parseString ('\\' :: t :: rest) = (parseString rest).map fun p => (unescape t :: p.1, p.2) := by
  rw [parseString.eq_def]
  simp only [if_neg quote_ne_backslash, if_true]
  split
  · rename_i heq
    exact absurd (List.cons.inj heq).1 h
  · rename_i heq
    cases heq
    rfl
  · rename_i heq
    cases heq

theorem parseString_unicode (a b d e : Char) (rest : List Char) :
    parseString ('\\' :: 'u' :: a :: b :: d :: e :: rest) = (parseString rest).map fun p =>
      (Char.ofNat (((hexValue a * 16 + hexValue b) * 16 + hexValue d) * 16 + hexValue e) :: p.1, p.2) := by
  rw [parseString.eq_def]
  simp only [if_neg quote_ne_backslash, if_true]

theorem hexDigits_four : ∀ n < 32, Repr.hexDigits 4 n = [Repr.hexDigit (n / 16 / 16 / 16 % 16),
    Repr.hexDigit (n / 16 / 16 % 16), Repr.hexDigit (n / 16 % 16), Repr.hexDigit (n % 16)] := by
  intro n _
  rfl

theorem hexValue_hexDigit : ∀ n < 16, hexValue (Repr.hexDigit n) = n := by decide

theorem parseString_escape (c : Char) (rest : List Char) :
    parseString (escape c ++ rest) = (parseString rest).map fun p => (c :: p.1, p.2) := by
  unfold escape
  split_ifs with h1 h2 h3 h4 h5 h6 h7 h8
  · rw [h1]; exact parseString_escaped (by decide) rest
  · rw [h2]; exact parseString_escaped (by decide) rest
  · rw [h3]; exact parseString_escaped (by decide) rest
  · rw [h4]; exact parseString_escaped (by decide) rest
  · rw [h5]; exact parseString_escaped (by decide) rest
  · rw [h6]; exact parseString_escaped (by decide) rest
  · rw [h7]; exact parseString_escaped (by decide) rest
  · have hc : Char.ofNat c.toNat = c := Char.ofNat_toNat c
    have hn : ((c.toNat / 16 / 16 / 16 % 16 * 16 + c.toNat / 16 / 16 % 16) * 16 + c.toNat / 16 % 16) * 16
        + c.toNat % 16 = c.toNat := by omega
    rw [hexDigits_four _ h8]
    simp only [cons_append, nil_append]
    rw [parseString_unicode, hexValue_hexDigit _ (Nat.mod_lt _ (by norm_num)),
      hexValue_hexDigit _ (Nat.mod_lt _ (by norm_num)), hexValue_hexDigit _ (Nat.mod_lt _ (by norm_num)),
      hexValue_hexDigit _ (Nat.mod_lt _ (by norm_num)), hn, hc]
  · exact parseString_plain h1 h2 rest

/-- **A string is read back up to its closing quotation mark.** -/
theorem parseString_text (rest : List Char) : ∀ s : List Char,
    parseString (s.flatMap escape ++ quote :: rest) = some (s, rest)
  | [] => parseString_quote rest
  | c :: s => by
      rw [flatMap_cons, append_assoc, parseString_escape, parseString_text rest s]
      rfl

/-! ## Numbers and scalars are read back -/

/-- A text does not begin with a digit. -/
def NoDigit (rest : List Char) : Prop := ∀ c ∈ rest.head?, c.isDigit = false

theorem isDigit_of_mem_repr (h : c ∈ n.repr.toList) : c.isDigit = true := by
  rw [Nat.toList_repr] at h
  exact Nat.isDigit_of_mem_toDigits (by norm_num) (by norm_num) h

theorem toList_repr_ne_nil (n : ℕ) : n.repr.toList ≠ [] := by
  rw [Nat.toList_repr]
  exact Nat.toDigits_ne_nil

theorem parseNat_repr (n : ℕ) (hrest : NoDigit rest) : parseNat (n.repr.toList ++ rest) = some (n, rest) := by
  have htake : rest.takeWhile Char.isDigit = [] := by
    cases rest with
    | nil => rfl
    | cons c rest => rw [takeWhile_cons_of_neg (by simp [hrest c rfl])]
  have hdrop : rest.dropWhile Char.isDigit = rest := by
    cases rest with
    | nil => rfl
    | cons c rest => rw [dropWhile_cons_of_neg (by simp [hrest c rfl])]
  unfold parseNat
  rw [takeWhile_append_of_pos fun c hc => isDigit_of_mem_repr hc, htake, append_nil,
    dropWhile_append_of_pos fun c hc => isDigit_of_mem_repr hc, hdrop,
    if_neg (toList_repr_ne_nil n), Nat.toList_repr, Nat.ofDigitChars_ten_toDigits]

theorem parseScalar_digit (hc : c.isDigit = true) (rest : List Char) :
    parseScalar (c :: rest) = (parseNat (c :: rest)).map fun p => (.int p.1, p.2) := by
  rw [parseScalar.eq_def]
  split
  · rename_i heq
    rw [(List.cons.inj heq).1] at hc
    cases hc
  · rename_i heq
    rw [(List.cons.inj heq).1] at hc
    cases hc
  · rename_i heq
    rw [(List.cons.inj heq).1] at hc
    cases hc
  · rename_i heq
    rw [(List.cons.inj heq).1] at hc
    cases hc
  · rfl

theorem parseScalar_text (x : JsonScalar) (hrest : NoDigit rest) :
    parseScalar (scalarText x ++ rest) = some (x, rest) := by
  cases x with
  | null => rfl
  | bool b => cases b <;> rfl
  | int i =>
    cases i with
    | ofNat n =>
      change parseScalar (n.repr.toList ++ rest) = _
      have hparse := parseNat_repr n hrest
      cases hrepr : n.repr.toList with
      | nil => exact absurd hrepr (toList_repr_ne_nil n)
      | cons c ds =>
        have hc : c.isDigit = true := isDigit_of_mem_repr (hrepr ▸ mem_cons_self)
        rw [hrepr, cons_append] at hparse
        rw [cons_append, parseScalar_digit hc, hparse]
        rfl
    | negSucc n =>
      change (parseNat ((n + 1).repr.toList ++ rest)).map (fun p => (JsonScalar.int (-p.1), p.2)) = _
      rw [parseNat_repr (n + 1) hrest]
      rfl

/-! ## Trees are read back -/

mutual

/-- How deep the parser goes for a tree. -/
def size : Value JsonScalar → ℕ
  | .scalar _ => 1
  | .str _ => 1
  | .list items => sizeItems items + 1
  | .tuple items => sizeItems items + 1
  | .dict entries => sizeEntries entries + 1

/-- How deep the parser goes for the items of a list. -/
def sizeItems : List (Value JsonScalar) → ℕ
  | [] => 1
  | v :: items => size v + sizeItems items + 1

/-- How deep the parser goes for the entries of a dictionary. -/
def sizeEntries : List (String × Value JsonScalar) → ℕ
  | [] => 1
  | (_, v) :: entries => size v + sizeEntries entries + 1

end

theorem head?_scalarText (x : JsonScalar) : ∃ c ∈ (scalarText x).head?,
    c ≠ quote ∧ c ≠ '[' ∧ c ≠ '{' ∧ c ≠ ']' ∧ c ≠ '}' := by
  cases x with
  | null => exact ⟨'n', rfl, by decide⟩
  | bool b =>
    cases b with
    | true => exact ⟨'t', rfl, by decide⟩
    | false => exact ⟨'f', rfl, by decide⟩
  | int i =>
    cases i with
    | ofNat n =>
      change ∃ c ∈ n.repr.toList.head?, _
      cases hrepr : n.repr.toList with
      | nil => exact absurd hrepr (toList_repr_ne_nil n)
      | cons c ds =>
        have hc : c.isDigit = true := isDigit_of_mem_repr (hrepr ▸ mem_cons_self)
        refine ⟨c, rfl, ?_, ?_, ?_, ?_, ?_⟩ <;>
          (rintro rfl; exact absurd hc (by decide))
    | negSucc n => exact ⟨'-', rfl, by decide⟩

/-- The text of a tree begins with no closing bracket. -/
theorem head?_text (v : Value JsonScalar) : ∃ c ∈ (text v).head?, c ≠ ']' ∧ c ≠ '}' := by
  cases v with
  | scalar x =>
    obtain ⟨c, hc, _, _, _, h⟩ := head?_scalarText x
    exact ⟨c, hc, h⟩
  | str s => exact ⟨quote, rfl, by decide⟩
  | list items | tuple items => exact ⟨'[', rfl, by decide⟩
  | dict entries => exact ⟨'{', rfl, by decide⟩

theorem parseItems_succ {cs : List Char} (h : ∃ c ∈ cs.head?, c ≠ ']') :
    parseItems (n + 1) cs = (parse n cs).bind fun p =>
      match p.2 with
      | ']' :: rest => some ([p.1], rest)
      | ',' :: rest => (parseItems n rest).map fun q => (p.1 :: q.1, q.2)
      | _ => none := by
  obtain ⟨c, hc, hne⟩ := h
  rw [parseItems.eq_def]
  simp only
  split
  · rename_i rest
    exact absurd (Option.some.inj hc).symm hne
  · rfl

theorem parseEntries_succ (n : ℕ) (k : String) (rest : List Char) :
    parseEntries (n + 1) (stringText k ++ ':' :: rest) = (parse n rest).bind fun p =>
      match p.2 with
      | '}' :: rest => some ([(k, p.1)], rest)
      | ',' :: rest => (parseEntries n rest).map fun q => ((k, p.1) :: q.1, q.2)
      | _ => none := by
  have hstring : parseString (k.toList.flatMap escape ++ (quote :: ':' :: rest))
      = some (k.toList, ':' :: rest) := parseString_text _ _
  have htext : stringText k ++ ':' :: rest
      = quote :: (k.toList.flatMap escape ++ quote :: ':' :: rest) := by simp [stringText]
  rw [htext, parseEntries.eq_def]
  simp only
  split
  · rename_i heq
    exact absurd (List.cons.inj heq).1 (by decide)
  · rename_i heq
    cases heq
    simp only [if_true, hstring, Option.bind_eq_bind, Option.bind_some, String.ofList_toList]
  · rename_i heq
    cases heq

theorem noDigit_cons (h : c.isDigit = false) (rest : List Char) : NoDigit (c :: rest) := by
  intro d hd
  rwa [← Option.some.inj hd]

/-- What it is to read a tree back. -/
def ReadBack (v : Value JsonScalar) : Prop :=
  ∀ (n : ℕ) (rest : List Char), size v ≤ n → NoDigit rest → parse n (text v ++ rest) = some (v, rest)

theorem head?_append_text (v : Value JsonScalar) (rest : List Char) :
    ∃ c ∈ (text v ++ rest).head?, c ≠ ']' := by
  obtain ⟨c, hc, hne, _⟩ := head?_text v
  refine ⟨c, ?_, hne⟩
  cases htext : text v with
  | nil => rw [htext] at hc; cases hc
  | cons d ds => rw [htext] at hc; exact hc

theorem parseItems_text : ∀ {items : List (Value JsonScalar)}, (∀ v ∈ items, ReadBack v) →
    ∀ (n : ℕ) (rest : List Char), sizeItems items ≤ n →
      parseItems n (textItems items ++ rest) = some (items, rest)
  | _, _, 0, _, hn => by
      rename_i items _ _
      cases items <;> simp [sizeItems] at hn
  | [], _, n + 1, rest, _ => by
      rw [parseItems.eq_def]
      rfl
  | [v], ih, n + 1, rest, hn => by
      have hv := ih v mem_cons_self n (']' :: rest)
        (by simp only [sizeItems] at hn; omega) (noDigit_cons (by decide) _)
      rw [textItems, append_assoc, parseItems_succ (head?_append_text v _)]
      simp only [cons_append, nil_append, hv, Option.bind_some]
  | v :: w :: items, ih, n + 1, rest, hn => by
      have hv := ih v mem_cons_self n (',' :: (textItems (w :: items) ++ rest))
        (by simp only [sizeItems] at hn; omega) (noDigit_cons (by decide) _)
      have hitems := parseItems_text (fun u hu => ih u (mem_cons_of_mem v hu)) n rest
        (by simp only [sizeItems] at hn ⊢; omega)
      rw [textItems, append_assoc, parseItems_succ (head?_append_text v _)]
      · simp only [cons_append, hv, Option.bind_some, hitems, Option.map_some]
      · exact fun h => nomatch h

theorem parseEntries_text : ∀ {entries : List (String × Value JsonScalar)},
    (∀ e ∈ entries, ReadBack e.2) → ∀ (n : ℕ) (rest : List Char), sizeEntries entries ≤ n →
      parseEntries n (textEntries entries ++ rest) = some (entries, rest)
  | _, _, 0, _, hn => by
      rename_i entries _ _
      cases entries <;> simp [sizeEntries] at hn
  | [], _, n + 1, rest, _ => by
      rw [parseEntries.eq_def]
      rfl
  | [(k, v)], ih, n + 1, rest, hn => by
      have hv := ih (k, v) mem_cons_self n ('}' :: rest)
        (by simp only [sizeEntries] at hn ⊢; omega) (noDigit_cons (by decide) _)
      rw [textEntries, append_assoc, cons_append, parseEntries_succ, append_assoc]
      simp only [cons_append, nil_append, hv, Option.bind_some]
  | (k, v) :: e :: entries, ih, n + 1, rest, hn => by
      have hv := ih (k, v) mem_cons_self n (',' :: (textEntries (e :: entries) ++ rest))
        (by simp only [sizeEntries] at hn ⊢; omega) (noDigit_cons (by decide) _)
      have hentries := parseEntries_text (fun u hu => ih u (.tail _ hu)) n rest
        (by simp only [sizeEntries] at hn ⊢; omega)
      rw [textEntries, append_assoc, cons_append, parseEntries_succ, append_assoc]
      · simp only [cons_append, hv, Option.bind_some, hentries, Option.map_some]
      · exact fun h => nomatch h

/-- **The text of a tree is read back as the tree.** -/
theorem parse_text (v : Value JsonScalar) : v.Plain → ReadBack v := by
  induction v using Value.induct with
  | scalar x =>
    intro _ n rest hn hrest
    obtain ⟨n, rfl⟩ : ∃ m, n = m + 1 := ⟨n - 1, by simp only [size] at hn; omega⟩
    have hparse := parseScalar_text x hrest
    obtain ⟨c, hc, hquote, hlist, hdict, _⟩ := head?_scalarText x
    change parse (n + 1) (scalarText x ++ rest) = _
    cases htext : scalarText x with
    | nil => rw [htext] at hc; cases hc
    | cons d ds =>
      obtain rfl : d = c := by rw [htext] at hc; exact Option.some.inj hc
      rw [htext, cons_append] at hparse
      rw [cons_append, parse, if_neg hquote, if_neg hlist, if_neg hdict, hparse]
      rfl
  | str s =>
    intro _ n rest hn _
    obtain ⟨n, rfl⟩ : ∃ m, n = m + 1 := ⟨n - 1, by simp only [size] at hn; omega⟩
    have htext : text (.str s) ++ rest = quote :: (s.toList.flatMap escape ++ quote :: rest) := by
      simp [text, stringText]
    rw [htext, parse, if_pos rfl, parseString_text]
    simp
  | list items ih =>
    intro hplain n rest hn _
    obtain ⟨n, rfl⟩ : ∃ m, n = m + 1 := ⟨n - 1, by simp only [size] at hn; omega⟩
    have hitems := parseItems_text (fun v hv => ih v hv (Value.plainItems_iff.1 hplain v hv)) n rest
      (by simp only [size] at hn; omega)
    rw [text, cons_append, parse, if_neg (by decide), if_pos rfl, hitems]
    rfl
  | tuple items _ => exact fun h => h.elim
  | dict entries ih =>
    intro hplain n rest hn _
    obtain ⟨n, rfl⟩ : ∃ m, n = m + 1 := ⟨n - 1, by simp only [size] at hn; omega⟩
    have hentries := parseEntries_text (fun e he => ih e he (Value.plainEntries_iff.1 hplain e he)) n
      rest (by simp only [size] at hn; omega)
    rw [text, cons_append, parse, if_neg (by decide), if_neg (by decide), if_pos rfl, hentries]
    rfl

theorem sizeItems_le : ∀ {items : List (Value JsonScalar)},
    (∀ v ∈ items, size v ≤ 2 * (text v).length) → sizeItems items ≤ 2 * (textItems items).length
  | [], _ => by simp [sizeItems, textItems]
  | [v], ih => by
      have hv := ih v (.head _)
      simp only [sizeItems, textItems, length_append, length_singleton]
      omega
  | v :: w :: items, ih => by
      have hv := ih v (.head _)
      have hitems := sizeItems_le fun u hu => ih u (mem_cons_of_mem v hu)
      rw [sizeItems, textItems, length_append, length_cons]
      · omega
      · exact fun h => nomatch h

theorem sizeEntries_le : ∀ {entries : List (String × Value JsonScalar)},
    (∀ e ∈ entries, size e.2 ≤ 2 * (text e.2).length) → sizeEntries entries ≤ 2 * (textEntries entries).length
  | [], _ => by simp [sizeEntries, textEntries]
  | [(k, v)], ih => by
      have hv : size v ≤ 2 * (text v).length := ih (k, v) (.head _)
      simp only [sizeEntries, textEntries, length_append, length_cons]
      omega
  | (k, v) :: e :: entries, ih => by
      have hv : size v ≤ 2 * (text v).length := ih (k, v) (.head _)
      have hentries := sizeEntries_le fun u hu => ih u (.tail _ hu)
      rw [sizeEntries, textEntries, length_append, length_cons, length_append,
        length_cons]
      · omega
      · exact fun h => nomatch h

/-- The length of a text bounds how deep the parser goes. -/
theorem size_le (v : Value JsonScalar) : size v ≤ 2 * (text v).length := by
  induction v using Value.induct with
  | scalar x =>
    obtain ⟨c, hc, _⟩ := head?_scalarText x
    have hpos : 0 < (scalarText x).length := by
      rw [length_pos_iff]
      intro hnil
      rw [hnil] at hc
      cases hc
    rw [size, text]
    omega
  | str s => simp only [size, text, stringText, length_cons]; omega
  | list items ih | tuple items ih =>
    have := sizeItems_le ih
    rw [size, text, length_cons]
    omega
  | dict entries ih =>
    have := sizeEntries_le ih
    rw [size, text, length_cons]
    omega

/-! ## Bytes -/

/-- The UTF-8 bytes of a text. -/
def encode (cs : List Char) : List UInt8 := (String.ofList cs).toUTF8.data.toList

/-- The text of UTF-8 bytes. -/
def decode (bytes : List UInt8) : Option (List Char) :=
  (String.fromUTF8? ⟨bytes.toArray⟩).map String.toList

theorem decode_encode_text (cs : List Char) : decode (encode cs) = some cs := by
  have hvalid : ((String.ofList cs).toUTF8).IsValidUTF8 := (String.ofList cs).isValidUTF8
  unfold decode encode String.fromUTF8?
  rw [Array.toArray_toList, dif_pos hvalid, Option.map_some]
  exact congrArg some String.toList_ofList

/-- **Compact text with sorted keys in UTF-8, and its parser.** -/
def codec : JsonCodec JsonScalar where
  dumps v := encode (text v.canonical)
  loads bytes := do
    let cs ← decode bytes
    match parse (2 * cs.length) cs with
    | some (v, []) => some v
    | _ => none
  loads_dumps v _ := by
    have hparse := parse_text v.canonical (Value.plain_canonical v) (2 * (text v.canonical).length) []
      (size_le _) fun c hc => nomatch hc
    rw [List.append_nil] at hparse
    rw [decode_encode_text, Option.bind_eq_bind, Option.bind_some, hparse]

end Json
