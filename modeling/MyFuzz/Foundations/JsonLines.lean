import MyFuzz.Foundations.Bytes
import MyFuzz.Foundations.Json

/-!
# Foundations/JsonLines — one document a line

Serialised documents may be stored one a line when no document's text ends a line.  `JsonLines` is a
codec with that property, and one that writes what it read as it was written.  `Json.lines` shows
that compact text in UTF-8 has both: control characters are escaped, and every byte of a character
beyond ASCII is at least 128.
-/

/-- A codec whose documents are single lines and are written again as they were. -/
structure JsonLines (σ : Type) extends JsonCodec σ where
  dumps_canonical : ∀ v : Value σ, v.WellFormed → dumps v.canonical = dumps v
  oneLine_dumps : ∀ v : Value σ, v.WellFormed → Bytes.OneLine (dumps v)

namespace Json

open List

/-! ## Text without control characters -/

/-- No control character occurs. -/
def Printed (cs : List Char) : Prop := ∀ c ∈ cs, 32 ≤ c.toNat

variable {cs : List Char} {n : ℕ}

theorem printed_of_all (h : (cs.all fun c => decide (32 ≤ c.toNat)) = true) :
    Printed cs := fun c hc => of_decide_eq_true (all_eq_true.1 h c hc)

theorem Printed.append {ds : List Char} (hcs : Printed cs) (hds : Printed ds) : Printed (cs ++ ds) := by
  intro c hc
  rcases mem_append.1 hc with hc | hc
  · exact hcs c hc
  · exact hds c hc

theorem Printed.cons {c : Char} {cs : List Char} (hc : 32 ≤ c.toNat) (hcs : Printed cs) : Printed (c :: cs) :=
  forall_mem_cons.2 ⟨hc, hcs⟩

theorem printed_hexDigits (h : n < 32) : Printed (Repr.hexDigits 4 n) := by
  have hdigit : ∀ k < 16, 32 ≤ (Repr.hexDigit k).toNat := by decide
  rw [hexDigits_four n h]
  refine .cons ?_ (.cons ?_ (.cons ?_ (.cons ?_ nofun))) <;>
    exact hdigit _ (Nat.mod_lt _ (by norm_num))

theorem printed_escape (c : Char) : Printed (escape c) := by
  unfold escape
  split_ifs with h1 h2 h3 h4 h5 h6 h7 h8
  · exact printed_of_all (by decide)
  · exact printed_of_all (by decide)
  · exact printed_of_all (by decide)
  · exact printed_of_all (by decide)
  · exact printed_of_all (by decide)
  · exact printed_of_all (by decide)
  · exact printed_of_all (by decide)
  · exact .cons (by decide) (.cons (by decide) (printed_hexDigits h8))
  · exact .cons (by omega) nofun

theorem printed_stringText (s : String) : Printed (stringText s) := by
  refine .cons (by decide) (.append (fun c hc => ?_) (printed_of_all (by decide)))
  obtain ⟨d, -, hd⟩ := mem_flatMap.1 hc
  exact printed_escape d c hd

theorem printed_repr (n : ℕ) : Printed n.repr.toList := by
  intro c hc
  have hdigit := isDigit_of_mem_repr hc
  simp only [Char.isDigit, Bool.and_eq_true, decide_eq_true_eq] at hdigit
  have hle : (48 : ℕ) ≤ c.toNat := hdigit.1
  omega

theorem printed_scalarText (x : JsonScalar) : Printed (scalarText x) := by
  cases x with
  | null => exact printed_of_all (by decide)
  | bool b => cases b <;> exact printed_of_all (by decide)
  | int i =>
    cases i with
    | ofNat n => exact printed_repr n
    | negSucc n => exact .cons (by decide) (printed_repr (n + 1))

theorem printed_textItems {items : List (Value JsonScalar)} (h : ∀ v ∈ items, Printed (text v)) :
    Printed (textItems items) := by
  induction items with
  | nil => exact printed_of_all (by decide)
  | cons v rest ih =>
    have hhead := h v (.head _)
    cases rest with
    | nil => exact hhead.append (printed_of_all (by decide))
    | cons w items =>
      rw [textItems]
      · exact hhead.append (.cons (by decide) (ih fun u hu => h u (mem_cons_of_mem v hu)))
      · exact cons_ne_nil w items

theorem printed_textEntries {entries : List (String × Value JsonScalar)}
    (h : ∀ e ∈ entries, Printed (text e.2)) : Printed (textEntries entries) := by
  induction entries with
  | nil => exact printed_of_all (by decide)
  | cons entry rest ih =>
    obtain ⟨k, v⟩ := entry
    have hhead := h (k, v) (.head _)
    cases rest with
    | nil =>
      exact (printed_stringText k).append
        (.cons (by decide) (hhead.append (printed_of_all (by decide))))
    | cons e entries =>
      have htail := ih fun u hu => h u (.tail _ hu)
      rw [textEntries]
      · exact (printed_stringText k).append
          (.cons (by decide) (hhead.append (.cons (by decide) htail)))
      · exact cons_ne_nil e entries

/-- **The text of a tree holds no control character.** -/
theorem printed_text (v : Value JsonScalar) : Printed (text v) := by
  induction v using Value.induct with
  | scalar x => exact printed_scalarText x
  | str s => exact printed_stringText s
  | list items ih | tuple items ih => exact .cons (by decide) (printed_textItems ih)
  | dict entries ih => exact .cons (by decide) (printed_textEntries ih)

/-! ## Bytes that end no line -/

theorem ofNat_ends_no_line (h : 32 ≤ n) (h' : n < 256) : UInt8.ofNat n ≠ 10 ∧ UInt8.ofNat n ≠ 13 := by
  have hn : (UInt8.ofNat n).toNat = n := UInt8.toNat_ofNat_of_lt (by simpa [UInt8.size] using h')
  constructor
  · intro heq
    rw [heq] at hn
    change 10 = n at hn
    omega
  · intro heq
    rw [heq] at hn
    change 13 = n at hn
    omega

theorem oneLine_utf8EncodeChar {c : Char} (h : 32 ≤ c.toNat) : Bytes.OneLine (String.utf8EncodeChar c) := by
  have hc : 32 ≤ c.val.toNat := h
  intro b hb
  simp only [String.utf8EncodeChar] at hb
  split_ifs at hb with h1 h2 h3
  · obtain rfl := mem_singleton.1 hb
    exact ofNat_ends_no_line hc (by omega)
  · rcases mem_pair.1 hb with rfl | rfl <;> exact ofNat_ends_no_line (by omega) (by omega)
  · simp only [mem_cons, not_mem_nil, or_false] at hb
    rcases hb with rfl | rfl | rfl <;> exact ofNat_ends_no_line (by omega) (by omega)
  · simp only [mem_cons, not_mem_nil, or_false] at hb
    rcases hb with rfl | rfl | rfl | rfl <;> exact ofNat_ends_no_line (by omega) (by omega)

theorem oneLine_encode (h : Printed cs) : Bytes.OneLine (encode cs) := by
  have hbytes : encode cs = cs.flatMap String.utf8EncodeChar := by
    rw [encode, String.toUTF8, String.toByteArray_ofList, List.utf8Encode, data_toByteArray]
  intro b hb
  rw [hbytes] at hb
  obtain ⟨c, hc, hb⟩ := mem_flatMap.1 hb
  exact oneLine_utf8EncodeChar (h c hc) b hb

/-- **Compact text is one line.** -/
def lines : JsonLines JsonScalar where
  toJsonCodec := codec
  dumps_canonical v _ := by
    change encode (text v.canonical.canonical) = encode (text v.canonical)
    rw [Value.canonical_canonical]
  oneLine_dumps v _ := oneLine_encode (printed_text v.canonical)

end Json
