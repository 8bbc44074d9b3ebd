import MyFuzz.Foundations.Dict

/-!
# Foundations/JsonValue — everything that a JSON text may hold

A document of unknown origin: fractions and the constants beside numbers, texts with lone surrogates, any type
in any place.  A dynamically typed program asks three things of such a value:

    truthy v     whether it counts as true
    key v        what it is compared and hashed by; a list or an object has no key
    encodable v  whether it can be written as UTF-8 without the constants beside numbers

`JsonText` is what a program may rely on when it reads such texts and writes what it has read.
-/

/-- A number with a fraction or an exponent, or a constant beside the numbers. -/
inductive JsonFloat where
  | finite (value : ℚ)
  | infinite (negative : Bool)
  | nan
  deriving DecidableEq

/-- A JSON value.  A text is its code points; the entries of an object are in the order of their keys. -/
inductive JsonValue where
  | null
  | bool (b : Bool)
  | int (i : ℤ)
  | float (x : JsonFloat)
  | text (points : List ℕ)
  | list (items : List JsonValue)
  | object (entries : List (List ℕ × JsonValue))

/-- What a value is compared and hashed by: a number stands for every value that is equal to it. -/
inductive JsonKey where
  | null
  | number (value : ℚ)
  | infinite (negative : Bool)
  | nan
  | text (points : List ℕ)
  deriving DecidableEq

namespace JsonValue

/-- The code points of a text. -/
def points (s : String) : List ℕ := s.toList.map Char.toNat

/-- The truth value. -/
def truthy : JsonValue → Bool
  | .null => false
  | .bool b => b
  | .int i => i ≠ 0
  | .float (.finite x) => x ≠ 0
  | .float _ => true
  | .text points => points ≠ []
  | .list items => !items.isEmpty
  | .object entries => !entries.isEmpty

def key : JsonValue → Option JsonKey
  | .null => some .null
  | .bool b => some (.number (if b then 1 else 0))
  | .int i => some (.number i)
  | .float (.finite x) => some (.number x)
  | .float (.infinite negative) => some (.infinite negative)
  | .float .nan => some .nan
  | .text points => some (.text points)
  | .list _ => none
  | .object _ => none

/-- A list or an object cannot be hashed. -/
def Hashable (v : JsonValue) : Prop := v.key ≠ none

instance (v : JsonValue) : Decidable v.Hashable := inferInstanceAs (Decidable (_ ≠ _))

/-- The value is equal to a text. -/
def Is (v : JsonValue) (s : String) : Prop := v.key = some (.text (points s))

instance (v : JsonValue) (s : String) : Decidable (v.Is s) := inferInstanceAs (Decidable (_ = _))

/-- The value is equal to a number. -/
def Equals (v : JsonValue) (n : ℚ) : Prop := v.key = some (.number n)

instance (v : JsonValue) (n : ℚ) : Decidable (v.Equals n) := inferInstanceAs (Decidable (_ = _))

/-- A value is equal to one number at most. -/
theorem Equals.unique {v : JsonValue} {m n : ℚ} (h : v.Equals m) (h' : v.Equals n) : m = n :=
  JsonKey.number.inj (Option.some.inj (h.symm.trans h'))

/-! ## Objects -/

/-- The value of a field. -/
def field (entries : List (List ℕ × JsonValue)) (name : String) : JsonValue :=
  (Dict.lookup (points name) entries).getD .null

/-- **Entries are what is read of their keys.** -/
theorem entries_eq_map {entries : List (List ℕ × JsonValue)} (h : (entries.map Prod.fst).Nodup) :
    entries = (entries.map Prod.fst).map fun k => (k, (Dict.lookup k entries).getD .null) := by
  rw [List.map_map]
  refine (List.map_id entries).symm.trans (List.map_congr_left fun e he => ?_)
  rw [Function.comp_apply, Dict.lookup_eq_some_of_mem h he]
  rfl

mutual

/-- The keys of every object are in order. -/
def Sorted : JsonValue → Prop
  | .list items => SortedItems items
  | .object entries => (entries.map Prod.fst).Pairwise (· < ·) ∧ SortedEntries entries
  | _ => True

/-- `Sorted` for every item. -/
def SortedItems : List JsonValue → Prop
  | [] => True
  | v :: items => Sorted v ∧ SortedItems items

/-- `Sorted` for every entry. -/
def SortedEntries : List (List ℕ × JsonValue) → Prop
  | [] => True
  | (_, v) :: entries => Sorted v ∧ SortedEntries entries

end

theorem sortedItems_iff {items : List JsonValue} : SortedItems items ↔ ∀ v ∈ items, v.Sorted := by
  induction items with
  | nil => simp [SortedItems]
  | cons v items ih => simp [SortedItems, ih]

theorem sortedEntries_iff {entries : List (List ℕ × JsonValue)} :
    SortedEntries entries ↔ ∀ e ∈ entries, e.2.Sorted := by
  induction entries with
  | nil => simp [SortedEntries]
  | cons e entries ih =>
    obtain ⟨k, v⟩ := e
    simp [SortedEntries, ih]

theorem Sorted.items {items : List JsonValue} (h : (JsonValue.list items).Sorted) :
    ∀ v ∈ items, v.Sorted := sortedItems_iff.1 h

theorem Sorted.entries {entries : List (List ℕ × JsonValue)} (h : (JsonValue.object entries).Sorted) :
    (entries.map Prod.fst).Pairwise (· < ·) ∧ ∀ e ∈ entries, e.2.Sorted :=
  ⟨h.1, sortedEntries_iff.1 h.2⟩

/-- A field of an object in order is in order. -/
theorem Sorted.field {entries : List (List ℕ × JsonValue)} (h : (JsonValue.object entries).Sorted)
    (name : String) : (field entries name).Sorted := by
  unfold JsonValue.field
  cases hget : Dict.lookup (points name) entries with
  | none => exact trivial
  | some v => exact h.entries.2 _ (Dict.mem_of_lookup_eq_some hget)

/-! ## Texts -/

/-- A text without surrogates has an encoding in UTF-8. -/
def encodableText (points : List ℕ) : Bool := points.all fun n => Nat.isValidChar n

mutual

/-- Every number is finite and every text has an encoding in UTF-8. -/
def encodable : JsonValue → Bool
  | .float (.finite _) => true
  | .float _ => false
  | .text points => encodableText points
  | .list items => encodableItems items
  | .object entries => encodableEntries entries
  | _ => true

/-- `encodable` for every item. -/
def encodableItems : List JsonValue → Bool
  | [] => true
  | v :: items => encodable v && encodableItems items

/-- `encodable` for every entry and its key. -/
def encodableEntries : List (List ℕ × JsonValue) → Bool
  | [] => true
  | (k, v) :: entries => encodableText k && encodable v && encodableEntries entries

end

end JsonValue

/-- **Reading texts of unknown origin, and writing what was read.** -/
structure JsonText where
  loads : List UInt8 → Option JsonValue
  dumps : JsonValue → Option (List UInt8)
  sorted_of_loads : ∀ {raw v}, loads raw = some v → v.Sorted
  loads_dumps : ∀ {raw v}, loads raw = some v → v.encodable = true →
    ∃ text, dumps v = some text ∧ loads text = some v
  dumps_eq_none : ∀ {v}, v.encodable = false → dumps v = none

/-- The texts of a program that reads one text only. -/
def JsonText.only (raw : List UInt8) (v : JsonValue) (h : v.Sorted) : JsonText where
  loads text := if text = raw then some v else none
  dumps w := if w.encodable then some raw else none
  sorted_of_loads := by
    intro text w hload
    split_ifs at hload
    exact Option.some.inj hload ▸ h
  loads_dumps := by
    intro text w hload hw
    refine ⟨raw, if_pos hw, ?_⟩
    split_ifs at hload
    rw [if_pos rfl, hload]
  dumps_eq_none := by
    intro w hw
    rw [hw]
    exact if_neg Bool.false_ne_true

theorem JsonText.loads_only (raw : List UInt8) {v : JsonValue} (h : v.Sorted) :
    (JsonText.only raw v h).loads raw = some v := if_pos rfl
