import Mathlib.Tactic

/-!
# Foundations/Dict — an insertion-ordered dictionary

A dictionary is a list of entries with distinct keys, in the order the keys were first bound.
Rebinding a key keeps its place, a new key goes last and a deletion closes the gap:

    set : [(a,1),(b,2)] ──a := 3──▸ [(a,3),(b,2)] ──c := 4──▸ [(a,3),(b,2),(c,4)]

The distinctness of the keys is a field, so a dictionary is read through `get?` alone: the simp set
below says what each operation does to `get?`, and `length_set` what it does to the size.
-/

variable {κ ν : Type*}

/-- The entries of a dictionary in binding order, each key bound once. -/
structure Dict (κ ν : Type*) where
  entries : List (κ × ν)
  nodup : (entries.map Prod.fst).Nodup

namespace Dict

open List

variable {d d' : Dict κ ν}

theorem ext' (h : d.entries = d'.entries) : d = d' := by
  obtain ⟨l, hl⟩ := d
  obtain ⟨l', hl'⟩ := d'
  subst h
  rfl

/-- The dictionary binding nothing. -/
def empty : Dict κ ν := ⟨[], List.nodup_nil⟩

instance : Inhabited (Dict κ ν) := ⟨empty⟩

instance [DecidableEq κ] [DecidableEq ν] : DecidableEq (Dict κ ν) := fun d d' =>
  decidable_of_iff (d.entries = d'.entries) ⟨ext', fun h => h ▸ rfl⟩

/-- The bound keys, in binding order. -/
def keys (d : Dict κ ν) : List κ := d.entries.map Prod.fst

/-- How many keys are bound. -/
def length (d : Dict κ ν) : ℕ := d.entries.length

theorem length_keys (d : Dict κ ν) : d.keys.length = d.length := length_map _

section Lookup

variable [DecidableEq κ]

/-- The first value a list of entries gives a key. -/
def lookup (k : κ) : List (κ × ν) → Option ν
  | [] => none
  | (k', v) :: l => if k' = k then some v else lookup k l

theorem lookup_nil (k : κ) : lookup k ([] : List (κ × ν)) = none := rfl

theorem lookup_cons (k : κ) (e : κ × ν) (l : List (κ × ν)) :
    lookup k (e :: l) = if e.1 = k then some e.2 else lookup k l := rfl

variable {k k' : κ} {v : ν} {l : List (κ × ν)} {μ : Type*}

theorem lookup_eq_none_iff : ∀ {l : List (κ × ν)}, lookup k l = none ↔ k ∉ l.map Prod.fst := by
  intro l
  induction l with
  | nil => simp [lookup_nil]
  | cons e l ih =>
    by_cases h : e.1 = k
    · simp [lookup_cons, h]
    · simp [lookup_cons, h, Ne.symm h, ih]

theorem mem_of_lookup_eq_some : ∀ {l : List (κ × ν)}, lookup k l = some v → (k, v) ∈ l := by
  intro l
  induction l with
  | nil => simp [lookup_nil]
  | cons e l ih =>
    intro h
    by_cases hk : e.1 = k
    · subst hk
      obtain rfl : e.2 = v := by simpa [lookup_cons] using h
      exact .head _
    · exact .tail _ (ih (by simpa [lookup_cons, hk] using h))

theorem lookup_eq_some_of_mem : ∀ {l : List (κ × ν)},
    (l.map Prod.fst).Nodup → (k, v) ∈ l → lookup k l = some v := by
  intro l
  induction l with
  | nil => simp
  | cons e l ih =>
    intro hnd h
    rw [map_cons, nodup_cons] at hnd
    rcases mem_cons.1 h with rfl | h
    · simp [lookup_cons]
    · have hne : e.1 ≠ k := fun hk => hnd.1 (mem_map.2 ⟨(k, v), h, hk.symm⟩)
      simpa [lookup_cons, hne] using ih hnd.2 h

/-- The value bound to a key. -/
def get? (d : Dict κ ν) (k : κ) : Option ν := lookup k d.entries

/-- Whether a key is bound. -/
def contains (d : Dict κ ν) (k : κ) : Bool := (d.get? k).isSome

/-- The value bound to a key, or a default. -/
def getD (d : Dict κ ν) (k : κ) (v : ν) : ν := (d.get? k).getD v

@[simp] theorem get?_empty (k : κ) : (empty : Dict κ ν).get? k = none := rfl

theorem mem_entries_iff : (k, v) ∈ d.entries ↔ d.get? k = some v :=
  ⟨lookup_eq_some_of_mem d.nodup, mem_of_lookup_eq_some⟩

theorem mem_keys_iff : k ∈ d.keys ↔ (d.get? k).isSome := by
  rw [Option.isSome_iff_ne_none]
  exact ⟨fun h h' => lookup_eq_none_iff.1 h' h, fun h => not_not.1 fun h' => h (lookup_eq_none_iff.2 h')⟩

/-! ## Binding a key -/

/-- Rebind a key where it stands, or bind it last. -/
def setEntry (k : κ) (v : ν) : List (κ × ν) → List (κ × ν)
  | [] => [(k, v)]
  | (k', v') :: l => if k' = k then (k, v) :: l else (k', v') :: setEntry k v l

theorem setEntry_nil (k : κ) (v : ν) : setEntry k v [] = [(k, v)] := rfl

theorem setEntry_cons (k : κ) (v : ν) (e : κ × ν) (l : List (κ × ν)) :
    setEntry k v (e :: l) = if e.1 = k then (k, v) :: l else e :: setEntry k v l := rfl

theorem map_fst_setEntry (k : κ) (v : ν) : ∀ l : List (κ × ν), (setEntry k v l).map Prod.fst
      = if k ∈ l.map Prod.fst then l.map Prod.fst else l.map Prod.fst ++ [k] := by
  intro l
  induction l with
  | nil => simp [setEntry_nil]
  | cons e l ih =>
    by_cases h : e.1 = k
    · simp [setEntry_cons, h]
    · by_cases hm : k ∈ l.map Prod.fst
      · simp only [setEntry_cons, h, if_false, map_cons, ih, hm, if_true, mem_cons, or_true]
      · simp only [setEntry_cons, h, if_false, map_cons, ih, hm, mem_cons, Ne.symm h, or_self,
          cons_append]

/-- Bind a key, in place when it is bound already. -/
def set (d : Dict κ ν) (k : κ) (v : ν) : Dict κ ν where
  entries := setEntry k v d.entries
  nodup := by
    rw [map_fst_setEntry]
    by_cases h : k ∈ d.entries.map Prod.fst
    · rw [if_pos h]
      exact d.nodup
    · rw [if_neg h, List.nodup_append]
      exact ⟨d.nodup, List.nodup_singleton k, fun a ha b hb => by
        rintro rfl
        exact h (List.mem_singleton.mp hb ▸ ha)⟩

theorem lookup_setEntry (k k' : κ) (v : ν) : ∀ l : List (κ × ν),
    lookup k' (setEntry k v l) = if k' = k then some v else lookup k' l := by
  intro l
  induction l with
  | nil =>
    by_cases h : k' = k
    · simp [setEntry_nil, lookup_cons, h]
    · simp [setEntry_nil, lookup_nil, lookup_cons, h, Ne.symm h]
  | cons e l ih =>
    obtain ⟨k₀, v₀⟩ := e
    by_cases h₀ : k₀ = k
    · subst h₀
      by_cases h : k' = k₀
      · simp [setEntry_cons, lookup_cons, h]
      · simp [setEntry_cons, lookup_cons, h, Ne.symm h]
    · by_cases h' : k₀ = k'
      · subst h'
        simp [setEntry_cons, lookup_cons, h₀]
      · simp [setEntry_cons, lookup_cons, h₀, h', ih]

section

variable (d : Dict κ ν)

/-- **A binding is read back, and hides no other.** -/
theorem get?_set (k k' : κ) (v : ν) :
    (d.set k v).get? k' = if k' = k then some v else d.get? k' := lookup_setEntry k k' v d.entries

@[simp] theorem get?_set_self (k : κ) (v : ν) : (d.set k v).get? k = some v := by
  rw [get?_set, if_pos rfl]

theorem get?_set_of_ne (h : k' ≠ k) (v : ν) : (d.set k v).get? k' = d.get? k' := by
  rw [get?_set, if_neg h]

@[simp] theorem getD_set_self (k : κ) (v w : ν) : (d.set k v).getD k w = v := by
  simp [getD]

theorem getD_set_of_ne (h : k' ≠ k) (v w : ν) : (d.set k v).getD k' w = d.getD k' w := by
  rw [getD, get?_set_of_ne d h, getD]

theorem keys_set (k : κ) (v : ν) :
    (d.set k v).keys = if k ∈ d.keys then d.keys else d.keys ++ [k] :=
  map_fst_setEntry k v d.entries

/-- **A binding grows the dictionary exactly when the key is new.** -/
theorem length_set (k : κ) (v : ν) :
    (d.set k v).length = if (d.get? k).isSome then d.length else d.length + 1 := by
  rw [← length_keys, keys_set]
  by_cases h : (d.get? k).isSome = true
  · rw [if_pos (mem_keys_iff.2 h), if_pos h, length_keys]
  · rw [if_neg fun hm => h (mem_keys_iff.1 hm), if_neg h, length_append, length_keys]
    rfl

end

theorem setEntry_of_not_mem : ∀ {l : List (κ × ν)}, k ∉ l.map Prod.fst → setEntry k v l = l ++ [(k, v)] := by
  intro l
  induction l with
  | nil => exact fun _ => rfl
  | cons e l ih =>
    intro h
    rw [map_cons, mem_cons, not_or] at h
    rw [setEntry_cons, if_neg (Ne.symm h.1), ih h.2, cons_append]

/-- **A new key is bound last.** -/
theorem entries_set_of_get?_eq_none (h : d.get? k = none) (v : ν) :
    (d.set k v).entries = d.entries ++ [(k, v)] :=
  setEntry_of_not_mem (lookup_eq_none_iff.1 h)

/-! ## Binding many keys, mapping values -/

/-- Bind the listed keys in order. -/
def update (d : Dict κ ν) (l : List (κ × ν)) : Dict κ ν := l.foldl (fun d p => d.set p.1 p.2) d

@[simp] theorem update_cons (d : Dict κ ν) (p : κ × ν) (l : List (κ × ν)) :
    d.update (p :: l) = (d.set p.1 p.2).update l := rfl

/-- **Distinct keys bound together**: each is bound to its value, the others stay. -/
theorem get?_update (hl : (l.map Prod.fst).Nodup) (d : Dict κ ν) (k : κ) :
    (d.update l).get? k = (lookup k l).or (d.get? k) := by
  induction l generalizing d with
  | nil => rfl
  | cons p l ih =>
    rw [map_cons, nodup_cons] at hl
    rw [update_cons, ih hl.2, get?_set, lookup_cons]
    by_cases hk : p.1 = k
    · subst hk
      rw [lookup_eq_none_iff.2 hl.1, if_pos rfl, if_pos rfl]
      rfl
    · rw [if_neg (Ne.symm hk), if_neg hk]

/-- Binding keys to the default changes nothing that is read with it. -/
theorem getD_update_const : ∀ {l : List κ} {d : Dict κ ν}, d.getD k v = v →
    (d.update (l.map fun i => (i, v))).getD k v = v := by
  intro l
  induction l with
  | nil => exact fun h => h
  | cons i l ih =>
    intro d h
    rw [map_cons, update_cons]
    refine ih ?_
    by_cases hk : k = i
    · rw [hk, getD_set_self]
    · rw [getD_set_of_ne d hk, h]

theorem get?_update_of_mem (hl : (l.map Prod.fst).Nodup) (d : Dict κ ν) (hk : (k, v) ∈ l) :
    (d.update l).get? k = some v := by
  rw [get?_update hl, lookup_eq_some_of_mem hl hk, Option.some_or]

/-- **Distinct keys grow the dictionary by those that are new.** -/
theorem length_update (hl : (l.map Prod.fst).Nodup) (d : Dict κ ν) :
    (d.update l).length = d.length + (l.filter fun p => (d.get? p.1).isNone).length := by
  induction l generalizing d with
  | nil => rfl
  | cons p l ih =>
    rw [map_cons, nodup_cons] at hl
    have hsame : (l.filter fun q => ((d.set p.1 p.2).get? q.1).isNone)
        = l.filter fun q => (d.get? q.1).isNone := by
      refine filter_congr fun q hq => ?_
      have hne : q.1 ≠ p.1 := fun h => hl.1 (h ▸ mem_map_of_mem hq)
      rw [get?_set_of_ne d hne]
    rw [update_cons, ih hl.2, hsame, length_set, filter_cons]
    cases hd : d.get? p.1 with
    | none => simp only [Option.isSome_none, Bool.false_eq_true, if_false, Option.isNone_none,
        if_true, length_cons]; omega
    | some v => simp

/-- **A dictionary that binds fewer keys is no longer.** -/
theorem length_le_of_keys {e : Dict κ μ} (h : ∀ k, (d.get? k).isSome → (e.get? k).isSome) :
    d.length ≤ e.length := by
  rw [← length_keys, ← length_keys]
  exact (subperm_of_subset d.nodup fun k hk =>
    mem_keys_iff.2 (h k (mem_keys_iff.1 hk))).length_le

/-- Unbind a key. -/
def erase (d : Dict κ ν) (k : κ) : Dict κ ν where
  entries := d.entries.filter fun p => p.1 ≠ k
  nodup := (List.filter_sublist.map Prod.fst).nodup d.nodup

/-- Unbinding the first key leaves the other entries. -/
theorem entries_erase_head (h : d.entries = (k, v) :: l) : (d.erase k).entries = l := by
  have hnd := d.nodup
  rw [h, map_cons, nodup_cons] at hnd
  change d.entries.filter (fun p => p.1 ≠ k) = l
  rw [h, filter_cons_of_neg (by simp), filter_eq_self]
  intro p hp
  have hmem : p.1 ∈ l.map Prod.fst := mem_map_of_mem hp
  have hne : p.1 ≠ k := by
    intro hk
    rw [hk] at hmem
    exact hnd.1 hmem
  simpa using hne

theorem lookup_filter_ne (k k' : κ) : ∀ l : List (κ × ν),
    lookup k' (l.filter fun p => p.1 ≠ k) = if k' = k then none else lookup k' l := by
  intro l
  induction l with
  | nil => simp [lookup_nil]
  | cons e l ih =>
    rw [filter_cons]
    split_ifs with hj hk hk
    · rw [lookup_cons, ih, if_pos hk, if_neg (by simpa [hk] using hj)]
    · rw [lookup_cons, lookup_cons, ih, if_neg hk]
    · rw [ih, if_pos hk]
    · have hjk : e.1 = k := by simpa using hj
      rw [ih, if_neg hk, lookup_cons, if_neg fun h => hk (h.symm.trans hjk)]

theorem get?_erase (d : Dict κ ν) (k k' : κ) :
    (d.erase k).get? k' = if k' = k then none else d.get? k' := lookup_filter_ne k k' d.entries

/-- Move a key's entry to the end. -/
def moveToEnd (d : Dict κ ν) (k : κ) : Dict κ ν :=
  match d.get? k with
  | none => d
  | some v => (d.erase k).set k v

@[simp] theorem get?_moveToEnd (d : Dict κ ν) (k k' : κ) : (d.moveToEnd k).get? k' = d.get? k' := by
  unfold moveToEnd
  cases h : d.get? k with
  | none => rfl
  | some v =>
    rw [get?_set, get?_erase]
    by_cases hk : k' = k
    · rw [if_pos hk, hk, h]
    · rw [if_neg hk, if_neg hk]

omit [DecidableEq κ] in
/-- Unbind the key bound first. -/
def popFirst (d : Dict κ ν) : Dict κ ν where
  entries := d.entries.tail
  nodup := (List.tail_sublist _ |>.map Prod.fst).nodup d.nodup

theorem get?_of_get?_popFirst (h : d.popFirst.get? k = some v) : d.get? k = some v :=
  mem_entries_iff.1 (mem_of_mem_tail (mem_entries_iff.2 h))

omit [DecidableEq κ] in
theorem length_popFirst (d : Dict κ ν) : d.popFirst.length = d.length - 1 := length_tail

/-- **A bounded table makes room by dropping its first key.** -/
theorem length_set_of_room {n : ℕ} (hpos : 0 < n) (h : d.length ≤ n) (k : κ) (v : ν) :
    ((if n ≤ d.length ∧ d.get? k = none then d.popFirst else d).set k v).length ≤ n := by
  rw [length_set]
  split
  · rename_i hfull
    rw [length_popFirst]
    split
    · omega
    · omega
  · rename_i hroom
    split
    · exact h
    · rename_i hnew
      rw [Option.not_isSome_iff_eq_none] at hnew
      have hlt : d.length < n := not_le.1 fun hfull => hroom ⟨hfull, hnew⟩
      omega

/-- **The key bound first is the one that goes.** -/
theorem get?_popFirst (d : Dict κ ν) (k : κ) :
    d.popFirst.get? k = if d.keys.head? = some k then none else d.get? k := by
  obtain ⟨l, hl⟩ := d
  cases l with
  | nil => rfl
  | cons e l =>
    rw [map_cons, nodup_cons] at hl
    change lookup k l = if some e.1 = some k then none else lookup k (e :: l)
    by_cases hk : e.1 = k
    · subst hk
      rw [if_pos rfl, lookup_eq_none_iff.2 hl.1]
    · rw [if_neg fun h => hk (Option.some.inj h), lookup_cons, if_neg hk]

omit [DecidableEq κ] in
/-- Keep the keys that satisfy a predicate. -/
def filterKeys (d : Dict κ ν) (p : κ → Bool) : Dict κ ν where
  entries := d.entries.filter fun e => p e.1
  nodup := (List.filter_sublist.map Prod.fst).nodup d.nodup

theorem get?_filterKeys (d : Dict κ ν) (p : κ → Bool) (k : κ) :
    (d.filterKeys p).get? k = if p k then d.get? k else none := by
  split_ifs with hp
  · refine Option.ext fun v => ?_
    rw [← mem_entries_iff, ← mem_entries_iff]
    exact ⟨fun h => (mem_filter.1 h).1, fun h => mem_filter.2 ⟨h, hp⟩⟩
  · refine lookup_eq_none_iff.2 fun h => ?_
    obtain ⟨e, he, rfl⟩ := mem_map.1 h
    exact hp (mem_filter.1 he).2

omit [DecidableEq κ] in
theorem length_filterKeys_le (d : Dict κ ν) (p : κ → Bool) : (d.filterKeys p).length ≤ d.length :=
  length_filter_le _ _

/-- Apply a function to every bound value. -/
def mapVal {μ : Type*} (f : ν → μ) (d : Dict κ ν) : Dict κ μ where
  entries := d.entries.map fun p => (p.1, f p.2)
  nodup := by
    rw [List.map_map]
    exact d.nodup

theorem lookup_map (f : κ → ν → μ) (k : κ) : ∀ l : List (κ × ν),
    lookup k (l.map fun p => (p.1, f p.1 p.2)) = (lookup k l).map (f k) := by
  intro l
  induction l with
  | nil => rfl
  | cons e l ih =>
    rw [map_cons, lookup_cons, lookup_cons, ih]
    by_cases h : e.1 = k
    · subst h
      simp
    · simp [h]

@[simp] theorem get?_mapVal (f : ν → μ) (d : Dict κ ν) (k : κ) :
    (d.mapVal f).get? k = (d.get? k).map f := lookup_map (fun _ => f) k d.entries

omit [DecidableEq κ] in
@[simp] theorem length_mapVal (f : ν → μ) (d : Dict κ ν) : (d.mapVal f).length = d.length := length_map _

/-! ## Dictionaries that bind the same -/

theorem mem_entries_set {e : κ × ν} (h : e ∈ (d.set k v).entries) : e = (k, v) ∨ e ∈ d.entries := by
  obtain ⟨k', v'⟩ := e
  rw [mem_entries_iff, get?_set] at h
  split_ifs at h with hk
  · rw [hk, Option.some.inj h]
    exact .inl rfl
  · exact .inr (mem_entries_iff.2 h)

/-- **Dictionaries that bind the same have the same entries**, in some order. -/
theorem perm_of_get?_eq (h : ∀ k, d.get? k = d'.get? k) : d.entries.Perm d'.entries := by
  refine (perm_ext_iff_of_nodup d.nodup.of_map d'.nodup.of_map).2 fun e => ?_
  obtain ⟨k, v⟩ := e
  rw [mem_entries_iff, mem_entries_iff, h]

/-- A list of entries with distinct keys, as a dictionary. -/
theorem get?_update_empty (hl : (l.map Prod.fst).Nodup) (k : κ) :
    ((empty : Dict κ ν).update l).get? k = lookup k l := by
  rw [get?_update hl, get?_empty, Option.or_none]

end Lookup

end Dict
