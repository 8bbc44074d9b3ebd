import MyFuzz.Foundations.Outcome

/-!
# Foundations/Sequence — integer indices and slices of a sequence

A sequence of `n` items is read by an integer, counted from the end when it is negative, or by a
slice `start:stop:step` whose parts may be left out.  `Slice.indices` resolves a slice to an
arithmetic progression and `mem_positions` keeps that progression inside the sequence:

    xs[-1]      ──▸ position n - 1
    xs[::-2]    ──▸ positions n - 1, n - 3, …

`index` and `slice` read a list; a container that stores its items some other way is compared with
them, also when it keeps them in chunks.  `firsts` keeps the distinct items in the order they appear.
-/

namespace Sequence

open List

variable {α : Type}

/-- An index outside the sequence. -/
def indexError (message : String) : Exn := .other ("IndexError: " ++ message)

/-- `start:stop:step`, each possibly left out. -/
structure Slice where
  start : Option ℤ
  stop : Option ℤ
  step : Option ℤ
  deriving DecidableEq

/-- An end of a slice, counted from the end when negative and moved into `[lower, upper]`. -/
def clamp (length : ℕ) (lower upper bound : ℤ) : ℤ :=
  if bound < 0 then max lower (bound + length) else min bound upper

/-- `start`, `stop` and `step` of a slice over a sequence of this length. -/
def Slice.indices (s : Slice) (length : ℕ) : Except Exn (ℤ × ℤ × ℤ) := do
  let step := s.step.getD 1
  ensure (step ≠ 0) (.valueError "slice step cannot be zero")
  let lower : ℤ := if step < 0 then -1 else 0
  let upper : ℤ := length + lower
  let start := match s.start with
    | none => if step < 0 then upper else lower
    | some bound => clamp length lower upper bound
  let stop := match s.stop with
    | none => if step < 0 then lower else upper
    | some bound => clamp length lower upper bound
  pure (start, stop, step)

/-- How many steps lead from `start` to before `stop`. -/
def rangeLength (start stop step : ℤ) : ℕ :=
  if 0 < step then if start < stop then ((stop - start - 1) / step + 1).toNat else 0
  else if stop < start then ((start - stop - 1) / (-step) + 1).toNat else 0

/-- The members of `range(start, stop, step)`. -/
def range (start stop step : ℤ) : List ℤ :=
  (List.range (rangeLength start stop step)).map fun i : ℕ => start + (i : ℤ) * step

/-- The positions a slice selects. -/
def Slice.positions (s : Slice) (length : ℕ) : Except Exn (List ℤ) := do
  let (start, stop, step) ← s.indices length
  pure (range start stop step)

/-- The place an integer index names. -/
def position (message : String) (length : ℕ) (index : ℤ) : Except Exn ℕ :=
  let index := if index < 0 then index + length else index
  if 0 ≤ index ∧ index < length then .ok index.toNat else .error (indexError message)

/-- The item of a list at an integer index. -/
def index (message : String) (l : List α) (i : ℤ) : Except Exn α := do
  let place ← position message l.length i
  match l[place]? with
  | some a => pure a
  | none => .error (indexError message)

/-- The items of a list a slice selects. -/
def slice (l : List α) (s : Slice) : Except Exn (List α) := do
  let positions ← s.positions l.length
  pure (positions.filterMap fun p => l[p.toNat]?)

example : slice [10, 11, 12, 13] ⟨none, none, some (-2)⟩ = .ok [13, 11] := by decide

/-! ## Positions -/

variable {p start step stop i : ℤ} {length place n : ℕ} {message : String}

theorem mem_range_of_pos (hs : 0 < step) (h : p ∈ range start stop step) : start ≤ p ∧ p < stop := by
  obtain ⟨i, hi, rfl⟩ := mem_map.1 h
  rw [mem_range, rangeLength, if_pos hs] at hi
  split_ifs at hi with hlt
  · have hle : (i : ℤ) ≤ (stop - start - 1) / step := by omega
    have hmul : (i : ℤ) * step ≤ stop - start - 1 := (Int.le_ediv_iff_mul_le hs).1 hle
    have hnonneg : 0 ≤ (i : ℤ) * step := Int.mul_nonneg (Int.natCast_nonneg i) hs.le
    exact ⟨by omega, by omega⟩
  · exact absurd hi (Nat.not_lt_zero i)

theorem mem_range_of_neg (hs : step < 0) (h : p ∈ range start stop step) : stop < p ∧ p ≤ start := by
  obtain ⟨i, hi, rfl⟩ := mem_map.1 h
  rw [mem_range, rangeLength, if_neg (by omega)] at hi
  split_ifs at hi with hlt
  · have hle : (i : ℤ) ≤ (start - stop - 1) / (-step) := by omega
    have hmul : (i : ℤ) * (-step) ≤ start - stop - 1 := (Int.le_ediv_iff_mul_le (by omega)).1 hle
    have hnonneg : 0 ≤ (i : ℤ) * (-step) := Int.mul_nonneg (Int.natCast_nonneg i) (by omega)
    have hneg : (i : ℤ) * step = -((i : ℤ) * (-step)) := by ring
    exact ⟨by omega, by omega⟩
  · exact absurd hi (Nat.not_lt_zero i)

theorem clamp_bounds (length : ℕ) (lower : ℤ) {upper : ℤ} (bound : ℤ) (hlower : -1 ≤ lower ∧ lower ≤ 0)
    (hupper : upper = length + lower) :
    lower ≤ clamp length lower upper bound ∧ clamp length lower upper bound ≤ upper := by
  unfold clamp
  split_ifs with h <;> omega

/-- **A slice selects positions of the sequence only.** -/
theorem mem_positions {s : Slice} {ps : List ℤ} (h : s.positions length = .ok ps) (hp : p ∈ ps) :
    0 ≤ p ∧ p < length := by
  obtain ⟨⟨start, stop, step⟩, hindices, hps⟩ := Outcome.bind_ok.1 h
  cases hps
  obtain ⟨hstep, hindices⟩ := Outcome.ensure_ok.1 hindices
  injection hindices with htriple
  simp only [Prod.mk.injEq] at htriple
  obtain ⟨hstart, hstop, rfl⟩ := htriple
  rcases lt_or_gt_of_ne hstep with hneg | hpos
  · -- downwards: the range lies in `(-1, length - 1]`
    obtain ⟨hlt, hle⟩ := mem_range_of_neg hneg hp
    have hstart' : start ≤ length - 1 := by
      rw [← hstart]
      cases s.start with
      | none => simp only [if_pos hneg]; omega
      | some bound =>
        have := (clamp_bounds length (-1) bound (by omega) rfl).2
        simpa only [if_pos hneg, sub_eq_add_neg] using this
    have hstop' : -1 ≤ stop := by
      rw [← hstop]
      cases s.stop with
      | none => simp only [if_pos hneg]; omega
      | some bound =>
        have := (clamp_bounds length (-1) bound (by omega) rfl).1
        simpa only [if_pos hneg] using this
    exact ⟨by omega, by omega⟩
  · -- upwards: the range lies in `[0, length)`
    have hnn : ¬ s.step.getD 1 < 0 := by omega
    obtain ⟨hle, hlt⟩ := mem_range_of_pos hpos hp
    have hstart' : 0 ≤ start := by
      rw [← hstart]
      cases s.start with
      | none => simp only [if_neg hnn]; omega
      | some bound =>
        have := (clamp_bounds length 0 bound (by omega) rfl).1
        simpa only [if_neg hnn] using this
    have hstop' : stop ≤ length := by
      rw [← hstop]
      cases s.stop with
      | none => simp only [if_neg hnn]; omega
      | some bound =>
        have := (clamp_bounds length 0 bound (by omega) rfl).2
        simpa only [if_neg hnn, add_zero] using this
    exact ⟨by omega, by omega⟩

theorem position_lt (h : position message length i = .ok place) : place < length := by
  unfold position at h
  simp only at h
  split_ifs at h with hb <;> (injection h with h; omega)

theorem position_of_lt (h0 : 0 ≤ i) (h : i < length) : position message length i = .ok i.toNat := by
  unfold position
  simp only [if_neg (not_lt.2 h0), if_pos (And.intro h0 h)]

theorem index_of_position {l : List α} {a : α} (h : position message l.length i = .ok place)
    (ha : l[place]? = some a) : index message l i = .ok a := by
  rw [index, h, Outcome.ok_bind, ha]
  rfl

theorem index_of_error {l : List α} {e : Exn} (h : position message l.length i = .error e) :
    index message l i = .error e := by
  rw [index, h, Outcome.error_bind]

/-! ## Chunks of one length -/

/-- **Item `i` of a sequence cut into chunks of one length is item `i % n` of chunk `i / n`.** -/
theorem getElem?_flatten_append (hn : 0 < n) (tail : List α) :
    ∀ {chunks : List (List α)}, (∀ c ∈ chunks, c.length = n) → ∀ {number offset : ℕ},
      offset < n → number ≤ chunks.length →
      (chunks.flatten ++ tail)[number * n + offset]? = ((chunks ++ [tail])[number]?.getD [])[offset]?
  | [], _, number, offset, _, hle => by
      obtain rfl : number = 0 := Nat.le_zero.1 hle
      simp
  | c :: chunks, hlen, 0, offset, ho, _ => by
      have hc : offset < c.length := by rw [hlen c mem_cons_self]; exact ho
      simp [getElem?_append_left hc]
  | c :: chunks, hlen, number + 1, offset, ho, hle => by
      have hc : c.length = n := hlen c (.head _)
      have ih := getElem?_flatten_append hn tail (fun d hd => hlen d (mem_cons_of_mem c hd))
        ho (Nat.le_of_succ_le_succ hle)
      have hge : c.length ≤ (number + 1) * n + offset := by rw [hc]; nlinarith
      have hsub : (number + 1) * n + offset - c.length = number * n + offset := by
        rw [hc, Nat.succ_mul]; omega
      rw [flatten_cons, append_assoc, getElem?_append_right hge, hsub, ih]
      rfl

theorem length_flatten {chunks : List (List α)} (h : ∀ c ∈ chunks, c.length = n) :
    chunks.flatten.length = chunks.length * n := by
  rw [List.length_flatten, List.sum_eq_card_nsmul _ n (by simpa using h), List.length_map, smul_eq_mul]

/-! ## Chunks of any length -/

/-- Where each chunk begins, the first at `start`. -/
def starts (start : ℕ) : List (List α) → List ℕ
  | [] => []
  | c :: chunks => start :: starts (start + c.length) chunks

/-- Where a sorted list may take an item, after those that equal it. -/
def bisectRight (l : List ℕ) (x : ℕ) : ℕ := (l.takeWhile (· ≤ x)).length

theorem starts_append : ∀ (start : ℕ) (chunks : List (List α)) (c : List α),
    starts start (chunks ++ [c]) = starts start chunks ++ [start + chunks.flatten.length]
  | start, [], c => rfl
  | start, d :: chunks, c => by
      rw [cons_append, starts, starts_append, starts, flatten_cons, length_append,
        cons_append, Nat.add_assoc]

theorem bisectRight_starts_of_lt {start x : ℕ} (h : x < start) (chunks : List (List α)) :
    bisectRight (starts start chunks) x = 0 := by
  cases chunks with
  | nil => rfl
  | cons c chunks =>
    rw [starts, bisectRight, takeWhile_cons_of_neg (by simpa using h), length_nil]

/-- **Item `i` of a sequence cut into chunks is in the last chunk that begins at or before `i`.** -/
theorem exists_chunk {i : ℕ} : ∀ {start : ℕ} {chunks : List (List α)}, start ≤ i →
    i < start + chunks.flatten.length → ∃ number chunk first,
      bisectRight (starts start chunks) i = number + 1 ∧ chunks[number]? = some chunk ∧
      (starts start chunks)[number]? = some first ∧ chunk[i - first]? = chunks.flatten[i - start]?
  | start, [], hle, hlt => by simp at hlt; omega
  | start, c :: chunks, hle, hlt => by
      have hhead : bisectRight (starts start (c :: chunks)) i =
          bisectRight (starts (start + c.length) chunks) i + 1 := by
        rw [starts, bisectRight, takeWhile_cons_of_pos (by simpa using hle), length_cons]
        rfl
      by_cases hc : i < start + c.length
      · refine ⟨0, c, start, ?_, rfl, rfl, ?_⟩
        · rw [hhead, bisectRight_starts_of_lt hc]
        · rw [flatten_cons, getElem?_append_left (by omega)]
      · rw [flatten_cons, length_append] at hlt
        obtain ⟨number, chunk, first, hnumber, hchunk, hfirst, hitem⟩ :=
          @exists_chunk i (start + c.length) chunks (by omega) (by omega)
        refine ⟨number + 1, chunk, first, ?_, ?_, ?_, ?_⟩
        · rw [hhead, hnumber]
        · rw [getElem?_cons_succ, hchunk]
        · rw [starts, getElem?_cons_succ, hfirst]
        · rw [hitem, flatten_cons, getElem?_append_right (by omega)]
          congr 1
          omega

/-- Every item, read position by position. -/
theorem filterMap_range : ∀ l : List α, (List.range l.length).filterMap (fun i => l[i]?) = l
  | [] => rfl
  | a :: l => by simp [range_succ_eq_map, filterMap_map, filterMap_range l]

/-- Where an item of a list that grew by one stands. -/
theorem concat_eq_append_cons {α : Type*} {l before after : List α} {m a : α} :
    l ++ [m] = before ++ a :: after ↔
      (after = [] ∧ l = before ∧ m = a) ∨ ∃ rest, after = rest ++ [m] ∧ l = before ++ a :: rest := by
  constructor
  · intro h
    rcases eq_nil_or_concat' after with rfl | ⟨rest, b, rfl⟩
    · obtain ⟨rfl, hm⟩ := append_inj' h rfl
      exact .inl ⟨rfl, rfl, singleton_inj.1 hm⟩
    · rw [← cons_append, ← append_assoc] at h
      obtain ⟨rfl, hm⟩ := append_inj' h rfl
      obtain rfl := singleton_inj.1 hm
      exact .inr ⟨rest, rfl, rfl⟩
  · rintro (⟨rfl, rfl, rfl⟩ | ⟨rest, rfl, rfl⟩)
    · rfl
    · rw [append_assoc, cons_append]

/-- Lists with the same images are the same when their items are told apart by them. -/
theorem eq_of_map_eq {β : Type} {f : α → β} {l m : List α}
    (hf : ∀ a ∈ l, ∀ b ∈ m, f a = f b → a = b) (h : l.map f = m.map f) : l = m := by
  induction l generalizing m with
  | nil => exact (map_eq_nil_iff.1 h.symm).symm
  | cons a l ih =>
    cases m with
    | nil => cases h
    | cons b m =>
      obtain ⟨hhead, htail⟩ := List.cons.inj h
      rw [hf a mem_cons_self b mem_cons_self hhead]
      rw [ih (fun c hc d hd => hf c (.tail _ hc) d (.tail _ hd)) htail]

/-- Keeping the items of a sublist, of a list without repetitions. -/
theorem filter_eq_of_sublist {p : α → Bool} {l s : List α} (hl : l.Nodup) (hs : s.Sublist l)
    (hp : ∀ a ∈ l, p a = true ↔ a ∈ s) : l.filter p = s := by
  have hkept : s.filter p = s := filter_eq_self.2 fun a ha => (hp a (hs.subset ha)).2 ha
  have hsub : s.Sublist (l.filter p) := hkept ▸ hs.filter p
  have hle : (l.filter p).length ≤ s.length := by
    refine (subperm_of_subset (hl.filter p) fun a ha => ?_).length_le
    obtain ⟨hin, hpa⟩ := mem_filter.1 ha
    exact (hp a hin).1 hpa
  exact (hsub.eq_of_length_le hle).symm

/-! ## First appearances -/

section Firsts

variable {β : Type} [DecidableEq α] [DecidableEq β]

/-- Add an item that was not seen yet. -/
def addNew (seen : List α) (a : α) : List α := if a ∈ seen then seen else seen ++ [a]

/-- The distinct items of a list, in the order they appear. -/
def firsts (l : List α) : List α := l.foldl addNew []

variable {seen : List α} {b : α}

theorem mem_addNew {a : α} : b ∈ addNew seen a ↔ b ∈ seen ∨ b = a := by
  unfold addNew
  split_ifs with h
  · exact ⟨.inl, fun hb => hb.elim id fun hb => hb ▸ h⟩
  · simp

theorem mem_foldl_addNew : ∀ {l seen : List α}, b ∈ l.foldl addNew seen ↔ b ∈ seen ∨ b ∈ l
  | [], seen => by simp
  | a :: l, seen => by
      rw [foldl_cons, mem_foldl_addNew, mem_addNew, mem_cons, or_assoc]

@[simp] theorem mem_firsts {l : List α} : b ∈ firsts l ↔ b ∈ l := by
  rw [firsts, mem_foldl_addNew]
  simp

theorem nodup_addNew (h : seen.Nodup) (a : α) : (addNew seen a).Nodup := by
  unfold addNew
  split_ifs with ha
  · exact h
  · exact nodup_append.2 ⟨h, nodup_singleton a, fun b hb c hc => by
      rintro rfl
      exact ha (mem_singleton.1 hc ▸ hb)⟩

theorem nodup_foldl_addNew : ∀ {l seen : List α}, seen.Nodup → (l.foldl addNew seen).Nodup
  | [], _, h => h
  | a :: l, _, h => nodup_foldl_addNew (l := l) (nodup_addNew h a)

theorem nodup_firsts (l : List α) : (firsts l).Nodup := nodup_foldl_addNew nodup_nil

theorem foldl_addNew_map {ρ : α → β} {S : Set α} (hρ : Set.InjOn ρ S) : ∀ {l seen : List α},
    (∀ a ∈ l, a ∈ S) → (∀ a ∈ seen, a ∈ S) → (l.map ρ).foldl addNew (seen.map ρ) = (l.foldl addNew seen).map ρ
  | [], _, _, _ => rfl
  | a :: l, seen, hl, hseen => by
      have ha : a ∈ S := hl a (.head _)
      have hmem : ρ a ∈ seen.map ρ ↔ a ∈ seen := by
        rw [mem_map]
        exact ⟨fun ⟨b, hb, hab⟩ => hρ (hseen b hb) ha hab ▸ hb, fun h => ⟨a, h, rfl⟩⟩
      have hstep : addNew (seen.map ρ) (ρ a) = (addNew seen a).map ρ := by
        unfold addNew
        rw [if_congr hmem rfl rfl]
        split_ifs with h
        · rfl
        · simp
      rw [map_cons, foldl_cons, foldl_cons, hstep]
      refine foldl_addNew_map hρ (fun b hb => hl b (mem_cons_of_mem a hb)) fun b hb => ?_
      rcases mem_addNew.1 hb with hb | rfl
      · exact hseen b hb
      · exact ha

/-- **A renaming of the items renames the distinct ones.** -/
theorem firsts_map {ρ : α → β} {l : List α} (hρ : Set.InjOn ρ { a | a ∈ l }) :
    firsts (l.map ρ) = (firsts l).map ρ :=
  @foldl_addNew_map α β _ _ ρ _ hρ l [] (fun _ h => h) nofun

end Firsts

end Sequence
