import Mathlib.Tactic

/-!
# Foundations/FirstFit — the lowest clear place at or above a start

Extents are half-open intervals that are taken.  A place for `size` units at a multiple of `alignment`
is looked for from a start upwards, and every collision jumps behind the extent it hits:

    start ──hits──▸ alignUp stop ──hits──▸ alignUp stop' ──clear──▸ place

No clear place is jumped over, so what is found is the least one (`firstFit_eq_some_iff`).
-/

variable {ι : Type*}

/-- The units from `base` up to, but not with, `stop`, taken by `owner`. -/
structure Extent (ι : Type*) where
  base : ℕ
  stop : ℕ
  owner : ι

/-- `size` units from `base` on meet an extent. -/
def Extent.Meets (o : Extent ι) (base size : ℕ) : Prop := base < o.stop ∧ o.base < base + size

instance (o : Extent ι) (base size : ℕ) : Decidable (o.Meets base size) :=
  inferInstanceAs (Decidable (_ ∧ _))

namespace FirstFit

open List

/-- `size` units from `base` on meet nothing that is taken. -/
def Clear (taken : List (Extent ι)) (base size : ℕ) : Prop := ∀ o ∈ taken, ¬ o.Meets base size

/-- The first extent that is met. -/
def overlap (taken : List (Extent ι)) (base size : ℕ) : Option (Extent ι) :=
  taken.find? fun o => o.Meets base size

/-- The least multiple at or above a value. -/
def alignUp (value alignment : ℕ) : ℕ := (value + alignment - 1) / alignment * alignment

/-- Look for a clear place upwards, jumping behind what is met. -/
def firstFit (taken : List (Extent ι)) (size alignment limit : ℕ) : ℕ → ℕ → Option ℕ
  | 0, _ => none
  | fuel + 1, current =>
    if current + size ≤ limit then
      match overlap taken current size with
      | none => some current
      | some o => firstFit taken size alignment limit fuel (alignUp o.stop alignment)
    else none

/-! ## Multiples -/

section

variable {value alignment : ℕ}

theorem dvd_alignUp (value alignment : ℕ) : alignment ∣ alignUp value alignment := Dvd.intro_left _ rfl

theorem le_alignUp (h : 0 < alignment) : value ≤ alignUp value alignment := by
  have hmod := Nat.div_add_mod (value + alignment - 1) alignment
  have hlt := Nat.mod_lt (value + alignment - 1) h
  rw [mul_comm] at hmod
  unfold alignUp
  omega

theorem alignUp_le {c : ℕ} (h : 0 < alignment) (hc : alignment ∣ c) (hle : value ≤ c) :
    alignUp value alignment ≤ c := by
  obtain ⟨k, rfl⟩ := hc
  have hlt : (value + alignment - 1) / alignment < k + 1 := by
    rw [Nat.div_lt_iff_lt_mul h, Nat.add_mul, Nat.mul_comm k]
    omega
  rw [mul_comm alignment k]
  exact Nat.mul_le_mul_right _ (Nat.le_of_lt_succ hlt)

end

/-! ## Places -/

variable {taken : List (Extent ι)} {size alignment limit : ℕ}

variable {base current : ℕ} {o : Extent ι}

theorem overlap_eq_none : overlap taken base size = none ↔ Clear taken base size := by
  unfold overlap Clear
  rw [find?_eq_none]
  simp

theorem mem_of_overlap (h : overlap taken base size = some o) : o ∈ taken ∧ o.Meets base size := by
  have hmeets := find?_some h
  exact ⟨mem_of_find?_eq_some h, of_decide_eq_true hmeets⟩

/-- The clear places at or above a start. -/
def places (taken : List (Extent ι)) (size alignment limit start : ℕ) : Set ℕ :=
  {c | start ≤ c ∧ alignment ∣ c ∧ Clear taken c size ∧ c + size ≤ limit}

/-- **A jump passes no clear place.** -/
theorem places_jump (halign : 0 < alignment) (hmem : o ∈ taken) (hmeets : o.Meets current size) :
    places taken size alignment limit (alignUp o.stop alignment) =
      places taken size alignment limit current := by
  ext c
  constructor
  · rintro ⟨hle, hrest⟩
    have := hmeets.1
    have : o.stop ≤ alignUp o.stop alignment := le_alignUp halign
    exact ⟨by omega, hrest⟩
  · rintro ⟨hle, hdvd, hclear, hfits⟩
    refine ⟨alignUp_le halign hdvd ?_, hdvd, hclear, hfits⟩
    by_contra hlt
    have := hmeets.2
    exact hclear o hmem ⟨by omega, by omega⟩

/-- The extents that end behind a place. -/
def ahead (taken : List (Extent ι)) (current : ℕ) : ℕ := taken.countP fun o => current < o.stop

theorem ahead_jump (halign : 0 < alignment) (hmem : o ∈ taken) (hmeets : o.Meets current size) :
    ahead taken (alignUp o.stop alignment) < ahead taken current := by
  have hle : o.stop ≤ alignUp o.stop alignment := le_alignUp halign
  have hmeet := hmeets.1
  unfold ahead
  induction taken with
  | nil => cases hmem
  | cons a taken ih =>
    have hmono : taken.countP (fun o' => alignUp o.stop alignment < o'.stop) ≤
        taken.countP fun o' => current < o'.stop :=
      countP_mono_left fun o' _ h => by
        simp only [decide_eq_true_eq] at h ⊢
        omega
    rw [countP_cons, countP_cons]
    rcases mem_cons.1 hmem with rfl | hmem
    · rw [if_neg (by simpa using hle), if_pos (by simpa using hmeet)]
      omega
    · have := ih hmem
      split_ifs with h h'
      · omega
      · simp only [decide_eq_true_eq] at h h'
        omega
      · omega
      · omega

/-- **The least clear place at or above a start is found.** -/
theorem firstFit_eq_some_iff (halign : 0 < alignment) : ∀ {fuel current b : ℕ}, alignment ∣ current →
    ahead taken current < fuel → (firstFit taken size alignment limit fuel current = some b ↔
      IsLeast (places taken size alignment limit current) b) := by
  intro fuel
  induction fuel with
  | zero => exact fun _ h => absurd h (Nat.not_lt_zero _)
  | succ fuel ih =>
    intro current b hdvd hfuel
    rw [firstFit]
    split_ifs with hfits
    · cases ho : overlap taken current size with
      | none =>
        have hleast : IsLeast (places taken size alignment limit current) current :=
          ⟨⟨le_rfl, hdvd, overlap_eq_none.1 ho, hfits⟩, fun c hc => hc.1⟩
        constructor
        · intro h
          cases h
          exact hleast
        · exact fun h => congrArg some (hleast.unique h)
      | some o =>
        obtain ⟨hmem, hmeets⟩ := mem_of_overlap ho
        have hlt := ahead_jump halign hmem hmeets
        rw [← places_jump halign hmem hmeets]
        exact ih (dvd_alignUp _ _) (by omega)
    · constructor
      · intro h
        cases h
      · rintro ⟨⟨hle, -, -, hlimit⟩, -⟩
        omega

/-- The places at or above a start are those at or above the next multiple. -/
theorem places_alignUp (halign : 0 < alignment) (start : ℕ) :
    places taken size alignment limit (alignUp start alignment) =
      places taken size alignment limit start := by
  ext c
  constructor
  · rintro ⟨hle, hrest⟩
    exact ⟨(le_alignUp halign).trans hle, hrest⟩
  · rintro ⟨hle, hdvd, hrest⟩
    exact ⟨alignUp_le halign hdvd hle, hdvd, hrest⟩

theorem ahead_le_length (current : ℕ) : ahead taken current ≤ taken.length := countP_le_length

end FirstFit
