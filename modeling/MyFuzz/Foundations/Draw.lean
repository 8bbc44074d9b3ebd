import MyFuzz.Foundations.Outcome

/-!
# Foundations/Draw — computations that draw at random

A seeded generator is a stream of draws, and a computation consumes it from the front.  Two
statements about such a computation compose along `>>=`:

    Returns x P   whatever is drawn, `x` returns a value with `P`
    Can x P       some draws make `x` return a value with `P`

The first is total: it says that no draw makes the computation fail.
-/

/-- The draws that are still to come. -/
abbrev Rng := ℕ → ℕ

/-- A computation that draws, and may fail. -/
abbrev Draw := StateT Rng (Except Exn)

namespace Draw

open List

variable {α β : Type} {x : Draw α} {f : α → Draw β} {P : α → Prop} {Q : β → Prop}

/-- The draws behind one that is known. -/
def cons (n : ℕ) (s : Rng) : Rng
  | 0 => n
  | i + 1 => s i

/-- Take one draw. -/
def next : Draw ℕ := fun s => .ok (s 0, fun i => s (i + 1))

/-- Raise. -/
def raise (e : Exn) : Draw α := fun _ => .error e

/-- A computation that does not draw. -/
def lift (x : Except Exn α) : Draw α := fun s => x.map fun a => (a, s)

/-- An element of a list. -/
def choice (l : List α) : Draw α := do
  match l[(← next) % l.length]? with
  | some a => return a
  | none => raise (.other "IndexError")

/-- An integer from `low` up to, but not with, `high`. -/
def randrange (low high : ℤ) : Draw ℤ := do
  let n ← next
  if low < high then return low + n % (high - low)
  else raise (.valueError "empty range for randrange()")

/-- An integer from `low` up to and with `high`. -/
def randint (low high : ℤ) : Draw ℤ := randrange low (high + 1)

/-- A fair coin, `random() < 0.5`. -/
def coin : Draw Bool := do return (← next) % 2 = 0

/-- `random()` below `k / n`. -/
def chance (k n : ℕ) : Draw Bool := do return (← next) % n < k

/-- A number of the given bits. -/
def getrandbits (bits : ℕ) : Draw ℕ := do return (← next) % 2 ^ bits

/-- At most `n` rounds, which stop early when there is nothing to do. -/
def rounds (ready : α → Bool) (f : α → Draw α) : ℕ → α → Draw α
  | 0, a => return a
  | n + 1, a => if ready a then f a >>= rounds ready f n else return a

/-! ## Whatever is drawn -/

/-- **Whatever is drawn, the computation returns a value with the property.** -/
def Returns (x : Draw α) (P : α → Prop) : Prop := ∀ s, ∃ a s', x s = .ok (a, s') ∧ P a

theorem bind_apply (x : Draw α) (f : α → Draw β) (s : Rng) : (x >>= f) s = x s >>= fun p => f p.1 p.2 := rfl

variable {a : α} {P' : α → Prop} {s : Rng} {y : Except Exn α} {l : List α} {high low : ℤ} {ready : α → Bool}

theorem Returns.pure (h : P a) : Returns (pure a) P := fun s => ⟨a, s, rfl, h⟩

theorem Returns.bind (hx : Returns x P) (hf : ∀ a, P a → Returns (f a) Q) : Returns (x >>= f) Q := by
  intro s
  obtain ⟨a, s₁, hxs, ha⟩ := hx s
  obtain ⟨b, s₂, hfs, hb⟩ := hf a ha s₁
  refine ⟨b, s₂, ?_, hb⟩
  rw [bind_apply, hxs]
  exact hfs

theorem Returns.mono (hx : Returns x P) (h : ∀ a, P a → P' a) : Returns x P' := by
  intro s
  obtain ⟨a, s', hxs, ha⟩ := hx s
  exact ⟨a, s', hxs, h a ha⟩

/-- What is returned at all has the property. -/
theorem Returns.of_eq_ok (hx : Returns x P) {s' : Rng} (h : x s = .ok (a, s')) : P a := by
  obtain ⟨b, s₁, hxs, hb⟩ := hx s
  obtain ⟨rfl, -⟩ := Prod.mk.inj (Except.ok.inj (hxs.symm.trans h))
  exact hb

theorem Returns.lift (hy : y = .ok a) (h : P a) : Returns (lift y) P := by
  intro s
  subst hy
  exact ⟨a, s, rfl, h⟩

theorem Returns.choice (hl : l ≠ []) (h : ∀ a ∈ l, P a) : Returns (choice l) P := by
  intro s
  have hlt : s 0 % l.length < l.length := Nat.mod_lt _ (length_pos_iff.2 hl)
  refine ⟨l[s 0 % l.length], fun i => s (i + 1), ?_, h _ (getElem_mem hlt)⟩
  unfold Draw.choice
  rw [bind_apply]
  change (match l[s 0 % l.length]? with
    | some a => Pure.pure a
    | none => raise (.other "IndexError") : Draw α) (fun i => s (i + 1)) = _
  rw [getElem?_eq_getElem hlt]
  rfl

theorem Returns.randrange (h : low < high) : Returns (randrange low high) fun v => low ≤ v ∧ v < high := by
  intro s
  have hpos : 0 < high - low := by omega
  have hlow := Int.emod_nonneg (s 0 : ℤ) hpos.ne'
  have hhigh := Int.emod_lt_of_pos (s 0 : ℤ) hpos
  refine ⟨low + s 0 % (high - low), fun i => s (i + 1), ?_, by omega, by omega⟩
  unfold Draw.randrange
  rw [bind_apply]
  change (if low < high then _ else _ : Draw ℤ) (fun i => s (i + 1)) = _
  rw [if_pos h]
  rfl

theorem Returns.randint (h : low ≤ high) : Returns (randint low high) fun v => low ≤ v ∧ v ≤ high :=
  (Returns.randrange (by omega)).mono fun _ hv => ⟨hv.1, by omega⟩

theorem Returns.coin : Returns coin fun _ => True := fun _ => ⟨_, _, rfl, trivial⟩

theorem Returns.chance (k n : ℕ) : Returns (chance k n) fun _ => True := fun _ => ⟨_, _, rfl, trivial⟩

theorem Returns.getrandbits (bits : ℕ) : Returns (getrandbits bits) fun v => v < 2 ^ bits :=
  fun _ => ⟨_, _, rfl, Nat.mod_lt _ (Nat.two_pow_pos bits)⟩

/-- **An invariant of a round** holds after all of them. -/
theorem Returns.rounds {f : α → Draw α} (hf : ∀ a, ready a → P a → Returns (f a) P) :
    ∀ (n : ℕ) {a : α}, P a → Returns (rounds ready f n a) P := by
  intro n
  induction n with
  | zero => exact fun ha => Returns.pure ha
  | succ n ih =>
    intro a ha
    unfold Draw.rounds
    cases hready : ready a with
    | true => exact (hf a hready ha).bind fun b hb => ih hb
    | false => exact Returns.pure ha

/-- **Rounds that bring a measure down end because there is nothing more to do.** -/
theorem Returns.rounds_until (ready : α → Bool) {f : α → Draw α} (measure : α → ℕ)
    (hf : ∀ a, ready a → P a → Returns (f a) fun b => P b ∧ measure b < measure a) :
    ∀ (n : ℕ) {a : α}, P a → measure a ≤ n → Returns (Draw.rounds ready f n a) fun b => P b ∧
      ready b = false := by
  intro n
  induction n with
  | zero =>
    intro a ha hzero
    refine Returns.pure ⟨ha, Bool.eq_false_iff.2 fun hready => ?_⟩
    obtain ⟨b, -, -, -, hlt⟩ := hf a hready ha fun _ => 0
    omega
  | succ n ih =>
    intro a ha hle
    unfold Draw.rounds
    cases hready : ready a with
    | true => exact (hf a hready ha).bind fun b hb => ih hb.1 (by omega)
    | false => exact Returns.pure ⟨ha, hready⟩

/-- What a round brings about and the next ones keep holds after at least one of them. -/
theorem Returns.rounds_of_pos {f : α → Draw α} {n : ℕ} (hn : 1 ≤ n) (hfirst : Returns (f a) P)
    (hf : ∀ b, P b → Returns (f b) P) : Returns (Draw.rounds (fun _ => true) f n a) P := by
  cases n with
  | zero => cases hn
  | succ n =>
    unfold Draw.rounds
    rw [if_pos rfl]
    exact hfirst.bind fun b hb => Returns.rounds (fun c _ hc => hf c hc) n hb

/-- A list of results, one for each element. -/
theorem Returns.mapM {g : α → Draw β} (h : ∀ a ∈ l, Returns (g a) Q) :
    Returns (l.mapM g) fun r => r.length = l.length ∧ ∀ b ∈ r, Q b := by
  induction l with
  | nil => exact Returns.pure ⟨rfl, nofun⟩
  | cons a l ih =>
    rw [mapM_cons]
    refine (h a (.head _)).bind fun b hb => ?_
    refine (ih fun c hc => h c (.tail _ hc)).bind fun r hr => Returns.pure ⟨?_, fun c hc => ?_⟩
    · rw [length_cons, length_cons, hr.1]
    · rcases mem_cons.1 hc with rfl | hc
      · exact hb
      · exact hr.2 c hc

/-- A computation that starts with one that does not draw. -/
theorem lift_bind_eq_ok {p : β × Rng} (h : (Draw.lift y >>= f) s = .ok p) :
    ∃ a, y = .ok a ∧ f a s = .ok p := by
  cases y with
  | error e => cases h
  | ok a => exact ⟨a, rfl, h⟩

/-! ## Some first draws -/

/-- Some first draws make the computation return the value, and leave what is drawn later. -/
def Draws (x : Draw α) (a : α) : Prop := ∃ l : List ℕ, ∀ s, x (l.foldr cons s) = .ok (a, s)

/-- **Some draws make the computation return a value with the property.** -/
def Can (x : Draw α) (P : α → Prop) : Prop := ∃ s a s', x s = .ok (a, s') ∧ P a

theorem Draws.pure (a : α) : Draws (pure a) a := ⟨[], fun _ => rfl⟩

theorem Draws.lift (hy : y = .ok a) : Draws (lift y) a := by
  subst hy
  exact ⟨[], fun _ => rfl⟩

/-- Every element of a list can be chosen. -/
theorem Draws.choice (h : a ∈ l) : Draws (choice l) a := by
  obtain ⟨i, hi, rfl⟩ := getElem_of_mem h
  refine ⟨[i], fun s => ?_⟩
  unfold Draw.choice
  rw [bind_apply]
  change (match l[i % l.length]? with
    | some a => Pure.pure a
    | none => raise (.other "IndexError") : Draw α) s = _
  rw [Nat.mod_eq_of_lt hi, getElem?_eq_getElem hi]
  rfl

/-- A coin can show either side. -/
theorem Draws.coin (b : Bool) : Draws coin b := by
  cases b with
  | true => exact ⟨[0], fun s => rfl⟩
  | false => exact ⟨[1], fun s => rfl⟩

theorem Draws.next (n : ℕ) : Draws next n := ⟨[n], fun _ => rfl⟩

/-- Every integer of a range can be drawn. -/
theorem Draws.randrange {v : ℤ} (h : low ≤ v ∧ v < high) : Draws (randrange low high) v := by
  refine ⟨[(v - low).toNat], fun s => ?_⟩
  unfold Draw.randrange
  rw [bind_apply]
  change (if low < high then _ else _ : Draw ℤ) s = _
  rw [if_pos (by omega)]
  change Except.ok (low + ((v - low).toNat : ℤ) % (high - low), s) = _
  rw [Int.toNat_of_nonneg (by omega), Int.emod_eq_of_lt (by omega) (by omega), add_sub_cancel]

theorem Draws.then {b : β} (hx : Draws x a) (hf : Draws (f a) b) : Draws (x >>= f) b := by
  obtain ⟨l, hl⟩ := hx
  obtain ⟨l', hl'⟩ := hf
  refine ⟨l ++ l', fun s => ?_⟩
  rw [foldr_append, bind_apply, hl]
  exact hl' s

theorem Draws.bind (hx : Draws x a) (hf : Can (f a) Q) : Can (x >>= f) Q := by
  obtain ⟨l, hl⟩ := hx
  obtain ⟨s, b, s', hfs, hb⟩ := hf
  refine ⟨l.foldr cons s, b, s', ?_, hb⟩
  rw [bind_apply, hl]
  exact hfs

/-- What some draws bring about, with what all draws do. -/
theorem Can.and (hx : Can x P) (h : Returns x P') : Can x fun a => P a ∧ P' a := by
  obtain ⟨s, a, s', hxs, ha⟩ := hx
  exact ⟨s, a, s', hxs, ha, h.of_eq_ok hxs⟩

theorem Returns.can (h : Returns x P) : Can x P := ⟨fun _ => 0, h fun _ => 0⟩

/-- **A property that the first part can bring about and the rest keeps.** -/
theorem Can.bind (hx : Can x P) (hf : ∀ a, P a → Returns (f a) Q) : Can (x >>= f) Q := by
  obtain ⟨s, a, s₁, hxs, ha⟩ := hx
  obtain ⟨b, s₂, hfs, hb⟩ := hf a ha s₁
  refine ⟨s, b, s₂, ?_, hb⟩
  rw [bind_apply, hxs]
  exact hfs

end Draw
