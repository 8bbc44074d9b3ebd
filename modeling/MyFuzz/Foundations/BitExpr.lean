import Mathlib.Tactic

/-!
# Foundations/BitExpr — bit-vector expressions of a width

A `BitExpr w` denotes a vector of `w` bits.  Names stand for integers, which are truncated to the width
they are used at:

    denote ρ : BitExpr w → BitVec w              every name has a value
    run read : BitExpr w → Except ε (BitVec w)   names are read when they are needed

Of a multiplexer only the chosen branch is run.  `reached ρ e` lists the names that are read on the way,
and a run fails only when one of them cannot be read.
-/

/-- A bit-vector expression. -/
inductive BitExpr : ℕ → Type
  | const {w : ℕ} (value : BitVec w) : BitExpr w
  | ref {w : ℕ} (name : String) : BitExpr w
  | and {w : ℕ} (a b : BitExpr w) : BitExpr w
  | or {w : ℕ} (a b : BitExpr w) : BitExpr w
  | not {w : ℕ} (a : BitExpr w) : BitExpr w
  | eq {w : ℕ} (a b : BitExpr w) : BitExpr 1
  | mux {w : ℕ} (select : BitExpr 1) (a b : BitExpr w) : BitExpr w
  | slice {w : ℕ} (hi lo : ℕ) (a : BitExpr w) : BitExpr (hi - lo + 1)
  | nil : BitExpr 0
  | append {v w : ℕ} (a : BitExpr v) (b : BitExpr w) : BitExpr (v + w)

namespace BitExpr

/-- The number of constructors. -/
def size {w : ℕ} : BitExpr w → ℕ
  | const _ => 1
  | ref _ => 1
  | and a b => a.size + b.size + 1
  | or a b => a.size + b.size + 1
  | not a => a.size + 1
  | eq a b => a.size + b.size + 1
  | mux s a b => s.size + a.size + b.size + 1
  | slice _ _ a => a.size + 1
  | nil => 1
  | append a b => a.size + b.size + 1

/-! ## Denotation -/

/-- **The bit vector of an expression**, every name with a value. -/
def denote (ρ : String → ℤ) {w : ℕ} : BitExpr w → BitVec w
  | const value => value
  | ref name => BitVec.ofInt _ (ρ name)
  | and a b => a.denote ρ &&& b.denote ρ
  | or a b => a.denote ρ ||| b.denote ρ
  | not a => ~~~ a.denote ρ
  | eq a b => BitVec.ofBool (a.denote ρ == b.denote ρ)
  | mux s a b => if s.denote ρ = 0#1 then b.denote ρ else a.denote ρ
  | slice hi lo a => (a.denote ρ).extractLsb hi lo
  | nil => 0#0
  | append a b => a.denote ρ ++ b.denote ρ

/-- The names that are read, with only the chosen branch of a multiplexer. -/
def reached (ρ : String → ℤ) {w : ℕ} : BitExpr w → List String
  | const _ => []
  | ref name => [name]
  | and a b => a.reached ρ ++ b.reached ρ
  | or a b => a.reached ρ ++ b.reached ρ
  | not a => a.reached ρ
  | eq a b => a.reached ρ ++ b.reached ρ
  | mux s a b => s.reached ρ ++ if s.denote ρ = 0#1 then b.reached ρ else a.reached ρ
  | slice _ _ a => a.reached ρ
  | nil => []
  | append a b => a.reached ρ ++ b.reached ρ

/-! ## Runs -/

variable {ε : Type}

/-- **Run an expression**, reading a name when it is needed. -/
def run (read : String → Except ε ℤ) {w : ℕ} : BitExpr w → Except ε (BitVec w)
  | const value => .ok value
  | ref name => (read name).map (BitVec.ofInt _)
  | and a b => (a.run read).bind fun x => (b.run read).map (x &&& ·)
  | or a b => (a.run read).bind fun x => (b.run read).map (x ||| ·)
  | not a => (a.run read).map (~~~ ·)
  | eq a b => (a.run read).bind fun x => (b.run read).map fun y => BitVec.ofBool (x == y)
  | mux s a b => (s.run read).bind fun x => if x = 0#1 then b.run read else a.run read
  | slice hi lo a => (a.run read).map fun x => x.extractLsb hi lo
  | nil => .ok 0#0
  | append a b => (a.run read).bind fun x => (b.run read).map (x ++ ·)

variable {read : String → Except ε ℤ} {ρ : String → ℤ}

variable {w : ℕ} {e : BitExpr w}

/-- **A run that can read what it reaches returns the denotation.** -/
theorem run_eq_ok (h : ∀ name ∈ e.reached ρ, read name = .ok (ρ name)) : e.run read = .ok (e.denote ρ) := by
  induction e with
  | const value => rfl
  | ref name => rw [run, h name (.head _)]; rfl
  | and a b iha ihb | or a b iha ihb | eq a b iha ihb | append a b iha ihb =>
    rw [reached, List.forall_mem_append] at h
    rw [run, iha h.1, ihb h.2]
    rfl
  | not a ih | slice hi lo a ih =>
    rw [run, ih h]
    rfl
  | mux s a b ihs iha ihb =>
    rw [reached, List.forall_mem_append] at h
    rw [run, ihs h.1, denote]
    show (if s.denote ρ = 0#1 then _ else _) = _
    split_ifs at h ⊢ with hs
    · exact ihb h.2
    · exact iha h.2
  | nil => rfl

/-- **A run fails only where it reaches a name that cannot be read.** -/
theorem exists_of_run_eq_error (hread : ∀ name v, read name = .ok v → ρ name = v) {x : ε}
    (h : e.run read = .error x) : ∃ name ∈ e.reached ρ, ∀ v, read name ≠ .ok v := by
  by_contra! hall
  have hok : ∀ name ∈ e.reached ρ, read name = .ok (ρ name) := by
    intro name hname
    obtain ⟨v, hv⟩ := hall name hname
    rw [hread name v hv, hv]
  rw [run_eq_ok hok] at h
  cases h

end BitExpr
