import MyFuzz.Composition.InputConstraints
import MyFuzz.Foundations.Sequence
import Mathlib

/-!
# Composition/RuleClosure — what the rules of a policy depend on

A rule depends on another when it reads a field that the other writes.  For every rule, `closure`
walks the fields it
reads, with a stack and one visited set, and carries the path of rules on which each field was reached:

    pending   (field, path) ▸ …
    a writer on the path        the path and the writer are recorded as a cycle
    a writer seen already       nothing
    a new writer                seen, and its fields are pushed with the longer path

The visits of all walks are counted together, and the walk stops with an error when there are too many.
-/

namespace MyFuzz

open Outcome Sequence

namespace RuleClosure

def maxClosureSteps : ℕ := 4096

/-- The rules that write each field, in order. -/
def writesOf (rules : List ConstraintRule) : Dict String (List String) :=
  rules.foldl (fun writes item =>
    item.writeSet.foldl (fun writes name => writes.set name (writes.getD name [] ++ [item.ruleId]))
      writes) .empty

/-- The locals of the walk: the rules seen and the fields to follow from one rule, and the cycles
and visits of all. -/
structure Walk where
  seen : List String
  pending : List (String × List String)
  cycles : List (List String)
  steps : ℕ
  deriving DecidableEq

/-- The rules of a path and a writer on it, in order. -/
def cycleOf (path : List String) (producer : String) : List String :=
  (firsts (path ++ [producer])).insertionSort (· ≤ ·)

/-- The fields that the first rule of this name reads. -/
def readsOf (rules : List ConstraintRule) (ruleId : String) : List String :=
  match rules.find? fun later => later.ruleId = ruleId with
  | some later => later.readSet
  | none => []

/-- The fields to follow on a path: the last one is the next to be taken. -/
def pushed (fields path : List String) : List (String × List String) :=
    (fields.map fun field => (field, path)).reverse

/-- Visit one writer of a field that was reached on a path. -/
def visit (rules : List ConstraintRule) (ruleId : String) (path : List String) (walk : Walk)
    (producer : String) :
    Except Exn Walk := do
  let steps := walk.steps + 1
  ensure (¬ maxClosureSteps < steps) (.valueError ("closure-budget-exhausted:" ++ ruleId))
  if producer ∈ path then
    return { walk with steps := steps, cycles := addNew walk.cycles (cycleOf path producer) }
  else if producer ∈ walk.seen then
    return { walk with steps := steps }
  else
    return { walk with
      steps := steps
      seen := walk.seen ++ [producer]
      pending := pushed (readsOf rules producer) (path ++ [producer]) ++ walk.pending }

/-- The walk from one rule, for so many fields at most. -/
def walkFrom (rules : List ConstraintRule) (writes : Dict String (List String)) (ruleId : String) :
    ℕ → Walk → Except Exn Walk
  | fuel, walk => match walk.pending, fuel with
    | [], _ => .ok walk
    | _ :: _, 0 => .error (.other "unfinished")
    | (name, path) :: pending, fuel + 1 => do
      let walk ← (writes.getD name []).foldlM (visit rules ruleId path) { walk with pending := pending }
      walkFrom rules writes ruleId fuel walk

/-- As many fields as a walk can follow. -/
def fuelOf (rules : List ConstraintRule) (item : ConstraintRule) : ℕ :=
  item.readSet.length + (rules.map fun rule => rule.readSet.length).sum

/-- The closures found so far, the cycles, and the visits. -/
abbrev Closing := Dict String (List String) × List (List String) × ℕ

/-- The walk from one rule, with its closure noted. -/
def closeRule (rules : List ConstraintRule) (writes : Dict String (List String)) (closing : Closing)
    (item : ConstraintRule) : Except Exn Closing := do
  let (closure, cycles, steps) := closing
  let walk ← walkFrom rules writes item.ruleId (fuelOf rules item)
    ⟨[], pushed item.readSet [item.ruleId], cycles, steps⟩
  return (closure.set item.ruleId walk.seen, walk.cycles, walk.steps)

/-- **The transitive closure over the read and write sets**, and the cycles. -/
def closure (rules : List ConstraintRule) :
    Except Exn (List (String × List String) × List (List String)) := do
  let (closure, cycles, _) ← rules.foldlM (closeRule rules (writesOf rules)) (.empty, [], 0)
  return ((closure.entries.insertionSort fun a b => a.1 ≤ b.1).map fun e => (e.1, e.2.insertionSort (· ≤ ·)),
    cycles.insertionSort (· ≤ ·))

end RuleClosure

end MyFuzz
