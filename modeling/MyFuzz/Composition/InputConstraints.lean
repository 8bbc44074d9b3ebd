import MyFuzz.Foundations.BitField
import MyFuzz.Foundations.Dict
import MyFuzz.Foundations.Outcome

/-!
# Composition/InputConstraints — sample rules of a policy

A sample rule owns one field of the raw input and says which values the field may have: an interval,
an enumeration, a bit mask and an alignment, all at once.  `projectSampleValues` writes each field that
breaks its rule; it never enumerates the interval:

    raw ──field──▸ value ──legal?──▸ kept
                     └──▸ the next legal value, or the first one ──▸ raw with the field written

A value is legal when it lies in `[low, high]` and has no bit outside the mask.  The next legal value is
found by carrying above the highest forbidden bit (`nextAllowed`).
-/

namespace MyFuzz

open Outcome BitField

/-- The value of a rule's parameter, as far as the projection tells values apart: an integer, a sequence
whose members may be integers, or anything else. -/
inductive ParameterValue where
  | int (i : ℤ)
  | items (members : List (Option ℤ))
  | other
  deriving DecidableEq

/-- A rule of a policy. -/
structure ConstraintRule where
  ruleId : String
  category : String
  owner : String
  primitive : String
  phase : String
  fields : List String
  readSet : List String
  writeSet : List String
  rawBits : List (ℤ × ℤ)
  parameters : List (String × ParameterValue)
  stateBits : ℤ
  appliesInModes : List String
  deriving DecidableEq

/-- A compiled policy. -/
structure InputConstraintPolicy where
  legacyModes : List String
  rules : List ConstraintRule

/-! ## Checks of a rule -/

namespace ConstraintRule

variable (rule : ConstraintRule)

/-- The rule is one that a sample must meet: search preferences and assertions are not. -/
def Required : Prop :=
  rule.phase = "sample" ∧ rule.category ≠ "dut_assertion" ∧
    (rule.category = "environment_hard" ∨ rule.category = "scenario_precondition")

instance : Decidable rule.Required := inferInstanceAs (Decidable (_ ∧ _ ∧ (_ ∨ _)))

/-- An error that names the rule. -/
def error (reason : String) : Exn := .valueError (reason ++ ":" ++ rule.ruleId)

/-- The rule may be applied to a sample under the policy's modes. -/
def checkApplicable (legacyModes : List String) : Except Exn Unit := do
  ensure (rule.owner = "environment" ∧ rule.readSet = [] ∧ rule.stateBits = 0)
    (rule.error "sample-rule-not-applicable")
  ensure (rule.appliesInModes = [] ∨ ∀ mode ∈ legacyModes, mode ∈ rule.appliesInModes)
    (rule.error "sample-rule-mode-not-applicable")
  ensure (rule.primitive ∈ ["value_range", "value_enum", "value_mask_align"])
    (.valueError ("unsupported-sample-rule:" ++ rule.ruleId ++ ":" ++ rule.primitive))

/-- The first bit and the width of the one field a rule is bound to. -/
def sampleField (rawWidth : ℕ) : Except Exn (ℕ × ℕ) :=
  match rule.rawBits with
  | [(lo, hi)] => do
      ensure (rule.fields.length = 1 ∧ rule.writeSet = rule.fields)
        (rule.error "sample-rule-binding-unsupported")
      ensure (0 ≤ lo ∧ lo ≤ hi ∧ hi < rawWidth) (rule.error "sample-field-outside-raw-width")
      pure (lo.toNat, (hi - lo + 1).toNat)
  | _ => .error (rule.error "sample-rule-binding-unsupported")

/-- The value of a parameter. -/
def parameter (name : String) : Option ParameterValue := Dict.lookup name rule.parameters

/-- A parameter is given. -/
def Has (name : String) : Prop := name ∈ rule.parameters.map Prod.fst

instance (name : String) : Decidable (rule.Has name) := inferInstanceAs (Decidable (_ ∈ _))

/-- The parameters a primitive needs. -/
def requiredParameters : List String :=
  if rule.primitive = "value_range" then ["low", "high"]
  else if rule.primitive = "value_enum" then ["values"]
  else []

/-- The parameters are known ones, given once, and those that the primitive needs. -/
def checkParameters : Except Exn Unit := do
  ensure ((rule.parameters.map Prod.fst).Nodup ∧ ∀ name ∈ rule.parameters.map Prod.fst,
      name ∈ ["low", "high", "values", "mask", "alignment"])
    (rule.error "unsupported-sample-parameters")
  ensure ((∀ name ∈ rule.requiredParameters, rule.Has name) ∧
      (rule.primitive = "value_mask_align" → rule.Has "mask" ∨ rule.Has "alignment"))
    (rule.error "missing-sample-parameters")
  ensure (rule.Has "low" ↔ rule.Has "high") (rule.error "invalid-sample-range")

/-- An integer parameter, or its default; nothing when it is not an integer. -/
def number (name : String) (default : ℤ) : Option ℤ :=
  match rule.parameter name with
  | none => some default
  | some (.int i) => some i
  | some _ => none

/-- What the numbers of a rule ask of a field whose largest value is `limit`. -/
def NumbersValid (limit : ℕ) (low high mask alignment : ℤ) : Prop :=
  (0 ≤ low ∧ low ≤ high ∧ high ≤ limit) ∧ (0 ≤ mask ∧ mask ≤ limit) ∧
    0 < alignment ∧ alignment.toNat &&& (alignment.toNat - 1) = 0 ∧ alignment ≤ limit + 1

instance (limit : ℕ) (low high mask alignment : ℤ) : Decidable (NumbersValid limit low high mask alignment) :=
  inferInstanceAs (Decidable ((_ ∧ _ ∧ _) ∧ (_ ∧ _) ∧ _ ∧ _ ∧ _))

end ConstraintRule

/-- The values a field may have: those of an interval, under a mask and, when there is an enumeration,
in it. -/
structure SampleConstraint where
  low : ℕ
  high : ℕ
  mask : ℕ
  values : Option (List ℕ)
  deriving DecidableEq

namespace ConstraintRule

variable (rule : ConstraintRule)

/-- The members of an enumeration. -/
def enumeration (limit : ℕ) : Except Exn (Option (List ℕ)) :=
  match rule.parameter "values" with
  | none => .ok none
  | some (.items members) => do
      ensure (members ≠ [] ∧ ∀ item ∈ members, ∃ i ∈ item, 0 ≤ i ∧ i ≤ limit)
        (rule.error "invalid-sample-enum")
      pure (some (members.map fun item => (item.getD 0).toNat))
  | some _ => .error (rule.error "invalid-sample-enum")

/-- What a rule asks of a field of some width.  The alignment becomes a part of the mask. -/
def constraint (width : ℕ) : Except Exn SampleConstraint := do
  rule.checkParameters
  let limit : ℕ := 2 ^ width - 1
  match rule.number "low" 0, rule.number "high" limit, rule.number "mask" limit,
      rule.number "alignment" 1 with
  | some low, some high, some mask, some alignment => do
      ensure (NumbersValid limit low high mask alignment) (rule.error "invalid-sample-parameters")
      let values ← rule.enumeration limit
      pure ⟨low.toNat, high.toNat, clear mask.toNat (alignment.toNat - 1), values⟩
  | _, _, _, _ => .error (rule.error "invalid-sample-parameters")

end ConstraintRule

/-! ## Legal values -/

namespace SampleConstraint

variable (c : SampleConstraint)

/-- A value lies in the interval and under the mask. -/
def Allowed (value : ℕ) : Prop := c.low ≤ value ∧ value ≤ c.high ∧ clear value c.mask = 0

instance (value : ℕ) : Decidable (c.Allowed value) := inferInstanceAs (Decidable (_ ∧ _ ∧ _))

/-- The next number without a bit outside the mask, or one above `high`: carry above the highest
forbidden bit until there is none. -/
def nextAllowed : ℕ → ℕ → ℕ
  | 0, candidate => candidate
  | fuel + 1, candidate =>
      if clear candidate c.mask = 0 then candidate
      else
        let shift := (clear candidate c.mask).size
        let carried := (candidate >>> shift + 1) <<< shift
        if c.high < carried then carried else nextAllowed fuel carried

/-- The next allowed number; the interval bounds the carries. -/
def next (candidate : ℕ) : ℕ := c.nextAllowed (c.high + 1) candidate

/-- The members of the enumeration that are allowed, in order and each once. -/
def allowedValues (values : List ℕ) : List ℕ :=
  (values.filter fun item => c.Allowed item).dedup.insertionSort (· ≤ ·)

/-- The value an enumeration puts in a field. -/
def replaceEnum (values : List ℕ) (value : ℕ) : Option ℕ :=
  match c.allowedValues values with
  | [] => none
  | first :: rest =>
      if value ∈ first :: rest then some value
      else some ((first :: rest).getD (value % (first :: rest).length) first)

/-- The value an interval under a mask puts in a field. -/
def replaceRange (aligns : Bool) (value : ℕ) : Option ℕ :=
  if c.high < c.next c.low then none
  else if c.Allowed value then some value
  else if aligns then
    if c.low ≤ value &&& c.mask ∧ value &&& c.mask ≤ c.high then some (value &&& c.mask)
    else some (c.next c.low)
  else if c.high < c.next (c.low + value % (c.high - c.low + 1)) then some (c.next c.low)
  else some (c.next (c.low + value % (c.high - c.low + 1)))

/-- The legal value that takes the place of a field's value, if there is one. -/
def replacement (aligns : Bool) (value : ℕ) : Option ℕ :=
  match c.values with
  | some values => c.replaceEnum values value
  | none => c.replaceRange aligns value

end SampleConstraint

/-! ## Projection -/

namespace InputConstraintPolicy

variable (policy : InputConstraintPolicy)

/-- The field and the constraint of a rule that is applied, after every check but satisfiability. -/
def sampleRule (rawWidth occupied : ℕ) (rule : ConstraintRule) : Except Exn (ℕ × ℕ × SampleConstraint) := do
  rule.checkApplicable policy.legacyModes
  let (lo, width) ← rule.sampleField rawWidth
  ensure (occupied &&& (2 ^ width - 1) <<< lo = 0) (rule.error "sample-rule-overlap")
  let c ← rule.constraint width
  pure (lo, width, c)

/-- Apply the rules one after the other; no two may own one bit. -/
def project (rawWidth : ℕ) : List ConstraintRule → ℕ → ℕ → Except Exn ℕ
  | [], _, projected => .ok projected
  | rule :: rules, occupied, projected =>
      if rule.Required then do
        let (lo, width, c) ← policy.sampleRule rawWidth occupied rule
        match c.replacement (rule.primitive = "value_mask_align") (readSegment projected lo width) with
        | none => .error (rule.error "sample-unsatisfiable")
        | some replacement =>
            project rawWidth rules (occupied ||| (2 ^ width - 1) <<< lo)
              (writeSegment projected lo width replacement)
      else project rawWidth rules occupied projected

/-- Project a raw sample onto the sample rules. -/
def projectSampleValues (raw rawWidth : ℤ) : Except Exn ℤ := do
  ensure (0 < rawWidth ∧ 0 ≤ raw ∧ raw < 2 ^ rawWidth.toNat) (.valueError "sample-outside-raw-width")
  let projected ← policy.project rawWidth.toNat policy.rules 0 raw.toNat
  pure projected

end InputConstraintPolicy

end MyFuzz
