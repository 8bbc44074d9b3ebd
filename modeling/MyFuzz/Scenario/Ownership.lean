import MyFuzz.Foundations.Dict
import MyFuzz.Scenario.Genome

/-!
# Scenario/Ownership — who drives each input bit

Every bit of every input field has one owner: a fuzzable source, a binding or a fixed value.  A
direction chooses among the declared sources; it cannot turn a bound bit into a source, so
`mutationSource` answers for a range of bits only when one source owns them all.
-/

namespace MyFuzz

open Outcome

/-- How an input bit is driven. -/
inductive OwnerKind where
  | source
  | bound
  | fixed
  deriving DecidableEq

/-- A kind as the source spells it. -/
def OwnerKind.text : OwnerKind → String
  | source => "source"
  | bound => "bound"
  | fixed => "fixed"

/-- The owner of a range of bits. -/
structure InputOwner where
  componentId : String
  port : String
  bitOffset : ℤ
  width : ℤ
  kind : OwnerKind
  producerRef : String
  deriving DecidableEq

/-- The owner of each bit of each input field. -/
structure OwnershipMap where
  bits : Dict (String × String) (List InputOwner)

namespace OwnershipMap

variable (m : OwnershipMap)

/-- The bits of a field. -/
def field (componentId port : String) : Except Exn (List InputOwner) :=
  match m.bits.get? (componentId, port) with
  | none => .error (.valueError "undeclared input field")
  | some bits => .ok bits

/-- How wide a field is. -/
def fieldWidth (componentId port : String) : Except Exn ℤ := do
  let bits ← m.field componentId port
  pure bits.length

/-- A range of bits. -/
def selected (bits : List InputOwner) (bitOffset width : ℤ) : List InputOwner :=
  (bits.drop bitOffset.toNat).take width.toNat

/-- A bit of a source. -/
def checkSource (owner : InputOwner) : Except Exn Unit :=
  ensure (owner.kind = .source) (.valueError (owner.kind.text ++ " input cannot be mutated"))

/-- The one source that drives a range of bits. -/
def mutationSource (componentId port : String) (bitOffset width : ℤ) : Except Exn String := do
  let bits ← m.field componentId port
  ensure (0 ≤ bitOffset ∧ 1 ≤ width ∧ bitOffset + width ≤ bits.length)
    (.valueError "mutation range exceeds input field")
  let owners := selected bits bitOffset width
  owners.forM checkSource
  match owners.map InputOwner.producerRef with
  | [] => .error (.valueError "mutation spans multiple fuzzable sources")
  | producer :: producers => do
      ensure (∀ other ∈ producers, other = producer) (.valueError "mutation spans multiple fuzzable sources")
      pure producer

/-- The one producer of a range of bound bits. -/
def boundProducer (bits : List InputOwner) (bitOffset width : ℤ) : Except Exn String := do
  ensure (0 ≤ bitOffset ∧ 1 ≤ width ∧ bitOffset + width ≤ bits.length)
    (.valueError "binding range exceeds input field")
  let owners := selected bits bitOffset width
  ensure (∀ owner ∈ owners, owner.kind = .bound) (.valueError "route target is not bound input")
  match owners.map InputOwner.producerRef with
  | [] => .error (.valueError "route target has multiple producers")
  | producer :: producers => do
      ensure (∀ other ∈ producers, other = producer) (.valueError "route target has multiple producers")
      pure producer

/-- The one producer bound to a range of bits of a field. -/
def bindingProducer (componentId port : String) (bitOffset width : ℤ) : Except Exn String :=
  match m.bits.get? (componentId, port) with
  | none => .error (.valueError "binding range exceeds input field")
  | some bits => boundProducer bits bitOffset width

/-- The owner of a bit. -/
def owner? (componentId port : String) (bit : ℕ) : Option InputOwner :=
  (m.bits.get? (componentId, port)).bind fun bits => bits[bit]?

/-! ## What an answer says -/

variable {m}

theorem field_eq_ok {componentId port : String} {bits : List InputOwner} :
    m.field componentId port = .ok bits ↔ m.bits.get? (componentId, port) = some bits := by
  unfold field
  cases m.bits.get? (componentId, port) <;> simp

end OwnershipMap

end MyFuzz
