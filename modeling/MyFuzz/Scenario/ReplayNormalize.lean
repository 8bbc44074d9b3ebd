import MyFuzz.Foundations.Outcome
import MyFuzz.Foundations.Value

/-!
# Scenario/ReplayNormalize — declared rewrites before two runs are compared

A fresh replay issues new execution identities, so two event streams are compared after each is
rewritten with its own ones.  The rewrite table names the fields: a string right under an identity
field is replaced as a whole, and under a ledger field, or as an endpoint of a state-dependency
record, only the execution of a leading `TransactionKey(execution_id='…', …)` is.

    {execution_id: "9f…"}                        ──▸  {execution_id: "execution:cpu"}
    {writer_event_id: "TransactionKey(execution_id='9f…', x)"}
                                                 ──▸  "TransactionKey(execution_id='execution:cpu', x)"

A list passes on the field that governs it, a dictionary does not.  Where the identities of a run are
not known, `declaredIdentityMappings` reads them off the two documents in the order they appear. 
Scalars are `None`, Booleans, integers and floats; how floats compare is left to their type.
-/

namespace MyFuzz

namespace Replay

open Outcome

/-! ## The rewrite table -/

/-- Where a rule applies. -/
inductive RuleScope where
  | field
  | stateEdgeEndpoint
  deriving DecidableEq

/-- What a rule rewrites. -/
inductive RuleAction where
  | executionIdentity
  | transactionExecutionPrefix
  | stateDependencyEndpoint
  deriving DecidableEq

/-- One declared rewrite rule. -/
structure NormalizerRule where
  name : String
  scope : RuleScope
  fields : List String
  action : RuleAction

/-- The endpoints of a state-dependency record. -/
def stateEdgeFields : List String := ["source", "target"]

/-- The complete rewrite table. -/
def normalizerRules : List NormalizerRule :=
  [⟨"execution_value", .field, ["execution"], .executionIdentity⟩,
   ⟨"execution_id_value", .field, ["execution_id"], .executionIdentity⟩,
   ⟨"state_edge_endpoint", .stateEdgeEndpoint, stateEdgeFields, .stateDependencyEndpoint⟩,
   ⟨"ledger_writer", .field, ["writer_event_id"], .transactionExecutionPrefix⟩,
   ⟨"ledger_writers", .field, ["writer_event_ids"], .transactionExecutionPrefix⟩,
   ⟨"ledger_pending_before", .field, ["pending_before_finalize"], .transactionExecutionPrefix⟩,
   ⟨"ledger_pending_after", .field, ["pending_after_finalize"], .transactionExecutionPrefix⟩,
   ⟨"ledger_uncertain", .field, ["uncertain_transactions"], .transactionExecutionPrefix⟩,
   ⟨"provenance_unknown_writers", .field, ["unknown_writer_ids"], .transactionExecutionPrefix⟩]

/-- The action of the rule for a field. -/
def fieldRule (field : String) : Option RuleAction :=
  (normalizerRules.find? fun rule => rule.scope = .field ∧ field ∈ rule.fields).map (·.action)

/-- The fields whose strings are identities. -/
def identityFieldNames : List String :=
  (normalizerRules.filter fun rule => rule.scope = .field ∧ rule.action = .executionIdentity).flatMap
    (·.fields)

/-! ## Execution identities -/

/-- The roles of a replay. -/
def executionRoles : List String := ["cpu", "dma", "uart", "runner"]

/-- What stands for an execution once it is rewritten. -/
def executionToken (role : String) : String := "execution:" ++ role

/-- A lower-case hexadecimal digit. -/
def isHexDigit (c : Char) : Bool := ('0' ≤ c && c ≤ '9') || ('a' ≤ c && c ≤ 'f')

/-- An issued identity: 32 hexadecimal digits. -/
def isUuid (s : String) : Bool := s.toList.length = 32 && s.toList.all isHexDigit

/-- The roles with an identity. -/
def issued (executionIds : Dict String (Option String)) : List (String × String) :=
  executionIds.entries.filterMap fun p => p.2.map fun value => (p.1, value)

/-- Check the identities of a run and map each to its token. -/
def validateIds (roles : List String) (executionIds : Dict String (Option String)) :
    Except Exn (Dict String String) := do
  ensure ((∀ role ∈ executionIds.keys, role ∈ roles) ∧ ∀ role ∈ roles, role ∈ executionIds.keys)
    (.valueError ("execution IDs must identify exactly: " ++ ", ".intercalate roles))
  ensure (((issued executionIds).map Prod.snd).Nodup ∧ ∀ p ∈ issued executionIds, isUuid p.2 = true)
    (.valueError "execution IDs must be distinct native UUID hex strings")
  pure (Dict.empty.update ((issued executionIds).map fun p => (p.2, executionToken p.1)))

/-! ## Transaction keys -/

/-- What stands before the execution of a transaction key. -/
def keyFront : String := "TransactionKey(execution_id='"

/-- What stands after the execution of a transaction key. -/
def keyMiddle : String := "', "

/-- The text of a transaction key of an execution. -/
def transactionKey (execution rest : String) : String :=
  keyFront ++ execution ++ keyMiddle ++ rest ++ ")"

/-- Drop a text from the front of another. -/
def stripFront (front l : List Char) : Option (List Char) :=
  if front.isPrefixOf l then some (l.drop front.length) else none

/-- The rest of a key after its execution, up to the closing bracket; it holds no line break. -/
def closeKey (l : List Char) : Option String :=
  if l.getLast? = some ')' ∧ '\n' ∉ l.dropLast then some (String.ofList l.dropLast) else none

/-- The execution and the rest of a transaction key whose execution is an issued identity. -/
def matchTransactionKey (s : String) : Option (String × String) := do
  let l ← stripFront keyFront.toList s.toList
  if isUuid (String.ofList (l.take 32)) then
    let tail ← stripFront keyMiddle.toList (l.drop 32)
    let rest ← closeKey tail
    pure (String.ofList (l.take 32), rest)
  else none

/-- Rewrite the execution of a transaction key. -/
def rewriteKey (mapping : Dict String String) (s : String) : String :=
  match matchTransactionKey s with
  | none => s
  | some (execution, rest) =>
      match mapping.get? execution with
      | none => s
      | some token => transactionKey token rest

/-! ## The walk -/

/-- What governs a value: the field above it, whether it is an event of the journal's root list, and
whether it is an endpoint of a state edge. -/
structure Place where
  field : Option String
  eventRecord : Bool
  ledgerReference : Bool
  deriving DecidableEq

/-- The place of a list's items. -/
def Place.item (p : Place) : Place := ⟨p.field, false, false⟩

/-- The place of a dictionary's entry. -/
def Place.entry (stateEdge : Bool) (key : String) : Place :=
  ⟨some key, false, stateEdge && stateEdgeFields.contains key⟩

/-- The place of an event of the root list. -/
def Place.event : Place := ⟨none, true, false⟩

/-- The place of any other root. -/
def Place.root : Place := ⟨none, false, false⟩

/-- How the strings at a place are rewritten. -/
inductive Place.Kind where
  | identity
  | reference
  | plain
  deriving DecidableEq

/-- The rewrite a place calls for. -/
def Place.kind (p : Place) : Place.Kind :=
  match p.field.bind fieldRule with
  | some .executionIdentity => .identity
  | some _ => .reference
  | none => if p.ledgerReference then .reference else .plain

/-- Rewrite a string at a place. -/
def rewriteString (mapping : Dict String String) (p : Place) (s : String) : String :=
  match p.kind with
  | .identity => mapping.getD s s
  | .reference => rewriteKey mapping s
  | .plain => s

/-- The keys of a state-dependency record. -/
def stateEdgeRequired : List String :=
  ["event_id", "producer_event_id", "edge_kind", "memory_id", "generation", "byte_offset", "version",
    "source", "target"]

variable {σ : Type}

/-- The kind entry names a state dependency. -/
def isStateDependency : Option (Value σ) → Bool
  | some (.str s) => s = "state_dependency"
  | _ => false

/-- A dictionary at a place is a state-dependency record of the journal. -/
def stateEdge (p : Place) (entries : List (String × Value σ)) : Bool :=
  p.eventRecord && isStateDependency (Dict.lookup "kind" entries) &&
    stateEdgeRequired.all fun key => (entries.map Prod.fst).contains key

mutual

/-- Rewrite every string of a tree by its place. -/
def visit (f : Place → String → String) (p : Place) : Value σ → Value σ
  | .scalar x => .scalar x
  | .str s => .str (f p s)
  | .list items => .list (visitItems f p.item items)
  | .tuple items => .list (visitItems f p.item items)
  | .dict entries => .dict (visitEntries f (stateEdge p entries) entries)

/-- `visit` for every item. -/
def visitItems (f : Place → String → String) (p : Place) : List (Value σ) → List (Value σ)
  | [] => []
  | v :: items => visit f p v :: visitItems f p items

/-- `visit` for every entry. -/
def visitEntries (f : Place → String → String) (edge : Bool) :
    List (String × Value σ) → List (String × Value σ)
  | [] => []
  | (k, v) :: entries => (k, visit f (Place.entry edge k) v) :: visitEntries f edge entries

end

/-- The walk from the root: the members of a root list are events. -/
def visitRoot (f : Place → String → String) : Value σ → Value σ
  | .list items => .list (visitItems f Place.event items)
  | .tuple items => .list (visitItems f Place.event items)
  | v => visit f Place.root v

/-- Rewrite a document with a mapping of identities. -/
def normalizeWithMapping (value : Value σ) (mapping : Dict String String) : Value σ :=
  visitRoot (rewriteString mapping) value

/-- Rewrite a document with the identities of its run. -/
def normalizeExecutionIdentities (value : Value σ) (executionIds : Dict String (Option String)) :
    Except Exn (Value σ) := do
  let mapping ← validateIds executionRoles executionIds
  pure (normalizeWithMapping value mapping)

/-! ## The first difference -/

/-- The scalars of a document. -/
inductive Scalar (φ : Type) where
  | none
  | bool (b : Bool)
  | int (i : ℤ)
  | float (x : φ)

/-- The name of a value's type. -/
def typeName {φ : Type} : Value (Scalar φ) → String
  | .scalar .none => "NoneType"
  | .scalar (.bool _) => "bool"
  | .scalar (.int _) => "int"
  | .scalar (.float _) => "float"
  | .str _ => "str"
  | .list _ => "list"
  | .tuple _ => "tuple"
  | .dict _ => "dict"

/-- Two scalars have one type and are equal. -/
def Scalar.same {φ : Type} [BEq φ] : Scalar φ → Scalar φ → Bool
  | .none, .none => true
  | .bool a, .bool b => a == b
  | .int i, .int j => i == j
  | .float x, .float y => x == y
  | _, _ => false

/-- A step into a tree. -/
inductive PathStep where
  | key (k : String)
  | index (i : ℕ)

/-- The record of a difference. -/
inductive Difference (φ : Type) where
  | type (path : List PathStep) (referenceType actualType : String)
      (reference actual : Value (Scalar φ))
  | missingKey (path : List PathStep) (reference : Option (Value (Scalar φ)))
  | extraKey (path : List PathStep) (actual : Option (Value (Scalar φ)))
  | length (path : List PathStep) (referenceLength actualLength : ℕ)
      (reference actual : Option (Value (Scalar φ)))
  | value (path : List PathStep) (reference actual : Value (Scalar φ))

variable {φ : Type} [BEq φ]

/-- The keys of one list of entries that another lacks, in order. -/
def lacking (ls rs : List (String × Value σ)) : List String :=
  ((ls.map Prod.fst).filter fun k => k ∉ rs.map Prod.fst).insertionSort (· ≤ ·)

/-- What was found at the first key in order, of the keys where something was. -/
def firstFound {α : Type} (found : List (String × α)) : Option α :=
  (((found.map Prod.fst).insertionSort (· ≤ ·)).head?).bind fun k => Dict.lookup k found

mutual

/-- The first difference between two trees. -/
def diff : Value (Scalar φ) → Value (Scalar φ) → List PathStep → Option (Difference φ)
  | .scalar x, .scalar y, path =>
      if typeName (.scalar x) ≠ typeName (.scalar y) then
        some (.type path (typeName (.scalar x)) (typeName (.scalar y)) (.scalar x) (.scalar y))
      else if x.same y then none else some (.value path (.scalar x) (.scalar y))
  | .str s, .str t, path => if s = t then none else some (.value path (.str s) (.str t))
  | .list ls, .list rs, path =>
      if ls.length ≠ rs.length then
        some (.length (path ++ [.index (min ls.length rs.length)]) ls.length rs.length
          ls[min ls.length rs.length]? rs[min ls.length rs.length]?)
      else diffItems ls rs path 0
  | .tuple ls, .tuple rs, path =>
      if ls.length ≠ rs.length then
        some (.length (path ++ [.index (min ls.length rs.length)]) ls.length rs.length
          ls[min ls.length rs.length]? rs[min ls.length rs.length]?)
      else diffItems ls rs path 0
  | .dict ls, .dict rs, path =>
      match lacking ls rs, lacking rs ls with
      | k :: _, _ => some (.missingKey (path ++ [.key k]) (Dict.lookup k ls))
      | [], k :: _ => some (.extraKey (path ++ [.key k]) (Dict.lookup k rs))
      | [], [] => firstFound (diffEntries ls rs path)
  | v, w, path => some (.type path (typeName v) (typeName w) v w)

/-- The first difference between the members of two lists. -/
def diffItems : List (Value (Scalar φ)) → List (Value (Scalar φ)) → List PathStep → ℕ → Option (Difference φ)
  | v :: ls, w :: rs, path, i =>
      match diff v w (path ++ [.index i]) with
      | some found => some found
      | none => diffItems ls rs path (i + 1)
  | _, _, _, _ => none

/-- The differences between the entries of one dictionary and those of another, by key. -/
def diffEntries : List (String × Value (Scalar φ)) → List (String × Value (Scalar φ)) →
    List PathStep → List (String × Difference φ)
  | [], _, _ => []
  | (k, v) :: ls, rs, path =>
      match (Dict.lookup k rs).bind fun w => diff v w (path ++ [.key k]) with
      | some found => (k, found) :: diffEntries ls rs path
      | none => diffEntries ls rs path

end

/-- The first difference between two runs, each rewritten with its own identities. -/
def firstReplayDifference (reference actual : Value (Scalar φ))
    (referenceExecutionIds actualExecutionIds : Dict String (Option String)) :
    Except Exn (Option (Difference φ)) := do
  let left ← normalizeExecutionIdentities reference referenceExecutionIds
  let right ← normalizeExecutionIdentities actual actualExecutionIds
  pure (diff left right [])

/-! ## Declared identities -/

/-- Note a string under a field that is looked for, once. -/
def note (found : Dict String (List String)) (field : Option String) (s : String) :
    Dict String (List String) :=
  match field with
  | none => found
  | some f =>
      match found.get? f with
      | none => found
      | some seen => if s ∈ seen then found else found.set f (seen ++ [s])

mutual

/-- Note the strings of a tree. -/
def collect (found : Dict String (List String)) (field : Option String) : Value σ → Dict String (List String)
  | .scalar _ => found
  | .str s => note found field s
  | .list items => collectItems found field items
  | .tuple items => collectItems found field items
  | .dict entries => collectEntries found entries

/-- `collect` for every item. -/
def collectItems (found : Dict String (List String)) (field : Option String) :
    List (Value σ) → Dict String (List String)
  | [] => found
  | v :: items => collectItems (collect found field v) field items

/-- `collect` for every entry. -/
def collectEntries (found : Dict String (List String)) : List (String × Value σ) → Dict String (List String)
  | [] => found
  | (k, v) :: entries => collectEntries (collect found (some k) v) entries

end

/-- The distinct strings under each identity field, in the order they appear. -/
def declaredIdentityValues (value : Value σ) : Dict String (List String) :=
  collect (Dict.empty.update (identityFieldNames.map fun field => (field, []))) none value

/-- The mappings of the two sides and the fields they rewrite. -/
structure DeclaredIdentityMappings where
  reference : Dict String String
  actual : Dict String String
  fields : List String

/-- What every token of an identity begins with. -/
def identityFront : String := "declared-identity:"

/-- What both sides of one identity are rewritten to. -/
def identityToken (field : String) (index : ℕ) : String :=
  identityFront ++ field ++ ":" ++ index.repr

/-- The tokens of the values of a field. -/
def identityTokens (field : String) (values : List String) : List (String × String) :=
  values.zipIdx.map fun p => (p.1, identityToken field p.2)

/-- Pair the values of a field, when both sides have as many. -/
def pairField (referenceValues actualValues : Dict String (List String))
    (m : DeclaredIdentityMappings) (field : String) : DeclaredIdentityMappings :=
  if referenceValues.getD field [] = [] ∨
      (referenceValues.getD field []).length ≠ (actualValues.getD field []).length then m
  else
    { reference := m.reference.update (identityTokens field (referenceValues.getD field []))
      actual := m.actual.update (identityTokens field (actualValues.getD field []))
      fields := m.fields ++ [field] }

/-- The mappings of a run and its replay, each of its own identities. -/
def declaredIdentityMappings (reference actual : Value σ) : DeclaredIdentityMappings :=
  identityFieldNames.foldl (pairField (declaredIdentityValues reference)
    (declaredIdentityValues actual)) ⟨.empty, .empty, []⟩

end Replay

end MyFuzz
