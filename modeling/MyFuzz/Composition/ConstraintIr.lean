import MyFuzz.Foundations.Dict
import MyFuzz.Foundations.Outcome

/-!
# Composition/ConstraintIr — typed expressions for input constraints

Expressions are objects that refer to each other, so a program is a graph: `h i` is the object with the
identity `i`.  Three traversals go over it by identity:

    validate   every operator with its arguments and widths, no cycle
    evaluate   the value of an output, each object once, and only the chosen branch of a `mux`
    document   the objects numbered in the order they are met

A traversal that descends into an object can do so at most once for every object, so `n + 1` levels are
enough for all of them.
-/

namespace MyFuzz

namespace ConstraintIr

/-! ## Expressions -/

/-- An operator. -/
inductive Op where
  | const
  | ref
  | and
  | or
  | not
  | eq
  | mux
  | slice
  | concat
  | other (name : String)
  deriving DecidableEq

/-- An argument of an expression: an object, a plain value or anything else. -/
inductive Arg (ι : Type) where
  | expr (i : ι)
  | int (value : ℤ)
  | text (value : String)
  | other
  deriving DecidableEq

/-- A bit-vector node. -/
structure Expr (ι : Type) where
  op : Op
  width : ℕ
  args : List (Arg ι)
  width_pos : 0 < width
  deriving DecidableEq

/-- The objects of a program by their identities. -/
abbrev Heap (n : ℕ) := Fin n → Expr (Fin n)

/-- Named outputs over a heap. -/
structure ConstraintProgram (n : ℕ) where
  heap : Heap n
  outputs : List (String × Arg (Fin n))

/-- An ill-formed expression, program or input. -/
def irError {α : Type} (message : String) : Except Exn α := .error (.valueError message)

/-- A descent that is deeper than there are objects. -/
def tooDeep {α : Type} : Except Exn α := .error (.other "RecursionError")

variable {n : ℕ}

/-! ## Validation -/

/-- What a validation has met: finished objects, and the widths of references. -/
structure Seen (n : ℕ) where
  visited : List (Fin n)
  refWidths : Dict String ℕ

/-- The identities of arguments that are all objects. -/
def objects : List (Arg (Fin n)) → Option (List (Fin n))
  | [] => some []
  | .expr i :: args => (objects args).map (i :: ·)
  | _ :: _ => none

def validateConst (e : Expr (Fin n)) (seen : Seen n) : Except Exn (Seen n) :=
  match e.args with
  | [.int value] =>
    if 0 ≤ value ∧ value < 2 ^ e.width then .ok seen else irError "invalid const value"
  | _ => irError "invalid const value"

def validateRef (e : Expr (Fin n)) (seen : Seen n) : Except Exn (Seen n) :=
  match e.args with
  | [.text name] =>
    if name = "" then irError "invalid ref name"
    else if ∃ width ∈ seen.refWidths.get? name, width ≠ e.width then
      irError ("ref width mismatch: " ++ name)
    else .ok { seen with refWidths := seen.refWidths.set name e.width }
  | _ => irError "invalid ref name"

/-- Arguments one after another. -/
def visitAll (visit : Fin n → Seen n → Except Exn (Seen n)) (items : List (Fin n)) (seen : Seen n) :
    Except Exn (Seen n) :=
  items.foldlM (fun seen i => visit i seen) seen

/-- The arguments of an operator that has only objects: as many as it takes, of the right widths. -/
def validateObjects (visit : Fin n → Seen n → Except Exn (Seen n)) (admits : List (Fin n) → Bool)
    (message : String) (e : Expr (Fin n)) (seen : Seen n) : Except Exn (Seen n) :=
  match objects e.args with
  | some items => if admits items then visitAll visit items seen else irError message
  | none => irError message

def validateSlice (h : Heap n) (visit : Fin n → Seen n → Except Exn (Seen n)) (e : Expr (Fin n))
    (seen : Seen n) : Except Exn (Seen n) :=
  match e.args with
  | [.expr source, .int hi, .int lo] =>
    if lo < 0 ∨ hi < lo ∨ ((h source).width : ℤ) ≤ hi then irError "slice bounds"
    else if (e.width : ℤ) ≠ hi - lo + 1 then irError "slice width mismatch"
    else visit source seen
  | [.expr _, _, _] => irError "slice bounds"
  | _ => irError "slice width mismatch"

/-- `and` and `or`: two objects of the node's width. -/
def admitsBinary (h : Heap n) (width : ℕ) : List (Fin n) → Bool
  | [left, right] => (h left).width = (h right).width ∧ (h left).width = width
  | _ => false

def admitsNot (h : Heap n) (width : ℕ) : List (Fin n) → Bool
  | [arg] => (h arg).width = width
  | _ => false

def admitsEqual (h : Heap n) (width : ℕ) : List (Fin n) → Bool
  | [left, right] => width = 1 ∧ (h left).width = (h right).width
  | _ => false

def admitsMux (h : Heap n) (width : ℕ) : List (Fin n) → Bool
  | [select, whenTrue, whenFalse] =>
    (h select).width = 1 ∧ (h whenTrue).width = (h whenFalse).width ∧ (h whenTrue).width = width
  | _ => false

def admitsConcat (h : Heap n) (width : ℕ) (items : List (Fin n)) : Bool :=
  items ≠ [] ∧ width = (items.map fun i => (h i).width).sum

/-- One node, its arguments by `visit`. -/
def validateNode (h : Heap n) (visit : Fin n → Seen n → Except Exn (Seen n)) (e : Expr (Fin n))
    (seen : Seen n) : Except Exn (Seen n) :=
  match e.op with
  | .const => validateConst e seen
  | .ref => validateRef e seen
  | .and => validateObjects visit (admitsBinary h e.width) "and width mismatch" e seen
  | .or => validateObjects visit (admitsBinary h e.width) "or width mismatch" e seen
  | .not => validateObjects visit (admitsNot h e.width) "not width mismatch" e seen
  | .eq => validateObjects visit (admitsEqual h e.width) "equal width mismatch" e seen
  | .mux => validateObjects visit (admitsMux h e.width) "mux width mismatch" e seen
  | .slice => validateSlice h visit e seen
  | .concat => validateObjects visit (admitsConcat h e.width) "concat width mismatch" e seen
  | .other name => irError ("unknown expression op: " ++ name)

/-- **Validate an expression**: `visiting` holds the objects above it. -/
def validateExpr (h : Heap n) : ℕ → List (Fin n) → Fin n → Seen n → Except Exn (Seen n)
  | 0, _, _, _ => tooDeep
  | fuel + 1, visiting, i, seen =>
    if i ∈ visiting then irError "expression cycle"
    else if i ∈ seen.visited then .ok seen
    else do
      let seen ← validateNode h (validateExpr h fuel (i :: visiting)) (h i) seen
      return { seen with visited := i :: seen.visited }

/-- One output: a new name and an expression. -/
def validateOutput (h : Heap n) (s : List String × Seen n) (output : String × Arg (Fin n)) :
    Except Exn (List String × Seen n) :=
  if output.1 = "" then irError "invalid output name"
  else if output.1 ∈ s.1 then irError "duplicate output name"
  else
    match output.2 with
    | .expr i => do
      let seen ← validateExpr h (n + 1) [] i s.2
      return (output.1 :: s.1, seen)
    | _ => irError "invalid expression"

/-- **Validate output names, operators, widths and acyclicity.** -/
def ConstraintProgram.validate (p : ConstraintProgram n) : Except Exn Unit := do
  let _ ← p.outputs.foldlM (validateOutput p.heap) ([], ⟨[], Dict.empty⟩)
  return ()

/-! ## Evaluation -/

/-- The value of an input. -/
inductive Input where
  | int (value : ℤ)
  | other
  deriving DecidableEq

/-- `value & ((1 << width) - 1)` of an integer of any sign. -/
def masked (width : ℕ) (value : ℤ) : ℕ := (value % 2 ^ width).toNat

/-- The values that are known. -/
abbrev Memo (n : ℕ) := Dict (Fin n) ℕ

/-- The value of a name, when it is needed. -/
def readInput (inputs : Dict String Input) (name : String) : Except Exn ℤ :=
  match inputs.get? name with
  | none => irError ("missing input: " ++ name)
  | some (.int value) => .ok value
  | some .other => irError ("invalid input: " ++ name)

/-- The parts of a concatenation, shifted in one after another. -/
def evaluateItems (h : Heap n) (evaluate : Fin n → Memo n → Except Exn (ℕ × Memo n)) :
    List (Arg (Fin n)) → ℕ → Memo n → Except Exn (ℕ × Memo n)
  | [], value, memo => .ok (value, memo)
  | .expr i :: args, value, memo => do
    let (item, memo) ← evaluate i memo
    evaluateItems h evaluate args ((value <<< (h i).width) ||| item) memo
  | _ :: _, _, _ => .error (.other "AttributeError")

/-- The value of a node before it is cut to its width. -/
def evaluateNode (h : Heap n) (inputs : Dict String Input)
    (evaluate : Fin n → Memo n → Except Exn (ℕ × Memo n)) (e : Expr (Fin n)) (memo : Memo n) :
    Except Exn (ℤ × Memo n) :=
  match e.op, e.args with
  | .const, .int value :: _ => .ok (value, memo)
  | .ref, .text name :: _ => do
    let value ← readInput inputs name
    return (value, memo)
  | .and, .expr left :: .expr right :: _ => do
    let (a, memo) ← evaluate left memo
    let (b, memo) ← evaluate right memo
    return ((a &&& b : ℕ), memo)
  | .or, .expr left :: .expr right :: _ => do
    let (a, memo) ← evaluate left memo
    let (b, memo) ← evaluate right memo
    return ((a ||| b : ℕ), memo)
  | .not, .expr arg :: _ => do
    let (a, memo) ← evaluate arg memo
    return (-(a : ℤ) - 1, memo)
  | .eq, .expr left :: .expr right :: _ => do
    let (a, memo) ← evaluate left memo
    let (b, memo) ← evaluate right memo
    return (if a = b then 1 else 0, memo)
  | .mux, .expr select :: .expr whenTrue :: .expr whenFalse :: _ => do
    let (s, memo) ← evaluate select memo
    let (a, memo) ← evaluate (if s ≠ 0 then whenTrue else whenFalse) memo
    return (a, memo)
  | .slice, .expr source :: _ :: .int lo :: _ => do
    let (a, memo) ← evaluate source memo
    return ((a >>> lo.toNat : ℕ), memo)
  | .concat, args => do
    let (value, memo) ← evaluateItems h evaluate args 0 memo
    return (value, memo)
  | .other name, _ => irError ("unknown expression op: " ++ name)
  | _, _ => .error (.other "IndexError")

/-- **Evaluate an expression**, each object once. -/
def evaluateExpr (h : Heap n) (inputs : Dict String Input) :
    ℕ → List (Fin n) → Fin n → Memo n → Except Exn (ℕ × Memo n)
  | 0, _, _, _ => tooDeep
  | fuel + 1, visiting, i, memo =>
    if i ∈ visiting then irError "expression cycle"
    else
      match memo.get? i with
      | some value => .ok (value, memo)
      | none => do
        let (value, memo) ← evaluateNode h inputs (evaluateExpr h inputs fuel (i :: visiting)) (h i) memo
        return (masked (h i).width value, memo.set i (masked (h i).width value))

/-- The value of one output. -/
def evaluateOutput (h : Heap n) (inputs : Dict String Input) (output : String × Arg (Fin n)) :
    Except Exn (String × ℕ) :=
  match output.2 with
  | .expr i => do
    let (value, _) ← evaluateExpr h inputs (n + 1) [] i Dict.empty
    return (output.1, value)
  | _ => .error (.other "AttributeError")

/-- **Evaluate all outputs.** -/
def evaluate (p : ConstraintProgram n) (inputs : Dict String Input) : Except Exn (Dict String ℕ) := do
  p.validate
  let values ← p.outputs.mapM (evaluateOutput p.heap inputs)
  return Dict.empty.update values

/-! ## Documents -/

/-- What a record says besides its number, operator and width. -/
inductive Payload where
  | value (v : ℤ)
  | name (s : String)
  | args (l : List ℤ)
  deriving DecidableEq

structure Record where
  id : ℕ
  op : Op
  width : ℕ
  payload : Payload
  deriving DecidableEq

/-- A document; a record that is reserved and not filled in is `none`. -/
structure Document where
  schemaVersion : String
  outputs : List (String × ℕ)
  nodes : List (Option Record)
  deriving DecidableEq

/-- The numbers that objects have, and the records. -/
structure Numbering (n : ℕ) where
  nodeIds : Dict (Fin n) ℕ
  nodes : List (Option Record)

/-- Arguments that are all objects, one after another. -/
def encodeAll (encode : Fin n → Numbering n → Except Exn (ℕ × Numbering n)) :
    List (Arg (Fin n)) → Numbering n → Except Exn (List ℤ × Numbering n)
  | [], s => .ok ([], s)
  | .expr i :: args, s => do
    let (k, s) ← encode i s
    let (ks, s) ← encodeAll encode args s
    return ((k : ℤ) :: ks, s)
  | _ :: _, _ => .error (.other "AttributeError")

/-- What a node's record says. -/
def encodePayload (encode : Fin n → Numbering n → Except Exn (ℕ × Numbering n)) (e : Expr (Fin n))
    (s : Numbering n) : Except Exn (Payload × Numbering n) :=
  match e.op, e.args with
  | .const, .int value :: _ => .ok (.value value, s)
  | .const, _ => .error (.other "IndexError")
  | .ref, .text name :: _ => .ok (.name name, s)
  | .ref, _ => .error (.other "IndexError")
  | .slice, .expr source :: .int hi :: .int lo :: _ => do
    let (k, s) ← encode source s
    return (.args [(k : ℤ), hi, lo], s)
  | .slice, _ => .error (.other "IndexError")
  | _, args => do
    let (ks, s) ← encodeAll encode args s
    return (.args ks, s)

/-- **Number an object and everything below it**, in the order it is met. -/
def encode (h : Heap n) : ℕ → Fin n → Numbering n → Except Exn (ℕ × Numbering n)
  | 0, _, _ => tooDeep
  | fuel + 1, i, s =>
    match s.nodeIds.get? i with
    | some k => .ok (k, s)
    | none => do
      let k := s.nodes.length
      let (payload, s) ← encodePayload (encode h fuel) (h i) ⟨s.nodeIds.set i k, s.nodes ++ [none]⟩
      return (k, { s with nodes := s.nodes.set k (some ⟨k, (h i).op, (h i).width, payload⟩) })

/-- The outputs, one after another. -/
def encodeOutputs (h : Heap n) :
    List (String × Arg (Fin n)) → Numbering n → Except Exn (List (String × ℕ) × Numbering n)
  | [], s => .ok ([], s)
  | (name, .expr i) :: outputs, s => do
    let (k, s) ← encode h (n + 1) i s
    let (rest, s) ← encodeOutputs h outputs s
    return ((name, k) :: rest, s)
  | _ :: _, _ => .error (.other "AttributeError")

/-- **The document of a program.** -/
def ConstraintProgram.document (p : ConstraintProgram n) : Except Exn Document := do
  p.validate
  let (outputs, s) ← encodeOutputs p.heap p.outputs ⟨Dict.empty, []⟩
  return ⟨"constraint_ir.v1", outputs, s.nodes⟩

end ConstraintIr

end MyFuzz
