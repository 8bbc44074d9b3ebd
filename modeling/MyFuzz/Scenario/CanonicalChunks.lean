import MyFuzz.Foundations.Json
import MyFuzz.Foundations.JsonValue
import MyFuzz.Foundations.Outcome

/-!
# Scenario/CanonicalChunks — a document streamed as canonical JSON

A trace holds more than JSON does: data classes, tuples, the snapshot of a journal, and dictionaries
whose keys need not be texts.  There are two ways to write it.

    value ──asdict──▸ lists and dictionaries ──dumps──▸ text
    value ──chunks──▸ pieces, one after the other

Both write an object in the order of its keys.  `dumps` turns a key that is no text into one; the
pieces have it as it is.
-/

namespace MyFuzz

open Outcome

/-- A scalar that is not a text. -/
inductive TraceScalar where
  | null
  | bool (b : Bool)
  | int (i : ℤ)
  | float (x : JsonFloat)
  deriving DecidableEq

/-- A key that JSON can encode. -/
inductive TraceKey where
  | text (points : List ℕ)
  | scalar (x : TraceScalar)
  deriving DecidableEq

/-- A value of a trace.  The events of a journal's snapshot are values themselves. -/
inductive TraceValue where
  | scalar (x : TraceScalar)
  | text (points : List ℕ)
  | list (items : List TraceValue)
  | tuple (items : List TraceValue)
  | dict (entries : List (TraceKey × TraceValue))
  | dataclass (fields : List (List ℕ × TraceValue))
  | snapshot (events : List TraceValue)

/-! ## Texts -/

/-- A code point inside quotation marks. -/
def escapePoint (n : ℕ) : List ℕ :=
  if n = 34 then [92, 34]
  else if n = 92 then [92, 92]
  else if n = 10 then [92, 110]
  else if n = 13 then [92, 114]
  else if n = 9 then [92, 116]
  else if n = 8 then [92, 98]
  else if n = 12 then [92, 102]
  else if n < 32 then 92 :: 117 :: (Repr.hexDigits 4 n).map Char.toNat
  else [n]

/-- The text of a text. -/
def quoted (points : List ℕ) : List ℕ := 34 :: (points.flatMap escapePoint ++ [34])

/-- The text of a scalar; `floatRepr` is that of a fraction. -/
def TraceScalar.dumps (floatRepr : ℚ → List ℕ) : TraceScalar → Except Exn (List ℕ)
  | .null => .ok (JsonValue.points "null")
  | .bool b => .ok (JsonValue.points (if b then "true" else "false"))
  | .int i => .ok ((Json.scalarText (.int i)).map Char.toNat)
  | .float (.finite x) => .ok (floatRepr x)
  | .float _ => .error (.valueError "Out of range float values are not JSON compliant")

namespace TraceKey

/-- A key as a value of its own. -/
def dumps (floatRepr : ℚ → List ℕ) : TraceKey → Except Exn (List ℕ)
  | .text points => .ok (quoted points)
  | .scalar x => x.dumps floatRepr

/-- A key of an object: a scalar is turned into a text. -/
def name (floatRepr : ℚ → List ℕ) : TraceKey → Except Exn (List ℕ)
  | .text points => .ok (quoted points)
  | .scalar x => (x.dumps floatRepr).map quoted

/-- What a number compares by. -/
def number : TraceKey → Option ℚ
  | .scalar (.bool b) => some (if b then 1 else 0)
  | .scalar (.int i) => some i
  | .scalar (.float (.finite x)) => some x
  | _ => none

/-- The order of texts, and that of numbers; a constant beside the numbers is refused later. -/
def le : TraceKey → TraceKey → Bool
  | .text a, .text b => a ≤ b
  | a, b =>
    match a.number, b.number with
    | some x, some y => x ≤ y
    | _, _ => true

def isNumber : TraceKey → Bool
  | .text _ => false
  | .scalar .null => false
  | .scalar _ => true

def isText : TraceKey → Bool
  | .text _ => true
  | .scalar _ => false

/-- Keys that can be sorted: texts, numbers, or one key. -/
def sortable (keys : List TraceKey) : Bool := keys.all isText || keys.all isNumber || keys.length ≤ 1

end TraceKey

/-- The entries of an object in the order of their keys. -/
def sortedEntries {α : Type} (entries : List (TraceKey × α)) : Except Exn (List (TraceKey × α)) := do
  ensure (TraceKey.sortable (entries.map Prod.fst) = true) (.other "TypeError: '<' not supported")
  return entries.insertionSort fun a b => a.1.le b.1 = true

namespace TraceValue

variable (floatRepr : ℚ → List ℕ)

/-! ## The whole document -/

mutual

/-- **The plain form of a value**: a data class is a dictionary, a snapshot the tuple of its events. -/
def asdict : TraceValue → TraceValue
  | .scalar x => .scalar x
  | .text points => .text points
  | .list items => .list (asdictItems items)
  | .tuple items => .tuple (asdictItems items)
  | .dict entries => .dict (asdictEntries entries)
  | .dataclass fields => .dict (asdictFields fields)
  | .snapshot events => .tuple (asdictItems events)

/-- `asdict` for every item. -/
def asdictItems : List TraceValue → List TraceValue
  | [] => []
  | v :: items => asdict v :: asdictItems items

/-- `asdict` for every entry. -/
def asdictEntries : List (TraceKey × TraceValue) → List (TraceKey × TraceValue)
  | [] => []
  | (k, v) :: entries => (k, asdict v) :: asdictEntries entries

/-- `asdict` for every field. -/
def asdictFields : List (List ℕ × TraceValue) → List (TraceKey × TraceValue)
  | [] => []
  | (name, v) :: fields => (.text name, asdict v) :: asdictFields fields

end

/-- Texts between brackets, separated. -/
def bracketed (opening closing : ℕ) (items : List (List ℕ)) : List ℕ :=
  opening :: (List.intercalate [44] items ++ [closing])

/-- The text of an entry. -/
def entryText (e : TraceKey × Except Exn (List ℕ)) : Except Exn (List ℕ) := do
  let key ← e.1.name floatRepr
  let text ← e.2
  return key ++ 58 :: text

/-- The text of an object. -/
def objectText (entries : List (TraceKey × Except Exn (List ℕ))) : Except Exn (List ℕ) := do
  let entries ← sortedEntries entries
  let items ← entries.mapM (entryText floatRepr)
  return bracketed 123 125 items

mutual

/-- **The text of a value in plain form.** -/
def dumps : TraceValue → Except Exn (List ℕ)
  | .scalar x => x.dumps floatRepr
  | .text points => .ok (quoted points)
  | .list items => (dumpsItems items).map (bracketed 91 93)
  | .tuple items => (dumpsItems items).map (bracketed 91 93)
  | .dict entries => objectText floatRepr (dumpsEntries entries)
  | .dataclass _ => .error (.other "TypeError: not JSON serializable")
  | .snapshot _ => .error (.other "TypeError: not JSON serializable")

/-- `dumps` for every item. -/
def dumpsItems : List TraceValue → Except Exn (List (List ℕ))
  | [] => .ok []
  | v :: items => do
    let text ← dumps v
    let texts ← dumpsItems items
    return text :: texts

/-- `dumps` for every entry. -/
def dumpsEntries : List (TraceKey × TraceValue) → List (TraceKey × Except Exn (List ℕ))
  | [] => []
  | (k, v) :: entries => (k, dumps v) :: dumpsEntries entries

end

/-! ## The pieces -/

/-- Pieces between brackets, separated. -/
def bracketedChunks (opening closing : ℕ) (items : List (List (List ℕ))) : List (List ℕ) :=
  [opening] :: (List.intercalate [[44]] items ++ [[closing]])

/-- The pieces of an entry. -/
def entryChunks (e : TraceKey × Except Exn (List (List ℕ))) : Except Exn (List (List ℕ)) := do
  let key ← e.1.dumps floatRepr
  let chunks ← e.2
  return key :: [58] :: chunks

/-- The pieces of an object. -/
def objectChunks (entries : List (TraceKey × Except Exn (List (List ℕ)))) : Except Exn (List (List ℕ)) := do
  let entries ← sortedEntries entries
  let items ← entries.mapM (entryChunks floatRepr)
  return bracketedChunks 123 125 items

mutual

/-- **The pieces of a value**; an event of a snapshot is one piece. -/
def chunks : TraceValue → Except Exn (List (List ℕ))
  | .scalar x => (x.dumps floatRepr).map fun text => [text]
  | .text points => .ok [quoted points]
  | .list items => (chunksItems items).map (bracketedChunks 91 93)
  | .tuple items => (chunksItems items).map (bracketedChunks 91 93)
  | .dict entries => objectChunks floatRepr (chunksEntries entries)
  | .dataclass fields => objectChunks floatRepr (chunksFields fields)
  | .snapshot events =>
    (events.mapM fun event => (dumps floatRepr event).map fun text => [text]).map (bracketedChunks 91 93)

/-- `chunks` for every item. -/
def chunksItems : List TraceValue → Except Exn (List (List (List ℕ)))
  | [] => .ok []
  | v :: items => do
    let pieces ← chunks v
    let rest ← chunksItems items
    return pieces :: rest

/-- `chunks` for every entry. -/
def chunksEntries : List (TraceKey × TraceValue) → List (TraceKey × Except Exn (List (List ℕ)))
  | [] => []
  | (k, v) :: entries => (k, chunks v) :: chunksEntries entries

/-- `chunks` for every field. -/
def chunksFields : List (List ℕ × TraceValue) → List (TraceKey × Except Exn (List (List ℕ)))
  | [] => []
  | (name, v) :: fields => (.text name, chunks v) :: chunksFields fields

end

end TraceValue

end MyFuzz
