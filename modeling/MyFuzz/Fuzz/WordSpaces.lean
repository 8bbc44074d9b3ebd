import MyFuzz.Foundations.Draw
import MyFuzz.Foundations.Sequence

/-!
# Fuzz/WordSpaces — the declared input words of the flows

A closed-loop fuzzer draws a fresh record per case and then mutates it, inside what one scenario declares:

    DeclaredSpace ──▸ readable, writable registers ─┐
                  ──▸ data window, pin word ────────┴──▸ fresh, mutate ──▸ record ──▸ valid

`F2` reads an address, `F3` and `F4` write a word to one, `F5` and `F6` carry a declared number of words.
-/

namespace MyFuzz

namespace WordSpaces

open Outcome Draw

/-! ## Declarations -/

inductive Flow where
  | f2 | f3 | f4 | f5 | f6
  deriving DecidableEq

def Flow.name : Flow → String
  | .f2 => "F2"
  | .f3 => "F3"
  | .f4 => "F4"
  | .f5 => "F5"
  | .f6 => "F6"

def Flow.ofName (name : String) : Option Flow := [Flow.f2, .f3, .f4, .f5, .f6].find? fun flow =>
    flow.name = name

/-- A declared value: an integer, or something else with the text that a message shows. -/
inductive Field where
  | int (value : ℤ)
  | other (text : String)
  deriving DecidableEq

def intField : Field → ℤ
  | .int value => value
  | .other _ => 0

def Field.int? : Field → Option ℤ
  | .int value => some value
  | .other _ => none

def Field.shown : Field → String
  | .int value => toString value
  | .other text => text

/-- A register row of a target profile. -/
structure RegisterRow where
  name : Option String
  offset : Field
  width : Field
  access : Option String

structure TargetRow where
  base : Field
  size : Field
  registers : List RegisterRow

structure Pins where
  padinOffset : Field
  width : Field := .int 32

/-- **The scenario facts** that the word space is derived from. -/
structure DeclaredSpace where
  ramBase : Field
  ramSize : Field
  dataBase : Field
  targetBase : Field
  targetSize : Field
  arity : Flow → Option Field
  registers : List RegisterRow
  pins : Option Pins
  triggerValues : List (List Field) := []
  blockWords : Field := .int 0
  programDataWords : Field := .int 16
  targets : List TargetRow := []

/-- The case mappings of text. -/
structure Casing where
  upper : String → String
  lower : String → String

structure WordSpace where
  casing : Casing
  declaration : DeclaredSpace

def mask32 : ℕ := 0xFFFFFFFF

namespace WordSpace

variable (space : WordSpace)

/-! ## Registers -/

structure Target where
  base : ℤ
  size : ℤ
  registers : List RegisterRow

/-- A register inside its target. -/
structure Register where
  offset : ℤ
  address : ℤ
  name : String
  width : ℤ
  access : String

/-- The address-routed target list, or the one legacy target. -/
def targetRows : List Target :=
  let declared := space.declaration
  if declared.targets = [] then
    [⟨intField declared.targetBase, intField declared.targetSize, declared.registers⟩]
  else declared.targets.map fun item => ⟨intField item.base, intField item.size, item.registers⟩

def InsideTarget (offset base size : ℤ) : Prop :=
  ¬ (size < 4 ∨ base % 4 ≠ 0) ∧ ¬ (offset < 0 ∨ offset % 4 ≠ 0 ∨ size < offset + 4) ∧
    0 ≤ base + offset ∧ base + offset ≤ mask32

instance (offset base size : ℤ) : Decidable (InsideTarget offset base size) :=
    inferInstanceAs (Decidable (_ ∧ _))

def readRegister (target : Target) (item : RegisterRow) : Option Register :=
  match item.offset, item.width, item.access with
  | .int offset, .int width, some access =>
    if InsideTarget offset target.base target.size then
      some ⟨offset, target.base + offset, item.name.getD "", width, space.casing.lower access⟩
    else none
  | _, _, _ => none

def registerRows : List Register :=
  space.targetRows.flatMap fun target => target.registers.filterMap (space.readRegister target)

/-- One more row of 32 bits with the access, unless its address is known. -/
def addRow (access : List String) (rows : List Register) (row : Register) : List Register :=
  if row.width ≠ 32 ∨ row.access ∉ access then rows
  else if row.address ∈ rows.map Register.address then rows
  else rows ++ [row]

def rowsForAccess (access : List String) : List Register := space.registerRows.foldl (addRow access) []

def readableAddresses : List ℤ := (space.rowsForAccess ["ro", "rw"]).map Register.address

def writableAddresses : List ℤ := (space.rowsForAccess ["wo", "rw"]).map Register.address

/-! ## Windows and pins -/

def ramBase : ℤ := intField space.declaration.ramBase

def ramSize : ℤ := intField space.declaration.ramSize

def dataBase : ℤ := intField space.declaration.dataBase

def programDataWords : ℤ := if 0 < intField space.declaration.programDataWords then
  intField space.declaration.programDataWords else 0

/-- The words of the data window, clipped to the RAM image. -/
def ramAddresses : List ℤ :=
  let last := space.ramBase + space.ramSize
  let base := space.dataBase
  if space.ramSize < 4 ∨ base < space.ramBase ∨ base % 4 ≠ 0 then []
  else if last < base + 4 then []
  else
    let available := (last - base) / 4
    let count := min space.programDataWords available
    ((List.range count.toNat).map fun (index : ℕ) => base + 4 * (index : ℤ)).filter (· ≤ mask32)

structure Pin where
  address : ℤ
  width : ℕ

def pinDeclaration : Option Pin :=
  match space.declaration.pins with
  | none => none
  | some pins =>
    match pins.padinOffset with
    | .other _ => none
    | .int offset =>
      if InsideTarget offset (intField space.declaration.targetBase)
        (intField space.declaration.targetSize) then
        let width := match pins.width with
          | .int width => if width < 0 then 32 else width
          | .other _ => 32
        some ⟨intField space.declaration.targetBase + offset, (min width 32).toNat⟩
      else none

def padinAddress : Option ℤ := space.pinDeclaration.map Pin.address

def pinWidth : ℕ := (space.pinDeclaration.map Pin.width).getD 0

def pinMask : ℕ := if space.pinWidth < 32 then 1 <<< space.pinWidth - 1 else mask32

def pinMaskAddresses : List ℤ :=
  match space.padinAddress with
  | none => []
  | some address =>
    (space.registerRows.filter fun row =>
      space.casing.upper row.name ∈ ["PADOUT", "PADOUTSET", "PADOUTCLR"]).map Register.address ++ [address]

def f2Addresses : List ℤ :=
  let addresses := match space.padinAddress with
    | none => space.readableAddresses
    | some address => Sequence.addNew space.readableAddresses address
  space.ramAddresses.foldl Sequence.addNew addresses

def triggerRows : List (List ℤ) := space.declaration.triggerValues.filterMap fun row =>
  if row = [] then none else row.mapM Field.int?

/-- The mask of the words that an address takes. -/
def maskFor (address : ℤ) : ℕ :=
  match space.padinAddress with
  | none => mask32
  | some _ => if address ∈ space.pinMaskAddresses then space.pinMask else mask32

/-! ## Declaration checks -/

def blockWords : ℕ := (intField space.declaration.blockWords).toNat

/-- The flows this declaration can serve. -/
def flows : List Flow :=
  [.f2, .f3, .f4] ++ (if (space.declaration.arity .f5).isSome then [.f5] else []) ++
    (if (space.declaration.arity .f6).isSome ∨ 0 < space.blockWords then [.f6] else [])

def requireFlow (flow : String) : Except Exn Flow :=
  match Flow.ofName flow with
  | none => .error (.valueError ("unsupported input flow: " ++ flow))
  | some known => do
    ensure (known ∈ space.flows) (.valueError ("unsupported input flow: " ++ flow))
    return known

/-- The text of a declared arity. -/
def shownArity (flow : Flow) : String := ((space.declaration.arity flow).map Field.shown).getD "absent"

/-- A flow whose records have two words. -/
def pairArity (flow : Flow) : Except Exn (Option ℕ) := do
  ensure ((space.declaration.arity flow).getD (.int 2) = .int 2)
    (.valueError (flow.name ++ " arity must be 2, declared " ++ space.shownArity flow))
  return some 2

/-- **Check one flow's declared arity**, returning its fixed word count. -/
def flowArity : Flow → Except Exn (Option ℕ)
  | .f2 => do
    let declared := (space.declaration.arity .f2).getD (.int 1)
    ensure (declared = .int 1 ∨ declared = .int 2)
      (.valueError ("F2 arity must be 1 or 2, declared " ++ declared.shown))
    ensure (¬ (declared = .int 2 ∧ space.padinAddress = none))
      (.valueError "F2 arity 2 requires a declared PADIN register")
    return none
  | .f3 => space.pairArity .f3
  | .f4 => space.pairArity .f4
  | .f5 => do
    let declared := ((space.declaration.arity .f5).bind Field.int?).getD 0
    ensure (1 ≤ declared) (.valueError ("F5 arity must be at least 1, declared " ++ space.shownArity .f5))
    return some declared.toNat
  | .f6 => do
    ensure (1 ≤ space.blockWords) (.valueError "F6 arity is declared with no DMA block words")
    ensure (space.declaration.arity .f6 = some (.int space.blockWords))
      (.valueError ("F6 arity must be " ++ toString space.blockWords ++ ", declared " ++
        space.shownArity .f6))
    return some space.blockWords

/-- The addresses that a flow can draw. -/
def candidates : Flow → Except Exn (List ℤ)
  | .f2 => do
    ensure (space.f2Addresses ≠ [])
      (.valueError "no readable target address or RAM data-window address for F2")
    return space.f2Addresses
  | .f3 => do
    ensure (space.ramAddresses ≠ []) (.valueError "no RAM data-window address for F3")
    return space.ramAddresses
  | .f4 => do
    ensure (space.writableAddresses ≠ []) (.valueError "no writable target register for F4")
    return space.writableAddresses
  | .f5 => .ok []
  | .f6 => .ok []

/-! ## Validation -/

def validFields : Flow → List ℤ → Option ℕ → Bool
  | .f2, [address], _ => address ∈ space.f2Addresses
  | .f2, [address, stimulus], _ => space.padinAddress = some address ∧ stimulus ≤ space.pinMask
  | .f2, _, _ => false
  | .f3, [address, _], _ => address ∈ space.ramAddresses
  | .f3, _, _ => false
  | .f4, [address, _], _ => address ∈ space.writableAddresses
  | .f4, _, _ => false
  | .f5, fields, words => words = some fields.length
  | .f6, fields, _ => fields.length = space.blockWords

/-- **Whether one record is in the declared space.** -/
def valid (flow : String) (fields : List ℤ) : Bool :=
  match Flow.ofName flow with
  | none => false
  | some known =>
    match space.flowArity known with
    | .error _ => false
    | .ok words => known ∈ space.flows ∧ (∀ value ∈ fields, 0 ≤ value ∧ value ≤ mask32) ∧
      space.validFields known fields words

end WordSpace

/-! ## Words -/

/-- The bits of a value that a mask of at most 32 bits keeps. -/
def land (mask : ℕ) (value : ℤ) : ℕ := (value % 2 ^ 32).toNat &&& mask

def interesting : List ℕ := [0, 1, 0xFFFFFFFF, 0x80000000]

def deltas : List ℤ := [1, 2, 4, 8, 16, 0x100, 0x1000, 0x10000]

def poolWord : Draw ℕ := do
  match interesting[(← randrange 0 5).toNat]? with
  | some word => return word
  | none => getrandbits 32

def randomWord (mask : ℕ) : Draw ℕ :=
  if mask = 0 then return 0
  else do
    let pooled ← chance 2 5
    return land mask (← (if pooled then poolWord else getrandbits 32) : ℕ)

/-- One proposal for another word: a flipped bit, a step, or a word of the pool. -/
def proposedWord (old mask : ℕ) : Draw ℤ := do
  let strategy ← randrange 0 3
  if strategy = 0 then
    let bit ← randrange 0 (Nat.size mask)
    return (old ^^^ 1 <<< bit.toNat : ℕ)
  else if strategy = 1 then
    let delta ← choice deltas
    let direction ← choice [-1, 1]
    return old + delta * direction
  else return (← poolWord : ℕ)

/-- The first proposal that is another word, or the next word. -/
def anotherWord (old mask : ℕ) : ℕ → Draw ℕ
  | 0 => return land mask (old + 1)
  | tries + 1 => do
    let candidate := land mask (← proposedWord old mask)
    if candidate ≠ old then return candidate else anotherWord old mask tries

/-- **A word under the mask that differs from the old one.** -/
def differentWord (old : ℤ) (mask : ℕ) : Draw ℕ :=
  if mask = 0 then return 0 else anotherWord (land mask old) mask 8

def otherAddress (addresses : List ℤ) (current : ℤ) : Draw (Option ℤ) :=
  let choices := addresses.filter (· ≠ current)
  if choices = [] then return none else do return some (← choice choices)

/-! ## Generation -/

/-- A read: an address, with the pin word that PADIN may carry. -/
structure Read where
  address : ℤ
  stimulus : Option ℤ := none
  deriving DecidableEq

def Read.fields : Read → List ℤ
  | ⟨address, none⟩ => [address]
  | ⟨address, some stimulus⟩ => [address, stimulus]

/-- A write: an address and its word. -/
structure Write where
  address : ℤ
  value : ℤ
  deriving DecidableEq

def Write.fields (write : Write) : List ℤ := [write.address, write.value]

namespace WordSpace

variable (space : WordSpace)

/-- A read of an address; at PADIN it carries a pin word every other time. -/
def readOf (address : ℤ) : Draw Read :=
  if space.padinAddress = some address then do
    if ← coin then return { address := address, stimulus := some (← randomWord space.pinMask : ℕ) }
    else return { address := address }
  else return { address := address }

/-- One random word for each place. -/
def randomWords (words : ℕ) : Draw (List ℤ) :=
  (List.replicate words mask32).mapM fun mask => do return (← randomWord mask : ℕ)

/-- A declared trigger value, or a random word in its place. -/
def triggerWord (value : ℤ) : Draw ℤ := do
  if ← coin then return (← randomWord mask32 : ℕ) else return (land mask32 value : ℕ)

def freshF5 (words : ℕ) : Draw (List ℤ) := do
  let rows := space.triggerRows.filter fun row => row.length = words
  let reuse ← (if rows = [] then pure false else coin)
  if reuse then (← choice rows).mapM triggerWord else randomWords words

def f6Example : List ℕ := [0xDEADBEEF, 0x11111111, 0x22222222, 0x33333333]

/-- A word of the declared example, or a random word behind it. -/
def exampleWord (position : ℕ) : Draw ℤ :=
  match f6Example[position]? with
  | some word => return word
  | none => do return (← randomWord mask32 : ℕ)

/-- The first record of a block starts with the declared example. -/
def freshF6 (exampleUsed : Bool) (words : ℕ) : Draw (List ℤ) :=
  if exampleUsed then randomWords words else (List.range words).mapM exampleWord

/-- **One fresh record**, and whether the example of `F6` is used by then. -/
def fresh (exampleUsed : Bool) (flow : String) : Draw (List ℤ × Bool) := do
  let flow ← lift (space.requireFlow flow)
  let words ← lift (space.flowArity flow)
  let addresses ← lift (space.candidates flow)
  match flow with
  | .f2 =>
    let read ← space.readOf (← choice addresses)
    return (read.fields, exampleUsed)
  | .f3 =>
    let address ← choice addresses
    return ([address, (← randomWord mask32 : ℕ)], exampleUsed)
  | .f4 =>
    let address ← choice addresses
    return ([address, (← randomWord (space.maskFor address) : ℕ)], exampleUsed)
  | .f5 => return (← space.freshF5 (words.getD 0), exampleUsed)
  | .f6 => return (← freshF6 exampleUsed (words.getD 0), true)

/-! ## Mutation -/

inductive ReadChange where
  | address | form | stimulus

/-- The changes that a read admits. -/
def readChanges (addresses : List ℤ) (read : Read) : List ReadChange :=
  (if 1 < addresses.length then [.address] else []) ++ if space.padinAddress = some read.address then
      .form :: if read.stimulus.isSome then [.stimulus] else []
    else []

def changeRead (addresses : List ℤ) (read : Read) : Draw Read := do
  match ← choice (space.readChanges addresses read) with
  | .address =>
    match ← otherAddress addresses read.address with
    | none => return read
    | some other => space.readOf other
  | .form =>
    match read.stimulus with
    | some _ => return { address := read.address }
    | none => return { address := read.address, stimulus := some (← randomWord space.pinMask : ℕ) }
  | .stimulus =>
    return { read with stimulus := some (← differentWord (read.stimulus.getD 0) space.pinMask : ℕ) }

/-- The change that is made when the rounds gave the read back. -/
def forcedRead (addresses : List ℤ) (read : Read) : Draw Read :=
  match read.stimulus with
  | some _ => return { address := read.address }
  | none =>
    if space.padinAddress = some read.address then do
      return { address := read.address, stimulus := some (← randomWord space.pinMask : ℕ) }
    else do
      match ← otherAddress addresses read.address with
      | none => return read
      | some other => space.readOf other

def mutateF2 (addresses : List ℤ) (read : Read) : Draw Read := do
  let count ← randint 1 3
  let current ← rounds (fun current => !(space.readChanges addresses current).isEmpty)
    (space.changeRead addresses) count.toNat read
  if current = read then space.forcedRead addresses read else return current

def changeF3Value (write : Write) : Draw Write := do
  return { write with value := (← differentWord write.value mask32 : ℕ) }

/-- Another address, every other time and where there are several. -/
def movedAddress (addresses : List ℤ) (current : ℤ) : Draw (Option ℤ) := do
  let move ← (if 1 < addresses.length then coin else pure false)
  if move then otherAddress addresses current else return none

def changeF3 (addresses : List ℤ) (write : Write) : Draw Write := do
  match ← movedAddress addresses write.address with
  | some other => return { write with address := other }
  | none => changeF3Value write

def mutateF3 (addresses : List ℤ) (write : Write) : Draw Write := do
  let count ← randint 1 3
  let current ← rounds (fun _ => true) (changeF3 addresses) count.toNat write
  if current = write then changeF3Value current else return current

/-- Go to another address, under its mask. -/
def moveF4 (addresses : List ℤ) (write : Write) : Draw Write := do
  match ← otherAddress addresses write.address with
  | some other => return ⟨other, (land (space.maskFor other) write.value : ℕ)⟩
  | none => return write

/-- Another word at the address; where the mask has no other word, another address. -/
def changeF4Value (write : Write) (otherwise : Draw Write) : Draw Write := do
  let changed ← differentWord write.value (space.maskFor write.address)
  if (changed : ℤ) ≠ write.value then return { write with value := changed } else otherwise

def changeF4 (addresses : List ℤ) (write : Write) : Draw Write := do
  match ← movedAddress addresses write.address with
  | some other => return ⟨other, (land (space.maskFor other) write.value : ℕ)⟩
  | none =>
    space.changeF4Value write (if 1 < addresses.length then space.moveF4 addresses write else return write)

def mutateF4 (addresses : List ℤ) (write : Write) : Draw Write := do
  let count ← randint 1 3
  let current ← rounds (fun _ => true) (space.changeF4 addresses) count.toNat write
  if current = write then space.changeF4Value current (space.moveF4 addresses current) else return current

/-- Another word at a drawn place. -/
def changeValues (words : ℕ) (fields : List ℤ) : Draw (List ℤ) := do
  let position ← randrange 0 words
  let changed ← differentWord (fields.getD position.toNat 0) mask32
  return fields.set position.toNat changed

def mutateValues (words : ℕ) (fields : List ℤ) : Draw (List ℤ) := do
  let count ← randint 1 3
  let current ← rounds (fun _ => true) (changeValues words) count.toNat fields
  if current = fields then changeValues words current else return current

/-- **One to three legal word-level changes** to an existing record. -/
def mutate (flow : String) (fields : List ℤ) : Draw (List ℤ) := do
  let known ← lift (space.requireFlow flow)
  let words ← lift (space.flowArity known)
  let addresses ← lift (space.candidates known)
  lift (ensure (space.valid flow fields) (.valueError ("invalid " ++ flow ++ " input fields")))
  match known, fields with
  | .f2, [address] => return (← space.mutateF2 addresses ⟨address, none⟩).fields
  | .f2, [address, stimulus] => return (← space.mutateF2 addresses ⟨address, some stimulus⟩).fields
  | .f3, [address, value] => return (← mutateF3 addresses ⟨address, value⟩).fields
  | .f4, [address, value] => return (← space.mutateF4 addresses ⟨address, value⟩).fields
  | .f5, fields => mutateValues (words.getD 0) fields
  | .f6, fields => mutateValues (words.getD 0) fields
  | _, _ => raise (.other "IndexError")

end WordSpace

end WordSpaces

end MyFuzz
