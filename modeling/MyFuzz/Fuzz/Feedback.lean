import MyFuzz.Foundations.Dict
import MyFuzz.Foundations.Ordered
import MyFuzz.Foundations.Sequence
import Mathlib.Data.Finset.Card
import Mathlib.Data.Int.Bitwise
import Mathlib.Data.List.Lex
import Mathlib.Data.Sum.Order
import Mathlib.Data.String.Basic

/-!
# Fuzz/Feedback — the features of an observation, and the ones seen so far

An observation is a flat table of integers and texts.  It is mapped to features: short tuples that
name a flow, a fact
and a value, where counters are put in buckets and words in classes.  A bounded set keeps the
features seen so far:

    case ──extract──▸ features in order ──▸ those not seen yet ──▸ as many as there is room for are
    new, and kept

A fact that the table does not hold gives no feature.
-/

namespace MyFuzz

open Ordered Sequence

namespace Feedback

/-! ## Observations -/

/-- A value of a parsed line: anything but an integer or a text is known by its `str`. -/
inductive CaseValue where
  | int (i : ℤ)
  | str (s : String)
  | none
  | other (text : String)
  deriving DecidableEq

/-- The text of a value. -/
def CaseValue.text : CaseValue → String
  | .int i => toString i
  | .str s => s
  | .none => "None"
  | .other text => text

/-- A parsed line. -/
abbrev Case := Dict String CaseValue

/-- A flow of the executor. -/
inductive Flow where
  | f1
  | f2
  | f3
  | f4
  | f5
  | f6
  deriving DecidableEq

def Flow.text : Flow → String
  | .f1 => "F1"
  | .f2 => "F2"
  | .f3 => "F3"
  | .f4 => "F4"
  | .f5 => "F5"
  | .f6 => "F6"

def Flow.all : List Flow := [.f1, .f2, .f3, .f4, .f5, .f6]

/-- The value of a key, when it is an integer. -/
def asInt (case : Case) (key : String) : Option ℤ :=
  match case.get? key with
  | some (.int i) => some i
  | _ => none

/-- The value of a key, when it is a text. -/
def asStr (case : Case) (key : String) : Option String :=
  match case.get? key with
  | some (.str s) => some s
  | _ => none

/-- The first of some keys that holds an integer. -/
def firstInt (case : Case) (keys : List String) : Option ℤ := keys.findSome? (asInt case)

/-! ## Features -/

/-- A part of a feature. -/
inductive Part where
  | int (i : ℤ)
  | str (s : String)
  deriving DecidableEq

abbrev Feature := List Part

/-- Integers before texts. -/
def Part.order : Part → ℤ ⊕ₗ String
  | .int i => toLex (.inl i)
  | .str s => toLex (.inr s)

def featureOrder (feature : Feature) : List (ℤ ⊕ₗ String) := feature.map Part.order

def counterKeys : List String :=
  ["i_fetches", "d_reads", "d_writes", "apb_reads", "apb_writes", "retires", "rvfi_writebacks",
    "rvfi_order_monotonic",
   "traps", "bus_errors"]

def counterBuckets : List (String × ℤ) := [("0", 0), ("1", 1), ("2-4", 4), ("5-8", 8), ("9-16", 16)]

/-- The bucket of a counter. -/
def bucket (count : ℤ) : String :=
  if count ≤ 0 then "0"
  else match counterBuckets.find? fun b => count ≤ b.2 with
    | some b => b.1
    | none => "17+"

def allOnes : ℤ := 0xFFFFFFFF

def highBit : ℤ := 0x80000000

/-- The class of a word. -/
def valueClass (value : ℤ) : String :=
  if value = allOnes then "all-ones"
  else if value = 0 then "zero"
  else if value = 1 then "one"
  else if 0 ≤ value ∧ value < 256 then "small"
  else if highBit ≤ value then "high"
  else "other"

def capped (number limit : ℤ) : ℤ := max 0 (min limit number)

/-- A digest over words of 32 bits, the lowest byte of a word first. -/
def fnv1a32 (words : List ℤ) : ℕ :=
  words.foldl (fun digest word =>
    let word := (word % 2 ^ 32).toNat
    [0, 8, 16, 24].foldl (fun digest shift =>
      ((digest ^^^ (word / 2 ^ shift % 256)) * 0x01000193) % 2 ^ 32) digest)
    0x811C9DC5

/-- The feature of a fact, when it was observed. -/
def fact (flow name : String) (value : Option Part) : List Feature :=
  value.toList.map fun part => [.str flow, .str name, part]

/-- A fact told by its exact value. -/
def exactly (value : Option ℤ) : Option Part := value.map .int

/-- A fact told by the class of a word. -/
def classOf (value : Option ℤ) : Option Part := value.map fun v => .str (valueClass v)

/-- A fact told by the bucket of a counter. -/
def bucketOf (value : Option ℤ) : Option Part := value.map fun v => .str (bucket v)

/-- One of two words, by a test of two integers that were both observed. -/
def either (test : ℤ → ℤ → Bool) (yes no : String) (a b : Option ℤ) : Option Part :=
  match a, b with
  | some a, some b => some (.str (if test a b then yes else no))
  | _, _ => none

/-- A text that says something. -/
def known (text : Option String) : Option Part :=
  match text with
  | some s => if s ≠ "" ∧ s ≠ "unknown" then some (.str s) else none
  | none => none

def f1Features (case : Case) : List Feature :=
  ([("prog_words", "words"), ("prog_retires", "retires"), ("prog_pc_ordered", "pc_ordered"),
    ("prog_insns_match", "insns_match"), ("prog_rd_mask", "rd_mask"), ("prog_last_rd", "last_rd"),
    ("prog_traps", "traps"), ("data_changed", "data_changed")].flatMap fun e =>
      fact "F1" e.2 (exactly (asInt case e.1))) ++
  fact "F1" "last_wdata_class" (classOf (asInt case "prog_last_wdata")) ++
  match asInt case "data_changed" with
  | some changed => if changed ≠ 0 then fact "F1" "data_hash" (exactly (asInt case "data_hash_after")) else []
  | none => []

def f2Features (case : Case) : List Feature :=
  fact "F2" "read_from" (known (asStr case "read_from")) ++
  fact "F2" "read_addr" (exactly (asInt case "read_addr")) ++
  fact "F2" "target_reads" (bucketOf (firstInt case ["target_reads", "apb_reads"])) ++
  fact "F2" "value_class" (classOf (asInt case "read_value")) ++
  fact "F2" "echo" (either (fun read echo => echo = read) "committed" "lost" (asInt case "read_value")
    (asInt case "echo_value")) ++
  match asStr case "pin_stimulus" with
  | some stimulus => if stimulus ∈ ["applied", "declared_default"] then fact "F2" "pin_stimulus"
      (some (.str stimulus)) else []
  | none => []

def f3Features (case : Case) : List Feature :=
  fact "F3" "write_addr" (exactly (asInt case "write_addr")) ++
  fact "F3" "value_class" (classOf (asInt case "write_value")) ++
  fact "F3" "ram_committed" (either (fun write ram => ram = write) "yes" "no" (asInt case "write_value")
    (asInt case "ram_after")) ++
  fact "F3" "be" (exactly (asInt case "write_be"))

def f4Features (case : Case) : List Feature :=
  fact "F4" "target_offset" (exactly (firstInt case ["target_offset", "apb_offset"])) ++
  fact "F4" "value_class" (classOf (asInt case "mmio_value")) ++
  fact "F4" "target_writes" (bucketOf (firstInt case ["target_writes", "apb_writes"])) ++
  fact "F4" "target_resp" (exactly (asInt case "target_resp")) ++
  ["out_after", "dir_after"].flatMap fun key => fact "F4" key (exactly (asInt case key))

def f5Features (case : Case) : List Feature :=
  fact "F5" "irq_edges" (exactly ((asInt case "irq_edges").map (capped · 3))) ++
  fact "F5" "irq_takes" (exactly ((asInt case "irq_takes").map (capped · 2))) ++
  fact "F5" "status_class" (classOf (firstInt case ["apb_read_data", "target_read_data"])) ++
  fact "F5" "isr_kind" (known (asStr case "isr_read_register_kind")) ++
  fact "F5" "cause_enabled" (either (fun cause inten => Int.land cause inten ≠ 0) "yes" "no"
    (asInt case "irq_cause_pins") (asInt case "inten_at_irq"))

def f6Features (case : Case) : List Feature :=
  fact "F6" "dma_reads" (bucketOf (asInt case "dma_reads")) ++
  fact "F6" "dma_writes" (bucketOf (asInt case "dma_writes")) ++
  fact "F6" "status_class" (classOf (asInt case "ctl_status")) ++
  fact "F6" "busy_after" (exactly (asInt case "busy_after")) ++
  fact "F6" "err_after" (exactly (asInt case "err_after")) ++
  fact "F6" "irq_takes" (exactly ((asInt case "irq_takes").map (capped · 2))) ++
  fact "F6" "dst_hash" ((["dst0", "dst1", "dst2", "dst3"].mapM (asInt case)).map fun words =>
    .int (fnv1a32 words))

def flowFeatures : Flow → Case → List Feature
  | .f1 => f1Features
  | .f2 => f2Features
  | .f3 => f3Features
  | .f4 => f4Features
  | .f5 => f5Features
  | .f6 => f6Features

/-- **Every feature an observation supports**, each once and in order. -/
def extract (case : Case) (flow : Flow) (failed : Bool) : List Feature :=
  let status : List Feature := if failed then [[.str "status", .str flow.text, .str "failed"]] else []
  let counts := counterKeys.flatMap fun key => fact "count" key (bucketOf (asInt case key))
  sortOn featureOrder (firsts (status ++ counts ++ flowFeatures flow case))

/-! ## The state -/

/-- The feedback of one observation. -/
structure CaseFeedback where
  index : ℤ
  flow : Flow
  status : String
  features : List Feature
  new : List Feature
  failed : Bool
  deriving DecidableEq

/-- **The bounded set of features** that a session has discovered. -/
structure FeedbackState where
  discovered : Finset Feature
  maxFeatures : ℕ
  observed : ℕ
  truncated : Bool
  positive : 1 ≤ maxFeatures

namespace FeedbackState

def make (maxFeatures : ℤ) : Except Exn FeedbackState :=
  if h : 1 ≤ maxFeatures then .ok ⟨∅, maxFeatures.toNat, 0, false, by omega⟩
  else .error (.valueError "max_features must be a positive integer")

/-- The flow of an observation. -/
def flowOf (case : Case) : Except Exn Flow :=
  match case.get? "flow" with
  | none => .error (.valueError "feedback observation lacks a flow tag")
  | some .none => .error (.valueError "feedback observation lacks a flow tag")
  | some value =>
    match Flow.all.find? fun flow => value = .str flow.text with
    | some flow => .ok flow
    | none => .error (.valueError ("unsupported feedback flow: " ++ value.text))

/-- The status of an observation. -/
def statusOf (case : Case) : String := (asStr case "status").getD "unknown"

/-- The features of an observation that has a flow. -/
def featuresOf (case : Case) (flow : Flow) : List Feature := extract case flow (statusOf case = "failed")

/-- **Record one observation** and report its new features. -/
def observe (state : FeedbackState) (case : Case) : Except Exn (CaseFeedback × FeedbackState) := do
  let flow ← flowOf case
  let status := statusOf case
  let failed : Bool := status = "failed"
  let index := (asInt case "index").getD (-1)
  let features := extract case flow failed
  let observed := state.observed + features.length
  let candidates := features.filter fun feature => feature ∉ state.discovered
  let room : ℤ := state.maxFeatures - state.discovered.card
  if room ≤ 0 then
    return (⟨index, flow, status, features, [], failed⟩,
      { state with observed := observed, truncated := true })
  else
    let new := candidates.take room.toNat
    return (⟨index, flow, status, features, new, failed⟩, { state with
        discovered := state.discovered ∪ new.toFinset
        observed := observed
        truncated := if room < candidates.length then true else state.truncated })

end FeedbackState

end Feedback

end MyFuzz
