import MyFuzz.Foundations.Dict
import MyFuzz.Foundations.Draw
import MyFuzz.Foundations.Ordered
import Mathlib.Data.Prod.Lex
import Mathlib.Data.String.Basic

/-!
# Fuzz/Corpus — the bounded queue of records

The corpus keeps each record once, under its flow and its text, with how often it was picked and how
many features it discovered.  A full corpus gives up one entry before it stores another:

    add      ──▸ the entry that holds the record already
             ──▸ the entry with the most picks, and of these the fewest discoveries, goes; the new
             one is stored
    choose   ──▸ one of the entries that are picked no more often than the quarter picked least

The keys and the limit are fields, so every stored entry stands under its own key.
-/

namespace MyFuzz

open Ordered

/-- One record that was run, with its counts. -/
structure CorpusEntry where
  flow : String
  fields : List ℤ
  recordText : String
  origin : String
  parent : Option String
  picks : ℕ
  discoveries : ℕ
  deriving DecidableEq

namespace CorpusEntry

def origins : List String := ["seed", "fresh", "mutation"]

def key (entry : CorpusEntry) : String × String := (entry.flow, entry.recordText)

/-- What is checked of an entry before it is stored. -/
structure Valid (entry : CorpusEntry) : Prop where
  flow : entry.flow ≠ ""
  recordText : entry.recordText ≠ ""
  origin : entry.origin ∈ origins

/-- Highest picks first, then fewest discoveries, then the name. -/
def evictionOrder (entry : CorpusEntry) : ℤ ×ₗ ℕ ×ₗ String ×ₗ String :=
  toLex (-(entry.picks : ℤ), toLex (entry.discoveries, toLex entry.key))

def entryOrder (entry : CorpusEntry) : String ×ₗ String := toLex entry.key

def choiceOrder (entry : CorpusEntry) : ℕ ×ₗ String ×ₗ String := toLex (entry.picks, entry.entryOrder)

end CorpusEntry

/-- **A bounded set of records.** -/
structure Corpus where
  maxEntries : ℕ
  entries : Dict (String × String) CorpusEntry
  evicted : ℕ
  limit : 1 ≤ maxEntries ∧ maxEntries ≤ 4096
  keyed : ∀ e ∈ entries.entries, e.1 = e.2.key
  valid : ∀ e ∈ entries.entries, e.2.Valid

namespace Corpus

def schema : String := "inprocess_fuzz_corpus.v1"

def limitMessage : String := "corpus max_entries must be an integer in 1..4096"

/-- An empty corpus. -/
def make (maxEntries : ℤ) : Except Exn Corpus :=
  if h : 1 ≤ maxEntries ∧ maxEntries ≤ 4096 then
    .ok ⟨maxEntries.toNat, .empty, 0, by omega, nofun, nofun⟩
  else .error (.valueError limitMessage)

/-- The entries as they are stored. -/
def values (corpus : Corpus) : List CorpusEntry := corpus.entries.entries.map Prod.snd

/-- Every entry, ordered by flow and text. -/
def ordered (corpus : Corpus) : List CorpusEntry := sortOn CorpusEntry.entryOrder corpus.values

/-! ## Storing -/

/-- Store an entry under its key. -/
def store (corpus : Corpus) (entry : CorpusEntry) (h : entry.Valid) : Corpus where
  maxEntries := corpus.maxEntries
  entries := corpus.entries.set entry.key entry
  evicted := corpus.evicted
  limit := corpus.limit
  keyed e he := by
    rcases Dict.mem_entries_set he with rfl | he
    · rfl
    · exact corpus.keyed e he
  valid e he := by
    rcases Dict.mem_entries_set he with rfl | he
    · exact h
    · exact corpus.valid e he

/-- The entry to give up. -/
def victim (corpus : Corpus) : Option CorpusEntry := least CorpusEntry.evictionOrder corpus.values

/-- Give up one entry. -/
def evictOne (corpus : Corpus) : Corpus :=
  match corpus.victim with
  | none => corpus
  | some victim =>
    { corpus with
      entries := corpus.entries.erase victim.key
      evicted := corpus.evicted + 1
      keyed := fun e he => corpus.keyed e (List.mem_of_mem_filter he)
      valid := fun e he => corpus.valid e (List.mem_of_mem_filter he) }

/-- Store a new entry, after giving up another one when there is no room. -/
def insert (corpus : Corpus) (entry : CorpusEntry) (h : entry.Valid) : Corpus :=
  (if corpus.maxEntries ≤ corpus.entries.length then corpus.evictOne else corpus).store entry h

/-! ## Calls -/

/-- **Add a record**, or return the entry that holds it. -/
def add (corpus : Corpus) (flow : String) (fields : List ℤ) (recordText : String) (parent : Option String)
    (origin : String) : Except Exn (CorpusEntry × Corpus) :=
  if hflow : flow ≠ "" then
    if htext : recordText ≠ "" then
      if horigin : origin ∈ CorpusEntry.origins then
        match corpus.entries.get? (flow, recordText) with
        | some existing => .ok (existing, corpus)
        | none =>
          let entry : CorpusEntry := ⟨flow, fields, recordText, origin, parent, 0, 0⟩
          .ok (entry, corpus.insert entry ⟨hflow, htext, horigin⟩)
      else .error (.valueError "unsupported corpus origin: ")
    else .error (.valueError "corpus record_text must be a non-empty string: ''")
  else .error (.valueError "corpus flow must be a non-empty string: ''")

/-- Add a record that the caller declares. -/
def seed (corpus : Corpus) (flow : String) (fields : List ℤ) (recordText : String) :
    Except Exn (CorpusEntry × Corpus) :=
  corpus.add flow fields recordText none "seed"

/-- The entries that may be chosen, in order. -/
def candidates (corpus : Corpus) : List CorpusEntry :=
  let ordered := sortOn CorpusEntry.choiceOrder corpus.values
  match ordered[(ordered.length - 1) / 4]? with
  | none => []
  | some boundary => ordered.filter fun entry => entry.picks ≤ boundary.picks

/-- **Draw one entry** from the quarter that is picked least. -/
def choose (corpus : Corpus) : Draw (Option CorpusEntry) :=
  if corpus.entries.length = 0 then return none
  else do
    let candidates := corpus.candidates
    let i ← Draw.randrange 0 candidates.length
    match candidates[i.toNat]? with
    | some entry => return some entry
    | none => Draw.raise (.other "IndexError")

/-- The stored entry of this name. -/
def stored (corpus : Corpus) (entry : CorpusEntry) : Except Exn { stored : CorpusEntry // stored.Valid } :=
  match h : corpus.entries.get? entry.key with
  | some stored => .ok ⟨stored, corpus.valid _ (Dict.mem_entries_iff.mpr h)⟩
  | none => .error (.valueError ("corpus entry is not in this corpus: " ++ entry.flow ++ " " ++
      entry.recordText))

/-- Add to the counts of a stored entry. -/
def count (corpus : Corpus) (entry : CorpusEntry) (picks discoveries : ℕ) : Except Exn Corpus := do
  let ⟨stored, h⟩ ← corpus.stored entry
  return corpus.store { stored with picks := stored.picks + picks, discoveries :=
    stored.discoveries + discoveries }
    ⟨h.flow, h.recordText, h.origin⟩

def markPicked (corpus : Corpus) (entry : CorpusEntry) : Except Exn Corpus := corpus.count entry 1 0

def noteDiscovery (corpus : Corpus) (entry : CorpusEntry) : Except Exn Corpus := corpus.count entry 0 1

end Corpus

end MyFuzz
