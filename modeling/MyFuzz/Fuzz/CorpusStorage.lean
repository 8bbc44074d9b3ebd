import MyFuzz.Foundations.Json
import MyFuzz.Fuzz.Corpus

/-!
# Fuzz/CorpusStorage — a corpus as a document

`save` writes the entries in the order of their names, with the number of entries of each flow and
the number that were
given up.  `load` reads a document field by field and stores the entries again, in the order they are written:

    corpus ──document──▸ tree ──dumps──▸ text ──loads──▸ tree ──load──▸ corpus

What is read back has the entries and counts of what was saved, in an order of its own (`load_save`).
-/

namespace MyFuzz

open Outcome Ordered Value Dict CorpusEntry

namespace Corpus

open List hiding lookup length_set

/-- A document over the scalars of a corpus. -/
abbrev Tree := Value JsonScalar

/-! ## Documents -/

/-- An integer. -/
def int (i : ℤ) : Tree := .scalar (.int i)

/-- A text that may be absent. -/
def textOrNull : Option String → Tree
  | none => .scalar .null
  | some s => .str s

/-- The document of an entry. -/
def entryDocument (entry : CorpusEntry) : List (String × Tree) :=
  [("flow", .str entry.flow), ("fields", .list (entry.fields.map int)),
    ("record_text", .str entry.recordText),
   ("origin", .str entry.origin), ("parent", textOrNull entry.parent), ("picks", int entry.picks),
   ("discoveries", int entry.discoveries)]

/-- How many entries each flow has. -/
def byFlow (entries : List CorpusEntry) : Dict String ℕ :=
  entries.foldl (fun counts entry => counts.set entry.flow (counts.getD entry.flow 0 + 1)) .empty

/-- The document of a corpus. -/
def document (corpus : Corpus) : List (String × Tree) :=
  [("schema_version", .str schema),
    ("entries", .list (corpus.ordered.map fun entry => .dict (entryDocument entry))),
   ("by_flow", .dict ((byFlow corpus.ordered).entries.map fun e => (e.1, int e.2))),
     ("evicted", int corpus.evicted)]

/-- Write a corpus. -/
def save (codec : JsonCodec JsonScalar) (corpus : Corpus) : List UInt8 := codec.dumps (.dict corpus.document)

/-! ## Reading -/

/-- Where a saved entry is. -/
def whereText (position : ℕ) : String := "malformed corpus entry at index " ++ toString position

/-- A field that holds a text which is not empty. -/
def nonEmptyText (row : List (String × Tree)) (name message : String) : Except Exn { s : String // s ≠ "" } :=
  match Dict.lookup name row with
  | some (.str s) => if h : s ≠ "" then .ok ⟨s, h⟩ else .error (.valueError message)
  | _ => .error (.valueError message)

/-- A field. -/
def integerOf (message : String) : Tree → Except Exn ℤ
  | .scalar (.int i) => .ok i
  | _ => .error (.valueError message)

/-- The integers of a row. -/
def integersOf (row : List (String × Tree)) (listMessage itemMessage : String) : Except Exn (List ℤ) :=
  match Dict.lookup "fields" row with
  | some (.list items) => items.mapM (integerOf itemMessage)
  | some (.tuple items) => items.mapM (integerOf itemMessage)
  | _ => .error (.valueError listMessage)

/-- The origin of a row. -/
def originOf (row : List (String × Tree)) (message : String) :
    Except Exn { s : String // s ∈ CorpusEntry.origins } :=
  match Dict.lookup "origin" row with
  | some (.str s) => if h : s ∈ CorpusEntry.origins then .ok ⟨s, h⟩ else .error (.valueError message)
  | _ => .error (.valueError message)

/-- The parent of a row. -/
def parentOf (row : List (String × Tree)) (message : String) : Except Exn (Option String) :=
  match Dict.lookup "parent" row with
  | none => .ok none
  | some (.scalar .null) => .ok none
  | some (.str s) => .ok (some s)
  | some _ => .error (.valueError message)

/-- A count, 0 when it is absent. -/
def countOf (entries : List (String × Tree)) (name message : String) : Except Exn ℕ :=
  match Dict.lookup name entries with
  | none => .ok 0
  | some (.scalar (.int (.ofNat n))) => .ok n
  | some _ => .error (.valueError message)

/-- One saved entry. -/
def loadEntry (position : ℕ) : Tree → Except Exn { entry : CorpusEntry // entry.Valid }
  | .dict row => do
    let place := whereText position
    let flow ← nonEmptyText row "flow" (place ++ ": flow must be a non-empty string")
    let recordText ← nonEmptyText row "record_text" (place ++ ": record_text must be a non-empty string")
    let fields ← integersOf row (place ++ ": fields must be a list of integers")
      (place ++ ": fields must be integers only")
    let origin ← originOf row (place ++ ": unsupported origin: ")
    let parent ← parentOf row (place ++ ": parent must be a string or null")
    let picks ← countOf row "picks" (place ++ ": picks must be a non-negative integer")
    let discoveries ← countOf row "discoveries" (place ++ ": discoveries must be a non-negative integer")
    return ⟨⟨flow.1, fields, recordText.1, origin.1, parent, picks, discoveries⟩, flow.2,
      recordText.2, origin.2⟩
  | _ => .error (.valueError (whereText position ++ ": expected a JSON object"))

/-- The saved entries from a position on, none of them under a name that was seen. -/
def loadRows (position : ℕ) (seen : List (String × String)) :
    List Tree → Except Exn (List { entry : CorpusEntry // entry.Valid })
  | [] => .ok []
  | row :: rows => do
    let entry ← loadEntry position row
    ensure (entry.1.key ∉ seen)
      (.valueError (whereText position ++ ": duplicate entry for " ++ entry.1.flow ++ " " ++
      entry.1.recordText))
    let loaded ← loadRows (position + 1) (seen ++ [entry.1.key]) rows
    return entry :: loaded

/-- The version of a document is the one that is written. -/
def checkVersion (payload : List (String × Tree)) : Except Exn Unit :=
  match Dict.lookup "schema_version" payload with
  | some (.str version) => ensure (version = schema) (.valueError "unsupported corpus schema version: ")
  | _ => .error (.valueError "unsupported corpus schema version: ")

/-- The rows of a document. -/
def rowsOf (payload : List (String × Tree)) : Except Exn (List Tree) :=
  match Dict.lookup "entries" payload with
  | some (.list rows) => .ok rows
  | _ => .error (.valueError "malformed corpus document: entries must be a list")

/-- Store some entries, one after the other. -/
def insertAll (corpus : Corpus) (entries : List { entry : CorpusEntry // entry.Valid }) : Corpus :=
  entries.foldl (fun corpus entry => corpus.insert entry.1 entry.2) corpus

/-- **Read a corpus.** -/
def load (codec : JsonCodec JsonScalar) (text : List UInt8) (maxEntries : ℤ) : Except Exn Corpus := do
  let corpus ← make maxEntries
  match codec.loads text with
  | none => .error (.valueError "malformed corpus document: not JSON: ")
  | some (.dict payload) => do
    checkVersion payload
    let rows ← rowsOf payload
    let evicted ← countOf payload "evicted"
      "malformed corpus document: evicted must be a non-negative integer"
    let loaded ← loadRows 0 [] rows
    let corpus := corpus.insertAll loaded
    return { corpus with evicted := corpus.evicted + evicted }
  | some _ => .error (.valueError "malformed corpus document: expected a JSON object")

/-! ## Round trips -/

theorem canonical_textOrNull (s : Option String) : (textOrNull s).canonical = textOrNull s := by
  cases s <;> rfl

theorem canonical_ints (fields : List ℤ) : canonical (.list (fields.map int)) = .list (fields.map int) := by
  rw [canonical_list, map_map]
  rfl

theorem wellFormed_entryDocument (entry : CorpusEntry) : (dict (entryDocument entry)).WellFormed := by
  refine ⟨(by decide : ["flow", "fields", "record_text", "origin", "parent", "picks", "discoveries"].Nodup),
    trivial, ?_, trivial, trivial, ?_, trivial, trivial, trivial⟩
  · refine wellFormedItems_iff.2 fun v hv => ?_
    obtain ⟨i, -, rfl⟩ := mem_map.1 hv
    trivial
  · cases entry.parent <;> trivial

/-- **An entry is read back.** -/
theorem loadEntry_document (position : ℕ) (entry : CorpusEntry) (h : entry.Valid) :
    loadEntry position (canonical (.dict (entryDocument entry))) = .ok ⟨entry, h⟩ := by
  have hn : ((entryDocument entry).map Prod.fst).Nodup := (wellFormed_entryDocument entry).1
  have hlookup : ∀ k v, lookup k (entryDocument entry) = some v →
      lookup k (canonicalDict (entryDocument entry)) = some v.canonical := fun k v hv => by
    rw [lookup_canonicalDict hn, hv]
    rfl
  have hflow := hlookup "flow" _ rfl
  have htext := hlookup "record_text" _ rfl
  have hfields := hlookup "fields" _ rfl
  have horigin := hlookup "origin" _ rfl
  have hparent := hlookup "parent" _ rfl
  have hpicks := hlookup "picks" _ rfl
  have hdiscoveries := hlookup "discoveries" _ rfl
  rw [canonical_ints] at hfields
  rw [canonical_textOrNull] at hparent
  have hints : (entry.fields.map int).mapM
    (integerOf (whereText position ++ ": fields must be integers only")) =
      .ok entry.fields := by
    rw [mapM_map_of_ok fun i _ => show integerOf _ (int i) = .ok (id i) from rfl, map_id]
  have hread : parentOf (canonicalDict (entryDocument entry)) (whereText position ++
      ": parent must be a string or null") = .ok entry.parent := by
    unfold parentOf
    rw [hparent]
    cases entry.parent <;> rfl
  rw [canonical_dict]
  simp only [loadEntry, nonEmptyText, integersOf, originOf, countOf, hflow, htext, hfields, horigin, hpicks,
    hdiscoveries, hread, hints, canonical, int, dif_pos h.flow, dif_pos h.recordText,
      dif_pos h.origin, ok_bind]
  rfl

/-- **Entries with names of their own are read back.** -/
theorem loadRows_documents : ∀ (entries : List CorpusEntry) (position : ℕ) (seen : List (String × String)),
    (∀ entry ∈ entries, entry.Valid) → (entries.map key).Nodup →
      (∀ entry ∈ entries, entry.key ∉ seen) → ∃ loaded, loadRows position seen
        (entries.map fun entry => canonical (.dict (entryDocument entry))) = .ok loaded ∧
          loaded.map Subtype.val = entries
  | [], _, _, _, _, _ => ⟨[], rfl, rfl⟩
  | entry :: entries, position, seen, hvalid, hnodup, hseen => by
      obtain ⟨hentry, hentries⟩ := forall_mem_cons.1 hvalid
      obtain ⟨hnew, hrest⟩ := forall_mem_cons.1 hseen
      rw [map_cons, nodup_cons] at hnodup
      obtain ⟨loaded, hloaded, hmap⟩ :=
        loadRows_documents entries (position + 1) (seen ++ [entry.key]) hentries hnodup.2
        fun e he hmem => by
          rcases mem_append.1 hmem with hmem | hmem
          · exact hrest e he hmem
          · exact hnodup.1 (mem_singleton.1 hmem ▸ mem_map_of_mem he)
      refine ⟨⟨entry, hentry⟩ :: loaded, ?_, by rw [map_cons, hmap]⟩
      rw [map_cons, loadRows, loadEntry_document position entry hentry, ok_bind, ensure_of hnew,
        ok_bind, hloaded]
      rfl

/-! ## Loading -/

variable {entry : CorpusEntry}

theorem get?_insert_of_room (corpus : Corpus) (h : entry.Valid)
    (hroom : corpus.entries.length < corpus.maxEntries) :
    corpus.insert entry h = corpus.store entry h := by
  rw [insert, if_neg (not_le.2 hroom)]

/-- **Entries for which there is room are all stored**, and none is given up. -/
theorem insertAll_of_room : ∀ (entries : List { entry : CorpusEntry // entry.Valid }) (corpus : Corpus),
    corpus.entries.length + entries.length ≤ corpus.maxEntries →
      (corpus.insertAll entries).maxEntries = corpus.maxEntries ∧
        (corpus.insertAll entries).evicted = corpus.evicted ∧
        (corpus.insertAll entries).entries = corpus.entries.update (entries.map fun e => (e.1.key, e.1))
  | [], _, _ => ⟨rfl, rfl, rfl⟩
  | entry :: entries, corpus, hroom => by
      rw [List.length_cons] at hroom
      have hstep := get?_insert_of_room corpus entry.2 (by omega)
      have hlength : (corpus.store entry.1 entry.2).entries.length ≤ corpus.entries.length + 1 := by
        rw [store, length_set]
        split_ifs <;> omega
      have ih := insertAll_of_room entries (corpus.store entry.1 entry.2) (by
        have hsame : (corpus.store entry.1 entry.2).maxEntries = corpus.maxEntries := rfl
        omega)
      rw [insertAll, List.foldl_cons, hstep, List.map_cons, update_cons]
      exact ih

section

variable (corpus : Corpus)

theorem values_valid (h : entry ∈ corpus.values) : entry.Valid := by
  obtain ⟨e, he, rfl⟩ := mem_map.1 h
  exact corpus.valid e he

theorem map_key_values : corpus.values.map key = corpus.entries.keys := by
  rw [values, map_map]
  exact map_congr_left fun e he => (corpus.keyed e he).symm

/-- **The names of the entries are distinct.** -/
theorem nodup_keys : (corpus.values.map key).Nodup := by
  rw [map_key_values]
  exact corpus.entries.nodup

theorem mem_values_iff :
    entry ∈ corpus.values ↔ corpus.entries.get? entry.key = some entry := by
  rw [← mem_entries_iff, values, mem_map]
  constructor
  · rintro ⟨⟨k, e⟩, he, rfl⟩
    have hkey : k = e.key := corpus.keyed _ he
    exact hkey ▸ he
  · exact fun h => ⟨_, h, rfl⟩

theorem length_values : corpus.values.length = corpus.entries.length := length_map _

theorem perm_ordered : corpus.ordered.Perm corpus.values := perm_sortOn _ _

end

theorem keyed_empty : ∀ e ∈ (empty : Dict (String × String) CorpusEntry).entries, e.1 = e.2.key :=
  forall_mem_nil _

theorem valid_empty : ∀ e ∈ (empty : Dict (String × String) CorpusEntry).entries, e.2.Valid :=
  forall_mem_nil _

/-- **What was saved is loaded**: with room for the entries, each is found as it was, and so is the
number given up. -/
theorem load_save (codec : JsonCodec JsonScalar) (corpus : Corpus) {maxEntries : ℤ}
    (hlimit : 1 ≤ maxEntries ∧ maxEntries ≤ 4096) (hroom : (corpus.entries.length : ℤ) ≤ maxEntries) :
    ∃ loaded, load codec (corpus.save codec) maxEntries = .ok loaded ∧ loaded.maxEntries = maxEntries.toNat ∧
      loaded.evicted = corpus.evicted ∧ ∀ k, loaded.entries.get? k = corpus.entries.get? k := by
  have hperm := corpus.perm_ordered
  have hkeys : (corpus.ordered.map key).Nodup := (hperm.map _).nodup_iff.2 corpus.nodup_keys
  have hdocument : (dict corpus.document).WellFormed := by
    refine ⟨(by decide : ["schema_version", "entries", "by_flow", "evicted"].Nodup), trivial, ?_,
      ?_, trivial, trivial⟩
    · refine wellFormedItems_iff.2 fun v hv => ?_
      obtain ⟨entry, -, rfl⟩ := mem_map.1 hv
      exact wellFormed_entryDocument entry
    · refine ⟨?_, wellFormedEntries_iff.2 fun e he => ?_⟩
      · rw [map_map]
        exact (byFlow corpus.ordered).nodup
      · obtain ⟨count, -, rfl⟩ := mem_map.1 he
        trivial
  have hlookup : ∀ k v, lookup k corpus.document = some v →
      lookup k (canonicalDict corpus.document) = some v.canonical := fun k v hv => by
    rw [lookup_canonicalDict hdocument.1, hv]
    rfl
  obtain ⟨loaded, hloaded, hvals⟩ := loadRows_documents corpus.ordered 0 []
    (fun e he => corpus.values_valid (hperm.mem_iff.1 he)) hkeys fun _ _ => not_mem_nil
  have hversion : checkVersion (canonicalDict corpus.document) = .ok () := by
    rw [checkVersion, hlookup "schema_version" _ rfl]
    exact ensure_of rfl _
  have hrows : rowsOf (canonicalDict corpus.document) =
      .ok (corpus.ordered.map fun entry => canonical (.dict (entryDocument entry))) := by
    rw [rowsOf, hlookup "entries" _ rfl, canonical_list, map_map]
    rfl
  have hevicted : countOf (canonicalDict corpus.document) "evicted"
      "malformed corpus document: evicted must be a non-negative integer" = .ok corpus.evicted := by
    rw [countOf, hlookup "evicted" _ rfl]
    rfl
  have hcount : loaded.length = corpus.entries.length := by
    rw [← corpus.length_values, ← hperm.length_eq, ← hvals, length_map]
  obtain ⟨hmax, hgone, hentries⟩ := insertAll_of_room loaded ⟨maxEntries.toNat, .empty, 0, by omega,
    keyed_empty, valid_empty⟩ (by
      rw [hcount]
      change 0 + corpus.entries.length ≤ maxEntries.toNat
      omega)
  let empty : Corpus := ⟨maxEntries.toNat, .empty, 0, by omega, keyed_empty, valid_empty⟩
  refine ⟨{ empty.insertAll loaded with evicted :=
    (empty.insertAll loaded).evicted + corpus.evicted }, ?_, hmax, ?_,
    fun k => ?_⟩
  · rw [load, make, dif_pos hlimit, ok_bind, save, codec.loads_dumps _ hdocument, canonical_dict]
    dsimp only
    rw [hversion, ok_bind, hrows, ok_bind, hevicted, ok_bind, hloaded, ok_bind]
    rfl
  · rw [hgone]
    exact Nat.zero_add _
  · have hpairs : (loaded.map fun e => (e.1.key, e.1)) = corpus.ordered.map fun e => (e.key, e) := by
      rw [← hvals, map_map]
      rfl
    have hnames : ((corpus.ordered.map fun e => (e.key, e)).map Prod.fst).Nodup := by
      rw [map_map]
      exact hkeys
    rw [hentries, hpairs, get?_update_empty hnames]
    refine Option.ext fun entry => ?_
    constructor
    · intro h
      obtain ⟨e, he, heq⟩ := mem_map.1 (mem_of_lookup_eq_some h)
      cases heq
      exact corpus.mem_values_iff.1 (hperm.mem_iff.1 he)
    · intro h
      have hkey : k = entry.key := corpus.keyed _ (mem_entries_iff.2 h)
      subst hkey
      exact lookup_eq_some_of_mem hnames (mem_map.2 ⟨entry, hperm.mem_iff.2 (corpus.mem_values_iff.2 h), rfl⟩)

end Corpus

end MyFuzz
