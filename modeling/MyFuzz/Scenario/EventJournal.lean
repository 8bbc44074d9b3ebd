import MyFuzz.Foundations.Dict
import MyFuzz.Foundations.Effect
import MyFuzz.Foundations.Run
import MyFuzz.Foundations.Sequence

/-!
# Scenario/EventJournal — chunked event storage and its snapshots

`EventJournal` keeps a chunk under construction in memory and moves it to a file when it is full:

    append ──▸ _current ──full──▸ file  [chunk 0][chunk 1] … [chunk k-1]
                                           └─ read back through a bounded cache

An `EventJournalSnapshot` is a count: it reads the journal's first events through the journal
itself, by index, by slice or by iteration.  An iteration is a generator, so the journal may change
between two of the items it yields.  Events are values here: a snapshot detaches each event it
returns.
-/

namespace MyFuzz

open Sequence

/-- What a journal is constructed with. -/
structure JournalConfig where
  chunkSize : ℕ
  chunkCacheSize : ℕ
  chunkSize_pos : 0 < chunkSize
  chunkCacheSize_pos : 0 < chunkCacheSize

/-- The state of a journal; `file` holds the pickled chunks in the order of their offsets. -/
structure EventJournal (ε : Type) where
  file : List (List ε)
  current : List ε
  cache : Dict ℕ (List ε)
  chunkLoads : ℕ
  count : ℕ

namespace EventJournal

variable {ε : Type} (cfg : JournalConfig)

/-- A new journal. -/
def init : EventJournal ε where
  file := []
  current := []
  cache := .empty
  chunkLoads := 0
  count := 0

/-- Move a full chunk to the file. -/
def flush (s : EventJournal ε) : EventJournal ε :=
  if s.current.length = cfg.chunkSize then { s with file := s.file ++ [s.current], current := [] }
  else s

/-- Append an event. -/
def append (s : EventJournal ε) (event : ε) : EventJournal ε :=
  { s with current := s.current ++ [event], count := s.count + 1 }.flush cfg

/-- Keep a chunk that was read, and forget the least recently used one when there are too many. -/
def remember (s : EventJournal ε) (number : ℕ) (chunk : List ε) : EventJournal ε :=
  { s with
    chunkLoads := s.chunkLoads + 1
    cache := if cfg.chunkCacheSize < (s.cache.set number chunk).length
      then (s.cache.set number chunk).popFirst else s.cache.set number chunk }

/-- The chunk with a number: the current one, a remembered one, or one read from the file. -/
def chunk (number : ℕ) : Effect (EventJournal ε) (List ε) := fun s =>
  if number = s.file.length then (.ok s.current, s)
  else match s.cache.get? number with
    | some chunk => (.ok chunk, { s with cache := s.cache.moveToEnd number })
    | none =>
        match s.file[number]? with
        | some chunk => (.ok chunk, s.remember cfg number chunk)
        | none => (.error (indexError "list index out of range"), s)

/-- The event at an integer index. -/
def getitem (index : ℤ) : Effect (EventJournal ε) ε := do
  let s ← Effect.get
  let place ← Effect.lift (position "event index out of range" s.count index)
  let chunk ← chunk cfg (place / cfg.chunkSize)
  match chunk[place % cfg.chunkSize]? with
  | some event => pure event
  | none => Effect.lift (.error (indexError "list index out of range"))

/-- The list object that was current when the file held `number` chunks: later appends extend it,
and once it is full it is the chunk that was pickled. -/
def listObject (s : EventJournal ε) (number : ℕ) : List ε :=
  if number = s.file.length then s.current else s.file[number]?.getD []

end EventJournal

/-- Where an iteration over a journal stands. -/
inductive JournalIter (ε : Type) where
  /-- Nothing was asked for yet. -/
  | start
  /-- Yielding the rest of a chunk, with `left` more to come from chunk `next` on. -/
  | chunks (left next : ℕ) (rest : List ε)
  /-- Yielding the list that was the current chunk when the tail was reached. -/
  | tail (number position : ℕ)
  | done
  deriving DecidableEq

namespace JournalIter

variable {ε : Type} (cfg : JournalConfig)

/-- The next event of a list object; a list iterator looks at the list's length when it is asked. -/
def nextOfTail (number position : ℕ) : Effect (EventJournal ε) (Option ε × JournalIter ε) := fun s =>
  match (s.listObject number)[position]? with
  | some event => (.ok (some event, tail number (position + 1)), s)
  | none => (.ok (none, done), s)

/-- The first event of the next chunks, or of the chunk that is current once they are all read. -/
def nextChunk : ℕ → ℕ → Effect (EventJournal ε) (Option ε × JournalIter ε)
  | 0, _ => do
      let s ← Effect.get
      nextOfTail s.file.length 0
  | left + 1, next => do
      let chunk ← EventJournal.chunk cfg next
      match chunk with
      | event :: rest => pure (some event, chunks left (next + 1) rest)
      | [] => nextChunk left (next + 1)

/-- Resume an iteration over a journal. -/
def next : JournalIter ε → Effect (EventJournal ε) (Option ε × JournalIter ε)
  | start => do
      let s ← Effect.get
      nextChunk cfg s.file.length 0
  | chunks left next (event :: rest) => pure (some event, chunks left next rest)
  | chunks left next [] => nextChunk cfg left next
  | tail number position => nextOfTail number position
  | done => pure (none, done)

end JournalIter

/-- A snapshot: how many events the journal held. -/
structure EventJournalSnapshot where
  count : ℕ
  deriving DecidableEq

namespace EventJournalSnapshot

variable {ε : Type} (cfg : JournalConfig)

/-- The event at an integer index. -/
def getitem (v : EventJournalSnapshot) (index : ℤ) : Effect (EventJournal ε) ε := do
  let place ← Effect.lift (position "event index out of range" v.count index)
  EventJournal.getitem cfg place

/-- The events at a list of positions. -/
def getitems : List ℤ → Effect (EventJournal ε) (List ε)
  | [] => pure []
  | position :: positions => do
      let event ← EventJournal.getitem cfg position
      let events ← getitems positions
      pure (event :: events)

/-- The events a slice selects. -/
def getslice (v : EventJournalSnapshot) (slice : Slice) : Effect (EventJournal ε) (List ε) := do
  let positions ← Effect.lift (slice.positions v.count)
  getitems cfg positions

end EventJournalSnapshot

/-- Where an iteration over a snapshot stands; `finished` once it broke off or came to the end. -/
structure SnapshotIter (ε : Type) where
  count : ℕ
  index : ℕ
  inner : JournalIter ε
  finished : Bool
  deriving DecidableEq

namespace SnapshotIter

variable {ε : Type} (cfg : JournalConfig)

/-- Resume an iteration over a snapshot. -/
def next (it : SnapshotIter ε) : Effect (EventJournal ε) (Option ε × SnapshotIter ε) :=
  if it.finished then pure (none, it)
  else do
    let (event, inner) ← it.inner.next cfg
    match event with
    | none => pure (none, { it with inner := inner, finished := true })
    | some event =>
        if it.count ≤ it.index then pure (none, { it with inner := inner, finished := true })
        else pure (some event, { it with index := it.index + 1, inner := inner })

end SnapshotIter

/-! ## Sessions -/

/-- A snapshot and the events the journal held when it was taken. -/
structure JournalView (ε : Type) where
  snapshot : EventJournalSnapshot
  taken : List ε

/-- An iteration over a view and what it yielded so far. -/
structure Reading (ε : Type) where
  view : JournalView ε
  iter : SnapshotIter ε
  yielded : List ε

/-- An iteration after it was resumed; one that raised is over. -/
def Reading.resume {ε : Type} (r : Reading ε) : Except Exn (Option ε × SnapshotIter ε) → Reading ε
  | .ok (event, iter) => { r with iter := iter, yielded := r.yielded ++ event.toList }
  | .error _ => { r with iter := { r.iter with finished := true } }

/-- A journal with the views taken of it and the iterations over them; `appended` is what was
appended so far. -/
structure JournalSession (ε : Type) where
  journal : EventJournal ε
  appended : List ε
  views : List (JournalView ε)
  readings : List (Reading ε)

/-- What may happen to a journal and its snapshots. -/
inductive JournalAction (ε : Type) where
  | append (event : ε)
  | snapshot
  | iterate (view : ℕ)
  | pull (reading : ℕ)
  | index (view : ℕ) (index : ℤ)
  | slice (view : ℕ) (slice : Slice)

namespace JournalSession

variable {ε : Type} (cfg : JournalConfig)

/-- A new journal, nothing taken of it. -/
def init : JournalSession ε := ⟨.init, [], [], []⟩

/-- Append an event. -/
def append (s : JournalSession ε) (event : ε) : JournalSession ε :=
  { s with journal := s.journal.append cfg event, appended := s.appended ++ [event] }

/-- Take a snapshot. -/
def snapshot (s : JournalSession ε) : JournalSession ε :=
  { s with views := s.views ++ [⟨⟨s.journal.count⟩, s.appended⟩] }

/-- Start an iteration over a view. -/
def iterate (s : JournalSession ε) (v : JournalView ε) : JournalSession ε :=
  { s with readings := s.readings ++ [⟨v, ⟨v.snapshot.count, 0, .start, false⟩, []⟩] }

/-- Resume the iteration with a number. -/
def pull (s : JournalSession ε) (i : ℕ) (r : Reading ε) : JournalSession ε :=
  { s with
    journal := (r.iter.next cfg s.journal).2
    readings := s.readings.set i (r.resume (r.iter.next cfg s.journal).1) }

/-- The session after an action; views and iterations are addressed by their number. -/
def step (s : JournalSession ε) : JournalAction ε → JournalSession ε
  | .append event => s.append cfg event
  | .snapshot => s.snapshot
  | .iterate view =>
      match s.views[view]? with
      | none => s
      | some v => s.iterate v
  | .pull reading =>
      match s.readings[reading]? with
      | none => s
      | some r => s.pull cfg reading r
  | .index view index =>
      match s.views[view]? with
      | none => s
      | some v => { s with journal := (v.snapshot.getitem cfg index s.journal).2 }
  | .slice view slice =>
      match s.views[view]? with
      | none => s
      | some v => { s with journal := (v.snapshot.getslice cfg slice s.journal).2 }

/-- An iteration that leaves the chunks it set out to read within its prefix finds that none was completed
since. -/
def NotOvertaken (s : JournalSession ε) (r : Reading ε) : Prop :=
  ∀ next, r.iter.inner = .chunks 0 next [] → r.iter.finished = false → r.iter.index < r.iter.count →
    next = s.journal.file.length

/-- No iteration is resumed after it was overtaken. -/
def guard (s : JournalSession ε) : JournalAction ε → Prop
  | .pull reading => ∀ r, s.readings[reading]? = some r → s.NotOvertaken r
  | _ => True

end JournalSession

end MyFuzz
