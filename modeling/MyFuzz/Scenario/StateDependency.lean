import Mathlib.Data.Int.Bitwise
import MyFuzz.Foundations.Local
import MyFuzz.Scenario.MemoryService

/-!
# Scenario/StateDependency — byte-version dependencies observed from memory events

A `StateDependencyTracker` follows the events of a memory.  For each byte of each generation it
keeps the writer and version it last saw, and who read that version; a write then depends on both.

    write w₁ ──RAW──▸ read r₁ ──WAR──▸ write w₂
        └────────────WAW────────────────▸┘

It never supplies values: a read whose snapshot disagrees with what it saw raises.  Each event is
ingested once, under its kind and the text of its transaction key.
-/

namespace MyFuzz

open Outcome Effect Dict

/-- The kinds of dependencies. -/
inductive EdgeKind where
  | raw
  | waw
  | war
  | persist
  | invalidate
  deriving DecidableEq

/-- A dependency of one event on another, through a version of a byte. -/
structure StateEdge where
  kind : EdgeKind
  source : String
  target : String
  memoryId : String
  generation : ℕ
  byteOffset : ℕ
  version : Option Version
  deriving DecidableEq

/-- A byte of a generation: memory, generation and offset. -/
abbrev StateKey : Type := String × ℕ × ℕ

/-- An edge at a byte. -/
def StateKey.edge (key : StateKey) (kind : EdgeKind) (source target : String)
    (version : Option Version) : StateEdge :=
  ⟨kind, source, target, key.1, key.2.1, key.2.2, version⟩

/-- The byte of an edge. -/
def StateEdge.key (e : StateEdge) : StateKey := (e.memoryId, e.generation, e.byteOffset)

/-- The kinds of events that are ingested. -/
inductive AccessKind where
  | memoryRead
  | memoryWrite
  deriving DecidableEq

/-- The tracker. -/
structure StateDependencyTracker where
  edges : List StateEdge
  current : Dict StateKey (String × Version)
  readers : Dict StateKey (List String)
  seen : Finset (AccessKind × String)
  deriving DecidableEq

namespace StateDependencyTracker

/-- A new tracker. -/
def init : StateDependencyTracker := ⟨[], .empty, .empty, ∅⟩

/-- The dependencies of a write at a byte: on the writer before it, and on those who read it. -/
def writeEdges (identity : String) (key : StateKey) (previous : Option (String × Version))
    (readers : List String) : List StateEdge :=
  (match previous with
    | some p => if p.1 ≠ identity then [key.edge .waw p.1 identity (some p.2)] else []
    | none => []) ++
  readers.map fun reader => key.edge .war reader identity (previous.map Prod.snd)

/-- A byte of a write. -/
def writeLane (identity : String) (version : Version) (t : StateDependencyTracker) (key : StateKey) :
    StateDependencyTracker :=
  { t with
    edges := t.edges ++ writeEdges identity key (t.current.get? key) (t.readers.getD key [])
    current := t.current.set key (identity, version)
    readers := t.readers.set key [] }

/-- A byte of a read, as its snapshot gives it: the byte, its writer and its version. -/
abbrev ReadLane : Type := StateKey × String × Version

/-- A byte of a read that agrees with what was seen. -/
def observeLane (identity : String) (t : StateDependencyTracker) (lane : ReadLane) : StateDependencyTracker :=
  { t with
    edges := t.edges ++ [lane.1.edge .raw lane.2.1 identity (some lane.2.2),
      lane.1.edge .persist lane.2.1 identity (some lane.2.2)]
    current := t.current.set lane.1 lane.2
    readers := t.readers.set lane.1 (t.readers.getD lane.1 [] ++ [identity]) }

/-- A byte of a read. -/
def readLane (identity : String) (lane : ReadLane) : Effect StateDependencyTracker Unit := do
  let t ← Effect.get
  Effect.lift (ensure (∀ observed ∈ t.current.get? lane.1, observed = lane.2)
    (.valueError "read snapshot conflicts with committed state history"))
  Effect.modify fun t => t.observeLane identity lane

/-- Ingest an event unless it was seen. -/
def once (kind : AccessKind) (identity : String) (body : Effect StateDependencyTracker Unit) :
    Effect StateDependencyTracker Unit := do
  let t ← Effect.get
  if (kind, identity) ∈ t.seen then pure ()
  else do
    Effect.modify fun t => { t with seen := insert (kind, identity) t.seen }
    body

/-- The bytes of a write that are enabled. -/
def writeLanes (memoryId : String) (generation base : ℕ) (widthBytes byteEnable : ℤ) : List StateKey :=
  ((List.range widthBytes.toNat).filter fun lane => byteEnable.testBit lane).map fun lane =>
    (memoryId, generation, base + lane)

/-- The bytes of a read. -/
def readLanes (memoryId : String) (generation base : ℕ) (writerEventIds : List String)
    (versions : List Version) : List ReadLane :=
  (writerEventIds.zip versions).mapIdx fun lane p => ((memoryId, generation, base + lane), p)

/-- Ingest one event: only reads and writes count, and a write that took no version is only
marked. -/
def ingestEvent (printable : Char → Bool) : MemoryEvent → Effect StateDependencyTracker Unit
  | .instructionSource .. => pure ()
  | .initialization .. => pure ()
  | .read transaction _ _ memoryId generation base _ _ versions writerEventIds _ =>
      once .memoryRead (transaction.str printable) (Effect.each (readLane (transaction.str printable))
          (readLanes memoryId generation base writerEventIds versions))
  | .write transaction _ widthBytes memoryId generation base _ byteEnable version =>
      once .memoryWrite (transaction.str printable) (match version with
        | none => pure ()
        | some version => Effect.modify fun t =>
            (writeLanes memoryId generation base widthBytes byteEnable).foldl
              (writeLane (transaction.str printable) version) t)

/-- Ingest events in order. -/
def ingest (printable : Char → Bool) (events : List MemoryEvent) : Effect StateDependencyTracker Unit :=
  Effect.each (ingestEvent printable) events

/-- Drop a byte of an invalidated generation. -/
def invalidateEntry (memoryId : String) (generation : ℕ) (resetIdentity : String)
    (acc : List StateEdge × StateDependencyTracker) (entry : StateKey × String × Version) :
    List StateEdge × StateDependencyTracker :=
  if entry.1.1 = memoryId ∧ entry.1.2.1 = generation then
    let edge := entry.1.edge .invalidate entry.2.1 resetIdentity (some entry.2.2)
    (acc.1 ++ [edge], { acc.2 with
      edges := acc.2.edges ++ [edge]
      current := acc.2.current.erase entry.1
      readers := acc.2.readers.erase entry.1 })
  else acc

/-- Record a cold reset for the bytes of a generation. -/
def invalidateGeneration (t : StateDependencyTracker) (memoryId : String) (generation : ℕ)
    (resetIdentity : String) : List StateEdge × StateDependencyTracker :=
  t.current.entries.foldl (invalidateEntry memoryId generation resetIdentity) ([], t)

/-- The dependencies of an image at a byte that was seen. -/
def installEdges (identity : String) (key : StateKey) (previous : String × Version)
    (readers : List String) : List StateEdge :=
  key.edge .waw previous.1 identity (some previous.2) ::
    readers.map fun reader => key.edge .war reader identity (some previous.2)

/-- A byte of an image; one that was never seen is left alone. -/
def installLane (identity : String) (version : Version) (t : StateDependencyTracker)
    (key : StateKey) : StateDependencyTracker :=
  match t.current.get? key with
  | none => t
  | some previous =>
      { t with
        edges := t.edges ++ installEdges identity key previous (t.readers.getD key [])
        current := t.current.set key (identity, version)
        readers := t.readers.set key [] }

/-- The bytes of an image. -/
def imageLanes (memoryId : String) (generation byteOffset size : ℕ) : List StateKey :=
  (List.range size).map fun i => (memoryId, generation, byteOffset + i)

/-- Record the replacement of bytes by a reset image. -/
def installImage (t : StateDependencyTracker) (memoryId : String) (byteOffset size : ℕ)
    (version : Version) (identity : String) : List StateEdge × StateDependencyTracker :=
  let t' := (imageLanes memoryId version.1 byteOffset size).foldl (installLane identity version) t
  (t'.edges.drop t.edges.length, t')

/-! ## What each lane does -/

/-- What is kept of a byte: its writer and version, and who read that version. -/
def view (t : StateDependencyTracker) (key : StateKey) : Option (String × Version) × List String :=
  (t.current.get? key, t.readers.getD key [])

theorem isLocal_writeLane (identity : String) (version : Version) :
    IsLocal view edges seen (writeLane identity version) id
      (fun key v => writeEdges identity key v.1 v.2) (fun _ _ => (some (identity, version), [])) where
  log_eq _ _ := rfl
  view_self t key := by simp [view, writeLane]
  view_of_ne t key k hk := by
    simp only [view, writeLane, id_eq] at hk ⊢
    rw [get?_set_of_ne _ hk, getD_set_of_ne _ hk]
  rest_eq _ _ := rfl

theorem isLocal_observeLane (identity : String) :
    IsLocal view edges seen (observeLane identity) Prod.fst
      (fun lane _ => [lane.1.edge .raw lane.2.1 identity (some lane.2.2),
        lane.1.edge .persist lane.2.1 identity (some lane.2.2)])
      (fun lane v => (some lane.2, v.2 ++ [identity])) where
  log_eq _ _ := rfl
  view_self t lane := by simp [view, observeLane]
  view_of_ne t lane k hk := by
    simp only [view, observeLane]
    rw [get?_set_of_ne _ hk, getD_set_of_ne _ hk]
  rest_eq _ _ := rfl

theorem isLocal_installLane (identity : String) (version : Version) :
    IsLocal view edges seen (installLane identity version) id
      (fun key v => match v.1 with
        | none => []
        | some previous => installEdges identity key previous v.2)
      (fun _ v => if v.1 = none then v else (some (identity, version), [])) where
  log_eq t key := by
    cases h : t.current.get? key with
    | none | some previous => simp [installLane, view, h]
  view_self t key := by
    cases h : t.current.get? key with
    | none | some previous => simp [installLane, view, h]
  view_of_ne t key k hk := by
    cases h : t.current.get? key with
    | none => simp [installLane, h]
    | some previous =>
      simp only [view, installLane, h, id_eq] at hk ⊢
      rw [get?_set_of_ne _ hk, getD_set_of_ne _ hk]
  rest_eq t key := by
    cases h : t.current.get? key with
    | none | some previous => simp [installLane, h]

/-- **Reads of distinct bytes that agree with what was seen do not raise.** -/
theorem each_readLane (identity : String) : ∀ (lanes : List ReadLane) (t : StateDependencyTracker),
    (lanes.map Prod.fst).Nodup → (∀ lane ∈ lanes, ∀ observed ∈ t.current.get? lane.1, observed = lane.2) →
    each (readLane identity) lanes t = (.ok (), lanes.foldl (observeLane identity) t)
  | [], t, _, _ => rfl
  | lane :: lanes, t, hnd, hagree => by
      rw [List.map_cons, List.nodup_cons] at hnd
      have hfirst : readLane identity lane t = (.ok (), t.observeLane identity lane) := by
        rw [readLane, bind_of_ok (get_apply _), bind_of_ok (by
          rw [lift_apply, ensure_of (hagree lane List.mem_cons_self)])]
        rfl
      rw [each, bind_of_ok hfirst, each_readLane identity lanes _ hnd.2]
      · rfl
      · intro lane' hlane' observed hobs
        refine hagree lane' (.tail _ hlane') observed ?_
        have hne : lane'.1 ≠ lane.1 := fun h => hnd.1 (h ▸ List.mem_map_of_mem hlane')
        have hsame : (t.observeLane identity lane).current.get? lane'.1 = t.current.get? lane'.1 :=
          congrArg Prod.fst ((isLocal_observeLane identity).view_of_ne t lane _ hne)
        rwa [hsame] at hobs

/-! ## Invalidation -/

/-- Only INVALIDATE edges were added, and nothing was marked. -/
def Invalidates (t t' : StateDependencyTracker) : Prop :=
  t'.seen = t.seen ∧ ∃ new, t'.edges = t.edges ++ new ∧ ∀ e ∈ new, e.kind = .invalidate

theorem Invalidates.refl (t : StateDependencyTracker) : Invalidates t t :=
  ⟨rfl, [], (List.append_nil _).symm, nofun⟩

theorem Invalidates.trans {t₁ t₂ t₃ : StateDependencyTracker} (h : Invalidates t₁ t₂)
    (h' : Invalidates t₂ t₃) : Invalidates t₁ t₃ := by
  obtain ⟨hseen, new, hnew, hkind⟩ := h
  obtain ⟨hseen', new', hnew', hkind'⟩ := h'
  refine ⟨hseen'.trans hseen, new ++ new', by rw [hnew', hnew, List.append_assoc], fun e he => ?_⟩
  rcases List.mem_append.1 he with he | he
  · exact hkind e he
  · exact hkind' e he

theorem view_invalidateEntry (memoryId : String) (generation : ℕ) (resetIdentity : String)
    (acc : List StateEdge × StateDependencyTracker) (entry : StateKey × String × Version) :
    Invalidates acc.2 (invalidateEntry memoryId generation resetIdentity acc entry).2 ∧
    ∀ key, (invalidateEntry memoryId generation resetIdentity acc entry).2.view key
      = if key.1 = memoryId ∧ key.2.1 = generation ∧ key = entry.1 then (none, [])
        else acc.2.view key := by
  unfold invalidateEntry
  split_ifs with h
  · refine ⟨⟨rfl, _, rfl, fun e he => ?_⟩, fun key => ?_⟩
    · rw [List.mem_singleton.1 he]
      rfl
    · simp only [view, getD, get?_erase]
      split_ifs with hkey hall hall
      · rfl
      · exact absurd ⟨hkey ▸ h.1, hkey ▸ h.2, hkey⟩ hall
      · exact absurd hall.2.2 hkey
      · rfl
  · refine ⟨.refl _, fun key => ?_⟩
    rw [if_neg]
    rintro ⟨hid, hgen, rfl⟩
    exact h ⟨hid, hgen⟩

theorem foldl_invalidateEntry (memoryId : String) (generation : ℕ) (resetIdentity : String) :
    ∀ (l : List (StateKey × String × Version)) (acc : List StateEdge × StateDependencyTracker),
      Invalidates acc.2 (l.foldl (invalidateEntry memoryId generation resetIdentity) acc).2 ∧
      ∀ key, (l.foldl (invalidateEntry memoryId generation resetIdentity) acc).2.view key
        = if key.1 = memoryId ∧ key.2.1 = generation ∧ key ∈ l.map Prod.fst then (none, [])
          else acc.2.view key
  | [], acc => ⟨.refl _, fun key => by rw [if_neg fun h => absurd h.2.2 List.not_mem_nil]; rfl⟩
  | entry :: l, acc => by
      obtain ⟨hfirst, hentry⟩ := view_invalidateEntry memoryId generation resetIdentity acc entry
      obtain ⟨hrest, hview⟩ := foldl_invalidateEntry memoryId generation resetIdentity l
        (invalidateEntry memoryId generation resetIdentity acc entry)
      refine ⟨hfirst.trans hrest, fun key => ?_⟩
      rw [List.foldl_cons, hview, hentry]
      simp only [List.map_cons, List.mem_cons]
      grind

/-- **An invalidated generation keeps nothing.** -/
theorem view_invalidateGeneration (t : StateDependencyTracker) (memoryId : String) (generation : ℕ)
    (resetIdentity : String) (key : StateKey) :
    (t.invalidateGeneration memoryId generation resetIdentity).2.view key
      = if key.1 = memoryId ∧ key.2.1 = generation ∧ (t.view key).1.isSome then (none, [])
        else t.view key := by
  rw [invalidateGeneration, (foldl_invalidateEntry ..).2]
  have hiff : key ∈ t.current.entries.map Prod.fst ↔ (t.view key).1.isSome := mem_keys_iff
  simp only [hiff]

end StateDependencyTracker

end MyFuzz
