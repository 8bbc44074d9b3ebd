import MyFuzz.Scenario.StateTracking

/-!
# Scenario/StateAgreement — the dependencies of a run are those of its memory

A `Tracked` service hands every event it records to its tracker, invalidates the old generation of
every memory after a cold reset, and tells the tracker of each reset image:

    service call ─▸ new events ─▸ ingest ─▸ (cold reset) invalidate_generation
                                          └▸ (image)     install_image

In every run whose stores have versions that fit in 64 bits no event is refused, and the edges of
each step name cells of the memory before and after it.  A store beyond that raises after it has
changed the memory and records no event, so the next read contradicts the tracker.
-/

namespace MyFuzz

open Run Outcome PersistentMemory ServiceCore StateDependencyTracker Effect MemoryService List

/-- The calls on a service whose memory is tracked. -/
inductive TrackedCall where
  | read (key : TransactionKey) (address widthBytes : ℤ)
  | write (key : TransactionKey) (address value widthBytes byteEnable : ℤ)
  | acceptInstructions (address : ℤ) (data : List UInt8) (sourceEventId : String)
  | preload (address : ℤ) (data : List UInt8)
  | declareInstructionSlots (address count : ℤ)
  | reinstallImage (address : ℤ) (data : List UInt8) (eventId : String)
  | warmReset
  | coldReset (resetIdentity : String)
  | ackCommitEvents (commitIds : List String)
  deriving DecidableEq

/-- The call the service gets. -/
def TrackedCall.call : TrackedCall → ServiceCall
  | .read key address widthBytes => .read key address widthBytes
  | .write key address value widthBytes byteEnable => .write key address value widthBytes byteEnable
  | .acceptInstructions address data sourceEventId => .acceptInstructions address data sourceEventId
  | .preload address data => .memory (.preload address data)
  | .declareInstructionSlots address count => .memory (.declareInstructionSlots address count)
  | .reinstallImage address data eventId => .memory (.reinstallImage address data eventId)
  | .warmReset => .memory .warmReset
  | .coldReset _ => .memory .coldReset
  | .ackCommitEvents commitIds => .ackCommitEvents commitIds

/-- A service, its tracker, and whether an event was refused. -/
structure Tracked where
  service : MemoryService
  tracker : StateDependencyTracker
  failed : Bool

namespace Tracked

variable (cfg : ServiceConfig)

/-- A new service and a new tracker. -/
def init : Tracked := ⟨.init cfg, .init, false⟩

/-- Tell the tracker of a cold reset of every memory, or of an installed image. -/
def follow (generation : ℕ) (c : TrackedCall) (answer : Except Exn ServiceAnswer)
    (tr : StateDependencyTracker) : StateDependencyTracker :=
  match c, answer with
  | .coldReset resetIdentity, _ => cfg.memory.regions.foldl
      (fun tr region => (tr.invalidateGeneration region.memoryId generation resetIdentity).2) tr
  | .reinstallImage _ data eventId, .ok (.memory (.image memoryId offset version)) =>
      (tr.installImage memoryId offset data.length version eventId).2
  | _, _ => tr

/-- The tracker after a call with this answer that left the service `s`. -/
def advance (t : Tracked) (c : TrackedCall) (answer : Except Exn ServiceAnswer) (s : MemoryService) :
    Tracked where
  service := s
  tracker := follow cfg t.service.memory.generation c answer
    (ingest cfg.printable (s.events.drop t.service.events.length) t.tracker).2
  failed := t.failed || !(ingest cfg.printable (s.events.drop t.service.events.length) t.tracker).1.isOk

/-- One call, tracked. -/
def step (t : Tracked) (c : TrackedCall) : Tracked :=
  t.advance cfg c (t.service.call cfg c.call).1 (t.service.call cfg c.call).2

/-- The generation, and with a lane enabled the next version, of a store fit in 64 bits. -/
def StoreFits (t : Tracked) : TrackedCall → Prop
  | .write _ address _ width byteEnable =>
      MemoryService.StoreCountable cfg t.service.memory address width byteEnable
  | _ => True

end Tracked

variable {kind : AccessKind} {e : MemoryEvent} {key : TransactionKey} {m' : PersistentMemory}

/-! ## Ingestion -/

namespace StateDependencyTracker

variable {printable : Char → Bool} {tr : StateDependencyTracker}

variable {identity : String}

theorem once_of_seen (h : (kind, identity) ∈ tr.seen) (body : Effect StateDependencyTracker Unit) :
    once kind identity body tr = (.ok (), tr) := by
  rw [once, bind_of_ok (get_apply _), if_pos h]
  rfl

theorem once_of_new (h : (kind, identity) ∉ tr.seen) (body : Effect StateDependencyTracker Unit) :
    once kind identity body tr
      = body { tr with seen := insert (kind, identity) tr.seen } := by
  rw [once, bind_of_ok (get_apply _), if_neg h, bind_of_ok (modify_apply _ _)]

/-- **Events that were seen add nothing.** -/
theorem ingest_seen : ∀ {events : List MemoryEvent},
    (∀ e ∈ events, ∀ a, e.access? printable = some a → a ∈ tr.seen) →
    ingest printable events tr = (.ok (), tr)
  | [], _ => rfl
  | e :: events, h => by
      have hfirst : ingestEvent printable e tr = (.ok (), tr) := by
        have he := h e (.head _)
        cases e with
        | instructionSource | initialization => rfl
        | read | write => exact once_of_seen (he _ rfl) _
      rw [ingest, each, bind_of_ok hfirst]
      exact ingest_seen fun e' he' => h e' (.tail _ he')

theorem ingest_quiet_append : ∀ {events : List MemoryEvent}, (∀ e ∈ events, e.Quiet) →
    ∀ events' : List MemoryEvent, ingest printable (events ++ events') tr = ingest printable events' tr
  | [], _, _ => rfl
  | e :: events, h, events' => by
      have hfirst : ingestEvent printable e tr = (.ok (), tr) := by
        have he := h e mem_cons_self printable
        cases e with
        | instructionSource | initialization => rfl
        | read | write => cases he
      rw [cons_append, ingest, each, bind_of_ok hfirst]
      exact ingest_quiet_append (fun e' he' => h e' (.tail _ he')) events'

theorem ingest_singleton {tr' : StateDependencyTracker}
    (h : ingestEvent printable e tr = (.ok (), tr')) : ingest printable [e] tr = (.ok (), tr') := by
  rw [ingest, each, bind_of_ok h]
  rfl

end StateDependencyTracker

/-- The events that were ingested are marked, under the texts of keys of the ledger. -/
structure Marks (cfg : ServiceConfig) (ledger : TransactionLedger String ServiceReceipt)
    (events : List MemoryEvent) (tr : StateDependencyTracker) : Prop where
  seen : ∀ e ∈ events, ∀ a, e.access? cfg.printable = some a → a ∈ tr.seen
  known : ∀ a ∈ tr.seen, ∃ key, (ledger.entries.get? key).isSome ∧ a.2 = cfg.str key

namespace Marks

variable {cfg : ServiceConfig} {ledger ledger' : TransactionLedger String ServiceReceipt}
  {events events' : List MemoryEvent} {tr tr' : StateDependencyTracker}

/-- **A key that starts was not ingested**: its text is that of no other key. -/
theorem notMem_of_fresh (h : Marks cfg ledger events tr) (hfresh : ledger.Fresh key)
    (kind : AccessKind) : (kind, cfg.str key) ∉ tr.seen := by
  intro hmem
  obtain ⟨key', hsome, heq⟩ := h.known _ hmem
  have hkey : key = key' := TransactionKey.str_injective cfg.printable heq
  rw [← hkey, hfresh.absent] at hsome
  cases hsome

/-- Events that are not ingested leave the marks. -/
theorem quiet (h : Marks cfg ledger events tr) (hquiet : ∀ e ∈ events', e.Quiet)
    (hseen : tr'.seen = tr.seen) : Marks cfg ledger (events ++ events') tr' where
  seen e he a ha := by
    rw [hseen]
    rcases mem_append.1 he with he | he
    · exact h.seen e he a ha
    · rw [hquiet e he] at ha
      cases ha
  known a ha := h.known a (hseen ▸ ha)

/-- A new event is marked under its key. -/
theorem marked (h : Marks cfg ledger events tr) (haccess : e.access? cfg.printable = some (kind, cfg.str key))
    (hledger : ∀ k, (ledger.entries.get? k).isSome → (ledger'.entries.get? k).isSome)
    (hkey : (ledger'.entries.get? key).isSome) (hseen : tr'.seen = insert (kind, cfg.str key) tr.seen) :
    Marks cfg ledger' (events ++ [e]) tr' where
  seen e' he' a ha := by
    rw [hseen]
    rcases mem_append.1 he' with he' | he'
    · exact Finset.mem_insert_of_mem (h.seen e' he' a ha)
    · rw [mem_singleton.1 he', haccess] at ha
      cases ha
      exact Finset.mem_insert_self _ _
  known a ha := by
    rw [hseen] at ha
    rcases Finset.mem_insert.1 ha with rfl | ha
    · exact ⟨key, hkey, rfl⟩
    · obtain ⟨k, hk, heq⟩ := h.known a ha
      exact ⟨k, hledger k hk, heq⟩

end Marks

/-! ## Edges -/

/-- A byte whose version was replaced by a newer one of the same generation. -/
structure Overwritten (m m' : PersistentMemory) (key : StateKey) (old new : ByteCell) : Prop where
  before : m.generation = key.2.1
  after : m'.generation = key.2.1
  old_cell : m.bytes.get? (key.1, key.2.2) = some old
  new_cell : m'.bytes.get? (key.1, key.2.2) = some new
  newer : old.version.2 < new.version.2

theorem Overwritten.not_of_keep {m : PersistentMemory}
    (hkeep : ∀ k cell, m.bytes.get? k = some cell → m'.bytes.get? k = some cell) {key : StateKey}
    {old new : ByteCell} (h : Overwritten m m' key old new) : False := by
  have heq := (hkeep _ _ h.old_cell).symm.trans h.new_cell
  cases heq
  exact absurd h.newer (lt_irrefl _)

/-- The edges a step adds, against the memory before and after it. -/
structure StepEdges (cfg : ServiceConfig) (t : Tracked) (c : TrackedCall) (t' : Tracked)
    (new : List StateEdge) : Prop where
  /-- A RAW edge leads from the writer of the version the read saw. -/
  raw : ∀ e ∈ new, e.kind = .raw ∨ e.kind = .persist →
    (∃ key address width, c = .read key address width ∧ e.target = cfg.str key) ∧
    e.generation = t'.service.memory.generation ∧
    ∃ cell, t'.service.memory.bytes.get? (e.memoryId, e.byteOffset) = some cell ∧
      e.source = cell.writerEventId ∧ e.version = some cell.version
  /-- A WAW edge leads from the writer a byte had to the writer it has now. -/
  waw : ∀ e ∈ new, e.kind = .waw → ∃ old cell, Overwritten t.service.memory t'.service.memory e.key old cell ∧
    e.source = old.writerEventId ∧ e.target = cell.writerEventId ∧ e.version = some old.version ∧
    t.tracker.current.get? e.key = some (e.source, old.version) ∧
    t'.tracker.current.get? e.key = some (e.target, cell.version)
  /-- A WAR edge leads from a read of the version that is replaced. -/
  war : ∀ e ∈ new, e.kind = .war → ∃ old cell, Overwritten t.service.memory t'.service.memory e.key old cell ∧
    e.source ∈ readersOf cfg.printable t.service.events e.key old.version ∧
    e.target = cell.writerEventId ∧ e.version = some old.version
  /-- Every read of a version that is replaced has its WAR edge, once. -/
  war_complete : ∀ key old cell, Overwritten t.service.memory t'.service.memory key old cell →
    (new.filter fun e => decide (e.kind = .war) && decide (e.key = key)).map StateEdge.source
      = readersOf cfg.printable t.service.events key old.version

namespace StepEdges

variable {cfg : ServiceConfig} {t t' : Tracked} {c : TrackedCall}

/-- A step that keeps the cells and adds no edge. -/
theorem nil (hkeep : ∀ k cell, t.service.memory.bytes.get? k = some cell →
    t'.service.memory.bytes.get? k = some cell) : StepEdges cfg t c t' [] where
  raw _ he := nomatch he
  waw _ he := nomatch he
  war _ he := nomatch he
  war_complete _ _ _ h := (h.not_of_keep hkeep).elim

/-- The edges of a read. -/
theorem fetched (lanes : List ReadLane) {key : TransactionKey} {address width : ℤ}
    (hc : c = .read key address width) (hkeep : ∀ k cell, t.service.memory.bytes.get? k = some cell →
      t'.service.memory.bytes.get? k = some cell)
    (hlanes : ∀ lane ∈ lanes, lane.1.2.1 = t'.service.memory.generation ∧
      ∃ cell, t'.service.memory.bytes.get? (lane.1.1, lane.1.2.2) = some cell ∧
        lane.2 = (cell.writerEventId, cell.version)) :
    StepEdges cfg t c t' (lanes.flatMap fun lane =>
      [lane.1.edge .raw lane.2.1 (cfg.str key) (some lane.2.2),
        lane.1.edge .persist lane.2.1 (cfg.str key) (some lane.2.2)]) := by
  have hmem : ∀ e ∈ lanes.flatMap (fun lane : ReadLane =>
      [lane.1.edge .raw lane.2.1 (cfg.str key) (some lane.2.2),
        lane.1.edge .persist lane.2.1 (cfg.str key) (some lane.2.2)]),
      ∃ lane ∈ lanes, ∃ kind, (kind = .raw ∨ kind = .persist) ∧
        e = lane.1.edge kind lane.2.1 (cfg.str key) (some lane.2.2) := by
    intro e he
    obtain ⟨lane, hlane, he⟩ := mem_flatMap.1 he
    rcases mem_cons.1 he with rfl | he
    · exact ⟨lane, hlane, .raw, .inl rfl, rfl⟩
    · rw [mem_singleton.1 he]
      exact ⟨lane, hlane, .persist, .inr rfl, rfl⟩
  refine ⟨fun e he _ => ?_, fun e he hk => ?_, fun e he hk => ?_, fun _ _ _ h => (h.not_of_keep hkeep).elim⟩
  · obtain ⟨lane, hlane, kind, -, rfl⟩ := hmem e he
    obtain ⟨hgen, cell, hcell, hpair⟩ := hlanes lane hlane
    refine ⟨⟨key, address, width, hc, rfl⟩, hgen, cell, hcell, ?_, ?_⟩
    · exact congrArg Prod.fst hpair
    · exact congrArg (some ∘ Prod.snd) hpair
  · obtain ⟨lane, -, kind, hkind, rfl⟩ := hmem e he
    rcases hkind with rfl | rfl <;> cases hk
  · obtain ⟨lane, -, kind, hkind, rfl⟩ := hmem e he
    rcases hkind with rfl | rfl <;> cases hk

end StepEdges

/-- The edges of a write at a byte: none if it was not seen, else at most one WAW edge and a WAR edge
for each reader. -/
def DependsOn (identity : String) (key : StateKey) (view : Option (String × Version) × List String)
    (out : List StateEdge) : Prop :=
  (view = (none, []) → out = []) ∧
  ∀ writer version readers, view = (some (writer, version), readers) → ∃ waws,
    (∀ e ∈ waws, e = key.edge .waw writer identity (some version)) ∧
    out = waws ++ readers.map fun reader => key.edge .war reader identity (some version)

theorem dependsOn_writeEdges (identity : String) (key : StateKey)
    (view : Option (String × Version) × List String) :
    DependsOn identity key view (writeEdges identity key view.1 view.2) := by
  refine ⟨?_, ?_⟩
  · rintro rfl
    rfl
  · rintro writer version readers rfl
    refine ⟨_, fun e he => ?_, rfl⟩
    dsimp only at he
    split_ifs at he
    · exact mem_singleton.1 he
    · cases he

theorem dependsOn_installEdges (identity : String) (key : StateKey)
    (view : Option (String × Version) × List String) :
    DependsOn identity key view (match view.1 with
      | none => []
      | some previous => installEdges identity key previous view.2) := by
  refine ⟨?_, ?_⟩
  · rintro rfl
    rfl
  · rintro writer version readers rfl
    exact ⟨[key.edge .waw writer identity (some version)], fun e he => mem_singleton.1 he, rfl⟩

/-- A byte that takes a new version in place of `old`, and the edges it logs. -/
structure Replaces (cfg : ServiceConfig) (t t' : Tracked) (identity : String) (version : Version)
    (key : StateKey) (out : List StateEdge) (old : ByteCell) : Prop where
  overwritten : ∃ value kind, Overwritten t.service.memory t'.service.memory key old
    ⟨value, version, kind, identity⟩
  before : t.tracker.current.get? key = some (old.writerEventId, old.version)
  after : t'.tracker.current.get? key = some (identity, version)
  edges : ∃ waws, (∀ e ∈ waws, e = key.edge .waw old.writerEventId identity (some old.version)) ∧
    out = waws ++ (readersOf cfg.printable t.service.events key old.version).map
      fun reader => key.edge .war reader identity (some old.version)

namespace Replaces

variable {cfg : ServiceConfig} {t t' : Tracked} {identity : String} {version : Version}
  {key : StateKey} {out : List StateEdge} {old : ByteCell}

/-- An edge it logs is the WAW edge or a WAR edge of a reader. -/
theorem mem (h : Replaces cfg t t' identity version key out old) {e : StateEdge} (he : e ∈ out) :
    e = key.edge .waw old.writerEventId identity (some old.version) ∨
    ∃ reader ∈ readersOf cfg.printable t.service.events key old.version,
      e = key.edge .war reader identity (some old.version) := by
  obtain ⟨waws, hwaws, heq⟩ := h.edges
  rw [heq] at he
  rcases mem_append.1 he with he | he
  · exact .inl (hwaws e he)
  · obtain ⟨reader, hreader, rfl⟩ := mem_map.1 he
    exact .inr ⟨reader, hreader, rfl⟩

/-- **Its WAR edges lead from exactly the readers** of the version it replaces. -/
theorem sources (h : Replaces cfg t t' identity version key out old) :
    (out.filter fun e => decide (e.kind = .war)).map StateEdge.source
      = readersOf cfg.printable t.service.events key old.version := by
  obtain ⟨waws, hwaws, heq⟩ := h.edges
  have hnone : waws.filter (fun e => decide (e.kind = .war)) = [] := by
    refine filter_eq_nil_iff.2 fun e he => ?_
    rw [hwaws e he]
    simp [StateKey.edge]
  have hall : ((readersOf cfg.printable t.service.events key old.version).map
      fun reader => key.edge .war reader identity (some old.version)).filter
        (fun e => decide (e.kind = .war))
      = (readersOf cfg.printable t.service.events key old.version).map
        fun reader => key.edge .war reader identity (some old.version) := by
    refine filter_eq_self.2 fun e he => ?_
    obtain ⟨reader, -, rfl⟩ := mem_map.1 he
    rfl
  rw [heq, filter_append, hnone, hall, nil_append, map_map]
  exact map_id _

end Replaces

namespace StepEdges

variable {cfg : ServiceConfig} {t t' : Tracked} {c : TrackedCall} {identity : String}
  {version : Version} {lanes : List StateKey} {out : StateKey → List StateEdge}

/-- A byte that takes a new version was not seen, or replaces the version that was seen. -/
theorem lane_cases (hinv : t.service.memory.Inv cfg.memory)
    (h : Agrees cfg t.service.memory t.service.events t.tracker)
    (hover : Overwrites cfg t.service.memory t'.service.memory identity version lanes)
    (hout : ∀ key ∈ lanes, DependsOn identity key (t.tracker.view key) (out key))
    (hcurrent : ∀ key ∈ lanes, (t.tracker.view key).1.isSome →
      t'.tracker.current.get? key = some (identity, version)) {key : StateKey} (hkey : key ∈ lanes) :
    (out key = [] ∧ (t.tracker.view key).1 = none) ∨
      ∃ old, Replaces cfg t t' identity version key (out key) old := by
  rcases h.follows key with hnone | ⟨old, hgen, -, hold, hview⟩
  · exact .inl ⟨(hout key hkey).1 hnone, by rw [hnone]⟩
  · obtain ⟨value, kind, hcell⟩ := hover.cell key hkey
    obtain ⟨-, hversion⟩ := hover.lanes_region key hkey
    refine .inr ⟨old, ⟨value, kind, hgen.symm, ?_, hold, hcell, ?_⟩, ?_, ?_, (hout key hkey).2 _ _ _ hview⟩
    · rw [hover.generation, hgen]
    · rw [hversion]
      exact Nat.lt_succ_of_le (hinv.versioned _ _ hold).2.1
    · exact congrArg Prod.fst hview
    · exact hcurrent key hkey (by rw [hview]; rfl)

/-- **The edges of a new version** name the version it replaces. -/
theorem overwritten (hinv : t.service.memory.Inv cfg.memory)
    (h : Agrees cfg t.service.memory t.service.events t.tracker)
    (hover : Overwrites cfg t.service.memory t'.service.memory identity version lanes)
    (hout : ∀ key ∈ lanes, DependsOn identity key (t.tracker.view key) (out key))
    (hcurrent : ∀ key ∈ lanes, (t.tracker.view key).1.isSome →
      t'.tracker.current.get? key = some (identity, version)) :
    StepEdges cfg t c t' (lanes.flatMap out) := by
  have hmem : ∀ e ∈ lanes.flatMap out, ∃ key ∈ lanes, e ∈ out key ∧
      ∃ old, Replaces cfg t t' identity version key (out key) old := by
    intro e he
    obtain ⟨key, hkey, he⟩ := mem_flatMap.1 he
    rcases lane_cases hinv h hover hout hcurrent hkey with ⟨hnil, -⟩ | hrep
    · rw [hnil] at he
      cases he
    · exact ⟨key, hkey, he, hrep⟩
  refine ⟨fun e he hk => ?_, fun e he hk => ?_, fun e he hk => ?_, fun key old cell hov => ?_⟩
  · obtain ⟨key, -, he, old, hrep⟩ := hmem e he
    rcases hrep.mem he with rfl | ⟨reader, -, rfl⟩ <;> rcases hk with hk | hk <;> cases hk
  · obtain ⟨key, -, he, old, hrep⟩ := hmem e he
    obtain ⟨value, kind, hov⟩ := hrep.overwritten
    rcases hrep.mem he with rfl | ⟨reader, -, rfl⟩
    · exact ⟨old, _, hov, rfl, rfl, rfl, hrep.before, hrep.after⟩
    · cases hk
  · obtain ⟨key, -, he, old, hrep⟩ := hmem e he
    obtain ⟨value, kind, hov⟩ := hrep.overwritten
    rcases hrep.mem he with rfl | ⟨reader, hreader, rfl⟩
    · cases hk
    · exact ⟨old, _, hov, hreader, rfl, rfl⟩
  · have hkey : key ∈ lanes := by
      by_contra hkey
      have hsame := hover.other key hov.before.symm hkey
      rw [hov.new_cell, hov.old_cell] at hsame
      cases hsame
      exact absurd hov.newer (lt_irrefl _)
    have htag : ∀ key ∈ lanes, ∀ e ∈ out key, e.key = key := by
      intro key hkey e he
      rcases lane_cases hinv h hover hout hcurrent hkey with ⟨hnil, -⟩ | ⟨old, hrep⟩
      · rw [hnil] at he
        cases he
      · rcases hrep.mem he with rfl | ⟨reader, -, rfl⟩ <;> rfl
    rw [filter_flatMap_key _ htag hover.nodup hkey]
    rcases lane_cases hinv h hover hout hcurrent hkey with ⟨hnil, hnone⟩ | ⟨old', hrep⟩
    · rw [hnil, h.readersOf_eq_nil hov.before.symm hnone]
      rfl
    · obtain ⟨value, kind, hov'⟩ := hrep.overwritten
      have hsame := hov'.old_cell.symm.trans hov.old_cell
      cases hsame
      exact hrep.sources

end StepEdges

/-! ## Steps -/

namespace Tracked

variable {cfg : ServiceConfig} {t : Tracked}

/-- What every step keeps: the tracker agrees with the memory and refused no event. -/
structure Inv (cfg : ServiceConfig) (t : Tracked) : Prop where
  service : t.service.Inv cfg
  agrees : Agrees cfg t.service.memory t.service.events t.tracker
  marks : Marks cfg t.service.ledger t.service.events t.tracker
  accepted : t.failed = false

theorem inv_init (cfg : ServiceConfig) : (init cfg).Inv cfg where
  service := MemoryService.inv_init cfg
  agrees := Agrees.init cfg
  marks := ⟨nofun, fun a ha => absurd ha (Finset.notMem_empty a)⟩
  accepted := rfl

/-- A step that keeps the invariant and adds edges of its memory. -/
def Sound (cfg : ServiceConfig) (t : Tracked) (c : TrackedCall) (t' : Tracked) : Prop :=
  t'.Inv cfg ∧ ∃ new, t'.tracker.edges = t.tracker.edges ++ new ∧ StepEdges cfg t c t' new

variable {c : TrackedCall} {answer : Except Exn ServiceAnswer} {s' : MemoryService}
  {events : List MemoryEvent} {address width : ℤ} {region : MemoryRegion} {offset : ℕ}

/-- **A step whose events are not ingested** and that keeps the cells. -/
theorem sound_quiet (ht : t.Inv cfg) (hfollow : ∀ g tr, follow cfg g c answer tr = tr)
    (hs' : s'.Inv cfg) (hgen : s'.memory.generation = t.service.memory.generation)
    (hkeep : ∀ k cell, t.service.memory.bytes.get? k = some cell → s'.memory.bytes.get? k = some cell)
    (hseq : ∀ id, t.service.memory.commitSequence id ≤ s'.memory.commitSequence id)
    (hevents : s'.events = t.service.events ++ events)
    (hquiet : ∀ e ∈ events, e.Quiet) (hledger : s'.ledger = t.service.ledger) :
    Sound cfg t c (t.advance cfg c answer s') := by
  have hingest : ingest cfg.printable (s'.events.drop t.service.events.length) t.tracker
      = (.ok (), t.tracker) := by
    rw [hevents, drop_left]
    exact ingest_seen fun e he a ha => by
      rw [hquiet e he] at ha
      cases ha
  have htracker : (t.advance cfg c answer s').tracker = t.tracker := by
    rw [advance, hfollow, hingest]
  refine ⟨⟨hs', ?_, ?_, ?_⟩, [], ?_, StepEdges.nil hkeep⟩
  · rw [htracker]
    refine ht.agrees.quiet hgen hkeep hseq (fun key version => ?_) fun _ => rfl
    dsimp only [advance]
    rw [hevents, readersOf_append, readersOf_quiet hquiet, append_nil]
  · rw [htracker]
    dsimp only [advance]
    rw [hledger, hevents]
    exact ht.marks.quiet hquiet rfl
  · dsimp only [advance]
    rw [ht.accepted, hingest]
    rfl
  · rw [htracker, append_nil]

theorem quiet_initializationEvent {snapshot : ReadSnapshot} {b : ℕ}
    (h : initializationEvent key snapshot b = .ok e) : e.Quiet := by
  unfold initializationEvent at h
  dsimp only at h
  split at h
  · cases h
    exact fun _ => rfl
  · cases h

/-- **A read** joins the readers of the cells it saw. -/
theorem sound_fetched (ht : t.Inv cfg) 
    
    (hs' : s'.Inv cfg) (hfresh : t.service.ledger.Fresh key)
    (hres : cfg.memory.resolve address width false = .ok (region, offset))
    (hm' : s'.memory = t.service.memory.materialize cfg.memory region.memoryId
      (span region.memoryId offset width.toNat)) (hquiet : ∀ e ∈ events, e.Quiet)
    (hevents : s'.events = t.service.events ++ (events ++ [readEvent cfg key address width
      (snapshotOf t.service.memory s'.memory region offset width.toNat (cfg.str key))]))
    (hledger : ∀ k, (t.service.ledger.entries.get? k).isSome → (s'.ledger.entries.get? k).isSome)
    (hkey : (s'.ledger.entries.get? key).isSome) :
    Sound cfg t (.read key address width) (t.advance cfg (.read key address width) answer s') := by
  have hgen : s'.memory.generation = t.service.memory.generation := by
    rw [hm', generation_materialize]
  have hkeep : ∀ k cell, t.service.memory.bytes.get? k = some cell → s'.memory.bytes.get? k = some cell := by
    intro k cell hk
    rw [hm']
    exact get?_materialize_of_some cfg.memory region.memoryId (nodup_span ..) hk
  have hdet : ∀ k ∈ span region.memoryId offset width.toNat, (s'.memory.bytes.get? k).isSome := by
    intro k hk
    rw [hm']
    exact isSome_materialize cfg.memory t.service.memory region.memoryId (nodup_span ..) hk
  have hnew := ht.marks.notMem_of_fresh hfresh .memoryRead
  have hlocal := isLocal_observeLane (cfg.str key)
  have hnodup := nodup_cellLanes hdet
  have hkeys := map_fst_cellLanes hdet
  -- marking the event changes no view
  obtain ⟨tr, htr⟩ : ∃ tr : StateDependencyTracker, tr = { t.tracker with
      seen := insert (.memoryRead, cfg.str key) t.tracker.seen } := ⟨_, rfl⟩
  have hview : ∀ k, tr.view k = t.tracker.view k := fun k => by rw [htr]; rfl
  have hingest : ingest cfg.printable (s'.events.drop t.service.events.length) t.tracker
      = (.ok (), (cellLanes s'.memory region.memoryId offset width.toNat).foldl
        (observeLane (cfg.str key)) tr) := by
    rw [hevents, drop_left, ingest_quiet_append hquiet]
    refine ingest_singleton ((once_of_new hnew _).trans ?_)
    rw [htr]
    exact each_readLane (cfg.str key) _ _ hnodup (ht.agrees.agree_cellLanes hkeep hdet)
  have htracker : (t.advance cfg (.read key address width) answer s').tracker
      = (cellLanes s'.memory region.memoryId offset width.toNat).foldl
        (observeLane (cfg.str key)) tr := by
    rw [advance, hingest]
    rfl
  refine ⟨⟨hs', ?_, ?_, ?_⟩, _, ?_, StepEdges.fetched
    (cellLanes s'.memory region.memoryId offset width.toNat) rfl hkeep fun lane hlane => ?_⟩
  · rw [htracker]
    refine ht.agrees.fetched region.memoryId offset width.toNat (cfg.str key) hgen
      ⟨region, (MemoryConfig.resolve_spec hres).1, rfl⟩ hkeep
      (fun k cell hk => (hs'.memory.versioned k cell hk).2.1) ?_ hdet (fun k version => ?_)
      (fun k hk cell hcell => ?_) (fun k hk => ?_)
    · intro id
      dsimp only [advance]
      rw [hm']
      exact commitSequence_le_materialize ..
    · dsimp only [advance]
      rw [hevents, readersOf_append, readersOf_append, readersOf_quiet hquiet, nil_append,
        readersOf_readEvent cfg key address width hdet, hgen]
      congr 1
    · rw [← hgen] at hk
      have hlane := hlocal.foldl_view _ tr hnodup (k, cell.writerEventId, cell.version)
        ((mem_cellLanes hdet).2 ⟨hk, cell, hcell, rfl⟩)
      rw [hlane, hview]
    · rw [← hgen, ← hkeys] at hk
      rw [hlocal.foldl_view_of_notMem _ tr hk, hview]
  · rw [htracker]
    dsimp only [advance]
    rw [hevents, ← append_assoc]
    refine (ht.marks.quiet hquiet rfl).marked rfl hledger hkey ?_
    rw [hlocal.foldl_rest, htr]
  · dsimp only [advance]
    rw [ht.accepted, hingest]
    rfl
  · rw [htracker, hlocal.foldl_log _ tr hnodup, htr]
  · obtain ⟨hmem, hcell⟩ := (mem_cellLanes hdet).1 hlane
    exact ⟨(mem_imageLanes.1 hmem).2.1, hcell⟩

/-- **A store** starts a version of its enabled bytes, or is only marked. -/
theorem sound_stored (ht : t.Inv cfg) {value byteEnable : ℤ}
    
    (hs' : s'.Inv cfg) (hfresh : t.service.ledger.Fresh key)
    (hres : cfg.memory.resolve address width true = .ok (region, offset))
    (hfits : Fits value width byteEnable)
    (hm' : s'.memory = t.service.memory.storeMemory region.memoryId offset value width byteEnable
      (cfg.str key))
    (hevents : s'.events = t.service.events ++ [storeEvent t.service.memory key region.memoryId
      offset address value width byteEnable])
    (hledger : ∀ k, (t.service.ledger.entries.get? k).isSome → (s'.ledger.entries.get? k).isSome)
    (hkey : (s'.ledger.entries.get? key).isSome) :
    Sound cfg t (.write key address value width byteEnable)
      (t.advance cfg (.write key address value width byteEnable) answer s') := by
  have hnew := ht.marks.notMem_of_fresh hfresh .memoryWrite
  obtain ⟨tr, htr⟩ : ∃ tr : StateDependencyTracker, tr = { t.tracker with
      seen := insert (.memoryWrite, cfg.str key) t.tracker.seen } := ⟨_, rfl⟩
  have hview : ∀ k, tr.view k = t.tracker.view k := fun k => by rw [htr]; rfl
  have hreaders : ∀ k version, readersOf cfg.printable s'.events k version
      = readersOf cfg.printable t.service.events k version := by
    intro k version
    rw [hevents, readersOf_append]
    exact append_nil _
  have hmarks : ∀ tr' : StateDependencyTracker, tr'.seen = tr.seen → Marks cfg s'.ledger s'.events tr' := by
    intro tr' hseen
    rw [hevents]
    exact ht.marks.marked rfl hledger hkey (by rw [hseen, htr])
  by_cases hbe : byteEnable = 0
  · have hingest : ingest cfg.printable (s'.events.drop t.service.events.length) t.tracker
        = (.ok (), tr) := by
      rw [hevents, drop_left]
      refine ingest_singleton ((once_of_new hnew _).trans ?_)
      rw [storeVersion, if_pos hbe, htr]
      rfl
    have hmem : s'.memory = t.service.memory := by
      rw [hm', storeMemory, if_pos hbe]
    refine ⟨⟨hs', ?_, ?_, ?_⟩, [], ?_, StepEdges.nil fun k cell hk => ?_⟩
    · dsimp only [advance, follow]
      rw [hingest, hmem]
      exact ht.agrees.quiet rfl (fun _ _ hk => hk) (fun _ => le_refl _) hreaders hview
    · dsimp only [advance, follow]
      rw [hingest]
      exact hmarks tr rfl
    · dsimp only [advance]
      rw [ht.accepted, hingest]
      rfl
    · dsimp only [advance, follow]
      rw [hingest, append_nil, htr]
    · dsimp only [advance]
      rw [hmem]
      exact hk
  · have hover := overwrites_store (m := t.service.memory) hres hfits hbe (cfg.str key)
    rw [← hm'] at hover
    have hlocal := isLocal_writeLane (cfg.str key)
      (t.service.memory.generation, t.service.memory.commitSequence region.memoryId + 1)
    generalize hlanes : writeLanes region.memoryId t.service.memory.generation offset width byteEnable
      = lanes at hover
    have hnodup : (lanes.map id).Nodup := by
      rw [map_id]
      exact hover.nodup
    have hingest : ingest cfg.printable (s'.events.drop t.service.events.length) t.tracker
        = (.ok (), lanes.foldl (writeLane (cfg.str key) (t.service.memory.generation,
          t.service.memory.commitSequence region.memoryId + 1)) tr) := by
      rw [hevents, drop_left]
      refine ingest_singleton ((once_of_new hnew _).trans ?_)
      rw [storeVersion, if_neg hbe, htr, ← hlanes]
      rfl
    have hlane : ∀ k ∈ lanes, (lanes.foldl (writeLane (cfg.str key) (t.service.memory.generation,
        t.service.memory.commitSequence region.memoryId + 1)) tr).view k = (some (cfg.str key,
          t.service.memory.generation, t.service.memory.commitSequence region.memoryId + 1), []) :=
      fun k hk => hlocal.foldl_view lanes tr hnodup k hk
    refine ⟨⟨hs', ?_, ?_, ?_⟩, _, ?_, StepEdges.overwritten ht.service.memory ht.agrees hover
      (fun k _ => dependsOn_writeEdges (cfg.str key) k (t.tracker.view k)) fun k hk _ => ?_⟩
    · dsimp only [advance, follow]
      rw [hingest]
      refine ht.agrees.overwritten hover hreaders (fun k hk => .inl (hlane k hk)) fun k hk => ?_
      rw [hlocal.foldl_view_of_notMem lanes tr (by rwa [map_id]), hview]
    · dsimp only [advance, follow]
      rw [hingest]
      exact hmarks _ (hlocal.foldl_rest lanes tr)
    · dsimp only [advance]
      rw [ht.accepted, hingest]
      rfl
    · dsimp only [advance, follow]
      rw [hingest, hlocal.foldl_log lanes tr hnodup, htr]
      rfl
    · dsimp only [advance, follow]
      rw [hingest]
      exact congrArg Prod.fst (hlane k hk)

theorem ingest_none (printable : Char → Bool) (events : List MemoryEvent) (tr : StateDependencyTracker) :
    ingest printable (events.drop events.length) tr = (.ok (), tr) := by
  rw [drop_length]
  rfl

/-- **A reset image** starts a version of the bytes that were seen. -/
theorem sound_reinstalled (ht : t.Inv cfg) {data : List UInt8} {eventId : String}
    
    (hplace : Placed cfg.memory address 1 false data.length region offset)
    (hm' : m' = t.service.memory.commit region.memoryId (spanValues region.memoryId offset data)
      .resetImage fun _ => eventId)
    (hs' : MemoryService.Inv cfg { t.service with memory := m' }) {version : Version}
    (hversion : version = (t.service.memory.generation,
      t.service.memory.commitSequence region.memoryId + 1)) :
    Sound cfg t (.reinstallImage address data eventId)
      (t.advance cfg (.reinstallImage address data eventId)
        (.ok (.memory (.image region.memoryId offset version)))
        { t.service with memory := m' }) := by
  have hover := overwrites_image (m := t.service.memory) hplace eventId
  rw [← hm', ← hversion] at hover
  have hlocal := isLocal_installLane eventId version
  generalize hlanes : imageLanes region.memoryId t.service.memory.generation offset data.length
    = lanes at hover
  have hnodup : (lanes.map id).Nodup := by
    rw [map_id]
    exact hover.nodup
  have htracker : (t.advance cfg (.reinstallImage address data eventId)
      (.ok (.memory (.image region.memoryId offset version)))
      { t.service with memory := m' }).tracker
        = lanes.foldl (installLane eventId version) t.tracker := by
    dsimp only [advance, follow, installImage]
    rw [ingest_none, ← hlanes, hversion]
  have hlane : ∀ k ∈ lanes, (lanes.foldl (installLane eventId version) t.tracker).view k
      = if (t.tracker.view k).1 = none then t.tracker.view k else (some (eventId, version), []) :=
    fun k hk => hlocal.foldl_view lanes t.tracker hnodup k hk
  refine ⟨⟨hs', ?_, ?_, ?_⟩, _, ?_, StepEdges.overwritten ht.service.memory ht.agrees hover
    (fun k _ => dependsOn_installEdges eventId k (t.tracker.view k)) fun k hk hsome => ?_⟩
  · rw [htracker]
    refine ht.agrees.overwritten hover (fun _ _ => rfl) (fun k hk => ?_) fun k hk => ?_
    · rw [hlane k hk]
      split_ifs with hnone
      · exact .inr ⟨hnone, rfl⟩
      · exact .inl rfl
    · rw [hlocal.foldl_view_of_notMem lanes t.tracker (by rwa [map_id])]
  · rw [htracker]
    exact ⟨fun e he a ha => (hlocal.foldl_rest lanes t.tracker).symm ▸ ht.marks.seen e he a ha,
      fun a ha => ht.marks.known a (hlocal.foldl_rest lanes t.tracker ▸ ha)⟩
  · dsimp only [advance]
    rw [ht.accepted, ingest_none]
    rfl
  · rw [htracker, hlocal.foldl_log lanes t.tracker hnodup]
    rfl
  · rw [htracker]
    have hview := hlane k hk
    rw [if_neg (Option.isSome_iff_ne_none.1 hsome)] at hview
    exact congrArg Prod.fst hview

/-- Invalidating the old generation of every memory forgets what was seen of them. -/
theorem foldl_invalidateGeneration (generation : ℕ) (resetIdentity : String) :
    ∀ (regions : List MemoryRegion) (tr : StateDependencyTracker),
      Invalidates tr (regions.foldl (fun tr region =>
        (tr.invalidateGeneration region.memoryId generation resetIdentity).2) tr) ∧
      ∀ key, (regions.foldl (fun tr region =>
          (tr.invalidateGeneration region.memoryId generation resetIdentity).2) tr).view key
        = if (∃ region ∈ regions, region.memoryId = key.1) ∧ key.2.1 = generation ∧
            (tr.view key).1.isSome then (none, [])
          else tr.view key
  | [], tr => ⟨.refl _, fun key => by simp⟩
  | region :: regions, tr => by
      obtain ⟨hrest, hview⟩ := foldl_invalidateGeneration generation resetIdentity regions
        (tr.invalidateGeneration region.memoryId generation resetIdentity).2
      refine ⟨((foldl_invalidateEntry ..).1).trans hrest, fun key => ?_⟩
      rw [foldl_cons, hview, view_invalidateGeneration]
      simp only [exists_mem_cons_iff]
      grind

/-- **A cold reset** forgets everything. -/
theorem sound_cold (ht : t.Inv cfg) (resetIdentity : String) (answer : Except Exn ServiceAnswer)
    (hs' : MemoryService.Inv cfg { t.service with memory := t.service.memory.coldReset cfg.memory }) :
    Sound cfg t (.coldReset resetIdentity) (t.advance cfg (.coldReset resetIdentity) answer
      { t.service with memory := t.service.memory.coldReset cfg.memory }) := by
  obtain ⟨hinv, hview⟩ := foldl_invalidateGeneration t.service.memory.generation resetIdentity
    cfg.memory.regions t.tracker
  have htracker : (t.advance cfg (.coldReset resetIdentity) answer
      { t.service with memory := t.service.memory.coldReset cfg.memory }).tracker
        = cfg.memory.regions.foldl (fun tr region => (tr.invalidateGeneration region.memoryId
          t.service.memory.generation resetIdentity).2) t.tracker := by
    dsimp only [advance, follow]
    rw [ingest_none]
  rw [← htracker] at hinv hview
  obtain ⟨hseen, new, hnew, hkind⟩ := hinv
  have hgen : t.service.memory.generation < (t.service.memory.coldReset cfg.memory).generation :=
    Nat.lt_succ_self _
  have hnone : ∀ e ∈ new, ∀ kind, kind ≠ EdgeKind.invalidate → e.kind ≠ kind :=
    fun e he kind hk heq => hk (heq.symm.trans (hkind e he))
  refine ⟨⟨hs', ht.agrees.cold hgen fun key => ?_, ?_, ?_⟩, new, hnew, fun e he hk => ?_,
    fun e he hk => ?_, fun e he hk => ?_, fun key old cell hov => ?_⟩
  · rw [hview]
    split_ifs with h
    · rfl
    · rcases ht.agrees.follows key with hnone | ⟨cell, hg, hregion, -, heq⟩
      · exact hnone
      · exact absurd ⟨hregion, hg, by rw [heq]; rfl⟩ h
  · exact ⟨fun e he a ha => hseen.symm ▸ ht.marks.seen e he a ha, fun a ha => ht.marks.known a (hseen ▸ ha)⟩
  · dsimp only [advance]
    rw [ht.accepted, ingest_none]
    rfl
  · rcases hk with hk | hk <;> exact absurd hk (hnone e he _ (by decide))
  · exact absurd hk (hnone e he _ (by decide))
  · exact absurd hk (hnone e he _ (by decide))
  · have hsame := hov.before.trans hov.after.symm
    exact absurd hsame hgen.ne

/-- A step that changes neither memory nor events. -/
theorem sound_same (ht : t.Inv cfg) (hfollow : ∀ g tr, follow cfg g c answer tr = tr)
    (hs' : s'.Inv cfg) (hmem : s'.memory = t.service.memory)
    (hevents : s'.events = t.service.events) (hledger : s'.ledger = t.service.ledger) :
    Sound cfg t c (t.advance cfg c answer s') :=
  sound_quiet ht hfollow hs' (by rw [hmem]) (fun k cell hk => by rwa [hmem])
    (fun id => by rw [hmem]) (by rw [hevents, append_nil])
    (fun e he => absurd he not_mem_nil) hledger

/-- **A memory call** other than a cold reset. -/
theorem sound_memory (ht : t.Inv cfg) {mc : MemoryCall} (hc : c.call = .memory mc)
    (hcold : ∀ identity, c ≠ .coldReset identity) : Sound cfg t c (t.step cfg c) := by
  have hs' := ht.service.move (MemoryService.move_call ht.service c.call)
  rw [step]
  rw [hc] at hs' ⊢
  dsimp only [MemoryService.call] at hs' ⊢
  cases hcall : t.service.memory.call cfg.memory mc with
  | mk answer m' =>
    rw [hcall] at hs'
    cases answer with
    | error e =>
      have hsame : m' = t.service.memory := by
        have := call_error ht.service.memory (congrArg Prod.fst hcall)
        rwa [hcall] at this
      refine sound_same ht (fun g tr => ?_) hs' hsame rfl rfl
      cases c <;> first | rfl | exact absurd rfl (hcold _)
    | ok a =>
      cases c with
      | preload address data =>
        cases hc
        cases change_call hcall with
        | preloaded hplace hne hfree hroom =>
          refine sound_quiet ht (fun _ _ => rfl) hs' rfl (fun k cell hk => ?_) (fun _ => le_refl _)
            (append_nil _).symm (nofun) rfl
          refine get?_setCells_of_some (nodup_spanValues ..) (fun k hk => ?_) _ _ _ hk
          rw [map_fst_spanValues] at hk
          exact (hfree k hk).1
      | declareInstructionSlots address count =>
        cases hc
        cases change_call hcall with
        | declared =>
          exact sound_quiet ht (fun _ _ => rfl) hs' rfl (fun k cell hk => hk) (fun _ => le_refl _)
            (append_nil _).symm (nofun) rfl
      | reinstallImage address data eventId =>
        cases hc
        cases change_call hcall with
        | reinstalled hplace => exact sound_reinstalled ht hplace rfl hs' rfl
      | warmReset =>
        cases hc
        cases change_call hcall with
        | warm =>
          exact sound_quiet ht (fun _ _ => rfl) hs' rfl (fun k cell hk => hk) (fun _ => le_refl _)
            (append_nil _).symm (nofun) rfl
      | coldReset identity => exact absurd rfl (hcold identity)
      | _ => cases hc

theorem isSome_completed {ledger : TransactionLedger String ServiceReceipt} {d : String}
    {r : ServiceReceipt} :
    (∀ k, (ledger.entries.get? k).isSome → ((ledger.completed key d r).entries.get? k).isSome) ∧
      ((ledger.completed key d r).entries.get? key).isSome := by
  constructor
  · intro k hk
    rw [TransactionLedger.get?_completed]
    split_ifs
    · rfl
    · exact hk
  · rw [TransactionLedger.get?_completed, if_pos rfl]
    rfl

/-- **Every step is sound**, if its store fits in 64 bits. -/
theorem sound_step (ht : t.Inv cfg) (c : TrackedCall) (hfit : t.StoreFits cfg c) :
    Sound cfg t c (t.step cfg c) := by
  have hmove := move_call ht.service c.call
  have hs' := ht.service.move hmove
  cases c with
  | read key address width =>
    rw [step]
    generalize (t.service.call cfg (TrackedCall.read key address width).call).1 = answer at hmove ⊢
    generalize (t.service.call cfg (TrackedCall.read key address width).call).2 = s' at hmove hs' ⊢
    cases hmove with
    | refused | replayed => exact sound_same ht (fun _ _ => rfl) hs' rfl rfl rfl
    | @fetched _ _ _ region offset hfresh hres hr m' hm' snapshot hsnapshot events hevents =>
      subst hsnapshot
      refine sound_fetched ht hs' hfresh hres hm' (fun e he => ?_) (append_assoc ..)
        isSome_completed.1 isSome_completed.2
      obtain ⟨b, -, hb⟩ := mem_of_mapM_eq_ok hevents he
      exact quiet_initializationEvent hb
  | write key address value width byteEnable =>
    rw [step]
    generalize (t.service.call cfg (TrackedCall.write key address value width byteEnable).call).1
      = answer at hmove ⊢
    generalize (t.service.call cfg (TrackedCall.write key address value width byteEnable).call).2
      = s' at hmove hs' ⊢
    cases hmove with
    | refused | replayed => exact sound_same ht (fun _ _ => rfl) hs' rfl rfl rfl
    | stored hfresh hfull hres hfits hroom hcount hreceipt =>
      refine sound_stored ht hs' hfresh hres hfits ?_ ?_ ?_ ?_
      · rw [memory_published]
      · rw [events_published]
      · rw [ledger_published]
        exact isSome_completed.1
      · rw [ledger_published]
        exact isSome_completed.2
    | uncertain hfresh hfull hres hfits hroom hcount => exact absurd (hfit _ _ hres) hcount
  | acceptInstructions address data sourceEventId =>
    rw [step]
    generalize (t.service.call cfg
      (TrackedCall.acceptInstructions address data sourceEventId).call).1 = answer at hmove ⊢
    generalize (t.service.call cfg
      (TrackedCall.acceptInstructions address data sourceEventId).call).2 = s' at hmove hs' ⊢
    cases hmove with
    | refused => exact sound_same ht (fun _ _ => rfl) hs' rfl rfl rfl
    | replayed hc => cases hc
    | accepted hacc =>
      cases change_acceptInstructions hacc with
      | @accepted _ _ _ region offset hplace hdata hsource hslots hroom _ hm' =>
        subst hm'
        refine sound_quiet ht (fun _ _ => rfl) hs' rfl (fun k cell hk => ?_)
          (commitSequence_le_commit t.service.memory region.memoryId
            (spanValues region.memoryId offset data) .instructionSource fun _ => sourceEventId)
          rfl (fun e he => ?_) rfl
        · have hnot : k ∉ (spanValues region.memoryId offset data).map Prod.fst := by
            intro hmem
            rw [map_fst_spanValues] at hmem
            rw [(hslots k hmem).2] at hk
            cases hk
          exact (get?_commit_of_notMem t.service.memory region.memoryId (nodup_spanValues ..)
            .instructionSource (fun _ => sourceEventId) hnot).trans hk
        · rw [mem_singleton.1 he]
          exact fun _ => rfl
  | preload address data | declareInstructionSlots address count
  | reinstallImage address data eventId
  | warmReset => exact sound_memory ht rfl fun _ h => by cases h
  | coldReset identity => exact sound_cold ht identity _ hs'
  | ackCommitEvents ids =>
    rw [step]
    generalize (t.service.call cfg (TrackedCall.ackCommitEvents ids).call).1 = answer at hmove ⊢
    generalize (t.service.call cfg (TrackedCall.ackCommitEvents ids).call).2 = s' at hmove hs' ⊢
    cases hmove with
    | refused => exact sound_same ht (fun _ _ => rfl) hs' rfl rfl rfl
    | replayed hc => cases hc
    | acknowledged => exact sound_same ht (fun _ _ => rfl) hs' rfl rfl rfl

/-! ## Runs -/

theorem inv_run (cfg : ServiceConfig) (cs : List TrackedCall)
    (hfit : Guarded (step cfg) (StoreFits cfg) (init cfg) cs) :
    (run (step cfg) (init cfg) cs).Inv cfg :=
  run_invariant_of_guarded (P := Inv cfg) (fun _ c ht hc => (sound_step ht c hc).1) cs
    (inv_init cfg) hfit

/-- **The tracker agrees with the memory that produced its events.** In every run whose versions fit in 64
bits no event is refused, the edges of a step name the cells before and after it, and ingesting events again
adds nothing. -/
theorem tracker_agrees_with_memory (cfg : ServiceConfig) (cs : List TrackedCall)
    (hfit : Guarded (step cfg) (StoreFits cfg) (init cfg) cs) :
    (run (step cfg) (init cfg) cs).failed = false ∧ (∀ before c after, cs = before ++ c :: after → ∃ new,
      (run (step cfg) (init cfg) (before ++ [c])).tracker.edges
        = (run (step cfg) (init cfg) before).tracker.edges ++ new ∧
      StepEdges cfg (run (step cfg) (init cfg) before) c
        (run (step cfg) (init cfg) (before ++ [c])) new) ∧
    ∀ events : List MemoryEvent, (∀ e ∈ events, e ∈ (run (step cfg) (init cfg) cs).service.events) →
      ingest cfg.printable events (run (step cfg) (init cfg) cs).tracker
        = (.ok (), (run (step cfg) (init cfg) cs).tracker) := by
  have ht := inv_run cfg cs hfit
  refine ⟨ht.accepted, fun before c after hcs => ?_, fun events hevents => ?_⟩
  · rw [hcs, guarded_append] at hfit
    rw [run_concat]
    exact (sound_step (inv_run cfg before hfit.1) c hfit.2.1).2
  · exact ingest_seen fun e he => ht.marks.seen e (hevents e he)

/-- A service over sixteen bytes, in generations 0 and `2 ^ 64`. -/
def exampleTracked : ServiceConfig :=
  { MemoryService.exampleService 16 with
    memory := { MemoryService.exampleMemory 16 with
      initialByte := fun _ _ generation offset =>
        if generation = 0 ∧ offset = 0 then 214
        else if generation = 2 ^ 64 ∧ offset = 0 then 179
        else 0 }
    commitHash := fun _ => "22cc7f9ff37f04ed576372c23e6f0e9c7f2bfd8d27302e14d8e9a4594274b0e5" }

/-- A store and a read of it. -/
def exampleAccesses : List TrackedCall :=
  [.write (LedgerSystem.exampleKey 1) 0 1 1 1, .read (LedgerSystem.exampleKey 2) 0 1]

/-- No event of this run is refused, and its edges lead from the store to the read. -/
theorem edges_of_store_and_read :
    (run (step exampleTracked) (init exampleTracked) exampleAccesses).failed = false ∧
      (run (step exampleTracked) (init exampleTracked) exampleAccesses).tracker.edges
        = [⟨.raw, exampleTracked.str (LedgerSystem.exampleKey 1),
            exampleTracked.str (LedgerSystem.exampleKey 2), "ram", 0, 0, some (0, 1)⟩,
          ⟨.persist, exampleTracked.str (LedgerSystem.exampleKey 1),
            exampleTracked.str (LedgerSystem.exampleKey 2), "ram", 0, 0, some (0, 1)⟩] := by
  refine ⟨(tracker_agrees_with_memory exampleTracked exampleAccesses ⟨?_, trivial, trivial⟩).1,
    by decide +kernel⟩
  intro region offset hres
  change Except.ok (exampleRegion, 0) = Except.ok (region, offset) at hres
  cases Except.ok.inj hres
  exact ⟨by decide, fun _ => by decide⟩

/-- Cold resets of a new service only count generations. -/
theorem run_coldReset : ∀ n : ℕ,
    run (step exampleTracked) (init exampleTracked) (List.replicate n (.coldReset "reset:1"))
      = { init exampleTracked with
        service := { MemoryService.init exampleTracked with
          memory := { PersistentMemory.init exampleTracked.memory with generation := n } } }
  | 0 => rfl
  | n + 1 => by
      rw [replicate_succ', run_concat, run_coldReset n]
      rfl

/-- **A store beyond 64 bits contradicts the tracker**: it changes the memory and records no event,
so a read of another channel is refused. -/
theorem events_not_always_accepted :
    ¬ ∀ (cfg : ServiceConfig) (cs : List TrackedCall), (run (step cfg) (init cfg) cs).failed = false := by
  intro h
  have h' := h exampleTracked (List.replicate (2 ^ 64) (.coldReset "reset:1") ++
    [.read (LedgerSystem.exampleKey 1) 0 1, .write (LedgerSystem.exampleKey 2) 0 1 1 1,
      .read ⟨"execution", "case", "cpu", 0, "code", 1, by decide⟩ 0 1])
  rw [run_append, run_coldReset] at h'
  exact absurd h' (by decide +kernel)

end Tracked

end MyFuzz
