import MyFuzz.Scenario.EventJournal

/-!
# Scenario/JournalPrefix — a snapshot reads a fixed prefix

A journal `Holds` a list of events when its chunks, the current one last, concatenate to it.  By
index or by slice a snapshot reads the events it was taken over, whatever was appended since.  An
iteration sets out over the chunks that are complete at its first item and takes the current chunk
after them, so a chunk completed in between is skipped; `Reading.Good` is what is kept as long as
that does not happen:

    chunks left next rest     yielded ++ rest = the events before chunk `next`
    tail number position      yielded = the events before `position` of chunk `number`
-/

namespace MyFuzz

open Run Effect Sequence SnapshotIter

open List hiding next

variable {ε : Type} {cfg : JournalConfig}

variable {number : ℕ} {j' : EventJournal ε} {log : List ε} {v : JournalView ε}

/-! ## The journal -/

namespace EventJournal

/-- The journal holds these events. -/
structure Holds (cfg : JournalConfig) (log : List ε) (j : EventJournal ε) : Prop where
  chunk_length : ∀ c ∈ j.file, c.length = cfg.chunkSize
  current_lt : j.current.length < cfg.chunkSize
  events : j.file.flatten ++ j.current = log
  count : j.count = log.length
  cached : ∀ {n c}, j.cache.get? n = some c → j.file[n]? = some c

variable {j : EventJournal ε} {log : List ε}

theorem holds_init : Holds cfg [] (init : EventJournal ε) where
  chunk_length := nofun
  current_lt := cfg.chunkSize_pos
  events := rfl
  count := rfl
  cached := fun h => nomatch h

theorem Holds.append (h : Holds cfg log j) (event : ε) : Holds cfg (log ++ [event]) (j.append cfg event) := by
  have hevents : j.file.flatten ++ (j.current ++ [event]) = log ++ [event] := by
    rw [← List.append_assoc, h.events]
  have hlt := h.current_lt
  have hlen : (j.current ++ [event]).length = j.current.length + 1 := by simp
  unfold EventJournal.append flush
  split_ifs with hfull
  · exact
      { chunk_length := fun c hc => by
          rcases List.mem_append.1 hc with hc | hc
          · exact h.chunk_length c hc
          · rw [List.mem_singleton.1 hc]
            exact hfull
        current_lt := cfg.chunkSize_pos
        events := by simpa using hevents
        count := by simp [h.count]
        cached := fun hn => List.getElem?_append_left
          (List.getElem?_eq_some_iff.1 (h.cached hn)).1 ▸ h.cached hn }
  · exact
      { chunk_length := h.chunk_length
        current_lt := by
          change (j.current ++ [event]).length ≠ _ at hfull
          change (j.current ++ [event]).length < _
          omega
        events := hevents
        count := by simp [h.count]
        cached := h.cached }

theorem file_append_grows (event : ε) : j.file <+: (j.append cfg event).file := by
  unfold EventJournal.append flush
  split_ifs with hfull
  · exact prefix_append _ _
  · exact prefix_refl _

/-- The events that fill the chunks of the file, and no more. -/
theorem Holds.length_log (h : Holds cfg log j) :
    log.length = j.file.length * cfg.chunkSize + j.current.length := by
  rw [← h.events, length_append, length_flatten h.chunk_length]

theorem Holds.mul_le (h : Holds cfg log j) {n : ℕ} (hn : n ≤ j.file.length) :
    n * cfg.chunkSize ≤ log.length := by
  rw [h.length_log]
  exact (Nat.mul_le_mul_right _ hn).trans (Nat.le_add_right _ _)

/-- **Item `offset` of chunk `number` is the event it should be.** -/
theorem Holds.getElem?_listObject (h : Holds cfg log j) {offset : ℕ} (hn : number ≤ j.file.length)
    (ho : offset < cfg.chunkSize) :
    (j.listObject number)[offset]? = log[number * cfg.chunkSize + offset]? := by
  rw [← h.events, getElem?_flatten_append cfg.chunkSize_pos j.current h.chunk_length ho hn]
  unfold listObject
  split_ifs with heq
  · simp [heq]
  · rw [getElem?_append_left (lt_of_le_of_ne hn heq)]

theorem Holds.length_listObject (h : Holds cfg log j) (hn : number < j.file.length) :
    (j.listObject number).length = cfg.chunkSize := by
  unfold listObject
  rw [if_neg hn.ne, getElem?_eq_getElem hn]
  exact h.chunk_length _ (getElem_mem hn)

/-- The events up to a complete chunk and the chunk make the events up to the next. -/
theorem Holds.take_append_listObject (h : Holds cfg log j) (hn : number < j.file.length) :
    log.take (number * cfg.chunkSize) ++ j.listObject number
      = log.take ((number + 1) * cfg.chunkSize) := by
  rw [Nat.succ_mul, take_add]
  congr 1
  apply ext_getElem?
  intro i
  by_cases hi : i < cfg.chunkSize
  · rw [h.getElem?_listObject hn.le hi, getElem?_take_of_lt hi, getElem?_drop]
  · have hlen := h.length_listObject hn
    rw [getElem?_eq_none (by omega), getElem?_eq_none]
    exact (length_take_le _ _).trans (not_lt.1 hi)

/-! ## Reading -/

/-- The file holds these chunks and the journal these events. -/
def Stands (cfg : JournalConfig) (log : List ε) (file : List (List ε)) (j : EventJournal ε) : Prop :=
  Holds cfg log j ∧ j.file = file

theorem Holds.recache (h : Holds cfg log j) {cache : Dict ℕ (List ε)} {loads : ℕ}
    (hc : ∀ {n c}, cache.get? n = some c → j.file[n]? = some c) :
    Holds cfg log { j with cache := cache, chunkLoads := loads } :=
  ⟨h.chunk_length, h.current_lt, h.events, h.count, hc⟩

theorem Holds.remember (h : Holds cfg log j) {c : List ε} (hc : j.file[number]? = some c) :
    Holds cfg log (j.remember cfg number c) := by
  have hset : ∀ {n d}, (j.cache.set number c).get? n = some d → j.file[n]? = some d := by
    intro n d hn
    rw [Dict.get?_set] at hn
    split_ifs at hn with heq
    · rw [heq, hc, hn]
    · exact h.cached hn
  refine h.recache fun {n d} hn => hset ?_
  split_ifs at hn with hfull
  · exact Dict.get?_of_get?_popFirst hn
  · exact hn

/-- Reading a chunk changes the cache only. -/
theorem stands_chunk (log : List ε) (file : List (List ε)) (number : ℕ) :
    Effect.Preserves (Stands cfg log file) (chunk cfg number) := by
  rintro j ⟨h, hfile⟩
  unfold chunk
  split_ifs with heq
  · exact ⟨h, hfile⟩
  · cases hcache : j.cache.get? number with
    | some c =>
      refine ⟨h.recache fun {n d} hn => h.cached ?_, hfile⟩
      rwa [Dict.get?_moveToEnd] at hn
    | none =>
      cases hc : j.file[number]? with
      | some c => exact ⟨h.remember hc, hfile⟩
      | none => exact ⟨h, hfile⟩

/-- **A chunk is read back as it was written, from the cache or from the file.** -/
theorem Holds.chunk (h : Holds cfg log j) (hn : number ≤ j.file.length) :
    (chunk cfg number j).1 = .ok (j.listObject number) := by
  unfold EventJournal.chunk listObject
  split_ifs with heq
  · rfl
  · have hc : j.file[number]? = some (j.file[number]?.getD []) := by
      rw [getElem?_eq_getElem (lt_of_le_of_ne hn heq)]
      rfl
    cases hcache : j.cache.get? number with
    | some c =>
      have := h.cached hcache
      simp [this]
    | none => rw [hc]; rfl

theorem stands_getitem (log : List ε) (file : List (List ε)) (index : ℤ) :
    Effect.Preserves (Stands cfg log file) (getitem cfg index) := by
  refine .bind .get fun s => .bind (.lift _) fun place => .bind (stands_chunk log file _) fun chunk => ?_
  cases chunk[place % cfg.chunkSize]? with
  | some event => exact .pure event
  | none => exact .lift _

/-- **The journal is indexed as the list of its events.** -/
theorem Holds.getitem (h : Holds cfg log j) (i : ℤ) :
    (getitem cfg i j).1 = index "event index out of range" log i := by
  unfold EventJournal.getitem
  rw [bind_of_ok (get_apply j), h.count]
  cases hp : position "event index out of range" log.length i with
  | error e =>
    rw [bind_of_error (lift_apply _ j), index_of_error hp]
  | ok place =>
    have hlt : place < log.length := position_lt hp
    have hmod : place % cfg.chunkSize < cfg.chunkSize := Nat.mod_lt _ cfg.chunkSize_pos
    have hdiv : place / cfg.chunkSize ≤ j.file.length := by
      rw [← Nat.lt_succ_iff, Nat.div_lt_iff_lt_mul cfg.chunkSize_pos, Nat.succ_mul]
      have hlen := h.length_log
      have hcur := h.current_lt
      omega
    have hget : (j.listObject (place / cfg.chunkSize))[place % cfg.chunkSize]?
        = some (log.get ⟨place, hlt⟩) := by
      rw [h.getElem?_listObject hdiv hmod, Nat.mul_comm, Nat.div_add_mod, getElem?_eq_getElem hlt]
      rfl
    rw [bind_of_ok (lift_apply _ j), bind_of_fst (h.chunk hdiv), hget]
    exact (index_of_position hp (getElem?_eq_getElem hlt)).symm

end EventJournal

/-! ## Snapshots by index and by slice -/

namespace EventJournalSnapshot

open EventJournal

variable {v : EventJournalSnapshot} {j : EventJournal ε} {log : List ε}

theorem stands_getitem (log : List ε) (file : List (List ε)) (v : EventJournalSnapshot) (index : ℤ) :
    Effect.Preserves (Stands cfg log file) (v.getitem cfg index) :=
  .bind (.lift _) fun _ => EventJournal.stands_getitem log file _

theorem stands_getitems (log : List ε) (file : List (List ε)) : ∀ positions : List ℤ,
    Effect.Preserves (Stands cfg log file) (getitems cfg positions)
  | [] => .pure []
  | position :: positions =>
      .bind (EventJournal.stands_getitem log file position) fun _ =>
        .bind (stands_getitems log file positions) fun _ => .pure _

theorem stands_getslice (log : List ε) (file : List (List ε)) (v : EventJournalSnapshot)
    (slice : Slice) : Effect.Preserves (Stands cfg log file) (v.getslice cfg slice) :=
  .bind (.lift _) fun _ => stands_getitems log file _

theorem length_taken (hv : v.count ≤ log.length) : (log.take v.count).length = v.count :=
  length_take_of_le hv

/-- **A snapshot is indexed as the first events of the journal.** -/
theorem getitem_eq (h : Holds cfg log j) (hv : v.count ≤ log.length) (i : ℤ) :
    (v.getitem cfg i j).1
      = index "event index out of range" (log.take v.count) i := by
  unfold getitem
  cases hp : position "event index out of range" v.count i with
  | error e =>
    rw [bind_of_error (lift_apply _ j)]
    exact (index_of_error ((length_taken hv).symm ▸ hp)).symm
  | ok place =>
    have hlt : place < v.count := position_lt hp
    have hlog : place < log.length := lt_of_lt_of_le hlt hv
    have hget : log[place]? = some (log.get ⟨place, hlog⟩) := getElem?_eq_getElem hlog
    have hcast : position "event index out of range" log.length place = .ok place :=
      position_of_lt (Int.natCast_nonneg place) (Int.ofNat_lt.2 hlog)
    rw [bind_of_ok (lift_apply _ j), h.getitem, index_of_position hcast hget]
    refine (index_of_position ((length_taken hv).symm ▸ hp) ?_).symm
    rw [getElem?_take_of_lt hlt, hget]

theorem getitems_eq (hv : v.count ≤ log.length) : ∀ {positions : List ℤ} {j : EventJournal ε},
    Holds cfg log j → (∀ p ∈ positions, 0 ≤ p ∧ p < v.count) → (getitems cfg positions j).1
      = .ok (positions.filterMap fun p => (log.take v.count)[p.toNat]?)
  | [], _, _, _ => rfl
  | p :: positions, j, h, hps => by
      obtain ⟨h0, hlt⟩ := hps p (.head _)
      have hplace : p.toNat < v.count := by omega
      have hlog : p.toNat < log.length := lt_of_lt_of_le hplace hv
      have hget : log[p.toNat]? = some (log.get ⟨p.toNat, hlog⟩) := getElem?_eq_getElem hlog
      have hevent : (EventJournal.getitem cfg p j).1 = .ok (log.get ⟨p.toNat, hlog⟩) := by
        rw [h.getitem]
        exact index_of_position (position_of_lt h0 (by omega)) hget
      have h' : Holds cfg log (EventJournal.getitem cfg p j).2 :=
        (EventJournal.stands_getitem log j.file p j ⟨h, rfl⟩).1
      have hrest := getitems_eq hv h' fun q hq => hps q (mem_cons_of_mem p hq)
      unfold getitems
      rw [bind_of_fst hevent, bind_of_fst hrest, filterMap_cons,
        getElem?_take_of_lt hplace, hget]
      rfl

/-- **A snapshot is sliced as the first events of the journal.** -/
theorem getslice_eq (h : Holds cfg log j) (hv : v.count ≤ log.length) (s : Slice) :
    (v.getslice cfg s j).1 = slice (log.take v.count) s := by
  unfold getslice slice
  rw [length_taken hv]
  cases hp : s.positions v.count with
  | error e => rw [bind_of_error (lift_apply _ j)]; rfl
  | ok positions =>
    rw [bind_of_ok (lift_apply _ j), getitems_eq hv h fun p => mem_positions hp]
    rfl

end EventJournalSnapshot

/-! ## Iterations -/

namespace JournalIter

open EventJournal

variable {j : EventJournal ε} {log : List ε}

theorem stands_nextOfTail (log : List ε) (file : List (List ε)) (number position : ℕ) :
    Effect.Preserves (Stands cfg log file) (nextOfTail number position) := by
  intro j h
  unfold nextOfTail
  cases (j.listObject number)[position]? with
  | some event | none => exact h

theorem stands_nextChunk (log : List ε) (file : List (List ε)) : ∀ left next : ℕ,
    Effect.Preserves (Stands cfg log file) (nextChunk cfg left next)
  | 0, _ => .bind .get fun s => stands_nextOfTail log file s.file.length 0
  | left + 1, next => by
      refine .bind (stands_chunk log file next) fun c => ?_
      cases c with
      | nil => exact stands_nextChunk log file left (next + 1)
      | cons event rest => exact .pure _

theorem stands_next (log : List ε) (file : List (List ε)) : ∀ it : JournalIter ε,
    Effect.Preserves (Stands cfg log file) (it.next cfg)
  | start => .bind .get fun s => stands_nextChunk log file s.file.length 0
  | chunks _ _ (_ :: _) => .pure _
  | chunks left next [] => stands_nextChunk log file left next
  | tail number position => stands_nextOfTail log file number position
  | done => .pure _

/-- Where an iteration that yielded `index` events stands; `count` events are wanted of it. -/
def Standing (cfg : JournalConfig) (log : List ε) (j : EventJournal ε) (index count : ℕ) :
    JournalIter ε → Prop
  | start => index = 0
  | chunks left next rest => next + left ≤ j.file.length ∧
      log.take index ++ rest = log.take (next * cfg.chunkSize) ∧ count < (next + left + 1) * cfg.chunkSize
  | tail number position => number ≤ j.file.length ∧ index = number * cfg.chunkSize + position ∧
      count < (number + 1) * cfg.chunkSize
  | done => False

variable {count index left next : ℕ} {it : JournalIter ε}

/-- An append does not move an iteration. -/
theorem Standing.append (hj : Holds cfg log j) (hle : index ≤ log.length) (event : ε)
    (h : Standing cfg log j index count it) :
    Standing cfg (log ++ [event]) (j.append cfg event) index count it := by
  have hfile : j.file.length ≤ (j.append cfg event).file.length := (file_append_grows event).length_le
  cases it with
  | start => exact h
  | chunks left next rest =>
    obtain ⟨hleft, hrest, hcount⟩ := h
    have hnext : next * cfg.chunkSize ≤ log.length := hj.mul_le (by omega)
    refine ⟨hleft.trans hfile, ?_, hcount⟩
    rw [take_append_of_le_length hle, take_append_of_le_length hnext]
    exact hrest
  | tail number position => exact ⟨h.1.trans hfile, h.2⟩
  | done => exact h

/-- The journal read differs in its cache only. -/
theorem Standing.of_file (hfile : j'.file = j.file) (h : Standing cfg log j index count it) :
    Standing cfg log j' index count it := by
  cases it with
  | start => exact h
  | chunks left next rest | tail number position => exact ⟨hfile ▸ h.1, h.2⟩
  | done => exact h

/-- The tail yields the event its position names. -/
theorem nextOfTail_eq (hj : Holds cfg log j) {position : ℕ} (hn : number ≤ j.file.length)
    (hlt : number * cfg.chunkSize + position < count)
    (hcount : count < (number + 1) * cfg.chunkSize) (hlog : count ≤ log.length) :
    ∃ it', (nextOfTail number position j).1
        = .ok (log[number * cfg.chunkSize + position]?, it') ∧
      Standing cfg log j (number * cfg.chunkSize + position + 1) count it' := by
  have hpos : position < cfg.chunkSize := by rw [Nat.succ_mul] at hcount; omega
  have hget := hj.getElem?_listObject hn hpos
  have hsome := getElem?_eq_getElem (l := log) (lt_of_lt_of_le hlt hlog)
  rw [hsome] at hget
  refine ⟨tail number (position + 1), ?_, hn, rfl, hcount⟩
  unfold nextOfTail
  rw [hget, hsome]

/-- The next chunk, while there is one, yields the event that follows the chunks before it. -/
theorem nextChunk_succ (hj : Holds cfg log j) (hleft : next + (left + 1) ≤ j.file.length)
    (hcount : count < (next + (left + 1) + 1) * cfg.chunkSize) :
    ∃ it', (nextChunk cfg (left + 1) next j).1 = .ok (log[next * cfg.chunkSize]?, it') ∧
      Standing cfg log j (next * cfg.chunkSize + 1) count it' := by
  have hnext : next < j.file.length := by omega
  have hget := hj.getElem?_listObject hnext.le cfg.chunkSize_pos
  have hlen := hj.length_listObject hnext
  have htake := hj.take_append_listObject hnext
  have hle := hj.mul_le hnext
  unfold nextChunk
  rw [bind_of_fst (hj.chunk hnext.le)]
  cases hobj : j.listObject next with
  | nil =>
    rw [hobj] at hlen
    exact absurd hlen.symm cfg.chunkSize_pos.ne'
  | cons event rest =>
    rw [hobj] at hget htake
    have hevent : log[next * cfg.chunkSize]? = some event := by simpa using hget.symm
    refine ⟨chunks left (next + 1) rest, by rw [hevent]; rfl, by omega, ?_, ?_⟩
    · rw [take_add_one, hevent, append_assoc]
      exact htake
    · rwa [show next + 1 + left + 1 = next + (left + 1) + 1 by omega]

/-- Setting out over the chunks, or over the current one when none is left. -/
theorem nextChunk_eq (hj : Holds cfg log j) (hleft : next + left ≤ j.file.length)
    (hcount : count < (next + left + 1) * cfg.chunkSize) (hlt : next * cfg.chunkSize < count)
    (hlog : count ≤ log.length) (hnot : left = 0 → next = j.file.length) :
    ∃ it', (nextChunk cfg left next j).1 = .ok (log[next * cfg.chunkSize]?, it') ∧
      Standing cfg log j (next * cfg.chunkSize + 1) count it' := by
  cases left with
  | succ left => exact nextChunk_succ hj hleft hcount
  | zero =>
    obtain rfl := hnot rfl
    unfold nextChunk
    rw [bind_of_ok (get_apply j)]
    exact nextOfTail_eq hj le_rfl (show j.file.length * cfg.chunkSize + 0 < count from hlt) hcount hlog

/-- **An iteration yields the next event of the prefix.** -/
theorem next_eq (hj : Holds cfg log j) (h : Standing cfg log j index count it) (hlt : index < count)
    (hlog : count ≤ log.length) (hnot : ∀ next, it = chunks 0 next [] → next = j.file.length) :
    ∃ it', (it.next cfg j).1 = .ok (log[index]?, it') ∧ Standing cfg log j (index + 1) count it' := by
  cases it with
  | start =>
    obtain rfl : index = 0 := h
    have hlen := hj.length_log
    have hcur := hj.current_lt
    have hcount : count < (0 + j.file.length + 1) * cfg.chunkSize := by
      rw [Nat.zero_add, Nat.succ_mul]
      omega
    change ∃ it', (nextChunk cfg j.file.length 0 j).1 = _ ∧ _
    simpa using nextChunk_eq hj (by omega) hcount (by omega) hlog fun h0 => h0.symm
  | chunks left next rest =>
    obtain ⟨hleft, hrest, hcount⟩ := h
    have hindex : index ≤ log.length := by omega
    cases rest with
    | nil =>
      have hle := hj.mul_le (n := next) (by omega)
      have hlen := congrArg List.length hrest
      simp only [append_nil, length_take_of_le hindex, length_take_of_le hle] at hlen
      subst hlen
      exact nextChunk_eq hj hleft hcount hlt hlog fun h0 => hnot next (h0 ▸ rfl)
    | cons event rest =>
      have hevent : log[index]? = some event := by
        have hinit : log.take index ++ event :: rest <+: log := hrest ▸ take_prefix _ _
        obtain ⟨suffix, hsuffix⟩ := hinit
        rw [← hsuffix, append_assoc,
          getElem?_append_right (length_take_le _ _), length_take_of_le hindex, Nat.sub_self]
        rfl
      refine ⟨chunks left next rest, by rw [hevent]; rfl, hleft, ?_, hcount⟩
      rw [take_add_one, hevent, append_assoc]
      exact hrest
  | tail number position =>
    obtain ⟨hn, rfl, hcount⟩ := h
    exact nextOfTail_eq hj hn hlt hcount hlog
  | done => exact h.elim

theorem nextOfTail_ok (number position : ℕ) (j : EventJournal ε) :
    ∃ r, (nextOfTail number position j).1 = .ok r := by
  unfold nextOfTail
  cases (j.listObject number)[position]? with
  | some event | none => exact ⟨_, rfl⟩

/-- An iteration does not raise, wherever the chunks stand. -/
theorem nextChunk_ok : ∀ {left next : ℕ} {j : EventJournal ε}, Holds cfg log j →
    next + left ≤ j.file.length → ∃ r, (nextChunk cfg left next j).1 = .ok r
  | 0, _, j, _, _ => nextOfTail_ok j.file.length 0 j
  | left + 1, next, j, hj, hleft => by
      unfold nextChunk
      have hj' := stands_chunk log j.file next j ⟨hj, rfl⟩
      rw [bind_of_fst (hj.chunk (by omega))]
      cases j.listObject next with
      | nil => exact nextChunk_ok hj'.1 (by rw [hj'.2]; omega)
      | cons event rest => exact ⟨_, rfl⟩

theorem next_ok (hj : Holds cfg log j) (h : Standing cfg log j index count it) :
    ∃ r, (it.next cfg j).1 = .ok r := by
  cases it with
  | start => exact nextChunk_ok hj (by simp)
  | chunks left next rest =>
    cases rest with
    | nil => exact nextChunk_ok hj h.1
    | cons event rest => exact ⟨_, rfl⟩
  | tail number position => exact nextOfTail_ok number position j
  | done => exact h.elim

end JournalIter

open EventJournal

/-- A view was taken over the first events. -/
structure JournalView.Good (log : List ε) (v : JournalView ε) : Prop where
  count_le : v.snapshot.count ≤ log.length
  taken : v.taken = log.take v.snapshot.count

theorem JournalView.Good.append (h : v.Good log) (event : ε) : v.Good (log ++ [event]) where
  count_le := h.count_le.trans (by simp)
  taken := by rw [take_append_of_le_length h.count_le, h.taken]

theorem JournalView.Good.length_taken (h : v.Good log) : v.taken.length = v.snapshot.count := by
  rw [h.taken, length_take_of_le h.count_le]

namespace Reading

/-- An iteration yielded the first events of its view, all of them once it is over. -/
structure Good (cfg : JournalConfig) (log : List ε) (j : EventJournal ε) (r : Reading ε) : Prop where
  view : r.view.Good log
  count : r.iter.count = r.view.snapshot.count
  index_le : r.iter.index ≤ r.iter.count
  yielded : r.yielded = log.take r.iter.index
  finished : r.iter.finished = true → r.iter.index = r.iter.count
  standing : r.iter.finished = false → r.iter.inner.Standing cfg log j r.iter.index r.iter.count

variable {log : List ε} {j : EventJournal ε} {r : Reading ε}

theorem Good.index_le_log (h : r.Good cfg log j) : r.iter.index ≤ log.length :=
  h.index_le.trans (h.count ▸ h.view.count_le)

theorem Good.append (hj : Holds cfg log j) (h : r.Good cfg log j) (event : ε) :
    r.Good cfg (log ++ [event]) (j.append cfg event) where
  view := h.view.append event
  count := h.count
  index_le := h.index_le
  yielded := by rw [take_append_of_le_length h.index_le_log, h.yielded]
  finished := h.finished
  standing := fun hf => (h.standing hf).append hj h.index_le_log event

theorem Good.of_file (hfile : j'.file = j.file) (h : r.Good cfg log j) : r.Good cfg log j' :=
  ⟨h.view, h.count, h.index_le, h.yielded, h.finished, fun hf => (h.standing hf).of_file hfile⟩

/-- A new iteration. -/
theorem good_start (hv : v.Good log) : Good cfg log j ⟨v, ⟨v.snapshot.count, 0, .start, false⟩, []⟩ where
  view := hv
  count := rfl
  index_le := Nat.zero_le _
  yielded := rfl
  finished := fun h => nomatch h
  standing := fun _ => rfl

/-- What a resumed iteration that has events left answers with. -/
theorem Good.next_of_lt (hj : Holds cfg log j) (h : r.Good cfg log j)
    (hf : r.iter.finished = false) (hlt : r.iter.index < r.iter.count)
    (hnot : ∀ next, r.iter.inner = .chunks 0 next [] → next = j.file.length) :
    ∃ inner', (r.iter.next cfg j).1
        = .ok (log[r.iter.index]?, { r.iter with index := r.iter.index + 1, inner := inner' }) ∧
      inner'.Standing cfg log j (r.iter.index + 1) r.iter.count := by
  have hlog : r.iter.count ≤ log.length := h.count ▸ h.view.count_le
  obtain ⟨inner', hnext, hstanding⟩ := JournalIter.next_eq hj (h.standing hf) hlt hlog hnot
  refine ⟨inner', ?_, hstanding⟩
  have hsome := getElem?_eq_getElem (l := log) (lt_of_lt_of_le hlt hlog)
  unfold next
  rw [if_neg (by simp [hf]), bind_of_fst hnext, hsome]
  simp only [if_neg (not_le.2 hlt)]
  rfl

/-- What a resumed iteration that has no events left answers with. -/
theorem Good.next_of_eq (hj : Holds cfg log j) (h : r.Good cfg log j)
    (hf : r.iter.finished = false) (heq : r.iter.index = r.iter.count) :
    ∃ inner', (r.iter.next cfg j).1
        = .ok (none, { r.iter with inner := inner', finished := true }) := by
  obtain ⟨⟨event, inner'⟩, hnext⟩ := JournalIter.next_ok hj (h.standing hf)
  refine ⟨inner', ?_⟩
  unfold next
  rw [if_neg (by simp [hf]), bind_of_fst hnext]
  cases event with
  | none => rfl
  | some event =>
    simp only [if_pos heq.ge]
    rfl

/-- **A resumed iteration answers with the next event of its view, or ends after the last.** -/
theorem Good.next_eq (hj : Holds cfg log j) (h : r.Good cfg log j)
    (hnot : ∀ next, r.iter.inner = .chunks 0 next [] → r.iter.finished = false →
      r.iter.index < r.iter.count → next = j.file.length) :
    ∃ iter', (r.iter.next cfg j).1 = .ok (r.view.taken[r.yielded.length]?, iter') ∧
      Good cfg log j (r.resume (r.iter.next cfg j).1) := by
  have hlen : r.yielded.length = r.iter.index := by
    rw [h.yielded, length_take_of_le h.index_le_log]
  have htaken : r.view.taken.length = r.iter.count := by rw [h.view.length_taken, h.count]
  cases hf : r.iter.finished with
  | true =>
    have hend : r.view.taken[r.yielded.length]? = none :=
      getElem?_eq_none (by rw [hlen, htaken, h.finished hf])
    have hnext : (r.iter.next cfg j).1 = .ok (none, r.iter) := by
      unfold next
      rw [if_pos hf]
      rfl
    refine ⟨r.iter, by rw [hnext, hend], ?_⟩
    rw [hnext]
    exact ⟨h.view, h.count, h.index_le, (append_nil r.yielded).trans h.yielded, h.finished, h.standing⟩
  | false =>
    rcases Nat.lt_or_eq_of_le h.index_le with hlt | heq
    · have hevent : r.view.taken[r.yielded.length]? = log[r.iter.index]? := by
        rw [hlen, h.view.taken, ← h.count, getElem?_take_of_lt hlt]
      obtain ⟨inner', hnext, hstanding⟩ := h.next_of_lt hj hf hlt fun next hnext => hnot next hnext hf hlt
      refine ⟨_, by rw [hnext, hevent], ?_⟩
      rw [hnext]
      exact
        { view := h.view
          count := h.count
          index_le := hlt
          yielded := by
            change r.yielded ++ log[r.iter.index]?.toList = log.take (r.iter.index + 1)
            rw [take_add_one, h.yielded]
          finished := fun hfin => nomatch hf.symm.trans hfin
          standing := fun _ => hstanding }
    · have hend : r.view.taken[r.yielded.length]? = none := getElem?_eq_none (by rw [hlen, htaken, heq])
      obtain ⟨inner', hnext⟩ := h.next_of_eq hj hf heq
      refine ⟨_, by rw [hnext, hend], ?_⟩
      rw [hnext]
      exact
        { view := h.view
          count := h.count
          index_le := h.index_le
          yielded := (append_nil r.yielded).trans h.yielded
          finished := fun _ => heq
          standing := fun hfin => nomatch hfin }

end Reading

/-! ## Sessions -/

namespace JournalSession

/-- The journal holds what was appended and every view was taken over a prefix of it. -/
structure Inv (cfg : JournalConfig) (s : JournalSession ε) : Prop where
  journal : s.journal.Holds cfg s.appended
  views : ∀ v ∈ s.views, v.Good s.appended

variable {s : JournalSession ε}

theorem Inv.read (h : Inv cfg s) (hj : Stands cfg s.appended s.journal.file j') :
    Inv cfg { s with journal := j' } :=
  ⟨hj.1, h.views⟩

/-- Resuming an iteration changes the journal's cache only. -/
theorem stands_next (log : List ε) (file : List (List ε)) (it : SnapshotIter ε) :
    Effect.Preserves (Stands cfg log file) (it.next cfg) := by
  unfold next
  by_cases hf : it.finished = true
  · rw [if_pos hf]
    exact .pure _
  · rw [if_neg hf]
    refine .bind (JournalIter.stands_next log file it.inner) fun p => ?_
    rcases p with ⟨_ | event, inner⟩
    · exact .pure _
    · change Effect.Preserves _ (if it.count ≤ it.index then _ else _)
      split_ifs with hle
      · exact .pure _
      · exact .pure _

/-- What an action does to a session: the last case covers what reads the journal only. -/
inductive Moves (cfg : JournalConfig) (s : JournalSession ε) : JournalAction ε → JournalSession ε → Prop where
  | append (event : ε) : Moves cfg s (.append event) (s.append cfg event)
  | snapshot : Moves cfg s .snapshot s.snapshot
  | iterate {view : ℕ} {v : JournalView ε} : v ∈ s.views → Moves cfg s (.iterate view) (s.iterate v)
  | pull {i : ℕ} {r : Reading ε} : s.readings[i]? = some r → Moves cfg s (.pull i) (s.pull cfg i r)
  | read {a : JournalAction ε} {j' : EventJournal ε} :
      (∀ log file, Stands cfg log file s.journal → Stands cfg log file j') →
      Moves cfg s a { s with journal := j' }

theorem moves_idle (a : JournalAction ε) : Moves cfg s a s := .read fun _ _ h => h

theorem moves_step (a : JournalAction ε) : Moves cfg s a (s.step cfg a) := by
  cases a with
  | append event => exact .append event
  | snapshot => exact .snapshot
  | iterate view =>
    simp only [step]
    cases hv : s.views[view]? with
    | none => exact moves_idle _
    | some v => exact .iterate (mem_of_getElem? hv)
  | pull reading =>
    simp only [step]
    cases hr : s.readings[reading]? with
    | none => exact moves_idle _
    | some r => exact .pull hr
  | index view index =>
    simp only [step]
    cases s.views[view]? with
    | none => exact moves_idle _
    | some v =>
      exact .read fun log file => EventJournalSnapshot.stands_getitem log file v.snapshot index _
  | slice view slice =>
    simp only [step]
    cases s.views[view]? with
    | none => exact moves_idle _
    | some v =>
      exact .read fun log file => EventJournalSnapshot.stands_getslice log file v.snapshot slice _

variable {a : JournalAction ε} {s' : JournalSession ε}

/-- **Every action keeps the journal and its views as they should be.** -/
theorem Inv.move (h : Inv cfg s) (hm : Moves cfg s a s') : Inv cfg s' := by
  cases hm with
  | append event =>
    exact ⟨h.journal.append event, fun v hv => (h.views v hv).append event⟩
  | snapshot =>
    refine ⟨h.journal, fun v hv => ?_⟩
    rcases mem_append.1 hv with hv | hv
    · exact h.views v hv
    · obtain rfl := mem_singleton.1 hv
      refine ⟨h.journal.count.le, ?_⟩
      change s.appended = s.appended.take s.journal.count
      rw [h.journal.count, take_length]
  | iterate hv => exact ⟨h.journal, h.views⟩
  | @pull i r hr =>
    exact ⟨(stands_next s.appended s.journal.file r.iter _ ⟨h.journal, rfl⟩).1, h.views⟩
  | read hj => exact h.read (hj _ _ ⟨h.journal, rfl⟩)

/-- The iterations of a session yielded prefixes of their views. -/
structure Faithful (cfg : JournalConfig) (s : JournalSession ε) : Prop where
  inv : Inv cfg s
  readings : ∀ r ∈ s.readings, r.Good cfg s.appended s.journal

theorem Faithful.read (h : Faithful cfg s) (hj : Stands cfg s.appended s.journal.file j') :
    Faithful cfg { s with journal := j' } :=
  ⟨h.inv.read hj, fun r hr => (h.readings r hr).of_file hj.2⟩

theorem Faithful.pull (h : Faithful cfg s) {i : ℕ} {r : Reading ε} (hr : s.readings[i]? = some r)
    (hg : s.NotOvertaken r) : Faithful cfg (s.pull cfg i r) := by
  have hmem : r ∈ s.readings := mem_of_getElem? hr
  have hj := stands_next s.appended s.journal.file r.iter _ ⟨h.inv.journal, rfl⟩
  refine ⟨⟨hj.1, h.inv.views⟩, fun r' hr' => ?_⟩
  rcases mem_or_eq_of_mem_set hr' with hr' | rfl
  · exact (h.readings r' hr').of_file hj.2
  · obtain ⟨_, _, hgood⟩ := (h.readings r hmem).next_eq h.inv.journal hg
    exact hgood.of_file hj.2

/-- **No action that keeps iterations from being overtaken spoils one.** -/
theorem Faithful.move (h : Faithful cfg s) (hm : Moves cfg s a s') (hg : s.guard a) : Faithful cfg s' := by
  have hinv := h.inv.move hm
  cases hm with
  | append event => exact ⟨hinv, fun r hr => (h.readings r hr).append h.inv.journal event⟩
  | snapshot => exact ⟨hinv, h.readings⟩
  | @iterate view v hv =>
    refine ⟨hinv, fun r hr => ?_⟩
    rcases mem_append.1 hr with hr | hr
    · exact h.readings r hr
    · obtain rfl := mem_singleton.1 hr
      exact Reading.good_start (h.inv.views v hv)
  | @pull i r hr => exact h.pull hr (hg r hr)
  | read hj => exact h.read (hj _ _ ⟨h.inv.journal, rfl⟩)

theorem inv_run (cfg : JournalConfig) (as : List (JournalAction ε)) : Inv cfg (run (step cfg) init as) :=
  run_invariant (fun _ a h => h.move (moves_step a)) as
    ⟨holds_init, nofun⟩

theorem faithful_run (cfg : JournalConfig) {as : List (JournalAction ε)}
    (hg : Guarded (step cfg) guard init as) : Faithful cfg (run (step cfg) init as) :=
  run_invariant_of_guarded (fun _ a h hg => h.move (moves_step a) hg) as
    ⟨inv_run cfg [], nofun⟩ hg

/-- **A snapshot is a fixed prefix.** A view of `n` events is over the first `n` events, and indexed and
sliced as their list. While no iteration is resumed after it was overtaken, each yields its view in order,
all of it once it is over. -/
theorem snapshot_reads_prefix (cfg : JournalConfig) (as : List (JournalAction ε)) :
    (∀ v ∈ (run (step cfg) init as).views, v.taken = (run (step cfg) init as).appended.take v.snapshot.count ∧
      v.taken.length = v.snapshot.count ∧ (∀ i, (v.snapshot.getitem cfg i (run (step cfg) init as).journal).1
        = Sequence.index "event index out of range" v.taken i) ∧
      ∀ slice, (v.snapshot.getslice cfg slice (run (step cfg) init as).journal).1
        = Sequence.slice v.taken slice) ∧
    (Guarded (step cfg) guard init as → ∀ r ∈ (run (step cfg) init as).readings, r.yielded <+: r.view.taken ∧
      (r.iter.finished = true → r.yielded = r.view.taken) ∧ ((run (step cfg) init as).NotOvertaken r →
        ∃ iter', (r.iter.next cfg (run (step cfg) init as).journal).1
          = .ok (r.view.taken[r.yielded.length]?, iter'))) := by
  have hinv := inv_run cfg as
  constructor
  · intro v hv
    have hgood := hinv.views v hv
    refine ⟨hgood.taken, hgood.length_taken, fun i => ?_, fun slice => ?_⟩
    · rw [hgood.taken]
      exact EventJournalSnapshot.getitem_eq hinv.journal hgood.count_le i
    · rw [hgood.taken]
      exact EventJournalSnapshot.getslice_eq hinv.journal hgood.count_le slice
  · intro hg r hr
    have hgood := (faithful_run cfg hg).readings r hr
    refine ⟨?_, fun hf => ?_, fun hnot => ?_⟩
    · rw [hgood.yielded, hgood.view.taken, ← hgood.count]
      exact List.take_prefix_take_left hgood.index_le
    · rw [hgood.yielded, hgood.view.taken, ← hgood.count, hgood.finished hf]
    · obtain ⟨iter', hnext, _⟩ := hgood.next_eq hinv.journal hnot
      exact ⟨iter', hnext⟩

/-- Two events to a chunk. -/
def twoToAChunk : JournalConfig := ⟨2, 4, Nat.two_pos, Nat.zero_lt_succ 3⟩

/-- A chunk is completed once the iteration has reached it. -/
def kept : List (JournalAction ℕ) :=
  [.append 0, .append 1, .append 2, .snapshot, .iterate 0, .pull 0, .pull 0, .pull 0, .append 3, .pull 0]

theorem guarded_kept : Guarded (step twoToAChunk) guard init kept := by
  refine ⟨trivial, trivial, trivial, trivial, trivial, ?_, ?_, ?_, trivial, ?_, trivial⟩
  all_goals
    intro r hr next hinner
    cases hr
    cases hinner
  exact fun _ _ => rfl

/-- The snapshot of the events 0, 1, 2 yields them when the fourth comes late enough. -/
theorem kept_reads_prefix : ∀ r ∈ (run (step twoToAChunk) init kept).readings,
    r.iter.finished = true → r.yielded = r.view.taken := fun r hr =>
  (( snapshot_reads_prefix twoToAChunk kept).2 guarded_kept r hr).2.1

/-- A chunk is completed between the first item of an iteration and the one that reaches it. -/
def overtaken : List (JournalAction ℕ) :=
  [.append 0, .append 1, .append 2, .snapshot, .iterate 0, .pull 0, .append 3, .pull 0, .pull 0]

/-- **An append that completes a chunk while a snapshot is iterated hides the chunk.**  The snapshot
of the events 0, 1, 2 ends after 0, 1. -/
theorem iteration_loses_completed_chunk :
    (run (step twoToAChunk) init overtaken).readings.map
      (fun r => (r.view.taken, r.iter.finished, r.yielded)) = [([0, 1, 2], true, [0, 1])] := by
  decide

end JournalSession

end MyFuzz
