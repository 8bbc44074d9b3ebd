import MyFuzz.Scenario.CanonicalChunks

/-!
# Scenario/StreamedJson — which documents are streamed as they are dumped

The pieces of a document are compared with its text from the leaves up.  For every value there is a condition,
and the pieces are the text if it holds, and too short if it does not:

    key 1      pieces  {1:v}     text  {"1":v}

An event of a snapshot is dumped whole, so a key inside it does no harm; a data class inside it
cannot be dumped.
-/

namespace MyFuzz

open Outcome List

/-- **The pieces `x` are the text `y` if `P`, and shorter if not.** -/
def Streams (P : Prop) (x : Except Exn (List (List ℕ))) (y : Except Exn (List ℕ)) : Prop :=
  ∀ text, y = .ok text → (P → x.map List.flatten = .ok text) ∧
    (¬ P → ∀ chunks, x = .ok chunks → chunks.flatten.length < text.length)

variable {P : Prop} {x : Except Exn (List (List ℕ))} {y : Except Exn (List ℕ)} {text : List ℕ}

theorem Streams.iff (h : Streams P x y) (hy : y = .ok text) : x.map List.flatten = .ok text ↔ P := by
  constructor
  · intro heq
    by_contra hP
    cases x with
    | error e => cases heq
    | ok chunks =>
      have hlt := (h text hy).2 hP chunks rfl
      rw [← Except.ok.inj heq] at hlt
      exact lt_irrefl _ hlt
  · exact (h text hy).1

/-- Pieces that are the text always. -/
theorem streams_of_eq (hP : P) (h : x.map List.flatten = y) : Streams P x y := by
  intro text hy
  exact ⟨fun _ => h.trans hy, fun hnot => absurd hP hnot⟩

/-- **What is no longer than the text whatever `P`.** -/
theorem Streams.length_le (h : Streams P x y) {chunks : List (List ℕ)} (hx : x = .ok chunks)
    (hy : y = .ok text) : chunks.flatten.length ≤ text.length := by
  by_cases hP : P
  · have heq := (h text hy).1 hP
    rw [hx] at heq
    exact (congrArg List.length (Except.ok.inj heq)).le
  · exact ((h text hy).2 hP chunks hx).le

namespace TraceValue

/-! ## Brackets -/

theorem flatten_intercalate (sep : List ℕ) : ∀ items : List (List (List ℕ)),
    (List.intercalate [sep] items).flatten = List.intercalate sep (items.map List.flatten)
  | [] => rfl
  | [item] => by simp
  | item :: next :: items => by
    have ih := flatten_intercalate sep (next :: items)
    rw [map_cons] at ih
    rw [intercalate_cons_cons, map_cons, map_cons, intercalate_cons_cons, ← ih]
    simp only [flatten_append, flatten_singleton]

theorem flatten_bracketedChunks (opening closing : ℕ) (items : List (List (List ℕ))) :
    (bracketedChunks opening closing items).flatten = bracketed opening closing (items.map List.flatten) := by
  rw [bracketedChunks, bracketed, ← flatten_intercalate]
  simp

theorem length_intercalate (sep : ℕ) : ∀ items : List (List ℕ),
    (List.intercalate [sep] items).length = (items.map List.length).sum + (items.length - 1)
  | [] => rfl
  | [item] => by simp
  | item :: next :: items => by
    have ih := length_intercalate sep (next :: items)
    rw [intercalate_cons_cons, length_append, length_append, ih]
    simp only [map_cons, sum_cons, length_cons, length_nil]
    omega

theorem length_bracketed (opening closing : ℕ) (items : List (List ℕ)) :
    (bracketed opening closing items).length = (items.map List.length).sum + (items.length - 1) + 2 := by
  rw [bracketed, length_cons, length_append, length_intercalate]
  rfl

variable {ι : Type} {P : ι → Prop} {x : ι → Except Exn (List (List ℕ))} {y : ι → Except Exn (List ℕ)}

variable {l : List ι} {texts : List (List ℕ)} {k : TraceKey} {name : List ℕ} {α β : Type}
  {items : List TraceValue}

/-- **Members that all stream.** -/
theorem mapM_streams_of_forall (h : ∀ i ∈ l, Streams (P i) (x i) (y i)) (hP : ∀ i ∈ l, P i)
    (hy : l.mapM y = .ok texts) :
    ∃ pieces, l.mapM x = .ok pieces ∧ pieces.map List.flatten = texts := by
  induction l generalizing texts with
  | nil =>
    cases hy
    exact ⟨[], rfl, rfl⟩
  | cons i l ih =>
    rw [mapM_cons] at hy
    obtain ⟨text, htext, rest, hrest, hy⟩ := bind_ok₂ hy
    cases hy
    obtain ⟨pieces, hpieces, rfl⟩ := ih (fun j hj => h j (mem_cons_of_mem i hj))
      (fun j hj => hP j (mem_cons_of_mem i hj)) hrest
    have hhead := (h i mem_cons_self text htext).1 (hP i (.head _))
    cases hi : x i with
    | error e =>
      rw [hi] at hhead
      cases hhead
    | ok chunks =>
      rw [hi] at hhead
      refine ⟨chunks :: pieces, ?_, ?_⟩
      · rw [mapM_cons, hi, ok_bind, hpieces]
        rfl
      · rw [map_cons, ← Except.ok.inj hhead]

/-- **Members of which one is too short.** -/
theorem sum_length_mapM (h : ∀ i ∈ l, Streams (P i) (x i) (y i)) {pieces : List (List (List ℕ))}
    (hx : l.mapM x = .ok pieces) (hy : l.mapM y = .ok texts) :
    pieces.length = texts.length ∧
      ((pieces.map List.flatten).map List.length).sum ≤ (texts.map List.length).sum ∧
      ((¬ ∀ i ∈ l, P i) → ((pieces.map List.flatten).map List.length).sum < (texts.map List.length).sum) := by
  induction l generalizing pieces texts with
  | nil =>
    cases hx
    cases hy
    exact ⟨rfl, le_rfl, fun hnot => absurd (nofun) hnot⟩
  | cons i l ih =>
    rw [mapM_cons] at hx hy
    obtain ⟨chunks, hchunks, rest, hrest, hx⟩ := bind_ok₂ hx
    cases hx
    obtain ⟨text, htext, rest', hrest', hy⟩ := bind_ok₂ hy
    cases hy
    obtain ⟨hlength, hle, hlt⟩ := ih (fun j hj => h j (mem_cons_of_mem i hj)) hrest hrest'
    have hi := h i (.head _)
    have hhead := hi.length_le hchunks htext
    simp only [map_cons, sum_cons, length_cons]
    refine ⟨by omega, by omega, fun hnot => ?_⟩
    by_cases hP : P i
    · have := hlt fun hall => hnot (forall_mem_cons.2 ⟨hP, hall⟩)
      omega
    · have := (hi text htext).2 hP chunks hchunks
      omega

/-- **A sequence streams exactly if its members do.** -/
theorem streams_bracketed (opening closing : ℕ) (h : ∀ i ∈ l, Streams (P i) (x i) (y i)) :
    Streams (∀ i ∈ l, P i) ((l.mapM x).map (bracketedChunks opening closing))
      ((l.mapM y).map (bracketed opening closing)) := by
  intro text hy
  cases htexts : l.mapM y with
  | error e =>
    rw [htexts] at hy
    cases hy
  | ok texts =>
    rw [htexts] at hy
    cases hy
    constructor
    · intro hP
      obtain ⟨pieces, hpieces, rfl⟩ := mapM_streams_of_forall h hP htexts
      rw [hpieces]
      exact congrArg Except.ok (flatten_bracketedChunks opening closing pieces)
    · intro hP chunks hx
      cases hpieces : l.mapM x with
      | error e =>
        rw [hpieces] at hx
        cases hx
      | ok pieces =>
        rw [hpieces] at hx
        cases hx
        obtain ⟨hlength, -, hlt⟩ := sum_length_mapM h hpieces htexts
        have := hlt hP
        rw [flatten_bracketedChunks, length_bracketed, length_bracketed, length_map]
        omega

/-! ## Entries -/

theorem length_quoted (points : List ℕ) : points.length + 2 ≤ (quoted points).length := by
  have hescape : ∀ n, 1 ≤ (escapePoint n).length := by
    intro n
    unfold escapePoint
    split_ifs <;> simp
  have hflat : points.length ≤ (points.flatMap escapePoint).length := by
    induction points with
    | nil => exact Nat.zero_le _
    | cons n points ih =>
      have := hescape n
      rw [flatMap_cons, length_append, length_cons]
      omega
  rw [quoted, length_cons, length_append, length_singleton]
  omega

variable {floatRepr : ℚ → List ℕ}

/-- A text is a key as it is; anything else is longer as a key. -/
theorem length_key {key : List ℕ} (hkey : k.dumps floatRepr = .ok key) (hname : k.name floatRepr = .ok name) :
    (k.isText = true → key = name) ∧ (¬ k.isText = true → key.length < name.length) := by
  cases k with
  | text points =>
    cases hkey
    cases hname
    exact ⟨fun _ => rfl, fun hnot => absurd rfl hnot⟩
  | scalar x =>
    refine ⟨fun h => (Bool.false_ne_true h).elim, fun _ => ?_⟩
    change (x.dumps floatRepr).map quoted = .ok name at hname
    change x.dumps floatRepr = .ok key at hkey
    rw [hkey] at hname
    cases hname
    have := length_quoted key
    omega

theorem exists_key (hname : k.name floatRepr = .ok name) : ∃ key, k.dumps floatRepr = .ok key := by
  cases k with
  | text points => exact ⟨_, rfl⟩
  | scalar x =>
    change (x.dumps floatRepr).map quoted = .ok name at hname
    change ∃ key, x.dumps floatRepr = .ok key
    cases hx : x.dumps floatRepr with
    | error e =>
      rw [hx] at hname
      cases hname
    | ok key => exact ⟨key, rfl⟩

/-- **An entry streams exactly if its key is a text and its value streams.** -/
theorem streams_entry (floatRepr : ℚ → List ℕ) {Q : Prop} {u : Except Exn (List (List ℕ))}
    {v : Except Exn (List ℕ)} (h : Streams Q u v) (k : TraceKey) :
    Streams (k.isText = true ∧ Q) (entryChunks floatRepr (k, u)) (entryText floatRepr (k, v)) := by
  intro text hy
  obtain ⟨name, hname, value, hvalue, hy⟩ := bind_ok₂ hy
  cases hy
  obtain ⟨key, hkey⟩ := exists_key hname
  have hlength := length_key hkey hname
  constructor
  · rintro ⟨htext, hQ⟩
    have hu := (h value hvalue).1 hQ
    cases hchunks : u with
    | error e =>
      rw [hchunks] at hu
      cases hu
    | ok chunks =>
      rw [hchunks] at hu
      cases hu
      have heq : entryChunks floatRepr (k, .ok chunks) = .ok (key :: [58] :: chunks) := by
        rw [entryChunks, hkey]
        rfl
      rw [heq, ← hlength.1 htext]
      rfl
  · intro hnot pieces hx
    obtain ⟨key', hkey', chunks, hchunks, hx⟩ := bind_ok₂ hx
    cases hx
    cases hkey.symm.trans hkey'
    have hle := h.length_le hchunks hvalue
    simp only [flatten_cons, length_append, length_cons, length_nil]
    by_cases htext : k.isText = true
    · have := (h value hvalue).2 (fun hQ => hnot ⟨htext, hQ⟩) chunks hchunks
      rw [hlength.1 htext]
      omega
    · have := hlength.2 htext
      omega

/-! ## Objects -/

/-- Entries are sorted by their keys alone. -/
theorem sortedEntries_map (f : α → β) (entries : List (TraceKey × α)) :
    sortedEntries (entries.map fun e => (e.1, f e.2)) =
      (sortedEntries entries).map (List.map fun e => (e.1, f e.2)) := by
  have hkeys : (entries.map fun e => (e.1, f e.2)).map Prod.fst = entries.map Prod.fst := by
    rw [map_map]
    rfl
  unfold sortedEntries
  rw [hkeys]
  by_cases hsort : TraceKey.sortable (entries.map Prod.fst) = true
  · have hmap : (entries.insertionSort fun a b => a.1.le b.1 = true).map (fun e => (e.1, f e.2)) =
        (entries.map fun e => (e.1, f e.2)).insertionSort fun a b => a.1.le b.1 = true :=
      map_insertionSort _ _ _ _ fun _ _ _ _ => Iff.rfl
    rw [ensure_of hsort, ok_bind, ok_bind, ← hmap]
    rfl
  · rw [ensure_of_not hsort]
    rfl

theorem sortedEntries_perm {entries sorted : List (TraceKey × α)}
    (h : sortedEntries entries = .ok sorted) : sorted.Perm entries := by
  obtain ⟨-, h⟩ := ensure_ok.1 h
  cases h
  exact perm_insertionSort _ _

/-- **An object streams exactly if its entries do.** -/
theorem streams_object (h : ∀ i ∈ l, Streams (P i) (x i) (y i)) (key : ι → TraceKey) :
    Streams (∀ i ∈ l, (key i).isText = true ∧ P i) (objectChunks floatRepr (l.map fun i => (key i, x i)))
      (objectText floatRepr (l.map fun i => (key i, y i))) := by
  have hx : l.map (fun i => (key i, x i)) = (l.map fun i => (key i, i)).map fun e => (e.1, x e.2) := by
    rw [map_map]
    rfl
  have hy : l.map (fun i => (key i, y i)) = (l.map fun i => (key i, i)).map fun e => (e.1, y e.2) := by
    rw [map_map]
    rfl
  unfold objectChunks objectText
  rw [hx, hy, sortedEntries_map, sortedEntries_map]
  cases hsorted : sortedEntries (l.map fun i => (key i, i)) with
  | error e =>
    intro text htext
    cases htext
  | ok sorted =>
    have hmem : ∀ e ∈ sorted, e.2 ∈ l ∧ e.1 = key e.2 := by
      intro e he
      obtain ⟨i, hi, rfl⟩ := mem_map.1 ((sortedEntries_perm hsorted).mem_iff.1 he)
      exact ⟨hi, rfl⟩
    have hall : (∀ i ∈ l, (key i).isText = true ∧ P i) ↔ ∀ e ∈ sorted, e.1.isText = true ∧ P e.2 := by
      constructor
      · intro hl e he
        rw [(hmem e he).2]
        exact hl e.2 (hmem e he).1
      · intro hs i hi
        exact hs (key i, i) ((sortedEntries_perm hsorted).mem_iff.2 (mem_map_of_mem hi))
    rw [hall]
    have hstreams := streams_bracketed 123 125 fun e (he : e ∈ sorted) =>
      streams_entry floatRepr (h e.2 (hmem e he).1) e.1
    have hbind : ∀ {α β : Type} (m : Except Exn α) (f : α → β), (m >>= fun a => pure (f a)) = m.map f := by
      intro α β m f
      cases m <;> rfl
    rw [← hbind, ← hbind] at hstreams
    change Streams _ ((sorted.map fun e => (e.1, x e.2)).mapM (entryChunks floatRepr) >>= _)
      ((sorted.map fun e => (e.1, y e.2)).mapM (entryText floatRepr) >>= _)
    rw [mapM_map, mapM_map]
    exact hstreams

/-! ## Values -/

/-- Induction over a value, the hypothesis given for every member of a container. -/
theorem induct {Q : TraceValue → Prop} (scalar : ∀ x, Q (.scalar x)) (text : ∀ points, Q (.text points))
    (list : ∀ items, (∀ v ∈ items, Q v) → Q (.list items))
    (tuple : ∀ items, (∀ v ∈ items, Q v) → Q (.tuple items))
    (dict : ∀ entries, (∀ e ∈ entries, Q e.2) → Q (.dict entries))
    (dataclass : ∀ fields, (∀ e ∈ fields, Q e.2) → Q (.dataclass fields))
    (snapshot : ∀ events, (∀ v ∈ events, Q v) → Q (.snapshot events)) : ∀ v, Q v :=
  @TraceValue.rec Q (fun items => ∀ v ∈ items, Q v) (fun entries => ∀ e ∈ entries, Q e.2)
    (fun fields => ∀ e ∈ fields, Q e.2) (fun e => Q e.2) (fun e => Q e.2)
    scalar text list tuple dict dataclass snapshot
    (forall_mem_nil _) (fun _ _ h hs => forall_mem_cons.2 ⟨h, hs⟩)
    (forall_mem_nil _) (fun _ _ h hs => forall_mem_cons.2 ⟨h, hs⟩)
    (forall_mem_nil _) (fun _ _ h hs => forall_mem_cons.2 ⟨h, hs⟩)
    (fun _ _ h => h) fun _ _ h => h

/-! ## Containers as maps -/

theorem asdictItems_eq_map : ∀ items : List TraceValue, asdictItems items = items.map asdict
  | [] => rfl
  | v :: items => congrArg (asdict v :: ·) (asdictItems_eq_map items)

theorem asdictEntries_eq_map : ∀ entries : List (TraceKey × TraceValue),
    asdictEntries entries = entries.map fun e => (e.1, asdict e.2)
  | [] => rfl
  | e :: entries => congrArg ((e.1, asdict e.2) :: ·) (asdictEntries_eq_map entries)

theorem asdictFields_eq_map : ∀ fields : List (List ℕ × TraceValue),
    asdictFields fields = fields.map fun e => (.text e.1, asdict e.2)
  | [] => rfl
  | e :: fields => congrArg ((TraceKey.text e.1, asdict e.2) :: ·) (asdictFields_eq_map fields)

theorem dumpsItems_eq_mapM : ∀ items : List TraceValue,
    dumpsItems floatRepr items = items.mapM (dumps floatRepr)
  | [] => rfl
  | v :: items => by
    rw [dumpsItems, dumpsItems_eq_mapM items, mapM_cons]

theorem dumpsEntries_eq_map : ∀ entries : List (TraceKey × TraceValue),
    dumpsEntries floatRepr entries = entries.map fun e => (e.1, dumps floatRepr e.2)
  | [] => rfl
  | e :: entries => congrArg ((e.1, dumps floatRepr e.2) :: ·) (dumpsEntries_eq_map entries)

theorem chunksItems_eq_mapM : ∀ items : List TraceValue,
    chunksItems floatRepr items = items.mapM (chunks floatRepr)
  | [] => rfl
  | v :: items => by
    rw [chunksItems, chunksItems_eq_mapM items, mapM_cons]

theorem chunksEntries_eq_map : ∀ entries : List (TraceKey × TraceValue),
    chunksEntries floatRepr entries = entries.map fun e => (e.1, chunks floatRepr e.2)
  | [] => rfl
  | e :: entries => congrArg ((e.1, chunks floatRepr e.2) :: ·) (chunksEntries_eq_map entries)

theorem chunksFields_eq_map : ∀ fields : List (List ℕ × TraceValue),
    chunksFields floatRepr fields = fields.map fun e => (.text e.1, chunks floatRepr e.2)
  | [] => rfl
  | e :: fields => congrArg ((TraceKey.text e.1, chunks floatRepr e.2) :: ·) (chunksFields_eq_map fields)

/-! ## Events -/

mutual

/-- No data class and no snapshot. -/
def Plain : TraceValue → Prop
  | .scalar _ => True
  | .text _ => True
  | .list items => PlainItems items
  | .tuple items => PlainItems items
  | .dict entries => PlainEntries entries
  | .dataclass _ => False
  | .snapshot _ => False

/-- `Plain` for every item. -/
def PlainItems : List TraceValue → Prop
  | [] => True
  | v :: items => Plain v ∧ PlainItems items

/-- `Plain` for every entry. -/
def PlainEntries : List (TraceKey × TraceValue) → Prop
  | [] => True
  | (_, v) :: entries => Plain v ∧ PlainEntries entries

end

theorem plainItems_iff {items : List TraceValue} : PlainItems items ↔ ∀ v ∈ items, Plain v := by
  induction items with
  | nil => exact ⟨nofun, fun _ => trivial⟩
  | cons v items ih => rw [PlainItems, ih, forall_mem_cons]

theorem plainEntries_iff {entries : List (TraceKey × TraceValue)} :
    PlainEntries entries ↔ ∀ e ∈ entries, Plain e.2 := by
  induction entries with
  | nil => exact ⟨nofun, fun _ => trivial⟩
  | cons e entries ih => rw [PlainEntries, ih, forall_mem_cons]

/-- A plain value is in plain form. -/
theorem asdict_of_plain (v : TraceValue) : v.Plain → asdict v = v := by
  induction v using induct with
  | scalar x | text points => exact fun _ => rfl
  | list items ih | tuple items ih =>
    intro h
    rw [asdict, asdictItems_eq_map, map_congr_left fun v hv => ih v hv (plainItems_iff.1 h v hv),
      map_id']
  | dict entries ih =>
    intro h
    have hentry : ∀ e ∈ entries, (e.1, asdict e.2) = e := fun e he => by
      rw [ih e he (plainEntries_iff.1 h e he)]
    rw [asdict, asdictEntries_eq_map, map_congr_left hentry, map_id']
  | dataclass fields ih | snapshot events ih => exact fun h => h.elim

/-- Every member of a traversal that returns has returned. -/
theorem exists_of_mapM_ok {f : α → Except Exn β} {l : List α} {bs : List β} (h : l.mapM f = .ok bs)
    {a : α} (ha : a ∈ l) : ∃ b, f a = .ok b := by
  induction mapM_eq_ok.1 h with
  | nil => cases ha
  | @cons c b l bs hc hl ih =>
    rcases mem_cons.1 ha with rfl | ha
    · exact ⟨b, hc⟩
    · exact ih (mapM_eq_ok.2 hl) ha

/-- Every value of an object that is dumped has been dumped. -/
theorem exists_of_objectText {entries : List (TraceKey × Except Exn (List ℕ))}
    (h : objectText floatRepr entries = .ok text) {e : TraceKey × Except Exn (List ℕ)}
    (he : e ∈ entries) : ∃ value, e.2 = .ok value := by
  obtain ⟨sorted, hsorted, items, hitems, -⟩ := bind_ok₂ h
  obtain ⟨item, hitem⟩ := exists_of_mapM_ok hitems ((sortedEntries_perm hsorted).mem_iff.2 he)
  obtain ⟨name, -, value, hvalue, -⟩ := bind_ok₂ hitem
  exact ⟨value, hvalue⟩

/-- **Only a plain value is dumped.** -/
theorem plain_of_dumps (v : TraceValue) : ∀ {text}, dumps floatRepr v = .ok text → v.Plain := by
  have hitems : ∀ {items : List TraceValue} {text : List ℕ},
      (∀ v ∈ items, ∀ {text}, dumps floatRepr v = .ok text → v.Plain) →
        (dumpsItems floatRepr items).map (bracketed 91 93) = .ok text → PlainItems items := by
    intro items text ih h
    rw [dumpsItems_eq_mapM] at h
    cases htexts : items.mapM (dumps floatRepr) with
    | error e =>
      rw [htexts] at h
      cases h
    | ok texts =>
      refine plainItems_iff.2 fun v hv => ?_
      obtain ⟨text, htext⟩ := exists_of_mapM_ok htexts hv
      exact ih v hv htext
  induction v using induct with
  | scalar x | text points => exact fun _ => trivial
  | list items ih | tuple items ih => exact hitems ih
  | dict entries ih =>
    intro text h
    rw [dumps, dumpsEntries_eq_map] at h
    refine plainEntries_iff.2 fun e he => ?_
    obtain ⟨value, hvalue⟩ :=
      exists_of_objectText h (mem_map_of_mem (f := fun e => (e.1, dumps floatRepr e.2)) he)
    exact ih e he hvalue
  | dataclass fields ih | snapshot events ih =>
    intro text h
    cases h

/-- **An event is streamed exactly if it is plain.** -/
theorem streams_event (v : TraceValue) :
    Streams v.Plain ((dumps floatRepr v).map fun text => [text]) (dumps floatRepr (asdict v)) := by
  intro text htext
  constructor
  · intro hplain
    rw [asdict_of_plain v hplain] at htext
    rw [htext]
    exact congrArg Except.ok (flatten_singleton)
  · intro hnot chunks hchunks
    cases hv : dumps floatRepr v with
    | error e =>
      rw [hv] at hchunks
      cases hchunks
    | ok dumped => exact absurd (plain_of_dumps v hv) hnot

/-! ## Documents -/

mutual

/-- **Every key outside the events of a snapshot is a text, and every event is plain.** -/
def TextKeys : TraceValue → Prop
  | .scalar _ => True
  | .text _ => True
  | .list items => TextKeysItems items
  | .tuple items => TextKeysItems items
  | .dict entries => TextKeysEntries entries
  | .dataclass fields => TextKeysFields fields
  | .snapshot events => ∀ event ∈ events, Plain event

/-- `TextKeys` for every item. -/
def TextKeysItems : List TraceValue → Prop
  | [] => True
  | v :: items => TextKeys v ∧ TextKeysItems items

/-- `TextKeys` for every entry, with its key. -/
def TextKeysEntries : List (TraceKey × TraceValue) → Prop
  | [] => True
  | (k, v) :: entries => (k.isText = true ∧ TextKeys v) ∧ TextKeysEntries entries

/-- `TextKeys` for every field. -/
def TextKeysFields : List (List ℕ × TraceValue) → Prop
  | [] => True
  | (_, v) :: fields => TextKeys v ∧ TextKeysFields fields

end

theorem textKeysItems_iff : TextKeysItems items ↔ ∀ v ∈ items, TextKeys v := by
  induction items with
  | nil => exact ⟨nofun, fun _ => trivial⟩
  | cons v items ih => rw [TextKeysItems, ih, forall_mem_cons]

theorem textKeysEntries_iff {entries : List (TraceKey × TraceValue)} :
    TextKeysEntries entries ↔ ∀ e ∈ entries, e.1.isText = true ∧ TextKeys e.2 := by
  induction entries with
  | nil => exact ⟨nofun, fun _ => trivial⟩
  | cons e entries ih => rw [TextKeysEntries, ih, forall_mem_cons]

theorem textKeysFields_iff {fields : List (List ℕ × TraceValue)} :
    TextKeysFields fields ↔ ∀ e ∈ fields, TextKeys e.2 := by
  induction fields with
  | nil => exact ⟨nofun, fun _ => trivial⟩
  | cons e fields ih => rw [TextKeysFields, ih, forall_mem_cons]

/-- The items of a list or of a tuple. -/
theorem streams_items
    (ih : ∀ v ∈ items, Streams v.TextKeys (chunks floatRepr v) (dumps floatRepr (asdict v))) :
    Streams (TextKeysItems items) ((chunksItems floatRepr items).map (bracketedChunks 91 93))
      ((dumpsItems floatRepr (asdictItems items)).map (bracketed 91 93)) := by
  rw [textKeysItems_iff, chunksItems_eq_mapM, dumpsItems_eq_mapM, asdictItems_eq_map, mapM_map]
  exact streams_bracketed 91 93 ih

/-- **The pieces of a value are its text exactly if its keys are texts.** -/
theorem streams_chunks (v : TraceValue) :
    Streams v.TextKeys (chunks floatRepr v) (dumps floatRepr (asdict v)) := by
  induction v using induct with
  | scalar x =>
    refine streams_of_eq trivial ?_
    change ((x.dumps floatRepr).map fun text => [text]).map List.flatten = x.dumps floatRepr
    cases x.dumps floatRepr with
    | error e => rfl
    | ok text => exact congrArg Except.ok flatten_singleton
  | text points => exact streams_of_eq trivial (congrArg Except.ok flatten_singleton)
  | list items ih | tuple items ih => exact streams_items ih
  | dict entries ih =>
    rw [TextKeys, textKeysEntries_iff, chunks, chunksEntries_eq_map, asdict, dumps, dumpsEntries_eq_map,
      asdictEntries_eq_map, map_map]
    exact streams_object ih Prod.fst
  | dataclass fields ih =>
    have hfields : (∀ e ∈ fields, TextKeys e.2) ↔
        ∀ e ∈ fields, (TraceKey.text e.1).isText = true ∧ TextKeys e.2 :=
      forall₂_congr fun e _ => (and_iff_right rfl).symm
    rw [TextKeys, textKeysFields_iff, hfields, chunks, chunksFields_eq_map, asdict, dumps,
      dumpsEntries_eq_map,
      asdictFields_eq_map, map_map]
    exact streams_object ih fun e : List ℕ × TraceValue => TraceKey.text e.1
  | snapshot events ih =>
    rw [TextKeys, chunks, asdict, dumps, dumpsItems_eq_mapM, asdictItems_eq_map, mapM_map]
    exact streams_bracketed 91 93 fun v _ => streams_event v

/-- **A document that can be dumped is streamed as the same text exactly if its keys are texts and its events
are plain.** -/
theorem flatten_chunks_eq_dumps_iff {v : TraceValue} {text : List ℕ}
    (h : dumps floatRepr (asdict v) = .ok text) :
    (chunks floatRepr v).map List.flatten = .ok text ↔ v.TextKeys :=
  (streams_chunks v).iff h

/-- A data class with a list in a field. -/
theorem dataclass_chunks :
    (chunks (fun _ => []) (.dataclass [([98], .tuple [.scalar .null]), ([97], .text [10])])).map
      List.flatten = .ok (JsonValue.points "\x7b\"a\":\"\\n\",\"b\":[null]\x7d") :=
  (flatten_chunks_eq_dumps_iff (by decide)).2 ⟨⟨trivial, trivial⟩, trivial, trivial⟩

/-- **A field that holds an object with the key 1**: its text has `\x7b"1":null\x7d`, its pieces have
`\x7b1:null\x7d`. -/
theorem int_key_chunks : ¬ ∀ (v : TraceValue) (text : List ℕ), dumps (fun _ => []) (asdict v) = .ok text →
    (chunks (fun _ => []) v).map List.flatten = .ok text := by
  intro h
  have hpieces := h (.dataclass [([97], .dict [(.scalar (.int 1), .scalar .null)])])
    (JsonValue.points "\x7b\"a\":\x7b\"1\":null\x7d\x7d") (by decide)
  cases hpieces

end TraceValue

end MyFuzz
