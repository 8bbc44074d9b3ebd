import MyFuzz.Scenario.EventArtifact

/-!
# Scenario/ArtifactRoundTrip — what was written is read back

The writer cuts the events into blocks (`Wrote`), the reader enters the same blocks (`Shows`), and
the two meet in the bytes of the blocks:

    events ──writeEvent──▸ done ++ [pending] ──blockBytes──▸ file ──readBlock──▸ done

From then on a view answers every index, slice and iteration as the list of events does, whatever
it was asked before.
-/

namespace MyFuzz

open Sequence Outcome Effect Bytes EventWriter

open List hiding count

/-- A JSON object: a dictionary without tuples whose keys are distinct at every level. -/
structure JsonObject (σ : Type) where
  val : Value σ
  isDict_val : isDict val = true
  plain : val.Plain
  wellFormed : val.WellFormed

section Artifact

variable {σ η : Type} (json : JsonLines σ) (zlib : Zlib) (hasher : Hasher η)

/-! ## Blocks -/

/-- The line of an event. -/
def lineOf (e : JsonObject σ) : List UInt8 := json.dumps e.val ++ [10]

/-- The line of an event fits a block. -/
def LineFits (e : JsonObject σ) : Prop := (lineOf json e).length ≤ zlibMaxRaw

instance (e : JsonObject σ) : Decidable (LineFits json e) := inferInstanceAs (Decidable (_ ≤ _))

/-- The lines of a block. -/
def rawOf (es : List (JsonObject σ)) : List UInt8 := (es.map (lineOf json)).flatten

/-- What a view returns for the events of a block. -/
def readOf (es : List (JsonObject σ)) : List (Value σ) := es.map fun e => e.val.canonical

/-- The header of a block. -/
def headerOf (es : List (JsonObject σ)) : List UInt8 :=
  Bytes.leBytes 4 (zlib.compress (rawOf json es)).length ++ Bytes.leBytes 4 (rawOf json es).length ++
    Bytes.leBytes 4 es.length ++ Bytes.leBytes 4 (zlib.crc32 (rawOf json es)).toNat

/-- The bytes of a block. -/
def blockBytes (es : List (JsonObject σ)) : List UInt8 :=
  headerOf json zlib es ++ zlib.compress (rawOf json es)

/-- A block within the bounds. -/
structure Good (es : List (JsonObject σ)) : Prop where
  ne_nil : es ≠ []
  length_le : es.length ≤ 4096
  raw_le : (rawOf json es).length ≤ zlibMaxRaw

variable {json zlib hasher}

theorem rawOf_append (es : List (JsonObject σ)) (e : JsonObject σ) :
    rawOf json (es ++ [e]) = rawOf json es ++ lineOf json e := by
  rw [rawOf, map_append, flatten_append, map_singleton, flatten_singleton]
  rfl

theorem rawOf_eq_flatMap (es : List (JsonObject σ)) :
    rawOf json es = (es.map fun e => json.dumps e.val).flatMap fun line => line ++ [10] := by
  rw [rawOf, flatMap_def, map_map]
  rfl

variable {es : List (JsonObject σ)} {view : ZlibChunkEventView σ η} {done : List (List (JsonObject σ))}

theorem getLast?_rawOf (h : es ≠ []) : (rawOf json es).getLast? = some 10 := by
  obtain ⟨init, e, rfl⟩ : ∃ init e, es = init ++ [e] :=
    ⟨es.dropLast, es.getLast h, (dropLast_concat_getLast h).symm⟩
  rw [rawOf_append, lineOf, ← append_assoc, getLast?_concat]

theorem rawOf_ne_nil (h : es ≠ []) : rawOf json es ≠ [] := by
  intro hnil
  have hlast := @getLast?_rawOf σ json es h
  rw [hnil] at hlast
  cases hlast

theorem isDict_canonical {v : Value σ} (h : isDict v = true) : isDict v.canonical = true := by
  cases v with
  | dict entries => rfl
  | scalar x | str s | list items | tuple items => exact h

theorem loads_dumps (e : JsonObject σ) : json.loads (json.dumps e.val) = some e.val.canonical :=
  json.loads_dumps e.val e.wellFormed

theorem mapM_loads : ∀ es : List (JsonObject σ),
    (es.map fun e => json.dumps e.val).mapM json.loads = some (readOf es)
  | [] => rfl
  | e :: es => by
      rw [map_cons, mapM_cons, loads_dumps, mapM_loads es]
      rfl

/-- **A block is decoded to the events that were written.** -/
theorem decodeBlock_compress (h : es ≠ []) :
    decodeBlock json zlib (zlib.compress (rawOf json es)) (rawOf json es).length es.length
      (zlib.crc32 (rawOf json es)).toNat = .ok (readOf es) := by
  have hlines : splitLines (rawOf json es) = es.map fun e => json.dumps e.val := by
    rw [rawOf_eq_flatMap]
    refine splitLines_flatMap fun line hline => ?_
    obtain ⟨e, -, rfl⟩ := mem_map.1 hline
    exact json.oneLine_dumps e.val e.wellFormed
  have hlength : (readOf es).length = es.length := by rw [readOf, length_map]
  have hdict : ∀ v ∈ readOf es, isDict v = true := by
    intro v hv
    obtain ⟨e, -, rfl⟩ := mem_map.1 hv
    exact isDict_canonical e.isDict_val
  rw [decodeBlock, zlib.decompress_compress _ _ (Nat.lt_succ_self _)]
  simp only [hlines, mapM_loads, getLast?_rawOf h, hlength]
  simp only [and_self, true_and, ensure_true, ok_bind]
  rw [ensure_of (by simpa using hdict)]
  rfl

theorem length_headerOf (es : List (JsonObject σ)) : (headerOf json zlib es).length = 16 := by
  simp [headerOf]

theorem Good.bounds {es : List (JsonObject σ)} (h : Good json es) :
    (0 < (zlib.compress (rawOf json es)).length ∧
      (zlib.compress (rawOf json es)).length ≤ zlibMaxCompressed) ∧
    (0 < (rawOf json es).length ∧ (rawOf json es).length ≤ zlibMaxRaw) ∧
    (0 < es.length ∧ es.length ≤ 4096) := by
  have hcomp : (zlib.compress (rawOf json es)).length ≤ zlibMaxRaw + 65536 :=
    (zlib.length_compress_le _ h.raw_le).trans (Nat.add_le_add_right h.raw_le 65536)
  exact ⟨⟨length_pos_iff.2 (zlib.compress_ne_nil _), hcomp⟩,
    ⟨length_pos_iff.2 (rawOf_ne_nil h.ne_nil), h.raw_le⟩,
    ⟨length_pos_iff.2 h.ne_nil, h.length_le⟩⟩

/-! ## Digests -/

/-- Feed texts to a digest, the first of them with a number. -/
def feedAll (hasher : Hasher η) : η → ℕ → List (List UInt8) → η
  | digest, _, [] => digest
  | digest, count, encoded :: rest => feedAll hasher (hasher.feed digest count encoded) (count + 1) rest

theorem feedAll_append (rest : List (List UInt8)) : ∀ (digest : η) (count : ℕ)
    (texts : List (List UInt8)), feedAll hasher digest count (texts ++ rest) =
      feedAll hasher (feedAll hasher digest count texts) (count + texts.length) rest
  | digest, count, [] => rfl
  | digest, count, text :: texts => by
      rw [cons_append, feedAll, feedAll, feedAll_append rest, length_cons]
      congr 1
      omega

/-- The texts of events. -/
def textsOf (json : JsonLines σ) (es : List (JsonObject σ)) : List (List UInt8) :=
  es.map fun e => json.dumps e.val

theorem foldl_takeEvent : ∀ (es : List (JsonObject σ)) (view : ZlibChunkEventView σ η),
    (readOf es).foldl (ZlibChunkEventView.takeEvent json hasher) view = { view with
        count := view.count + es.length
        semanticDigest := feedAll hasher view.semanticDigest view.count (textsOf json es) }
  | [], view => rfl
  | e :: es, view => by
      have hdumps : json.dumps e.val.canonical = json.dumps e.val := json.dumps_canonical e.val e.wellFormed
      have hcons : readOf (e :: es) = e.val.canonical :: readOf es := rfl
      have htexts : textsOf json (e :: es) = json.dumps e.val :: textsOf json es := rfl
      rw [hcons, foldl_cons, foldl_takeEvent es, htexts, feedAll]
      simp only [ZlibChunkEventView.takeEvent, hdumps, length_cons, Nat.add_assoc, Nat.add_comm 1]

/-! ## The reader -/

/-- A view holds a file with these blocks. -/
structure Shows (json : JsonLines σ) (zlib : Zlib) (hasher : Hasher η)
    (view : ZlibChunkEventView σ η) (done : List (List (JsonObject σ))) : Prop where
  good : ∀ es ∈ done, Good json es
  starts : view.starts = starts 0 done
  count : view.count = done.flatten.length
  digest : view.semanticDigest = feedAll hasher (hasher.new semanticFront) 0 (textsOf json done.flatten)
  blocks : List.Forall₂ (fun b es =>
    (view.file.drop b.offset).take b.compLen = zlib.compress (rawOf json es) ∧
    b.compLen = (zlib.compress (rawOf json es)).length ∧ b.rawLen = (rawOf json es).length ∧
    b.count = es.length ∧ b.crc = (zlib.crc32 (rawOf json es)).toNat) view.blocks done
  cache : ∀ i, view.cacheIndex = some i → ∃ es, done[i]? = some es ∧ view.cacheEvents = readOf es

/-- The view after a block was entered. -/
def entered (json : JsonLines σ) (zlib : Zlib) (hasher : Hasher η) (view : ZlibChunkEventView σ η)
    (offset : ℕ) (es : List (JsonObject σ)) : ZlibChunkEventView σ η :=
  { view with
    starts := view.starts ++ [view.count]
    count := view.count + es.length
    semanticDigest := feedAll hasher view.semanticDigest view.count (textsOf json es)
    blocks := view.blocks ++ [⟨offset, (zlib.compress (rawOf json es)).length,
      (rawOf json es).length, es.length, (zlib.crc32 (rawOf json es)).toNat⟩] }

/-- A header is read back. -/
theorem readLe_headerOf {es : List (JsonObject σ)} (h : Good json es) :
    readLe ((headerOf json zlib es).take 4) = (zlib.compress (rawOf json es)).length ∧
    readLe (((headerOf json zlib es).drop 4).take 4) = (rawOf json es).length ∧
    readLe (((headerOf json zlib es).drop 8).take 4) = es.length ∧
    readLe ((headerOf json zlib es).drop 12) = (zlib.crc32 (rawOf json es)).toNat := by
  obtain ⟨hcomp, hraw, hcount⟩ := @Good.bounds σ json zlib es h
  have hmax : zlibMaxCompressed < 256 ^ 4 := by decide
  have hraw' : (rawOf json es).length ≤ zlibMaxCompressed := hraw.2.trans (Nat.le_add_right _ _)
  have hcount' : (4096 : ℕ) < 256 ^ 4 := by decide
  refine ⟨?_, ?_, ?_, ?_⟩
  · rw [headerOf, append_assoc, append_assoc, take_left' (length_leBytes 4 _)]
    exact readLe_leBytes (hcomp.2.trans_lt hmax)
  · rw [headerOf, append_assoc, append_assoc, drop_left' (length_leBytes 4 _),
      take_left' (length_leBytes 4 _)]
    exact readLe_leBytes (hraw'.trans_lt hmax)
  · rw [headerOf, append_assoc, drop_left' (by simp), take_left' (length_leBytes 4 _)]
    exact readLe_leBytes (hcount.2.trans_lt hcount')
  · rw [headerOf, drop_left' (by simp)]
    exact readLe_leBytes (UInt32.toNat_lt _)

/-- **A block within the bounds is entered as it was written.** -/
theorem readBlock_headerOf (h : Good json es) (view : ZlibChunkEventView σ η) (offset : ℕ)
    (rest : List UInt8) :
    view.readBlock json zlib hasher offset (headerOf json zlib es) (zlib.compress (rawOf json es) ++ rest) =
        .ok (entered json zlib hasher view offset es, (zlib.compress (rawOf json es)).length) := by
  obtain ⟨hcomp, hraw, hcount⟩ := @Good.bounds σ json zlib es h
  obtain ⟨hcompLen, hrawLen, hblockCount, hcrc⟩ := @readLe_headerOf σ json zlib es h
  simp only [ZlibChunkEventView.readBlock, hcompLen, hrawLen, hblockCount, hcrc,
    take_left' rfl, decodeBlock_compress h.ne_nil, foldl_takeEvent, ok_bind]
  rw [ensure_of (length_headerOf es), ok_bind, ensure_of ⟨hcomp, hraw⟩, ok_bind, ensure_of hcount,
    ok_bind, ensure_true]
  rfl

theorem Shows.entered 
    (hview : Shows json zlib hasher view done) (h : Good json es)
    {offset : ℕ} (hoffset : (view.file.drop offset).take (zlib.compress (rawOf json es)).length =
      zlib.compress (rawOf json es)) :
    Shows json zlib hasher (MyFuzz.entered json zlib hasher view offset es) (done ++ [es]) where
  good es' hes' := by
    rcases List.mem_append.1 hes' with hes' | hes'
    · exact hview.good es' hes'
    · rwa [List.mem_singleton.1 hes']
  starts := by
    rw [starts_append, ← hview.starts, Nat.zero_add, ← hview.count]
    rfl
  count := by
    rw [List.flatten_append, List.flatten_singleton, List.length_append, ← hview.count]
    rfl
  digest := by
    have htexts : textsOf json (done ++ [es]).flatten = textsOf json done.flatten ++ textsOf json es := by
      rw [List.flatten_append, List.flatten_singleton, textsOf, List.map_append]
      rfl
    have hlength : (textsOf json done.flatten).length = view.count := by
      rw [textsOf, List.length_map, hview.count]
    rw [htexts, feedAll_append, hlength, ← hview.digest, Nat.zero_add]
    rfl
  blocks := List.rel_append hview.blocks (.cons ⟨hoffset, rfl, rfl, rfl, rfl⟩ .nil)
  cache i hi := by
    obtain ⟨es', hes', hevents⟩ := hview.cache i hi
    refine ⟨es', ?_, hevents⟩
    rw [List.getElem?_append_left (List.getElem?_eq_some_iff.1 hes').1, hes']

/-- One turn of the reader's loop. -/
theorem readBlocks_cons (h : Good json es) (view : ZlibChunkEventView σ η) (position : ℕ)
    (rest : List UInt8) :
    view.readBlocks json zlib hasher position (blockBytes json zlib es ++ rest) =
      (entered json zlib hasher view (position + 16) es).readBlocks json zlib hasher
        (position + (blockBytes json zlib es).length) rest := by
  have hbytes : blockBytes json zlib es ++ rest =
      headerOf json zlib es ++ (zlib.compress (rawOf json es) ++ rest) := by
    rw [blockBytes, append_assoc]
  have hlength : (blockBytes json zlib es).length = 16 + (zlib.compress (rawOf json es)).length := by
    rw [blockBytes, length_append, length_headerOf]
  have hne : blockBytes json zlib es ++ rest ≠ [] := by
    intro hnil
    have hzero := congrArg List.length hnil
    rw [length_append, hlength, length_nil] at hzero
    omega
  have htake : (blockBytes json zlib es ++ rest).take 16 = headerOf json zlib es := by
    rw [hbytes, take_left' (length_headerOf es)]
  have hdrop : (blockBytes json zlib es ++ rest).drop 16 = zlib.compress (rawOf json es) ++ rest := by
    rw [hbytes, drop_left' (length_headerOf es)]
  have hnext : (blockBytes json zlib es ++ rest).drop
      (16 + (zlib.compress (rawOf json es)).length) = rest := drop_left' hlength
  rw [ZlibChunkEventView.readBlocks, dif_neg hne, htake, hdrop, readBlock_headerOf h, ok_bind]
  simp only [hnext]
  rw [hlength, Nat.add_assoc]

/-- **The blocks of a file are entered one after the other.** -/
theorem readBlocks_flatMap : ∀ (todo done : List (List (JsonObject σ)))
    (view : ZlibChunkEventView σ η), Shows json zlib hasher view done → (∀ es ∈ todo, Good json es) →
    view.file = zlibMagic ++ (done ++ todo).flatMap (blockBytes json zlib) →
    ∃ view', view.readBlocks json zlib hasher (4 + (done.flatMap (blockBytes json zlib)).length)
      (todo.flatMap (blockBytes json zlib)) = .ok view' ∧ Shows json zlib hasher view' (done ++ todo)
  | [], done, view, hview, _, _ => by
      refine ⟨view, ?_, by rwa [append_nil]⟩
      rw [flatMap_nil, ZlibChunkEventView.readBlocks, dif_pos rfl]
  | es :: todo, done, view, hview, hgood, hfile => by
      have hes : Good json es := hgood es (.head _)
      have hlist : done ++ es :: todo = (done ++ [es]) ++ todo := by simp
      have hoffset : (view.file.drop (4 + (done.flatMap (blockBytes json zlib)).length + 16)).take
          (zlib.compress (rawOf json es)).length = zlib.compress (rawOf json es) := by
        have hsplit : view.file = (zlibMagic ++ done.flatMap (blockBytes json zlib) ++
            headerOf json zlib es) ++ (zlib.compress (rawOf json es) ++
              todo.flatMap (blockBytes json zlib)) := by
          rw [hfile, flatMap_append, flatMap_cons, blockBytes]
          simp only [append_assoc]
        have hlength : (zlibMagic ++ done.flatMap (blockBytes json zlib) ++
            headerOf json zlib es).length = 4 + (done.flatMap (blockBytes json zlib)).length + 16 := by
          rw [length_append, length_append, length_headerOf]
          rfl
        rw [hsplit, drop_left' hlength, take_left' rfl]
      have hnext := hview.entered hes hoffset
      obtain ⟨view', hrun, hview'⟩ := readBlocks_flatMap todo (done ++ [es]) _ hnext
        (fun es' hes' => hgood es' (mem_cons_of_mem es hes')) (by rw [← hlist]; exact hfile)
      refine ⟨view', ?_, by rwa [hlist]⟩
      rw [flatMap_cons, readBlocks_cons hes, ← hrun, flatMap_append,
        flatMap_singleton, length_append, ← Nat.add_assoc 4]

/-- **A file of good blocks is accepted, and the view holds them.** -/
theorem create_flatMap {done : List (List (JsonObject σ))} (hgood : ∀ es ∈ done, Good json es) :
    ∃ view, ZlibChunkEventView.create json zlib hasher
      (zlibMagic ++ done.flatMap (blockBytes json zlib)) done.flatten.length = .ok view ∧
        Shows json zlib hasher view done := by
  have hinit : Shows json zlib hasher (⟨zlibMagic ++ done.flatMap (blockBytes json zlib), [], [], 0,
      none, [], hasher.new semanticFront⟩ : ZlibChunkEventView σ η) [] :=
    ⟨nofun, rfl, rfl, rfl, .nil, fun i hi => nomatch hi⟩
  obtain ⟨view, hrun, hview⟩ := readBlocks_flatMap done [] _ hinit hgood rfl
  refine ⟨view, ?_, hview⟩
  have hrun' : ZlibChunkEventView.readBlocks json zlib hasher _ 4
      (done.flatMap (blockBytes json zlib)) = .ok view := hrun
  have hmagic : zlibMagic.length = 4 := rfl
  have hcount : (view.count : ℤ) = done.flatten.length := congrArg Nat.cast hview.count
  rw [ZlibChunkEventView.create, ensure_of (Int.natCast_nonneg _), ok_bind,
    take_left' hmagic, ensure_of rfl, ok_bind, drop_left' hmagic, hrun', ok_bind, ensure_of hcount]
  rfl

/-! ## Reading a view -/

section Reads

variable {view : ZlibChunkEventView σ η} {done : List (List (JsonObject σ))}

variable {number : ℕ}

/-- A view keeps holding its file when another block was inflated last. -/
theorem Shows.cached (hview : Shows json zlib hasher view done) (hes : done[number]? = some es) :
    Shows json zlib hasher { view with cacheEvents := readOf es, cacheIndex := some number } done where
  good := hview.good
  starts := hview.starts
  count := hview.count
  digest := hview.digest
  blocks := hview.blocks
  cache i hi := by
    obtain rfl : number = i := Option.some.inj hi
    exact ⟨es, hes, rfl⟩

/-- **A block is read as it was written**, from the cache or from the file. -/
theorem block_of_shows (hview : Shows json zlib hasher view done) (hes : done[number]? = some es) :
    ∃ view', ZlibChunkEventView.block json zlib number view = (.ok (readOf es), view') ∧
      Shows json zlib hasher view' done := by
  by_cases hcache : view.cacheIndex = some number
  · obtain ⟨es', hes', hevents⟩ := hview.cache number hcache
    obtain rfl : es = es' := Option.some.inj (hes.symm.trans hes')
    exact ⟨view, by rw [ZlibChunkEventView.block, if_pos hcache, hevents], hview⟩
  · obtain ⟨hlt, hget⟩ := List.getElem?_eq_some_iff.1 hes
    have hlt' : number < view.blocks.length := by rwa [hview.blocks.length_eq]
    obtain ⟨hdata, -, hraw, hcount, hcrc⟩ := (List.forall₂_iff_get.1 hview.blocks).2 number hlt' hlt
    have hes' : done.get ⟨number, hlt⟩ = es := hget
    have hne : es ≠ [] := (hview.good es (List.mem_of_getElem? hes)).ne_nil
    have hblock : view.blocks[number]? = some (view.blocks.get ⟨number, hlt'⟩) :=
      List.getElem?_eq_getElem hlt'
    refine ⟨_, ?_, hview.cached hes⟩
    rw [ZlibChunkEventView.block, if_neg hcache, hblock]
    simp only [hdata, hraw, hcount, hcrc, hes', decodeBlock_compress hne]

/-- The events of a file, as they are read. -/
theorem flatten_map_readOf (done : List (List (JsonObject σ))) :
    (done.map readOf).flatten = readOf done.flatten := by
  rw [readOf, map_flatten]
  rfl

theorem starts_map_readOf (start : ℕ) (done : List (List (JsonObject σ))) :
    starts start (done.map readOf) = starts start done := by
  induction done generalizing start with
  | nil => rfl
  | cons es done ih =>
    rw [map_cons, starts, starts, ih, readOf, length_map]

theorem length_readOf (es : List (JsonObject σ)) : (readOf es).length = es.length := length_map _

/-- **An integer index reads the list of events.** -/
theorem getitem_of_shows (hview : Shows json zlib hasher view done) (i : ℤ) :
    (ZlibChunkEventView.getitem json zlib i view).1 =
      index "event index out of range" (readOf done.flatten) i ∧
    Shows json zlib hasher (ZlibChunkEventView.getitem json zlib i view).2 done := by
  have hlength : (readOf done.flatten).length = view.count := by rw [length_readOf, hview.count]
  rw [ZlibChunkEventView.getitem, bind_of_ok (get_apply view)]
  cases hplace : position "event index out of range" view.count i with
  | error e =>
    rw [bind_of_error (lift_apply _ view), index_of_error (by rw [hlength, hplace])]
    exact ⟨rfl, hview⟩
  | ok place =>
    have hlt : place < (readOf done.flatten).length := by
      rw [hlength]
      exact position_lt hplace
    obtain ⟨number, chunk, first, hnumber, hchunk, hfirst, hitem⟩ :=
      exists_chunk (Nat.zero_le place) (by rwa [Nat.zero_add, flatten_map_readOf])
    rw [starts_map_readOf, ← hview.starts] at hnumber hfirst
    rw [getElem?_map] at hchunk
    obtain ⟨es, hes, rfl⟩ := Option.map_eq_some_iff.1 hchunk
    obtain ⟨view', hblock, hview'⟩ := block_of_shows hview hes
    rw [flatten_map_readOf, Nat.sub_zero, getElem?_eq_getElem hlt] at hitem
    rw [bind_of_ok (lift_apply _ view)]
    simp only [hnumber, Nat.add_sub_cancel, hfirst, Option.getD_some]
    rw [bind_of_ok hblock, hitem]
    exact ⟨(index_of_position (by rw [hlength, hplace]) (getElem?_eq_getElem hlt)).symm, hview'⟩

theorem getitems_of_shows : ∀ {positions : List ℤ} {view : ZlibChunkEventView σ η},
    Shows json zlib hasher view done → (∀ p ∈ positions, 0 ≤ p ∧ p < (readOf done.flatten).length) →
    ∃ view', ZlibChunkEventView.getitems json zlib positions view =
      (.ok (positions.filterMap fun p => (readOf done.flatten)[p.toNat]?), view') ∧
        Shows json zlib hasher view' done
  | [], view, hview, _ => ⟨view, rfl, hview⟩
  | p :: positions, view, hview, hp => by
      obtain ⟨h0, hlt⟩ := hp p (.head _)
      have hlt' : p.toNat < (readOf done.flatten).length := by omega
      obtain ⟨hitem, hnext⟩ := getitem_of_shows hview p
      rw [index_of_position (position_of_lt h0 hlt) (getElem?_eq_getElem hlt')] at hitem
      obtain ⟨view', hrun, hview'⟩ := getitems_of_shows hnext
        fun q hq => hp q (mem_cons_of_mem p hq)
      have hcons : ((p :: positions).filterMap fun p => (readOf done.flatten)[p.toNat]?) =
          (readOf done.flatten).get ⟨p.toNat, hlt'⟩ ::
            positions.filterMap fun p => (readOf done.flatten)[p.toNat]? :=
        filterMap_cons_some (getElem?_eq_getElem hlt')
      refine ⟨view', ?_, hview'⟩
      rw [ZlibChunkEventView.getitems, bind_of_fst hitem, bind_of_ok hrun, hcons]
      rfl

/-- **A slice reads the list of events.** -/
theorem getslice_of_shows (hview : Shows json zlib hasher view done) (s : Slice) :
    (ZlibChunkEventView.getslice json zlib s view).1 = slice (readOf done.flatten) s ∧
    Shows json zlib hasher (ZlibChunkEventView.getslice json zlib s view).2 done := by
  have hlength : (readOf done.flatten).length = view.count := by rw [length_readOf, hview.count]
  rw [ZlibChunkEventView.getslice, slice, hlength, bind_of_ok (get_apply view)]
  cases hpositions : s.positions view.count with
  | error e =>
    rw [bind_of_error (lift_apply _ view), error_bind]
    exact ⟨rfl, hview⟩
  | ok positions =>
    obtain ⟨view', hrun, hview'⟩ := getitems_of_shows hview fun p hp => by
      rw [hlength]
      exact mem_positions hpositions hp
    rw [bind_of_ok (lift_apply _ view), hrun, ok_bind]
    exact ⟨rfl, hview'⟩

theorem iterBlocks_of_shows : ∀ {numbers : List ℕ} {view : ZlibChunkEventView σ η},
    Shows json zlib hasher view done → (∀ i ∈ numbers, i < done.length) →
    ∃ view', ZlibChunkEventView.iterBlocks json zlib numbers view =
      (.ok ((numbers.filterMap fun i => done[i]?).map readOf).flatten, view') ∧
        Shows json zlib hasher view' done
  | [], view, hview, _ => ⟨view, rfl, hview⟩
  | i :: numbers, view, hview, h => by
      have hes := getElem?_eq_getElem (h i (.head _))
      obtain ⟨mid, hblock, hmid⟩ := block_of_shows hview hes
      obtain ⟨view', hrun, hview'⟩ := iterBlocks_of_shows hmid
        fun j hj => h j (mem_cons_of_mem i hj)
      refine ⟨view', ?_, hview'⟩
      rw [ZlibChunkEventView.iterBlocks, bind_of_ok hblock, bind_of_ok hrun,
        filterMap_cons_some hes, map_cons, flatten_cons]
      rfl

/-- **An iteration yields the list of events.** -/
theorem iter_of_shows (hview : Shows json zlib hasher view done) :
    (ZlibChunkEventView.iter json zlib view).1 = .ok (readOf done.flatten) ∧
    Shows json zlib hasher (ZlibChunkEventView.iter json zlib view).2 done := by
  have hblocks : view.blocks.length = done.length := hview.blocks.length_eq
  obtain ⟨view', hrun, hview'⟩ := iterBlocks_of_shows hview fun i (hi : i ∈ List.range done.length) =>
    mem_range.1 hi
  rw [filterMap_range, flatten_map_readOf] at hrun
  rw [ZlibChunkEventView.iter, bind_of_ok (get_apply view), hblocks, hrun]
  exact ⟨rfl, hview'⟩

end Reads

/-! ## The writer -/

/-- What a writer wrote: full blocks, and the events of the next one. -/
structure Wrote (json : JsonLines σ) (zlib : Zlib) (hasher : Hasher η) (chunkEvents : ℤ)
    (digest : Option η) (w : EventWriter η) (done : List (List (JsonObject σ)))
    (next : List (JsonObject σ)) : Prop where
  good : ∀ es ∈ done, Good json es
  handle : w.handle = zlibMagic ++ done.flatMap (blockBytes json zlib)
  pending : w.pending = next.map (lineOf json)
  pendingBytes : w.pendingBytes = (rawOf json next).length
  count : w.count = (done.flatten ++ next).length
  semanticDigest : w.semanticDigest =
    digest.map fun d => feedAll hasher d 0 (textsOf json (done.flatten ++ next))
  raw_le : (rawOf json next).length ≤ zlibMaxRaw
  length_le : (next.length : ℤ) ≤ chunkEvents

section Writer

variable {chunkEvents : ℤ} {digest : Option η} {w : EventWriter η}
  {done : List (List (JsonObject σ))} {next : List (JsonObject σ)}

theorem packHeader_of_good (h : Good json es) :
    packHeader (zlib.compress (rawOf json es)).length (rawOf json es).length es.length
      (zlib.crc32 (rawOf json es)).toNat = .ok (headerOf json zlib es) := by
  obtain ⟨hcomp, hraw, hcount⟩ := @Good.bounds σ json zlib es h
  have hmax : zlibMaxCompressed < 2 ^ 32 := by decide
  have hraw' : (rawOf json es).length ≤ zlibMaxCompressed := hraw.2.trans (Nat.le_add_right _ _)
  have hcount' : (4096 : ℕ) < 2 ^ 32 := by decide
  rw [packHeader, ensure_of ⟨hcomp.2.trans_lt hmax, hraw'.trans_lt hmax, hcount.2.trans_lt hcount',
    UInt32.toNat_lt _⟩]
  rfl

/-- **A flush turns the waiting events into a block.** -/
theorem flush_of_wrote (hchunk : chunkEvents ≤ 4096)
    (hw : Wrote json zlib hasher chunkEvents digest w done next) :
    ∃ w' done', w.flush zlib = .ok w' ∧ Wrote json zlib hasher chunkEvents digest w' done' [] ∧
      done'.flatten = done.flatten ++ next := by
  by_cases hnext : next = []
  · subst hnext
    refine ⟨w, done, ?_, hw, (append_nil _).symm⟩
    rw [flush, if_pos (by rw [hw.pending]; rfl)]
  · have hgood : Good json next := ⟨hnext, by have := hw.length_le; omega, hw.raw_le⟩
    have hpending : w.pending ≠ [] := by
      rw [hw.pending]
      simpa using hnext
    have hraw : w.pending.flatten = rawOf json next := by rw [hw.pending, rawOf]
    have hlength : w.pending.length = next.length := by rw [hw.pending, length_map]
    have hflatten : (done ++ [next]).flatten = done.flatten ++ next := by
      rw [flatten_append, flatten_singleton]
    refine ⟨{ w with
      handle := w.handle ++ headerOf json zlib next ++ zlib.compress (rawOf json next)
      pending := []
      pendingBytes := 0 }, done ++ [next], ?_, ?_, hflatten⟩
    · rw [flush, if_neg hpending]
      simp only [hraw, hlength, packHeader_of_good hgood, ok_bind]
      rfl
    · refine ⟨?_, ?_, rfl, rfl, ?_, ?_, Nat.zero_le _, ?_⟩
      · intro es hes
        rcases mem_append.1 hes with hes | hes
        · exact hw.good es hes
        · rwa [mem_singleton.1 hes]
      · rw [flatMap_append, flatMap_singleton, ← append_assoc, ← hw.handle]
        exact append_assoc _ _ _
      · rw [hflatten, append_nil]
        exact hw.count
      · rw [hflatten, append_nil]
        exact hw.semanticDigest
      · have := hw.length_le
        have : (0 : ℤ) ≤ next.length := Int.natCast_nonneg _
        change (0 : ℤ) ≤ chunkEvents
        omega

variable {e : JsonObject σ}

/-- **A line that fits waits for the next block.** -/
theorem keep_of_wrote (hw : Wrote json zlib hasher chunkEvents digest w done next)
    (hraw : (rawOf json next).length + (lineOf json e).length ≤ zlibMaxRaw)
    (hlength : (next.length : ℤ) < chunkEvents) :
    Wrote json zlib hasher chunkEvents digest
      (w.keep hasher (json.dumps e.val) (lineOf json e)) done (next ++ [e]) := by
  have hrawOf : (rawOf json (next ++ [e])).length = (rawOf json next).length + (lineOf json e).length := by
    rw [rawOf_append, length_append]
  refine ⟨hw.good, hw.handle, ?_, ?_, ?_, ?_, ?_, ?_⟩
  · rw [map_append, ← hw.pending]
    rfl
  · rw [hrawOf, ← hw.pendingBytes]
    rfl
  · rw [← append_assoc, length_append, ← hw.count]
    rfl
  · have htexts : textsOf json (done.flatten ++ (next ++ [e])) =
        textsOf json (done.flatten ++ next) ++ [json.dumps e.val] := by
      rw [← append_assoc, textsOf, map_append]
      rfl
    have hcount : (textsOf json (done.flatten ++ next)).length = w.count := by
      rw [textsOf, length_map, hw.count]
    change w.semanticDigest.map _ = _
    rw [hw.semanticDigest, Option.map_map, htexts]
    congr 1
    funext d
    rw [feedAll_append, hcount, Nat.zero_add]
    rfl
  · rwa [hrawOf]
  · rw [length_append, length_singleton]
    omega

/-- **An event that fits is written.** -/
theorem writeEvent_of_wrote (hchunk : 1 ≤ chunkEvents ∧ chunkEvents ≤ 4096)
    (hw : Wrote json zlib hasher chunkEvents digest w done next) (he : LineFits json e) :
    ∃ w' done' next', writeEvent json zlib hasher chunkEvents w e.val = .ok w' ∧
      Wrote json zlib hasher chunkEvents digest w' done' next' ∧
      done'.flatten ++ next' = done.flatten ++ next ++ [e] := by
  have hline : (rawOf json ([] : List (JsonObject σ))).length + (lineOf json e).length ≤ zlibMaxRaw :=
    (Nat.zero_add _).trans_le he
  have hpos : (([] : List (JsonObject σ)).length : ℤ) < chunkEvents := Int.lt_of_lt_of_le one_pos hchunk.1
  have hstart : writeEvent json zlib hasher chunkEvents w e.val =
      w.makeRoom zlib chunkEvents (lineOf json e) >>=
        fun w => pure (w.keep hasher (json.dumps e.val) (lineOf json e)) := by
    have hfits : (json.dumps e.val ++ [10]).length ≤ zlibMaxRaw := he
    rw [writeEvent, ensure_of hfits, ok_bind]
    rfl
  rw [hstart, makeRoom]
  by_cases hfull : w.Full chunkEvents (lineOf json e)
  · obtain ⟨w', done', hflush, hw', hflatten⟩ := flush_of_wrote hchunk.2 hw
    refine ⟨_, done', [e], ?_, keep_of_wrote hw' hline hpos, by rw [hflatten]⟩
    rw [if_pos hfull, hflush]
    rfl
  · have hroom : (rawOf json next).length + (lineOf json e).length ≤ zlibMaxRaw ∧
        (next.length : ℤ) < chunkEvents := by
      by_cases hnext : next = []
      · subst hnext
        exact ⟨hline, hpos⟩
      · have hpending : w.pending ≠ [] := by
          rw [hw.pending]
          simpa using hnext
        have hnot := not_or.1 fun h => hfull ⟨hpending, h⟩
        rw [hw.pendingBytes, hw.pending, length_map] at hnot
        exact ⟨not_lt.1 hnot.2, not_le.1 hnot.1⟩
    refine ⟨_, done, next ++ [e], ?_, keep_of_wrote hw hroom.1 hroom.2, (append_assoc _ _ _).symm⟩
    rw [if_neg hfull]
    rfl

/-- **A run of the writer over events that fit.** -/
theorem foldlM_of_wrote (hchunk : 1 ≤ chunkEvents ∧ chunkEvents ≤ 4096) :
    ∀ {events : List (JsonObject σ)} {w : EventWriter η} {done : List (List (JsonObject σ))}
      {next : List (JsonObject σ)}, Wrote json zlib hasher chunkEvents digest w done next →
    (∀ e ∈ events, LineFits json e) → ∃ w' done' next', (events.map JsonObject.val).foldlM
        (writeEvent json zlib hasher chunkEvents) w = .ok w' ∧
      Wrote json zlib hasher chunkEvents digest w' done' next' ∧
      done'.flatten ++ next' = done.flatten ++ next ++ events
  | [], w, done, next, hw, _ => ⟨w, done, next, rfl, hw, (append_nil _).symm⟩
  | e :: events, w, done, next, hw, h => by
      obtain ⟨w₁, done₁, next₁, hstep, hw₁, heq₁⟩ := writeEvent_of_wrote hchunk hw (h e (.head _))
      obtain ⟨w₂, done₂, next₂, hrun, hw₂, heq₂⟩ :=
        foldlM_of_wrote hchunk hw₁ fun e' he' => h e' (mem_cons_of_mem e he')
      refine ⟨w₂, done₂, next₂, ?_, hw₂, ?_⟩
      · rw [map_cons, foldlM_cons, hstep]
        exact hrun
      · rw [heq₂, heq₁, append_assoc, singleton_append]

/-- An event that does not fit stops the writer. -/
theorem foldlM_of_not_fits (hchunk : 1 ≤ chunkEvents ∧ chunkEvents ≤ 4096) :
    ∀ {events : List (JsonObject σ)} {w : EventWriter η} {done : List (List (JsonObject σ))}
      {next : List (JsonObject σ)}, Wrote json zlib hasher chunkEvents digest w done next →
    (∃ e ∈ events, ¬ LineFits json e) →
    (events.map JsonObject.val).foldlM (writeEvent json zlib hasher chunkEvents) w =
      .error (.valueError "compressed event exceeds block size")
  | [], _, _, _, _, h => by
      obtain ⟨e, he, -⟩ := h
      cases he
  | e :: events, w, done, next, hw, h => by
      rw [map_cons, foldlM_cons]
      by_cases he : LineFits json e
      · obtain ⟨w₁, done₁, next₁, hstep, hw₁, -⟩ := writeEvent_of_wrote hchunk hw he
        obtain ⟨e', he', hnot⟩ := h
        have hrest : ∃ e ∈ events, ¬ LineFits json e := by
          rcases mem_cons.1 he' with rfl | he'
          · exact absurd he hnot
          · exact ⟨e', he', hnot⟩
        rw [hstep]
        exact foldlM_of_not_fits hchunk hw₁ hrest
      · have hstep : writeEvent json zlib hasher chunkEvents w e.val =
            .error (.valueError "compressed event exceeds block size") := by
          have hlong : ¬ (json.dumps e.val ++ [10]).length ≤ zlibMaxRaw := he
          rw [writeEvent, ensure_of_not hlong]
          rfl
        rw [hstep]
        rfl

/-- The writer when it starts. -/
theorem wrote_nil (hchunk : 1 ≤ chunkEvents) :
    Wrote json zlib hasher chunkEvents digest (⟨zlibMagic, [], 0, 0, digest⟩ : EventWriter η) []
      ([] : List (JsonObject σ)) where
  good es hes := nomatch hes
  handle := rfl
  pending := rfl
  pendingBytes := rfl
  count := rfl
  semanticDigest := by
    cases digest <;> rfl
  raw_le := Nat.zero_le _
  length_le := by simpa using hchunk.trans' zero_le_one

/-- **What a writer that returns leaves behind**: a file of good blocks that hold the events. -/
theorem write_of_fits (hchunk : 1 ≤ chunkEvents ∧ chunkEvents ≤ 4096)
    {events : List (JsonObject σ)} (h : ∀ e ∈ events, LineFits json e) :
    ∃ (written : Written η) (done : List (List (JsonObject σ))),
      writeZlibChunkEvents json zlib hasher (events.map JsonObject.val) chunkEvents
        digest = .ok written ∧ (∀ es ∈ done, Good json es) ∧ done.flatten = events ∧
      written.file = zlibMagic ++ done.flatMap (blockBytes json zlib) ∧
      written.count = events.length ∧ written.semanticDigest =
        digest.map fun d => feedAll hasher d 0 (textsOf json events) := by
  obtain ⟨w, done, next, hrun, hw, heq⟩ :=
    foldlM_of_wrote hchunk (@wrote_nil σ η json zlib hasher chunkEvents digest hchunk.1) h
  obtain ⟨w', done', hflush, hw', hflatten⟩ := flush_of_wrote hchunk.2 hw
  have hevents : done'.flatten = events := by rw [hflatten, heq]; rfl
  have hcount := hw'.count
  have hdigest := hw'.semanticDigest
  rw [append_nil, hevents] at hcount hdigest
  refine ⟨⟨w'.handle, w'.count, w'.semanticDigest⟩, done', ?_, hw'.good, hevents, hw'.handle, hcount, hdigest⟩
  rw [writeZlibChunkEvents, ensure_of hchunk, ok_bind, hrun, ok_bind, hflush]
  rfl

end Writer

/-! ## Sessions -/

/-- What a view is asked for. -/
inductive ViewRequest where
  | index (i : ℤ)
  | slice (s : Slice)
  | iterate
  deriving DecidableEq

namespace ViewRequest

/-- Ask a view; an index gives one event. -/
def respond (json : JsonLines σ) (zlib : Zlib) :
    ViewRequest → Effect (ZlibChunkEventView σ η) (List (Value σ))
  | index i => do
      let event ← ZlibChunkEventView.getitem json zlib i
      pure [event]
  | slice s => ZlibChunkEventView.getslice json zlib s
  | iterate => ZlibChunkEventView.iter json zlib

/-- What a list of events answers. -/
def answer (events : List (Value σ)) : ViewRequest → Except Exn (List (Value σ))
  | index i => (Sequence.index "event index out of range" events i).map fun event => [event]
  | slice s => Sequence.slice events s
  | iterate => .ok events

/-- Ask a view one thing after the other. -/
def session (json : JsonLines σ) (zlib : Zlib) : List ViewRequest → ZlibChunkEventView σ η →
    List (Except Exn (List (Value σ)))
  | [], _ => []
  | request :: requests, view =>
      (request.respond json zlib view).1 :: session json zlib requests (request.respond json zlib view).2

/-- **A view answers as the list of events does.** -/
theorem respond_of_shows (hview : Shows json zlib hasher view done) (request : ViewRequest) :
    (request.respond json zlib view).1 = request.answer (readOf done.flatten) ∧
      Shows json zlib hasher (request.respond json zlib view).2 done := by
  cases request with
  | index i =>
    obtain ⟨hitem, hnext⟩ := getitem_of_shows hview i
    rw [respond, answer, ← hitem]
    cases hrun : ZlibChunkEventView.getitem json zlib i view with
    | mk result view' =>
      rw [hrun] at hnext
      cases result with
      | ok event =>
        rw [bind_of_ok hrun]
        exact ⟨rfl, hnext⟩
      | error e =>
        rw [bind_of_error hrun]
        exact ⟨rfl, hnext⟩
  | slice s => exact getslice_of_shows hview s
  | iterate => exact iter_of_shows hview

theorem session_of_shows : ∀ (requests : List ViewRequest)
    {view : ZlibChunkEventView σ η}, Shows json zlib hasher view done →
    session json zlib requests view = requests.map fun request => request.answer (readOf done.flatten)
  | [], _, _ => rfl
  | request :: requests, view, hview => by
      obtain ⟨hanswer, hnext⟩ := respond_of_shows hview request
      rw [session, hanswer, session_of_shows requests hnext, map_cons]

end ViewRequest

/-- The bounds the reader enforces. -/
def Block.InBounds (b : Block) : Prop :=
  (0 < b.compLen ∧ b.compLen ≤ zlibMaxCompressed) ∧ (0 < b.rawLen ∧ b.rawLen ≤ zlibMaxRaw) ∧
    0 < b.count ∧ b.count ≤ 4096

theorem inBounds_of_shows (hview : Shows json zlib hasher view done) : ∀ b ∈ view.blocks, b.InBounds := by
  intro b hb
  obtain ⟨i, -, rfl⟩ := mem_iff_get.1 hb
  have hi' : i.val < done.length := by
    rw [← hview.blocks.length_eq]
    exact i.isLt
  obtain ⟨-, hcomp, hraw, hcount, -⟩ := (forall₂_iff_get.1 hview.blocks).2 i i.isLt hi'
  have hgood : Good json (done.get ⟨i, hi'⟩) := hview.good _ (get_mem done ⟨i, hi'⟩)
  rw [Block.InBounds, hcomp, hraw, hcount]
  exact hgood.bounds

/-- What a view returns for an event equals the event. -/
theorem equal_readOf (events : List (JsonObject σ)) :
    List.Forall₂ (Value.Equal (· = ·)) (events.map JsonObject.val) (readOf events) := by
  rw [readOf, forall₂_map_left_iff, forall₂_map_right_iff, forall₂_same]
  exact fun e _ => Value.equal_canonical e.val e.plain e.wellFormed

end Artifact

section RoundTrip

variable {σ η : Type} (json : JsonLines σ) (zlib : Zlib) (hasher : Hasher η)

/-- **Compressed events are read back.** Whenever every line fits a block, the file is written and accepted,
its blocks are within the bounds, the view answers as the list of the events in any order of questions, and
the digests agree. A line that does not fit is refused. -/
theorem written_events_read_back (events : List (JsonObject σ)) {chunkEvents : ℤ}
    (hchunk : 1 ≤ chunkEvents ∧ chunkEvents ≤ 4096) (digest : Option η) :
    ((∃ e ∈ events, ¬ LineFits json e) →
      writeZlibChunkEvents json zlib hasher (events.map JsonObject.val) chunkEvents digest =
        .error (.valueError "compressed event exceeds block size")) ∧
    ((∀ e ∈ events, LineFits json e) → ∃ written, writeZlibChunkEvents json zlib hasher
        (events.map JsonObject.val) chunkEvents digest = .ok written ∧
      written.count = events.length ∧ ∃ view read, ZlibChunkEventView.create json zlib hasher
        written.file written.count = .ok view ∧
      List.Forall₂ (Value.Equal (· = ·)) (events.map JsonObject.val) read ∧
      (∀ requests, ViewRequest.session json zlib requests view =
        requests.map fun request => request.answer read) ∧
      (∀ b ∈ view.blocks, b.InBounds) ∧ (digest = some (hasher.new semanticFront) →
        written.semanticDigest = some view.semanticDigest)) := by
  constructor
  · intro h
    rw [writeZlibChunkEvents, ensure_of hchunk, ok_bind, foldlM_of_not_fits hchunk (wrote_nil hchunk.1) h]
    rfl
  · intro h
    obtain ⟨written, done, hwrite, hgood, hevents, hfile, hcount, hdigest⟩ :=
      @write_of_fits σ η json zlib hasher chunkEvents digest hchunk events h
    obtain ⟨view, hcreate, hview⟩ := @create_flatMap σ η json zlib hasher done hgood
    refine ⟨written, hwrite, hcount, view, readOf events, ?_, equal_readOf events, fun requests => ?_,
      inBounds_of_shows hview, fun hstart => ?_⟩
    · rw [hfile, hcount, ← hevents, hcreate]
    · rw [ViewRequest.session_of_shows requests hview, hevents]
    · rw [hdigest, hstart, hview.digest, hevents]
      rfl

end RoundTrip

/-! ## A file of two blocks -/

/-- The checksum of a byte string. -/
def crc32 (bytes : List UInt8) : UInt32 :=
  ~~~ bytes.foldl (fun crc b => (List.range 8).foldl
    (fun c _ => if c &&& 1 = 1 then (c >>> 1) ^^^ 0xEDB88320 else c >>> 1) (crc ^^^ b.toUInt32)) 0xFFFFFFFF

/-- A decompressor that was asked for up to `maxLength` bytes. -/
def inflated (raw : List UInt8) (maxLength : ℕ) : Option Inflated :=
  some ⟨raw.take maxLength, raw.length < maxLength, [], []⟩

theorem inflated_of_lt {raw : List UInt8} {maxLength : ℕ} (h : raw.length < maxLength) :
    inflated raw maxLength = some ⟨raw, true, [], []⟩ := by
  rw [inflated, take_of_length_le h.le, decide_eq_true h]

/-- The blocks `{}` and `{}`, `{"a":1}` are compressed as the library does it, and any other is stored. -/
def sampleCompress (raw : List UInt8) : List UInt8 :=
  if raw = [123, 125, 10] then [120, 1, 171, 174, 229, 2, 0, 2, 120, 1, 3]
  else if raw = [123, 125, 10, 123, 34, 97, 34, 58, 49, 125, 10] then
    [120, 1, 171, 174, 229, 170, 86, 74, 84, 178, 50, 172, 229, 2, 0, 20, 197, 3, 21]
  else 0 :: raw

/-- What `sampleCompress` wrote is read back. -/
def sampleDecompress (data : List UInt8) (maxLength : ℕ) : Option Inflated :=
  match data with
  | 0 :: raw => inflated raw maxLength
  | [120, 1, 171, 174, 229, 2, 0, 2, 120, 1, 3] => inflated [123, 125, 10] maxLength
  | [120, 1, 171, 174, 229, 170, 86, 74, 84, 178, 50, 172, 229, 2, 0, 20, 197, 3, 21] =>
      inflated [123, 125, 10, 123, 34, 97, 34, 58, 49, 125, 10] maxLength
  | _ => none

theorem sampleDecompress_sampleCompress (raw : List UInt8) (maxLength : ℕ) (h : raw.length < maxLength) :
    sampleDecompress (sampleCompress raw) maxLength = some ⟨raw, true, [], []⟩ := by
  unfold sampleCompress
  split_ifs with hraw hraw
  · subst hraw
    exact inflated_of_lt h
  · subst hraw
    exact inflated_of_lt h
  · exact inflated_of_lt h

theorem sampleCompress_ne_nil (raw : List UInt8) : sampleCompress raw ≠ [] := by
  unfold sampleCompress
  split_ifs <;> exact cons_ne_nil _ _

theorem length_sampleCompress_le (raw : List UInt8) (_ : raw.length ≤ zlibMaxRaw) :
    (sampleCompress raw).length ≤ raw.length + 65536 := by
  unfold sampleCompress
  split_ifs with hraw hraw
  · subst hraw
    decide
  · subst hraw
    decide
  · rw [length_cons]
    omega

/-- A library that compresses two blocks and stores every other one. -/
def Zlib.sample : Zlib where
  compress := sampleCompress
  decompress := sampleDecompress
  crc32 := MyFuzz.crc32
  decompress_compress := sampleDecompress_sampleCompress
  compress_ne_nil := sampleCompress_ne_nil
  length_compress_le := length_sampleCompress_le

/-- A digest that keeps what it was fed. -/
def Hasher.collect : Hasher (List UInt8) := ⟨id, (· ++ ·)⟩

/-- The event without fields. -/
def emptyEvent : JsonObject JsonScalar := ⟨.dict [], rfl, trivial, ⟨List.nodup_nil, trivial⟩⟩

/-- An event with a field. -/
def fieldEvent : JsonObject JsonScalar := ⟨.dict [("a", .scalar (.int 1))], rfl, ⟨trivial, trivial⟩,
  ⟨List.nodup_singleton _, trivial, trivial⟩⟩

/-- Three events in two blocks, asked for from the end, as a slice and in order. -/
theorem three_events_read_back : ∃ written, writeZlibChunkEvents Json.lines Zlib.sample Hasher.collect
    [emptyEvent.val, fieldEvent.val, emptyEvent.val] 2 (some (Hasher.collect.new semanticFront))
      = .ok written ∧
    ∃ view e₀ e₁ e₂, ZlibChunkEventView.create Json.lines Zlib.sample Hasher.collect
      written.file 3 = .ok view ∧ Value.Equal (· = ·) fieldEvent.val e₁ ∧
    ViewRequest.session Json.lines Zlib.sample [.index (-1), .slice ⟨some 1, none, none⟩, .iterate]
      view = [.ok [e₂], .ok [e₁, e₂], .ok [e₀, e₁, e₂]] ∧
    written.semanticDigest = some view.semanticDigest := by
  have hchunk : (1 : ℤ) ≤ 2 ∧ (2 : ℤ) ≤ 4096 := by decide
  obtain ⟨written, hwrite, hcount, view, read, hview, hequal, hsession, -, hdigest⟩ :=
    (written_events_read_back Json.lines Zlib.sample Hasher.collect [emptyEvent, fieldEvent, emptyEvent]
      hchunk (some (Hasher.collect.new semanticFront))).2 (by decide)
  obtain ⟨e₀, e₁, e₂, rfl⟩ := length_eq_three.mp hequal.length_eq.symm
  have hcount' : (written.count : ℤ) = 3 := congrArg Nat.cast hcount
  rw [hcount'] at hview
  obtain ⟨-, hfield, -⟩ : _ ∧ _ ∧ _ := by simpa only [map_cons, forall₂_cons] using hequal
  have hslice : Slice.positions ⟨some 1, none, none⟩ 3 = .ok [1, 2] := by decide
  refine ⟨written, hwrite, view, e₀, e₁, e₂, hview, hfield, ?_, hdigest rfl⟩
  simp [hsession, ViewRequest.answer, index, position, slice, hslice]
  rfl

end MyFuzz
