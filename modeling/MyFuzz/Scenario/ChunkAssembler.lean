import MyFuzz.Foundations.Run
import MyFuzz.Foundations.Tiling
import MyFuzz.Scenario.Dependency

/-!
# Scenario/ChunkAssembler — one genome from its chunks

A genome is sent in chunks, each with its offset.  `ChunkAssembler` takes a chunk only where the last
one ended; a chunk sent again is ignored, anything else is refused.  `finish` reads the genome once
all bytes are there and their digest is the declared one:

    accept 0 "ab" ─▸ accept 2 "c" ─▸ accept 0 "ab" ─▸ accept 3 "de" ─▸ finish
         [0,2)           [0,3)          [0,3)             [0,5)        decode "abcde"

So the accepted chunks are laid end to end from 0 in every state (`ChunkAssembler.Inv`), which is what
makes their concatenation by sorted offset the sequence they assemble.
-/

namespace MyFuzz

open Run Outcome Tiling Dict GenomeCodec

/-- What was declared of a genome and the chunks of it so far. -/
structure ChunkAssembler where
  totalBytes : ℤ
  sha256Hex : String
  chunks : Dict ℤ (List UInt8)
  received : ℤ
  finished : Bool

namespace ChunkAssembler

/-- A digest is lowercase hexadecimal. -/
def LowercaseHex (text : String) : Prop :=
  text.length = 64 ∧ ∀ char ∈ text.toList, char ∈ "0123456789abcdef".toList

instance (text : String) : Decidable (LowercaseHex text) :=
  inferInstanceAs (Decidable (_ ∧ _))

/-- The byte budget when none is given. -/
def defaultMaxBytes : ℤ := 1 <<< 20

/-- No chunk yet. -/
def new (totalBytes : ℤ) (sha256Hex : String) : ChunkAssembler :=
  ⟨totalBytes, sha256Hex, Dict.empty, 0, false⟩

/-- Start the assembly of a genome. -/
def create (totalBytes : ℤ) (sha256Hex : String) (maxBytes : ℤ) : Except Exn ChunkAssembler := do
  genomeNatural totalBytes "total_bytes" 1
  genomeNatural maxBytes "max_bytes" 1
  ensure (totalBytes ≤ maxBytes) (.valueError "genome byte budget exceeded")
  ensure (LowercaseHex sha256Hex) (.valueError "sha256 digest must be lowercase hexadecimal")
  pure (new totalBytes sha256Hex)

/-- What is asked of a chunk before its place is looked at. -/
def checkChunk (s : ChunkAssembler) (offset : ℤ) (data : List UInt8) : Except Exn Unit := do
  ensure (s.finished = false) (.valueError "genome is final; no further chunks are accepted")
  genomeNatural offset "chunk offset" 0
  ensure (data ≠ []) (.valueError "chunk must contain bytes")

/-- Whether a chunk that was not sent before goes last. -/
def checkPlace (s : ChunkAssembler) (offset : ℤ) (data : List UInt8) : Except Exn Unit := do
  ensure (¬ offset < s.received) (.valueError "chunk overlap is forbidden")
  ensure (offset = s.received) (.valueError "chunk order is invalid")
  ensure (offset + data.length ≤ s.totalBytes) (.valueError "chunk exceeds declared genome size")

/-- Take a chunk. -/
def accept (s : ChunkAssembler) (offset : ℤ) (data : List UInt8) : Except Exn Unit × ChunkAssembler :=
  match s.checkChunk offset data with
  | .error e => (.error e, s)
  | .ok () =>
      match s.chunks.get? offset with
      | some known =>
          if known ≠ data then (.error (.valueError "duplicate chunk has changed content"), s)
          else (.ok (), s)
      | none =>
          match s.checkPlace offset data with
          | .error e => (.error e, s)
          | .ok () => (.ok (), { s with
              chunks := s.chunks.set offset data
              received := s.received + data.length })

/-- The chunks in the order of their offsets, concatenated. -/
def raw (s : ChunkAssembler) : List UInt8 :=
  (s.chunks.keys.mergeSort (· ≤ ·)).flatMap fun offset => s.chunks.getD offset []

/-- Read the genome. -/
def finish (codec : JsonCodec JsonScalar) (sha : Sha256) (s : ChunkAssembler) :
    Except Exn ScenarioGenome × ChunkAssembler :=
  if s.received ≠ s.totalBytes then (.error (.valueError "genome is incomplete"), s)
  else if sha.hexdigest s.raw ≠ s.sha256Hex then (.error (.valueError "genome digest mismatch"), s)
  else
    match GenomeCodec.decode codec s.raw with
    | .error e => (.error e, s)
    | .ok genome => (.ok genome, { s with finished := true })

end ChunkAssembler

/-- The calls on an assembler. -/
inductive ChunkCall where
  | accept (offset : ℤ) (data : List UInt8)
  | finish

namespace ChunkAssembler

/-- The assembler after a call. -/
def step (codec : JsonCodec JsonScalar) (sha : Sha256) (s : ChunkAssembler) : ChunkCall → ChunkAssembler
  | .accept offset data => (s.accept offset data).2
  | .finish => (s.finish codec sha).2

/-- The chunk a call submits, when it is accepted. -/
def submitted (s : ChunkAssembler) : ChunkCall → List (ℤ × List UInt8)
  | .accept offset data =>
      match (s.accept offset data).1 with
      | .ok () => [(offset, data)]
      | .error _ => []
  | .finish => []

/-- The chunks a run submitted and had accepted, repetitions included. -/
def accepted (codec : JsonCodec JsonScalar) (sha : Sha256) (s : ChunkAssembler) :
    List ChunkCall → List (ℤ × List UInt8)
  | [] => []
  | c :: cs => s.submitted c ++ accepted codec sha (s.step codec sha c) cs

variable {codec : JsonCodec JsonScalar} {sha : Sha256} {s s' : ChunkAssembler}

/-! ## The invariant -/

/-- The chunks are laid end to end from 0, up to what was received. -/
structure Inv (s : ChunkAssembler) : Prop where
  laid : Laid 0 s.chunks.entries
  received : s.received = (joined s.chunks.entries).length
  bounded : s.received ≤ s.totalBytes

theorem create_eq_ok {totalBytes maxBytes : ℤ} {sha256Hex : String}
    (h : create totalBytes sha256Hex maxBytes = .ok s) :
    1 ≤ totalBytes ∧ totalBytes ≤ maxBytes ∧ LowercaseHex sha256Hex ∧ s = new totalBytes sha256Hex := by
  obtain ⟨_, htotal, _, -, h⟩ := bind_ok₂ h
  obtain ⟨hbudget, hhex, h⟩ := ensure_ok₂ h
  exact ⟨genomeNatural_eq_ok.1 htotal, hbudget, hhex, (Except.ok.inj h).symm⟩

/-- What an accepted chunk is: one sent before, or the next one. -/
theorem accept_cases (s : ChunkAssembler) (offset : ℤ) (data : List UInt8) :
    (∃ e, s.accept offset data = (.error e, s)) ∨ (s.finished = false ∧ 0 ≤ offset ∧ data ≠ [] ∧
      ((s.chunks.get? offset = some data ∧ s.accept offset data = (.ok (), s)) ∨
        (s.chunks.get? offset = none ∧ offset = s.received ∧ offset + data.length ≤ s.totalBytes ∧
          s.accept offset data = (.ok (), { s with
            chunks := s.chunks.set offset data
            received := s.received + data.length })))) := by
  unfold accept
  cases hcheck : s.checkChunk offset data with
  | error e => exact .inl ⟨e, rfl⟩
  | ok u =>
    obtain ⟨hopen, hcheck⟩ := ensure_ok.1 hcheck
    obtain ⟨_, hnatural, hcheck⟩ := bind_ok.1 hcheck
    have hdata := ensure_eq_ok.1 hcheck
    have hoffset := genomeNatural_eq_ok.1 hnatural
    cases hget : s.chunks.get? offset with
    | some known =>
      dsimp only
      by_cases hknown : known = data
      · rw [if_neg (not_not.2 hknown), hknown]
        exact .inr ⟨hopen, hoffset, hdata, .inl ⟨rfl, rfl⟩⟩
      · rw [if_pos hknown]
        exact .inl ⟨_, rfl⟩
    | none =>
      cases hplace : s.checkPlace offset data with
      | error e => exact .inl ⟨e, rfl⟩
      | ok u =>
        obtain ⟨-, hnext, hfits⟩ := ensure_ok₂ hplace
        exact .inr ⟨hopen, hoffset, hdata, .inr ⟨rfl, hnext, ensure_eq_ok.1 hfits, rfl⟩⟩

/-- What `finish` does: it raises, or it reads the genome. -/
theorem finish_cases (codec : JsonCodec JsonScalar) (sha : Sha256) (s : ChunkAssembler) :
    (∃ e, s.finish codec sha = (.error e, s) ∧ ∀ genome, ¬ (s.received = s.totalBytes ∧
      sha.hexdigest s.raw = s.sha256Hex ∧ decode codec s.raw = .ok genome)) ∨
    ∃ genome, s.received = s.totalBytes ∧ sha.hexdigest s.raw = s.sha256Hex ∧
      decode codec s.raw = .ok genome ∧
      s.finish codec sha = (.ok genome, { s with finished := true }) := by
  unfold finish
  by_cases hcomplete : s.received = s.totalBytes
  · rw [if_neg (not_not.2 hcomplete)]
    by_cases hdigest : sha.hexdigest s.raw = s.sha256Hex
    · rw [if_neg (not_not.2 hdigest)]
      cases hdecode : decode codec s.raw with
      | error e => exact .inl ⟨e, rfl, fun genome hb => by cases hb.2.2⟩
      | ok genome => exact .inr ⟨genome, hcomplete, hdigest, rfl, rfl⟩
    · rw [if_pos hdigest]
      exact .inl ⟨_, rfl, fun genome hb => hdigest hb.2.1⟩
  · rw [if_pos hcomplete]
    exact .inl ⟨_, rfl, fun genome hb => hcomplete hb.1⟩

/-- **A call keeps the invariant.** -/
theorem Inv.step (h : s.Inv) (codec : JsonCodec JsonScalar) (sha : Sha256) (c : ChunkCall) :
    (s.step codec sha c).Inv := by
  cases c with
  | accept offset data =>
    change (s.accept offset data).2.Inv
    rcases s.accept_cases offset data with ⟨e, herror⟩ | ⟨-, -, hdata, ⟨-, hsame⟩ | ⟨hnew, hnext,
      hfits, hset⟩⟩
    · rw [herror]
      exact h
    · rw [hsame]
      exact h
    · rw [hset]
      have hentries := entries_set_of_get?_eq_none hnew data
      have hlaid := h.laid.concat hdata
      rw [Int.zero_add, ← h.received, ← hnext] at hlaid
      refine ⟨?_, ?_, ?_⟩
      · rw [hentries]
        exact hlaid
      · change s.received + data.length = _
        rw [hentries, joined_concat, List.length_append, Nat.cast_add, h.received]
      · change s.received + data.length ≤ s.totalBytes
        rw [← hnext]
        exact hfits
  | finish =>
    change (s.finish codec sha).2.Inv
    rcases finish_cases codec sha s with ⟨e, herror, -⟩ | ⟨genome, -, -, -, hok⟩
    · rw [herror]
      exact h
    · rw [hok]
      exact ⟨h.laid, h.received, h.bounded⟩

/-- **The chunks are exactly the accepted ones.** -/
theorem mem_entries_run (codec : JsonCodec JsonScalar) (sha : Sha256) (cs : List ChunkCall)
    (s : ChunkAssembler) (p : ℤ × List UInt8) :
    p ∈ (run (step codec sha) s cs).chunks.entries ↔ p ∈ s.chunks.entries ∨ p ∈ accepted codec sha s cs := by
  induction cs generalizing s with
  | nil => simp [accepted]
  | cons c cs ih =>
    have hstep : p ∈ (s.step codec sha c).chunks.entries ↔ p ∈ s.chunks.entries ∨ p ∈ s.submitted c := by
      cases c with
      | accept offset data =>
        rw [step, submitted]
        rcases s.accept_cases offset data with ⟨e, herror⟩ | ⟨-, -, -, ⟨hknown, hsame⟩ | ⟨hnew, -, -, hset⟩⟩
        · rw [herror]
          simp
        · rw [hsame]
          have hmem := mem_entries_iff.2 hknown
          refine ⟨.inl, ?_⟩
          rintro (hp | hp)
          · exact hp
          · rw [List.mem_singleton.1 hp]
            exact hmem
        · rw [hset]
          change p ∈ (s.chunks.set offset data).entries ↔ _
          rw [entries_set_of_get?_eq_none hnew data, List.mem_append]
      | finish =>
        rw [step, submitted]
        rcases finish_cases codec sha s with ⟨e, herror, -⟩ | ⟨genome, -, -, -, hok⟩
        · rw [herror]
          simp
        · rw [hok]
          simp
    rw [run_cons, ih, hstep, accepted, List.mem_append, or_assoc]

/-- **The concatenation by sorted offset is the join**: the offsets are sorted as they were bound. -/
theorem Inv.raw_eq (h : s.Inv) : s.raw = joined s.chunks.entries := by
  have hpairwise : s.chunks.keys.Pairwise (· ≤ ·) := h.laid.pairwise
  have hsorted : s.chunks.keys.mergeSort (· ≤ ·) = s.chunks.keys :=
    List.mergeSort_of_pairwise (by simpa using hpairwise)
  rw [raw, hsorted, joined, keys, List.flatMap_map]
  apply List.flatMap_congr
  rintro ⟨offset, data⟩ hp
  rw [getD, mem_entries_iff.1 hp]
  rfl

theorem Inv.length_raw (h : s.Inv) : (s.raw.length : ℤ) = s.received := by
  rw [h.raw_eq, h.received]

theorem step_declared (codec : JsonCodec JsonScalar) (sha : Sha256) (s : ChunkAssembler) (c : ChunkCall) :
    (s.step codec sha c).totalBytes = s.totalBytes ∧ (s.step codec sha c).sha256Hex = s.sha256Hex ∧
      (s.finished = true → (s.step codec sha c).finished = true) := by
  cases c with
  | accept offset data =>
    rw [step]
    rcases s.accept_cases offset data with ⟨e, herror⟩ | ⟨-, -, -, ⟨-, hsame⟩ | ⟨-, -, -, hset⟩⟩
    · rw [herror]
      exact ⟨rfl, rfl, id⟩
    · rw [hsame]
      exact ⟨rfl, rfl, id⟩
    · rw [hset]
      exact ⟨rfl, rfl, id⟩
  | finish =>
    rw [step]
    rcases finish_cases codec sha s with ⟨e, herror, -⟩ | ⟨genome, -, -, -, hok⟩
    · rw [herror]
      exact ⟨rfl, rfl, id⟩
    · rw [hok]
      exact ⟨rfl, rfl, fun _ => rfl⟩

/-! ## Runs -/

/-- The declared size and digest never change, and a finished assembly stays finished. -/
theorem run_declared (codec : JsonCodec JsonScalar) (sha : Sha256) (cs : List ChunkCall)
    (s : ChunkAssembler) :
    (run (step codec sha) s cs).totalBytes = s.totalBytes ∧
      (run (step codec sha) s cs).sha256Hex = s.sha256Hex ∧
      (s.finished = true → (run (step codec sha) s cs).finished = true) := by
  induction cs generalizing s with
  | nil => exact ⟨rfl, rfl, id⟩
  | cons c cs ih =>
    obtain ⟨htotal, hhex, hfinished⟩ := step_declared codec sha s c
    obtain ⟨htotal', hhex', hfinished'⟩ := ih (s.step codec sha c)
    exact ⟨htotal'.trans htotal, hhex'.trans hhex, fun hf => hfinished' (hfinished hf)⟩

variable {offset : ℤ} {data : List UInt8}

/-- **A chunk that is held is accepted again**, and changes nothing. -/
theorem Inv.accept_held (h : s.Inv) (hopen : s.finished = false)
    (hp : (offset, data) ∈ s.chunks.entries) : s.accept offset data = (.ok (), s) := by
  obtain ⟨hlow, -, hdata⟩ := h.laid.bounds hp
  have hcheck : s.checkChunk offset data = .ok () := by
    rw [checkChunk, ensure_of hopen, ok_bind, genomeNatural_eq_ok.2 hlow, ok_bind, ensure_of hdata]
  rw [accept, hcheck]
  rw [mem_entries_iff.1 hp]
  exact if_neg (not_not.2 rfl)

/-- **The genome that is read** is the one of the sequence the chunks assemble. -/
theorem Inv.finish_iff (h : s.Inv) (codec : JsonCodec JsonScalar) (sha : Sha256)
    (genome : ScenarioGenome) : (s.finish codec sha).1 = .ok genome ↔
      ∃ raw, Assembles s.chunks.entries raw ∧ (raw.length : ℤ) = s.totalBytes ∧
        sha.hexdigest raw = s.sha256Hex ∧ decode codec raw = .ok genome := by
  have hassembles := h.laid.assembles
  have hlength := h.length_raw
  rw [← h.raw_eq] at hassembles
  rcases finish_cases codec sha s with ⟨e, herror, hnot⟩ | ⟨genome', hcomplete, hdigest, hdecode, hok⟩
  · rw [herror]
    constructor
    · rintro ⟨⟩
    · rintro ⟨raw, hraw, htotal, hdigest, hdecode⟩
      rw [hraw.unique hassembles] at htotal hdigest hdecode
      exact absurd ⟨hlength.symm.trans htotal, hdigest, hdecode⟩ (hnot genome)
  · rw [hok]
    constructor
    · intro hgenome
      rw [← Except.ok.inj hgenome]
      exact ⟨s.raw, hassembles, hlength.trans hcomplete, hdigest, hdecode⟩
    · rintro ⟨raw, hraw, -, -, hdecode'⟩
      rw [hraw.unique hassembles, hdecode] at hdecode'
      rw [Except.ok.inj hdecode']

theorem finished_of_finish {genome : ScenarioGenome} (h : (s.finish codec sha).1 = .ok genome) :
    (s.finish codec sha).2.finished = true := by
  rcases finish_cases codec sha s with ⟨e, herror, -⟩ | ⟨_, -, -, -, hok⟩
  · rw [herror] at h
    cases h
  · rw [hok]

theorem accept_of_finished (h : s.finished = true) (offset : ℤ) (data : List UInt8) :
    ∃ e, s.accept offset data = (.error e, s) := by
  rcases s.accept_cases offset data with herror | ⟨hopen, -⟩
  · exact herror
  · rw [h] at hopen
    cases hopen

theorem accept_error {e : Exn} (h : (s.accept offset data).1 = .error e) : (s.accept offset data).2 = s := by
  rcases s.accept_cases offset data with ⟨e', herror⟩ | ⟨-, -, -, ⟨-, hok⟩ | ⟨-, -, -, hok⟩⟩
  · rw [herror]
  · rw [hok] at h
    cases h
  · rw [hok] at h
    cases h

/-- What a run of an assembly that was started with this size and digest shows. -/
structure Reassembles (codec : JsonCodec JsonScalar) (sha : Sha256) (totalBytes : ℤ)
    (sha256Hex : String) (s₀ : ChunkAssembler) (calls : List ChunkCall) : Prop where
  /-- The accepted chunks partition what was received. -/
  partition : (∀ p ∈ accepted codec sha s₀ calls, p.2 ≠ []) ∧
    ∀ i, (0 ≤ i ∧ i < (run (step codec sha) s₀ calls).received) ↔
      ∃! p, p ∈ accepted codec sha s₀ calls ∧ Covers p i
  /-- No more than the declared size is received. -/
  bounded : 0 ≤ (run (step codec sha) s₀ calls).received ∧
    (run (step codec sha) s₀ calls).received ≤ totalBytes
  /-- A rejected chunk changes nothing. -/
  rejected : ∀ offset data e, ((run (step codec sha) s₀ calls).accept offset data).1 = .error e →
    ((run (step codec sha) s₀ calls).accept offset data).2 = run (step codec sha) s₀ calls
  /-- A chunk that was accepted before is accepted again, and changes nothing. -/
  retransmitted : (run (step codec sha) s₀ calls).finished = false →
    ∀ offset data, (offset, data) ∈ accepted codec sha s₀ calls →
      (run (step codec sha) s₀ calls).accept offset data = (.ok (), run (step codec sha) s₀ calls)
  /-- A genome is read from the one sequence the accepted chunks assemble. -/
  decoded : ∀ genome, ((run (step codec sha) s₀ calls).finish codec sha).1 = .ok genome ↔
    ∃ raw, Assembles (accepted codec sha s₀ calls) raw ∧ (raw.length : ℤ) = totalBytes ∧
      sha.hexdigest raw = sha256Hex ∧ GenomeCodec.decode codec raw = .ok genome
  unique : ∀ raw raw', Assembles (accepted codec sha s₀ calls) raw →
    Assembles (accepted codec sha s₀ calls) raw' → raw = raw'
  /-- Once a genome was read, no chunk is accepted. -/
  final : ∀ before after genome, calls = before ++ .finish :: after →
    ((run (step codec sha) s₀ before).finish codec sha).1 = .ok genome →
    ∀ offset data, ∃ e, (run (step codec sha) s₀ calls).accept offset data
      = (.error e, run (step codec sha) s₀ calls)

/-- **Reassembly is exact over every run of calls.** -/
theorem reassembles_of_create {totalBytes maxBytes : ℤ} {sha256Hex : String} {s₀ : ChunkAssembler}
    (h : create totalBytes sha256Hex maxBytes = .ok s₀) (codec : JsonCodec JsonScalar) (sha : Sha256)
    (calls : List ChunkCall) : Reassembles codec sha totalBytes sha256Hex s₀ calls := by
  obtain ⟨hpos, -, -, rfl⟩ := create_eq_ok h
  have hnew : (new totalBytes sha256Hex).Inv := ⟨trivial, rfl, by change (0 : ℤ) ≤ totalBytes; omega⟩
  have hinv := run_invariant (P := Inv) (fun _ c hs => hs.step codec sha c) calls hnew
  obtain ⟨htotal, hhex, -⟩ := run_declared codec sha calls (new totalBytes sha256Hex)
  have hmem : ∀ p, p ∈ (run (step codec sha) (new totalBytes sha256Hex) calls).chunks.entries ↔
      p ∈ accepted codec sha (new totalBytes sha256Hex) calls := by
    intro p
    rw [mem_entries_run]
    exact or_iff_right List.not_mem_nil
  have hfinal : ∀ before after genome, calls = before ++ .finish :: after →
      ((run (step codec sha) (new totalBytes sha256Hex) before).finish codec sha).1 = .ok genome →
      (run (step codec sha) (new totalBytes sha256Hex) calls).finished = true := by
    rintro before after genome rfl hgenome
    rw [run_append, run_cons]
    exact (run_declared codec sha after _).2.2 (finished_of_finish hgenome)
  refine ⟨⟨fun p hp => (hinv.laid.bounds ((hmem p).mpr hp)).2.2, fun i => ?_⟩, ⟨?_, ?_⟩,
    fun offset data e he => accept_error he, fun hopen offset data hp =>
      hinv.accept_held hopen ((hmem _).mpr hp), fun genome => ?_, fun raw raw' hraw hraw' =>
      hraw.unique hraw', fun before after genome hcalls hgenome offset data =>
      accept_of_finished (hfinal before after genome hcalls hgenome) offset data⟩
  · have hpieces := hinv.laid.existsUnique i
    simp only [Int.zero_add, ← hinv.received, hmem] at hpieces
    exact hpieces
  · rw [hinv.received]
    exact Nat.cast_nonneg _
  · exact hinv.bounded.trans_eq htotal
  · rw [hinv.finish_iff codec sha genome, htotal, hhex]
    constructor
    · rintro ⟨raw, hraw, hrest⟩
      exact ⟨raw, hraw.congr hmem, hrest⟩
    · rintro ⟨raw, hraw, hrest⟩
      exact ⟨raw, hraw.congr fun p => (hmem p).symm, hrest⟩

/-- The digest of `ab`. -/
def exampleDigest : String := "fb8e20fc2e4c3f248c60c39bd652f3c1347298bb977b8b4d5903b85055620603"

/-- A digest that knows `ab` and the empty text. -/
def exampleSha : Sha256 where
  hexdigest bytes := if bytes = [97, 98] then exampleDigest
    else "e3b0c44298fc1c149afbf4c8996fb92427ae41e4649b934ca495991b7852b855"
  length_hexdigest bytes := by split_ifs <;> decide

/-- **Two chunks, the first sent twice**, and an attempt to read the genome. -/
theorem two_chunks_reassemble :
    Reassembles Json.codec exampleSha 2 exampleDigest (new 2 exampleDigest)
      [.accept 0 [97], .accept 0 [97], .accept 3 [99], .accept 1 [98], .finish] := by
  have hcreate : create 2 exampleDigest defaultMaxBytes = .ok (new 2 exampleDigest) := by
    have hhex : LowercaseHex exampleDigest := by
      constructor
      · rw [← String.length_toList]
        simp [exampleDigest]
      · simp [exampleDigest]
    rw [create, ensure_of hhex]
    rfl
  exact reassembles_of_create hcreate Json.codec exampleSha _

end ChunkAssembler

end MyFuzz
