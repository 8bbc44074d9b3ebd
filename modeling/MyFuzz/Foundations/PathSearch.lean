import Mathlib.Tactic

/-!
# Foundations/PathSearch — depth-first search that carries its path

A node reads labels and a label is written by nodes; a node leads to the writers of the labels it
reads.  The search
keeps the nodes it has seen and a stack of labels still to follow, each with the path on which it was read:

    pending   (f, a b) ▸ (g, a) ▸ …
    next      the writers of f that are new are seen, and what they read is pushed with the path a b p

A writer that is on the path closes a loop.  The search stops, sees exactly what the start reaches
(`mem_seen_of_stopped`), and each path it follows is a trail from the start (`Trail`).  When a label
has one writer, the search from `a` closes every loop that `a` leads into (`exists_loop_of_single`).
-/

namespace PathSearch

open List

variable {ν φ : Type}

/-- What is still to do: the nodes seen, and the labels to follow, each with its path. -/
structure Search (ν φ : Type) where
  seen : List ν
  pending : List (φ × List ν)

section Relations

variable (writers : φ → List ν) (reads : ν → List φ)

/-- A node leads to another when it reads a label that the other writes. -/
def Leads (a b : ν) : Prop := ∃ f ∈ reads a, b ∈ writers f

/-- A node reaches another in one step or more. -/
abbrev Reaches : ν → ν → Prop := Relation.TransGen (Leads writers reads)

/-- A path from a node to another along which each node leads to the next. -/
inductive Trail (a : ν) : List ν → ν → Prop
  | start : Trail a [a] a
  | snoc {path : List ν} {b c : ν} : Trail a path b → Leads writers reads b c → Trail a (path ++ [c]) c

end Relations

variable {writers : φ → List ν} {reads : ν → List φ} {a b n p : ν} {f : φ} {path : List ν}

namespace Trail

theorem mem_start (h : Trail writers reads a path b) : a ∈ path := by
  induction h with
  | start => exact .head _
  | snoc _ _ ih => exact mem_append_left _ ih

theorem mem_last (h : Trail writers reads a path b) : b ∈ path := by
  cases h with
  | start => exact .head _
  | snoc _ _ => exact mem_append_right _ (.head _)

/-- Every node of a trail reaches what its last node leads to. -/
theorem reaches_of_leads {c : ν} (h : Trail writers reads a path b) (hn : n ∈ path)
    (hlead : Leads writers reads b c) :
    Reaches writers reads n c := by
  induction h generalizing c with
  | start =>
    obtain rfl := mem_singleton.1 hn
    exact .single hlead
  | snoc _ hprev ih =>
    rcases mem_append.1 hn with hn | hn
    · exact .tail (ih hn hprev) hlead
    · obtain rfl := mem_singleton.1 hn
      exact .single hlead

/-- The start of a trail reaches every other node of it. -/
theorem reaches_of_mem (h : Trail writers reads a path b) (hn : n ∈ path) :
    n = a ∨ Reaches writers reads a n := by
  induction h with
  | start => exact .inl (mem_singleton.1 hn)
  | snoc htrail hlead ih =>
    rcases mem_append.1 hn with hn | hn
    · exact ih hn
    · obtain rfl := mem_singleton.1 hn
      exact .inr (htrail.reaches_of_leads htrail.mem_start hlead)

/-- **A loop on a trail**, closed by its last node: the nodes all reach one another exactly when the node it
closes on reaches the start. -/
theorem mutual_iff (h : Trail writers reads a path b) (hp : p ∈ path) (hlead : Leads writers reads b p) :
    (∀ x ∈ path, ∀ y ∈ path, Reaches writers reads x y) ↔ Reaches writers reads p a := by
  refine ⟨fun hall => hall p hp a h.mem_start, fun hback x hx y hy => ?_⟩
  have hto := (h.reaches_of_leads hx hlead).trans hback
  rcases h.reaches_of_mem hy with rfl | hy
  · exact hto
  · exact hto.trans hy

end Trail

/-! ## The search -/

/-- The labels a node reads, to be followed on a path, the last one first. -/
def entries (reads : ν → List φ) (path : List ν) (n : ν) : List (φ × List ν) :=
  ((reads n).map fun f => (f, path)).reverse

section Steps

variable [DecidableEq ν] (writers : φ → List ν) (reads : ν → List φ)

/-- Meet a writer of a label that was read on a path. -/
def discover (path : List ν) (s : Search ν φ) (p : ν) : Search ν φ :=
  if p ∈ path ∨ p ∈ s.seen then s else ⟨s.seen ++ [p], entries reads (path ++ [p]) p ++ s.pending⟩

/-- Follow the label on top of the stack. -/
def next (s : Search ν φ) : Search ν φ :=
  match s.pending with
  | [] => s
  | (f, path) :: rest => (writers f).foldl (discover reads path) ⟨s.seen, rest⟩

/-- The search of a node before its first step. -/
def start (a : ν) : Search ν φ := ⟨[], entries reads [a] a⟩

/-- The search of a node after so many steps. -/
def state (a : ν) (k : ℕ) : Search ν φ := (next writers reads)^[k] (start reads a)

end Steps

variable {path' fresh nodes : List ν} {s : Search ν φ} {k m : ℕ}

theorem mem_entries : (f, path') ∈ entries reads path n ↔ f ∈ reads n ∧ path' = path := by
  rw [entries, mem_reverse, mem_map]
  constructor
  · rintro ⟨g, hg, heq⟩
    cases heq
    exact ⟨hg, rfl⟩
  · rintro ⟨hf, rfl⟩
    exact ⟨f, hf, rfl⟩

theorem length_entries (path : List ν) (n : ν) : (entries reads path n).length = (reads n).length := by
  rw [entries, length_reverse, length_map]

variable [DecidableEq ν]

/-- What meeting the nodes `fresh` pushes. -/
def pushes (reads : ν → List φ) (path fresh : List ν) : List (φ × List ν) :=
  fresh.reverse.flatMap fun p => entries reads (path ++ [p]) p

omit [DecidableEq ν] in
theorem mem_pushes :
    (f, path') ∈ pushes reads path fresh ↔ ∃ p ∈ fresh, f ∈ reads p ∧ path' = path ++ [p] := by
  rw [pushes, mem_flatMap]
  exact ⟨fun ⟨p, hp, h⟩ => ⟨p, mem_reverse.1 hp, mem_entries.1 h⟩,
    fun ⟨p, hp, h⟩ => ⟨p, mem_reverse.2 hp, mem_entries.2 h⟩⟩

omit [DecidableEq ν] in
theorem length_pushes (path fresh : List ν) :
    (pushes reads path fresh).length = (fresh.map fun p => (reads p).length).sum := by
  rw [pushes, length_flatMap, ← sum_reverse, ← map_reverse, reverse_reverse]
  exact congrArg List.sum (map_congr_left fun p _ => length_entries _ _)

/-- **What meeting some writers does**: those that are new are seen, in order, and what they read is
pushed. -/
theorem foldl_discover (path : List ν) : ∀ (ps : List ν) (s : Search ν φ), ∃ fresh : List ν, fresh.Nodup ∧
    (∀ p, p ∈ fresh ↔ p ∈ ps ∧ p ∉ path ∧ p ∉ s.seen) ∧
      ps.foldl (discover reads path) s = ⟨s.seen ++ fresh, pushes reads path fresh ++ s.pending⟩
  | [], s => ⟨[], nodup_nil, fun p => ⟨nofun, fun h => h.1⟩, by rw [append_nil]; rfl⟩
  | q :: ps, s => by
      rw [foldl_cons, discover]
      by_cases hq : q ∈ path ∨ q ∈ s.seen
      · obtain ⟨fresh, hnodup, hmem, heq⟩ := foldl_discover path ps s
        rw [if_pos hq]
        refine ⟨fresh, hnodup, fun p => (hmem p).trans ⟨fun h => ⟨.tail _ h.1, h.2⟩, fun h => ?_⟩, heq⟩
        rcases mem_cons.1 h.1 with rfl | hp
        · exact absurd hq (not_or.2 h.2)
        · exact ⟨hp, h.2⟩
      · obtain ⟨fresh, hnodup, hmem, heq⟩ :=
          foldl_discover path ps ⟨s.seen ++ [q], entries reads (path ++ [q]) q ++ s.pending⟩
        rw [if_neg hq]
        have hnew : q ∉ fresh := fun h =>
          ((hmem q).1 h).2.2 (mem_append_right _ (.head _))
        refine ⟨q :: fresh, nodup_cons.2 ⟨hnew, hnodup⟩, fun p => ?_, ?_⟩
        · rw [mem_cons, hmem, mem_cons, mem_append, mem_singleton]
          by_cases hp : p = q
          · subst hp
            exact ⟨fun _ => ⟨.inl rfl, not_or.1 hq⟩, fun _ => .inl rfl⟩
          · simp only [hp, or_false, false_or]
        · rw [heq, pushes, pushes, reverse_cons, flatMap_append, flatMap_singleton, append_assoc,
            append_assoc]
          rfl

/-- **One step of the search.** -/
theorem next_of_cons (writers : φ → List ν) (reads : ν → List φ) {rest : List (φ × List ν)}
    (h : s.pending = (f, path) :: rest) :
    ∃ fresh : List ν, fresh.Nodup ∧ (∀ p, p ∈ fresh ↔ p ∈ writers f ∧ p ∉ path ∧ p ∉ s.seen) ∧
      next writers reads s = ⟨s.seen ++ fresh, pushes reads path fresh ++ rest⟩ := by
  unfold next
  rw [h]
  exact foldl_discover path (writers f) ⟨s.seen, rest⟩

theorem next_of_nil (h : s.pending = []) : next writers reads s = s := by
  unfold next
  rw [h]

theorem state_succ (a : ν) (k : ℕ) : state writers reads a (k + 1) = next writers reads
    (state writers reads a k) :=
  Function.iterate_succ_apply' _ _ _

/-! ## Every search stops -/

/-- The labels still to follow, now or when the nodes that are not seen yet are. -/
def measure (reads : ν → List φ) (nodes : List ν) (s : Search ν φ) : ℕ :=
  s.pending.length + ((nodes.filter fun n => n ∉ s.seen).map fun n => (reads n).length).sum

theorem sum_filter_append (nodes : List ν) {seen : List ν} (g : ν → ℕ) (hfresh : fresh.Nodup)
    (hmem : ∀ p ∈ fresh, p ∈ nodes ∧ p ∉ seen) :
    (fresh.map g).sum + ((nodes.filter fun n => n ∉ seen ++ fresh).map g).sum ≤
      ((nodes.filter fun n => n ∉ seen).map g).sum := by
  have hsplit := filter_append_perm (fun n => decide (n ∈ fresh)) (nodes.filter fun n => n ∉ seen)
  obtain ⟨kept, hperm, hkept⟩ : fresh.Subperm ((nodes.filter fun n => n ∉ seen).filter fun n =>
    decide (n ∈ fresh)) :=
    subperm_of_subset hfresh fun p hp => by simpa [hp] using hmem p hp
  have hrest : (nodes.filter fun n => n ∉ seen ++ fresh) =
      (nodes.filter fun n => n ∉ seen).filter fun n => !decide (n ∈ fresh) := by
    rw [filter_filter]
    exact filter_congr fun n _ => by simp [Bool.and_comm]
  rw [hrest, ← (hsplit.map g).sum_eq, map_append, sum_append, ← (hperm.map g).sum_eq]
  exact Nat.add_le_add_right ((hkept.map g).sum_le_sum fun _ _ => Nat.zero_le _) _

/-- A step with work to do leaves less. -/
theorem measure_next (reads : ν → List φ) (hnodes : ∀ f, ∀ p ∈ writers f, p ∈ nodes) (h : s.pending ≠ []) :
    measure reads nodes (next writers reads s) < measure reads nodes s := by
  obtain ⟨⟨f, path⟩, rest, hpending⟩ := exists_cons_of_ne_nil h
  obtain ⟨fresh, hnodup, hmem, hnext⟩ := next_of_cons writers reads hpending
  have hsum := sum_filter_append nodes (fun n => (reads n).length) hnodup fun p hp =>
    ⟨hnodes f p ((hmem p).1 hp).1, ((hmem p).1 hp).2.2⟩
  rw [hnext, measure, measure, hpending, length_append, length_pushes, length_cons]
  dsimp only
  omega

/-- **A search stops**: after so many steps nothing is left to follow. -/
theorem stopped (reads : ν → List φ) (hnodes : ∀ f, ∀ p ∈ writers f, p ∈ nodes) (a : ν)
    (hk : measure reads nodes (start reads a) ≤ k) : (state writers reads a k).pending = [] := by
  have hleft : ∀ k, (state writers reads a k).pending = [] ∨
      measure reads nodes (state writers reads a k) + k ≤ measure reads nodes (start reads a) := by
    intro k
    induction k with
    | zero => exact .inr le_rfl
    | succ k ih =>
      rw [state_succ]
      by_cases hpending : (state writers reads a k).pending = []
      · rw [next_of_nil hpending]
        exact .inl hpending
      · have hless := measure_next reads hnodes hpending
        have := ih.resolve_left hpending
        exact .inr (by omega)
  rcases hleft k with h | h
  · exact h
  · refine length_eq_zero_iff.1 (Nat.eq_zero_of_le_zero ?_)
    rw [measure] at h
    omega

/-! ## What is followed and what is seen -/

/-- What is seen and followed comes from the start. -/
structure Sound (writers : φ → List ν) (reads : ν → List φ) (a : ν) (s : Search ν φ) : Prop where
  trail : ∀ f path, (f, path) ∈ s.pending → ∃ n, Trail writers reads a path n ∧ f ∈ reads n
  seen : ∀ n ∈ s.seen, n ≠ a ∧ Reaches writers reads a n
  on_path : ∀ f path, (f, path) ∈ s.pending → ∀ n ∈ path, n = a ∨ n ∈ s.seen

omit [DecidableEq ν] in
theorem sound_start (a : ν) : Sound writers reads a (start reads a) where
  trail f path h := by
    obtain ⟨hf, rfl⟩ := mem_entries.1 h
    exact ⟨a, .start, hf⟩
  seen n h := nomatch h
  on_path f path h n hn := by
    obtain ⟨hf, rfl⟩ := mem_entries.1 h
    exact .inl (mem_singleton.1 hn)

theorem sound_next (h : Sound writers reads a s) : Sound writers reads a (next writers reads s) := by
  cases hpending : s.pending with
  | nil =>
    rw [next_of_nil hpending]
    exact h
  | cons entry rest =>
    obtain ⟨f, path⟩ := entry
    obtain ⟨fresh, -, hmem, hnext⟩ := next_of_cons writers reads hpending
    have htop : (f, path) ∈ s.pending := hpending ▸ (.head _)
    have hrest : ∀ e ∈ rest, e ∈ s.pending := fun e he => hpending ▸ .tail _ he
    obtain ⟨b, htrail, hf⟩ := h.trail f path htop
    rw [hnext]
    refine ⟨fun g path' hg => ?_, fun n hn => ?_, fun g path' hg n hn => ?_⟩
    · rcases mem_append.1 hg with hg | hg
      · obtain ⟨p, hp, hread, rfl⟩ := mem_pushes.1 hg
        exact ⟨p, .snoc htrail ⟨f, hf, ((hmem p).1 hp).1⟩, hread⟩
      · exact h.trail g path' (hrest _ hg)
    · rcases mem_append.1 hn with hn | hn
      · exact h.seen n hn
      · obtain ⟨hwrites, hoff, -⟩ := (hmem n).1 hn
        exact ⟨fun heq => hoff (heq ▸ htrail.mem_start),
          htrail.reaches_of_leads htrail.mem_start ⟨f, hf, hwrites⟩⟩
    · rcases mem_append.1 hg with hg | hg
      · obtain ⟨p, hp, -, rfl⟩ := mem_pushes.1 hg
        rcases mem_append.1 hn with hn | hn
        · exact (h.on_path f path htop n hn).imp id fun hn => mem_append_left _ hn
        · obtain rfl := mem_singleton.1 hn
          exact .inr (mem_append_right _ hp)
      · exact (h.on_path g path' (hrest _ hg) n hn).imp id fun hn => mem_append_left _ hn

/-- **Every path that is followed is a trail from the start**, and what is seen is reached from it. -/
theorem sound_state (a : ν) (k : ℕ) : Sound writers reads a (state writers reads a k) := by
  induction k with
  | zero => exact sound_start a
  | succ k ih =>
    rw [state_succ]
    exact sound_next ih

/-! ## Nothing is missed -/

/-- The search from `a` follows a label at a step, on a path. -/
def Follows (writers : φ → List ν) (reads : ν → List φ) (a : ν) (k : ℕ) (f : φ) (path : List ν) : Prop :=
  ∃ rest, (state writers reads a k).pending = (f, path) :: rest

theorem seen_subset_next (s : Search ν φ) {n : ν} (h : n ∈ s.seen) : n ∈ (next writers reads s).seen := by
  cases hpending : s.pending with
  | nil => rwa [next_of_nil hpending]
  | cons entry rest =>
    obtain ⟨fresh, -, -, hnext⟩ := next_of_cons writers reads hpending
    rw [hnext]
    exact mem_append_left _ h

theorem seen_mono (hle : k ≤ m) (h : n ∈ (state writers reads a k).seen) :
    n ∈ (state writers reads a m).seen := by
  induction m, hle using Nat.le_induction with
  | base => exact h
  | succ m _ ih =>
    rw [state_succ]
    exact seen_subset_next _ ih

/-- The writers of a label that was followed are seen, the start apart. -/
theorem seen_of_follows (h : Follows writers reads a k f path) (hlt : k < m) (hp : p ∈ writers f) :
    p = a ∨ p ∈ (state writers reads a m).seen := by
  obtain ⟨rest, hpending⟩ := h
  have htop : (f, path) ∈ (state writers reads a k).pending := hpending ▸ (.head _)
  obtain ⟨fresh, -, hmem, hnext⟩ := next_of_cons writers reads hpending
  have hseen : p = a ∨ p ∈ (state writers reads a (k + 1)).seen := by
    rw [state_succ, hnext, mem_append, hmem]
    by_cases hpath : p ∈ path
    · exact ((sound_state a k).on_path f path htop p hpath).imp id .inl
    · by_cases hs : p ∈ (state writers reads a k).seen
      · exact .inr (.inl hs)
      · exact .inr (.inr ⟨hp, hpath, hs⟩)
  exact hseen.imp id fun h => seen_mono hlt h

/-- What a node reads is still to follow, or was followed on a path to it. -/
theorem pending_or_follows (k : ℕ) : ∀ n, n = a ∨ n ∈ (state writers reads a k).seen → ∀ f ∈ reads n,
    (∃ path, (f, path) ∈ (state writers reads a k).pending ∧ Trail writers reads a path n) ∨
      ∃ m < k, ∃ path, Follows writers reads a m f path ∧ Trail writers reads a path n := by
  induction k with
  | zero =>
    rintro n (rfl | hn) f hf
    · exact .inl ⟨[n], mem_entries.2 ⟨hf, rfl⟩, .start⟩
    · cases hn
  | succ k ih =>
    intro n hn f hf
    have hkept : n = a ∨ n ∈ (state writers reads a k).seen → (∃ path, (f, path) ∈
        (state writers reads a (k + 1)).pending ∧ Trail writers reads a path n) ∨
          ∃ m < k + 1, ∃ path, Follows writers reads a m f path ∧ Trail writers reads a path n := by
      intro hn
      rcases ih n hn f hf with ⟨path, hpath, htrail⟩ | ⟨m, hm, hfollows⟩
      · cases hpending : (state writers reads a k).pending with
        | nil =>
          rw [hpending] at hpath
          cases hpath
        | cons entry rest =>
          rw [hpending] at hpath
          rcases mem_cons.1 hpath with rfl | hrest
          · exact .inr ⟨k, Nat.lt_succ_self k, path, ⟨rest, hpending⟩, htrail⟩
          · obtain ⟨fresh, -, -, hnext⟩ := next_of_cons writers reads hpending
            rw [state_succ, hnext]
            exact .inl ⟨path, mem_append_right _ hrest, htrail⟩
      · exact .inr ⟨m, Nat.lt_succ_of_lt hm, hfollows⟩
    by_cases hold : n = a ∨ n ∈ (state writers reads a k).seen
    · exact hkept hold
    · have hnew := hn.resolve_left fun h => hold (.inl h)
      cases hpending : (state writers reads a k).pending with
      | nil =>
        rw [state_succ, next_of_nil hpending] at hnew
        exact absurd (.inr hnew) hold
      | cons entry rest =>
        obtain ⟨g, path⟩ := entry
        obtain ⟨fresh, -, hmem, hnext⟩ := next_of_cons writers reads hpending
        rw [state_succ, hnext] at hnew ⊢
        have hfresh := (mem_append.1 hnew).resolve_left fun h => hold (.inr h)
        obtain ⟨b, htrail, hg⟩ := (sound_state a k).trail g path (hpending ▸ mem_cons_self)
        exact .inl ⟨path ++ [n], mem_append_left _ (mem_pushes.2 ⟨n, hfresh, hf, rfl⟩),
          .snoc htrail ⟨g, hg, ((hmem n).1 hfresh).1⟩⟩

/-- What a node that is reached reads was followed, once the search stopped. -/
theorem follows_of_stopped (hstop : (state writers reads a k).pending = [])
    (hn : n = a ∨ n ∈ (state writers reads a k).seen) (hf : f ∈ reads n) :
    ∃ m < k, ∃ path, Follows writers reads a m f path ∧ Trail writers reads a path n := by
  refine (pending_or_follows k n hn f hf).resolve_left ?_
  rintro ⟨path, hpath, -⟩
  rw [hstop] at hpath
  cases hpath

/-- **A search that stopped has seen exactly the other nodes that its start reaches.** -/
theorem mem_seen_of_stopped (hstop : (state writers reads a k).pending = []) :
    n ∈ (state writers reads a k).seen ↔ n ≠ a ∧ Reaches writers reads a n := by
  refine ⟨(sound_state a k).seen n, fun ⟨hne, hreaches⟩ => ?_⟩
  have hclosed : ∀ {b c}, (b = a ∨ b ∈ (state writers reads a k).seen) → Leads writers reads b c →
      c = a ∨ c ∈ (state writers reads a k).seen := by
    rintro b c hb ⟨f, hf, hc⟩
    obtain ⟨m, hm, path, hfollows, -⟩ := follows_of_stopped hstop hb hf
    exact seen_of_follows hfollows hm hc
  have hall : ∀ c, Reaches writers reads a c → c = a ∨ c ∈ (state writers reads a k).seen := by
    intro c hreaches
    induction hreaches with
    | single hlead => exact hclosed (.inl rfl) hlead
    | tail _ hlead ih => exact hclosed ih hlead
  exact (hall n hreaches).resolve_left hne

/-! ## Labels with one writer -/

omit [DecidableEq ν] in
/-- The last item of a list that has a property. -/
theorem exists_last {P : ν → Prop} : ∀ {l : List ν}, (∃ n ∈ l, P n) →
    ∃ before m after, l = before ++ m :: after ∧ P m ∧ ∀ n ∈ after, ¬ P n
  | [], ⟨_, h, _⟩ => nomatch h
  | c :: l, h => by
      by_cases hl : ∃ n ∈ l, P n
      · obtain ⟨before, m, after, rfl, hm, hafter⟩ := exists_last hl
        exact ⟨c :: before, m, after, rfl, hm, hafter⟩
      · obtain ⟨n, hn, hP⟩ := h
        rcases mem_cons.1 hn with rfl | hn
        · exact ⟨[], n, l, rfl, hP, fun m hm hPm => hl ⟨m, hm, hPm⟩⟩
        · exact absurd ⟨n, hn, hP⟩ hl

omit [DecidableEq ν] in
/-- A prefix that ends before an item is a prefix of what is before it. -/
theorem prefix_before {l before after : List ν} {m : ν} (h : l <+: before ++ m :: after) (hm : m ∉ l) :
    l <+: before := by
  rcases Nat.lt_or_ge before.length l.length with hlt | hle
  · have hlonger : before ++ [m] <+: l := by
      refine prefix_of_prefix_length_le ⟨after, by rw [append_assoc]; rfl⟩ h ?_
      rw [length_append]
      exact hlt
    exact absurd (hlonger.subset (mem_append_right _ (.head _))) hm
  · exact prefix_of_prefix_length_le h (prefix_append _ _) hle

omit [DecidableEq ν] in
/-- **Nodes that no path has left**: the paths on the stack extend one another, the nodes of `S` that were
seen are on them, and none is before one that leads to it. -/
structure Held (writers : φ → List ν) (reads : ν → List φ) (a : ν) (S : Set ν) (s : Search ν φ) : Prop where
  chain : s.pending.Pairwise fun e e' => e'.2 <+: e.2
  apart : ∀ n ∈ S, n ∈ s.seen → ∀ f ∈ reads n, ∀ p ∈ S, p ∈ writers f →
    (∃ path, (f, path) ∈ s.pending ∧ Trail writers reads a path n) ∨
      p ∈ s.seen ∧ ∀ e ∈ s.pending, ∀ before after, e.2 = before ++ n :: after → p ∉ before ∧ p ≠ n
  held : ∀ n ∈ S, n ∈ s.seen → ∃ e ∈ s.pending, n ∈ e.2

section SingleWriter

variable {S : Set ν} {s : Search ν φ} {rest : List (φ × List ν)} {fresh : List ν}

omit [DecidableEq ν] in
theorem chain_next (h : Held writers reads a S s) (hpending : s.pending = (f, path) :: rest)
    (hfresh : fresh.length ≤ 1) : (pushes reads path fresh ++ rest).Pairwise fun e e' => e'.2 <+: e.2 := by
  have hchain := h.chain
  rw [hpending] at hchain
  obtain ⟨htop, hrest⟩ := pairwise_cons.1 hchain
  have hpath : ∀ e ∈ pushes reads path fresh, ∃ p, e.2 = path ++ [p] ∧ fresh = [p] := by
    rintro ⟨g, path'⟩ he
    obtain ⟨p, hp, -, rfl⟩ := mem_pushes.1 he
    obtain ⟨q, rfl⟩ := length_eq_one_iff.1 (le_antisymm hfresh (length_pos_of_mem hp))
    obtain rfl := mem_singleton.1 hp
    exact ⟨p, rfl, rfl⟩
  refine pairwise_append.2 ⟨pairwise_of_forall_mem_list fun e he e' he' => ?_, hrest, fun e he e' he' => ?_⟩
  · obtain ⟨p, hp, hfresh⟩ := hpath e he
    obtain ⟨q, hq, hfresh'⟩ := hpath e' he'
    obtain rfl := singleton_inj.1 (hfresh.symm.trans hfresh')
    rw [hp, hq]
  · obtain ⟨p, hp, -⟩ := hpath e he
    rw [hp]
    exact (htop e' he').trans (prefix_append _ _)

/-- What the label that is followed adds to `apart`: its writers in `S` are seen, and not on its path. -/
theorem apart_top (h : Held writers reads a S s)
    (hpending : s.pending = (f, path) :: rest) (hopen : ∀ p ∈ writers f, p ∈ S → p ∉ path)
    (hmem : ∀ p, p ∈ fresh ↔ p ∈ writers f ∧ p ∉ path ∧ p ∉ s.seen) {g : φ} (hn : n ∈ S) (hseen : n ∈ s.seen)
    (hg : g ∈ reads n) (hp : p ∈ S) (hwrites : p ∈ writers g) :
    (∃ path', (g, path') ∈ rest ∧ Trail writers reads a path' n) ∨
      p ∈ s.seen ++ fresh ∧ ∀ e ∈ s.pending, ∀ before after, e.2 = before ++ n :: after →
        p ∉ before ∧ p ≠ n := by
  have hchain := h.chain
  rw [hpending] at hchain
  have htop := (pairwise_cons.1 hchain).1
  rcases h.apart n hn hseen g hg p hp hwrites with ⟨path', hpath', htrail⟩ | ⟨hpseen, happart⟩
  · rw [hpending] at hpath'
    rcases mem_cons.1 hpath' with heq | hrest
    · obtain ⟨rfl, rfl⟩ := Prod.mk.inj heq
      have hoff := hopen p hwrites hp
      refine .inr ⟨?_, fun e he before after hsplit =>
        ⟨fun hbefore => hoff ?_, fun hpn => hoff (hpn ▸ htrail.mem_last)⟩⟩
      · by_cases hold : p ∈ s.seen
        · exact mem_append_left _ hold
        · exact mem_append_right _ ((hmem p).2 ⟨hwrites, hoff, hold⟩)
      · have hinit : e.2 <+: path' := by
          rw [hpending] at he
          rcases mem_cons.1 he with rfl | he
          · exact prefix_rfl
          · exact htop e he
        exact hinit.subset (hsplit ▸ mem_append_left _ hbefore)
    · exact .inl ⟨path', hrest, htrail⟩
  · exact .inr ⟨mem_append_left _ hpseen, happart⟩

/-- A node of `S` on the path that is left is on a path that is kept. -/
theorem held_of_left (hsound : Sound writers reads a s) (h : Held writers reads a S s)
    (hpending : s.pending = (f, path) :: rest) (hopen : ∀ p ∈ writers f, p ∈ S → p ∉ path)
    (hmem : ∀ p, p ∈ fresh ↔ p ∈ writers f ∧ p ∉ path ∧ p ∉ s.seen) (ha : a ∉ S)
    (hleads : ∀ n ∈ S, ∃ g ∈ reads n, ∃ p ∈ writers g, p ∈ S) (hnone : ∀ p ∈ fresh, p ∉ S)
    (hn : n ∈ S) (hpath : n ∈ path) : ∃ e ∈ rest, n ∈ e.2 := by
  by_contra hlost
  obtain ⟨before, m, after, rfl, ⟨hm, hmlost⟩, hafter⟩ := exists_last
    (P := fun x => x ∈ S ∧ ¬ ∃ e ∈ rest, x ∈ e.2) ⟨n, hpath, hn, hlost⟩
  have htop : (f, before ++ m :: after) ∈ s.pending := hpending ▸ (.head _)
  have hmseen : m ∈ s.seen := by
    refine (hsound.on_path f _ htop m (mem_append_right _ (.head _))).resolve_left ?_
    rintro rfl
    exact ha hm
  have hchain := h.chain
  rw [hpending] at hchain
  have hinit := (pairwise_cons.1 hchain).1
  obtain ⟨g, hg, p, hwrites, hp⟩ := hleads m hm
  rcases apart_top h hpending hopen hmem hm hmseen hg hp
    hwrites with ⟨path', hpath', htrail⟩ | ⟨hpseen, happart⟩
  · exact hmlost ⟨(g, path'), hpath', htrail.mem_last⟩
  · obtain ⟨hpbefore, hpm⟩ := happart _ htop before after rfl
    have hpold : p ∈ s.seen := (mem_append.1 hpseen).resolve_right fun hfresh => hnone p hfresh hp
    obtain ⟨e, he, hpe⟩ := h.held p hp hpold
    have hon : p ∈ before ++ m :: after := by
      rw [hpending] at he
      rcases mem_cons.1 he with rfl | he
      · exact hpe
      · exact (hinit e he).subset hpe
    have hpafter : p ∈ after :=
      ((mem_append.1 hon).resolve_left hpbefore |> mem_cons.1).resolve_left hpm
    -- the path that keeps `p` is a prefix that does not hold `m`, so `p` would be before `m`
    obtain ⟨e', he', hpe'⟩ := not_not.1 fun hkept => hafter p hpafter ⟨hp, hkept⟩
    have hshort := prefix_before (hinit e' he') fun hme => hmlost ⟨e', he', hme⟩
    exact hpbefore (hshort.subset hpe')

theorem held_next (hsound : Sound writers reads a s) (h : Held writers reads a S s)
    (hpending : s.pending = (f, path) :: rest) (hsingle : ∀ p ∈ writers f, ∀ q ∈ writers f, p = q)
    (hopen : ∀ p ∈ writers f, p ∈ S → p ∉ path) (ha : a ∉ S)
    (hleads : ∀ n ∈ S, ∃ g ∈ reads n, ∃ p ∈ writers g, p ∈ S) :
    Held writers reads a S (next writers reads s) := by
  obtain ⟨fresh, hnodup, hmem, hnext⟩ := next_of_cons writers reads hpending
  have htop : (f, path) ∈ s.pending := hpending ▸ (.head _)
  obtain ⟨b, htrail, hf⟩ := hsound.trail f path htop
  have hfresh : fresh.length ≤ 1 := by
    by_contra hlong
    obtain ⟨x, y, l, rfl⟩ : ∃ x y l, fresh = x :: y :: l := by
      match fresh, hlong with
      | [], h => exact absurd (Nat.zero_le 1) h
      | [_], h => exact absurd le_rfl h
      | x :: y :: l, _ => exact ⟨x, y, l, rfl⟩
    have hx := ((hmem x).1 (.head _)).1
    have hy := ((hmem y).1 (.tail _ (.head _))).1
    exact (nodup_cons.1 hnodup).1 (hsingle x hx y hy ▸ (.head _))
  rw [hnext]
  refine ⟨chain_next h hpending hfresh, fun n hn hseen g hg p hp hwrites => ?_, fun n hn hseen => ?_⟩
  · by_cases hold : n ∈ s.seen
    · rcases apart_top h hpending hopen hmem hn hold hg hp
        hwrites with ⟨path', hpath', htrail'⟩ | ⟨hpseen, happart⟩
      · exact .inl ⟨path', mem_append_right _ hpath', htrail'⟩
      · refine .inr ⟨hpseen, ?_⟩
        rintro ⟨g', path'⟩ he before after hsplit
        rcases mem_append.1 he with he | he
        · obtain ⟨q, hq, -, rfl⟩ := mem_pushes.1 he
          rcases eq_nil_or_concat' after with rfl | ⟨after, c, rfl⟩
          · obtain ⟨-, hlast⟩ := append_inj' hsplit rfl
            obtain rfl := singleton_inj.1 hlast
            exact absurd hold ((hmem q).1 hq).2.2
          · rw [← cons_append, ← append_assoc] at hsplit
            obtain ⟨hpath, -⟩ := append_inj' hsplit rfl
            exact happart _ htop before after hpath
        · exact happart _ (hpending ▸ .tail _ he) before after hsplit
    · have hnew := (mem_append.1 hseen).resolve_left hold
      exact .inl ⟨path ++ [n], mem_append_left _ (mem_pushes.2 ⟨n, hnew, hg, rfl⟩),
        .snoc htrail ⟨f, hf, ((hmem n).1 hnew).1⟩⟩
  · by_cases hpush : ∃ q ∈ fresh, q ∈ S
    · obtain ⟨q, hq, hqS⟩ := hpush
      obtain ⟨g, hg, -⟩ := hleads q hqS
      have hentry : (g, path ++ [q]) ∈ pushes reads path fresh ++ rest :=
        mem_append_left _ (mem_pushes.2 ⟨q, hq, hg, rfl⟩)
      rcases mem_append.1 hseen with hold | hnew
      · obtain ⟨e, he, hne⟩ := h.held n hn hold
        rw [hpending] at he
        rcases mem_cons.1 he with rfl | he
        · exact ⟨_, hentry, mem_append_left _ hne⟩
        · exact ⟨e, mem_append_right _ he, hne⟩
      · obtain ⟨c, rfl⟩ := length_eq_one_iff.1 (le_antisymm hfresh (length_pos_of_mem hq))
        obtain rfl := mem_singleton.1 hq
        obtain rfl := mem_singleton.1 hnew
        exact ⟨_, hentry, mem_append_right _ (.head _)⟩
    · have hnone : ∀ p ∈ fresh, p ∉ S := fun p hp hpS => hpush ⟨p, hp, hpS⟩
      have hold := (mem_append.1 hseen).resolve_right fun hnew => hnone n hnew hn
      obtain ⟨e, he, hne⟩ := h.held n hn hold
      rw [hpending] at he
      rcases mem_cons.1 he with rfl | he
      · obtain ⟨e, he, hne⟩ := held_of_left hsound h hpending hopen hmem ha hleads hnone hn hne
        exact ⟨e, mem_append_right _ he, hne⟩
      · exact ⟨e, mem_append_right _ he, hne⟩

end SingleWriter

/-- **A search closes a loop it is led into**: when every label has one writer and `a` reaches a loop it is
not on, the search follows a label whose writer is on the path and does not reach `a`. -/
theorem exists_loop_of_single (hnodes : ∀ f, ∀ p ∈ writers f, p ∈ nodes)
    (hsingle : ∀ f, ∀ p ∈ writers f, ∀ q ∈ writers f, p = q) {j : ν}
    (hreach : Reaches writers reads a j) (hloop : Reaches writers reads j j)
    (hback : ¬ Reaches writers reads j a) :
    ∃ k f path, Follows writers reads a k f path ∧ ∃ p ∈ writers f, p ∈ path ∧
      ¬ Reaches writers reads p a := by
  by_contra hnone
  let S : Set ν := {n | Reaches writers reads j n ∧ Reaches writers reads n j}
  have ha : a ∉ S := fun h => hback h.1
  have hleads : ∀ n ∈ S, ∃ g ∈ reads n, ∃ p ∈ writers g, p ∈ S := by
    rintro n ⟨hjn, hnj⟩
    obtain ⟨p, ⟨g, hg, hp⟩, hpj⟩ : ∃ p, Leads writers reads n p ∧ (p = j ∨ Reaches writers reads p j) := by
      rcases Relation.TransGen.head'_iff.1 hnj with ⟨p, hlead, hrest⟩
      exact ⟨p, hlead, (Relation.reflTransGen_iff_eq_or_transGen.1 hrest).imp Eq.symm id⟩
    exact ⟨g, hg, p, hp, hjn.tail ⟨g, hg, hp⟩, hpj.elim (fun h => h ▸ hloop) id⟩
  have hopen : ∀ k f path, Follows writers reads a k f path → ∀ p ∈ writers f, p ∈ S → p ∉ path :=
    fun k f path hfollows p hp hpS hpath =>
      hnone ⟨k, f, path, hfollows, p, hp, hpath, fun hpa => hback (hpS.1.trans hpa)⟩
  have hheld : ∀ k, Held writers reads a S (state writers reads a k) := by
    intro k
    induction k with
    | zero =>
      refine ⟨pairwise_of_forall_mem_list fun e he e' he' => ?_, nofun, nofun⟩
      rw [(mem_entries.1 he).2, (mem_entries.1 he').2]
    | succ k ih =>
      rw [state_succ]
      cases hpending : (state writers reads a k).pending with
      | nil =>
        rw [next_of_nil hpending]
        exact ih
      | cons entry rest =>
        exact held_next (sound_state a k) ih hpending (hsingle entry.1)
          (hopen k entry.1 entry.2 ⟨rest, hpending⟩) ha hleads
  have hstop := stopped reads hnodes a le_rfl
  have hseen := (mem_seen_of_stopped hstop).2 ⟨fun h => hback (h ▸ hloop), hreach⟩
  obtain ⟨e, he, -⟩ := (hheld _).held j ⟨hloop, hloop⟩ hseen
  rw [hstop] at he
  cases he

end PathSearch
