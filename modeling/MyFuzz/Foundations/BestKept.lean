import Mathlib.Data.List.Dedup
import Mathlib.Data.List.Induction
import Mathlib.Data.List.Lex
import Mathlib.Data.List.Sort
import Mathlib.Data.Prod.Lex

/-!
# Foundations/BestKept — keeping the best items of a run in a bounded buffer

Items are offered one after the other.  The buffer is ordered by `rank`, and a better `score` replaces its
first item when it is full:

    offer a      ──▸ an item with the same key is kept: nothing changes
                 ──▸ room is left: `a` is put at its rank
                 ──▸ `score a < score head`: `a` replaces the head

What is kept is right when the head has the worst score.  `Hides p x` says that `p` stands before `x` although
its score is better; `kept_offerAll` needs that no better item follows such a pair, and `not_best_of_hides`
shows that any such pair with a better item after it breaks a buffer of two.
-/

namespace BestKept

open List

variable {α κ ρ σ : Type*} [DecidableEq κ] [LinearOrder ρ] [LinearOrder σ]
variable (key : α → κ) (rank : α → ρ) (score : α → σ)

/-- Put an item at its rank. -/
def push (a : α) (kept : List α) : List α := kept.orderedInsert (fun b c => rank b ≤ rank c) a

/-- **Offer an item to a buffer of at most `limit` items.** -/
def offer (limit : ℕ) (kept : List α) (a : α) : List α :=
  if kept.any fun b => key b = key a then kept
  else if kept.length < limit then push rank a kept
  else
    match kept with
    | [] => []
    | head :: rest => if score a < score head then push rank a rest else head :: rest

/-- Offer the items in turn. -/
def offerAll (limit : ℕ) (items : List α) : List α := items.foldl (offer key rank score limit) []

/-- The kept items from the best score to the worst. -/
def best (limit : ℕ) (items : List α) : List α :=
  (offerAll key rank score limit items).insertionSort fun a b => score a ≤ score b

/-! ## What the buffer is for -/

/-- **The first `limit` of the items with `P`, from the best score to the worst, each once.** -/
def IsBest (P : α → Prop) (limit : ℕ) (result : List α) : Prop :=
  ∃ ranking : List α, ranking.Nodup ∧ (∀ a, a ∈ ranking ↔ P a) ∧
    ranking.Pairwise (fun a b => score a ≤ score b) ∧ result = ranking.take limit

/-- `p` stands before `x` in the buffer although its score is better. -/
def Hides (p x : α) : Prop := rank p < rank x ∧ score p < score x

/-- **A better item follows a pair whose order in the buffer is wrong.** -/
def Misleads (items : List α) : Prop :=
  ∃ x p c, (List.Sublist [x, p, c] items ∨ List.Sublist [p, x, c] items) ∧ Hides rank score p x ∧
    score c < score x

variable {key rank score} {P : α → Prop} {limit : ℕ} {result : List α}

variable {a b p x : α} {kept seen items : List α}

/-- A listed item is no worse than one that is left out. -/
theorem IsBest.le (h : IsBest score P limit result) (ha : a ∈ result) (hb : P b)
    (hnot : b ∉ result) : score a ≤ score b := by
  obtain ⟨ranking, -, hmem, hsorted, rfl⟩ := h
  have hb := (hmem b).2 hb
  rw [← take_append_drop limit ranking] at hsorted hb
  have hdrop := (mem_append.1 hb).resolve_left hnot
  exact (pairwise_append.1 hsorted).2.2 a ha b hdrop

theorem IsBest.congr {Q : α → Prop} (hPQ : ∀ a, P a ↔ Q a) (h : IsBest score P limit result) :
    IsBest score Q limit result := by
  obtain ⟨ranking, hnodup, hmem, hrest⟩ := h
  exact ⟨ranking, hnodup, fun a => (hmem a).trans (hPQ a), hrest⟩

/-! ## The buffer -/

theorem mem_push : b ∈ push rank a kept ↔ b = a ∨ b ∈ kept := mem_orderedInsert _

theorem length_push (a : α) (kept : List α) : (push rank a kept).length = kept.length + 1 :=
  orderedInsert_length _ _ _

theorem nodup_push (ha : a ∉ kept) (h : kept.Nodup) : (push rank a kept).Nodup :=
  (perm_orderedInsert _ a kept).nodup_iff.2 (nodup_cons.2 ⟨ha, h⟩)

theorem pairwise_push (h : kept.Pairwise fun b c => rank b ≤ rank c) (a : α) :
    (push rank a kept).Pairwise fun b c => rank b ≤ rank c := by
  have : Std.Total fun b c : α => rank b ≤ rank c := ⟨fun b c => le_total _ _⟩
  have : IsTrans α fun b c => rank b ≤ rank c := ⟨fun _ _ _ => le_trans⟩
  exact h.orderedInsert a kept

variable (rank score) in
/-- **What the buffer keeps of the items offered so far.** -/
structure Kept (limit : ℕ) (seen kept : List α) : Prop where
  ordered : kept.Pairwise fun b c => rank b ≤ rank c
  nodup : kept.Nodup
  subset : ∀ a ∈ kept, a ∈ seen
  length_le : kept.length ≤ limit
  /-- Nothing is left out before the buffer is full. -/
  complete : kept.length < limit → ∀ a ∈ seen, a ∈ kept
  /-- What is left out is no better than what is kept. -/
  worse : ∀ a ∈ seen, a ∉ kept → ∀ b ∈ kept, score b ≤ score a

/-- An item that was offered before changes what is known about the items offered, and nothing else. -/
theorem Kept.again (h : Kept rank score limit seen kept) (ha : a ∈ seen) :
    Kept rank score limit (seen ++ [a]) kept := by
  have hsame : ∀ b, b ∈ seen ++ [a] ↔ b ∈ seen := by
    intro b
    rw [mem_append, mem_singleton]
    constructor
    · rintro (hb | rfl)
      · exact hb
      · exact ha
    · exact .inl
  exact ⟨h.ordered, h.nodup, fun b hb => (hsame b).2 (h.subset b hb), h.length_le,
    fun hroom b hb => h.complete hroom b ((hsame b).1 hb), fun b hb => h.worse b ((hsame b).1 hb)⟩

/-- **One offer keeps what the buffer says**, unless a pair in the wrong order misleads it. -/
theorem Kept.offer (h : Kept rank score limit seen kept) (hlimit : 0 < limit)
    (hkey : ∀ b ∈ seen, key b = key a → b = a) (hrank : ∀ b c : α, rank b = rank c → score b = score c)
    (hclear : a ∉ seen → ∀ x ∈ seen, ∀ p ∈ seen, Hides rank score p x → score x ≤ score a) :
    Kept rank score limit (seen ++ [a]) (offer key rank score limit kept a) := by
  unfold BestKept.offer
  by_cases hsame : kept.any (fun b => key b = key a) = true
  · rw [if_pos hsame]
    obtain ⟨b, hb, hkeys⟩ := any_eq_true.1 hsame
    have heq := hkey b (h.subset b hb) (of_decide_eq_true hkeys)
    exact h.again (heq ▸ h.subset b hb)
  have hnot : a ∉ kept := by
    intro ha
    exact hsame (any_eq_true.2 ⟨a, ha, decide_eq_true rfl⟩)
  rw [if_neg hsame]
  by_cases hroom : kept.length < limit
  · -- room is left: everything offered so far is kept
    rw [if_pos hroom]
    refine ⟨pairwise_push h.ordered a, nodup_push hnot h.nodup, fun b hb => ?_, ?_, fun _ b hb => ?_,
      fun b hb hout => ?_⟩
    · rcases mem_push.1 hb with rfl | hb
      · exact mem_append_right _ (.head _)
      · exact mem_append_left _ (h.subset b hb)
    · rw [length_push]
      omega
    · rcases mem_append.1 hb with hb | hb
      · exact mem_push.2 (.inr (h.complete hroom b hb))
      · exact mem_push.2 (.inl (mem_singleton.1 hb))
    · exfalso
      rcases mem_append.1 hb with hb | hb
      · exact hout (mem_push.2 (.inr (h.complete hroom b hb)))
      · exact hout (mem_push.2 (.inl (mem_singleton.1 hb)))
  rw [if_neg hroom]
  cases kept with
  | nil => exact absurd hlimit hroom
  | cons head rest =>
    have hhead : ∀ b ∈ head :: rest, rank head ≤ rank b := by
      intro b hb
      rcases mem_cons.1 hb with rfl | hb
      · exact le_rfl
      · exact (pairwise_cons.1 h.ordered).1 b hb
    -- an item of a worse score than the head is hidden by it
    have hhides : ∀ b ∈ head :: rest, score head < score b → Hides rank score head b := by
      intro b hb hlt
      refine ⟨lt_of_le_of_ne (hhead b hb) fun heq => ?_, hlt⟩
      exact absurd (hrank _ _ heq) hlt.ne
    have hinhead : head ∈ seen := h.subset head (.head _)
    by_cases hlt : score a < score head
    · have hnew : a ∉ seen := fun ha =>
        absurd hlt (not_lt.2 (h.worse a ha hnot head (.head _)))
      have hworst : ∀ b ∈ head :: rest, score b ≤ score head := by
        intro b hb
        by_contra hb'
        have hle := hclear hnew b (h.subset b hb) head hinhead (hhides b hb (not_le.1 hb'))
        exact absurd (hlt.trans (not_le.1 hb')) (not_lt.2 hle)
      simp only [if_pos hlt]
      have hlength := h.length_le
      rw [length_cons] at hlength hroom
      refine ⟨pairwise_push (pairwise_cons.1 h.ordered).2 a,
        nodup_push (fun ha => hnot (.tail _ ha)) (nodup_cons.1 h.nodup).2,
        fun b hb => ?_, ?_, fun hshort => ?_, fun b hb hout c hc => ?_⟩
      · rcases mem_push.1 hb with rfl | hb
        · exact mem_append_right _ (.head _)
        · exact mem_append_left _ (h.subset b (.tail _ hb))
      · rw [length_push]
        omega
      · rw [length_push] at hshort
        exact absurd hshort hroom
      · have hne : b ≠ a := fun heq => hout (mem_push.2 (.inl heq))
        have hb : b ∈ seen := (mem_append.1 hb).resolve_right
          fun hb => hne (mem_singleton.1 hb)
        have hbhead : score head ≤ score b := by
          by_cases heq : b = head
          · rw [heq]
          · refine h.worse b hb (fun hin => ?_) head (.head _)
            rcases mem_cons.1 hin with hin | hin
            · exact heq hin
            · exact hout (mem_push.2 (.inr hin))
        rcases mem_push.1 hc with rfl | hc
        · exact hlt.le.trans hbhead
        · exact (hworst c (.tail _ hc)).trans hbhead
    · simp only [if_neg hlt]
      refine ⟨h.ordered, h.nodup, fun b hb => mem_append_left _ (h.subset b hb), h.length_le,
        fun hshort => absurd hshort hroom, fun b hb hout c hc => ?_⟩
      rcases mem_append.1 hb with hb | hb
      · exact h.worse b hb hout c hc
      obtain rfl := mem_singleton.1 hb
      by_cases hold : b ∈ seen
      · exact h.worse b hold hout c hc
      by_contra hgt
      have hhide := hhides c hc ((not_lt.1 hlt).trans_lt (not_le.1 hgt))
      exact hgt (hclear hold c (h.subset c hc) head hinhead hhide)

/-- Two different items of a list stand in it in one order or the other. -/
theorem sublist_pair_of_mem {l : List α} (hx : x ∈ l) (hp : p ∈ l) (hne : x ≠ p) :
    List.Sublist [x, p] l ∨ List.Sublist [p, x] l := by
  obtain ⟨l₁, l₂, rfl⟩ := append_of_mem hx
  rcases mem_append.1 hp with hp | hp
  · exact .inr ((singleton_sublist.2 hp).append
      (singleton_sublist.2 (.head _)))
  · rcases mem_cons.1 hp with rfl | hp
    · exact absurd rfl hne
    · exact .inl ((singleton_sublist.2 hp).cons_cons x |>.trans
        (sublist_append_right l₁ _))

/-- **A run that is not misled keeps the best of what was offered.** -/
theorem kept_offerAll (hlimit : 0 < limit) (hrank : ∀ b c : α, rank b = rank c → score b = score c)
    (hkey : ∀ a ∈ items, ∀ b ∈ items, key a = key b → a = b) (hclear : ¬ Misleads rank score items) :
    Kept rank score limit items (offerAll key rank score limit items) := by
  induction items using List.reverseRecOn with
  | nil =>
    exact ⟨List.Pairwise.nil, nodup_nil, fun a ha => ha, Nat.zero_le _, fun _ a ha => ha, nofun⟩
  | append_singleton items a ih =>
    have hsub : List.Sublist items (items ++ [a]) := sublist_append_left _ _
    have hkept := ih (fun b hb c hc => hkey b (hsub.subset hb) c (hsub.subset hc)) (by
      rintro ⟨x, p, c, hsublist, hhides, hlt⟩
      exact hclear ⟨x, p, c, hsublist.imp (·.trans hsub) (·.trans hsub), hhides, hlt⟩)
    rw [offerAll, foldl_concat]
    have hlast : a ∈ items ++ [a] := mem_append_right _ (.head _)
    refine hkept.offer hlimit (fun b hb heq => hkey b (hsub.subset hb) a hlast heq) hrank
      fun _ x hx p hp hhides => ?_
    by_contra hlt
    have hne : x ≠ p := fun heq => absurd hhides.2 (heq ▸ lt_irrefl _)
    refine hclear ⟨x, p, a, ?_, hhides, not_le.1 hlt⟩
    exact (sublist_pair_of_mem hx hp hne).imp (·.append_right [a]) (·.append_right [a])

/-- Items sorted by their scores. -/
theorem pairwise_insertionSort_score (l : List α) :
    (l.insertionSort fun a b => score a ≤ score b).Pairwise fun a b => score a ≤ score b := by
  have : Std.Total fun a b : α => score a ≤ score b := ⟨fun a b => le_total _ _⟩
  have : IsTrans α fun a b => score a ≤ score b := ⟨fun _ _ _ => le_trans⟩
  exact pairwise_insertionSort _ l

/-- **What is kept, sorted, is the best of what was offered.** -/
theorem Kept.isBest (h : Kept rank score limit seen kept) :
    IsBest score (· ∈ seen) limit (kept.insertionSort fun a b => score a ≤ score b) := by
  classical
  let le : α → α → Prop := fun a b => score a ≤ score b
  let others := (seen.dedup.filter (· ∉ kept)).insertionSort le
  have hothers : ∀ a, a ∈ others ↔ a ∈ seen ∧ a ∉ kept := by
    intro a
    rw [mem_insertionSort, mem_filter, mem_dedup, decide_eq_true_eq]
  refine ⟨kept.insertionSort le ++ others, ?_, fun a => ?_, ?_, ?_⟩
  · refine nodup_append'.2 ⟨(perm_insertionSort le kept).nodup_iff.2 h.nodup,
      (perm_insertionSort le _).nodup_iff.2 ((nodup_dedup seen).filter _), ?_⟩
    intro a ha ha'
    exact ((hothers a).1 ha').2 ((mem_insertionSort le).1 ha)
  · rw [mem_append, hothers, mem_insertionSort]
    constructor
    · rintro (ha | ⟨ha, -⟩)
      · exact h.subset a ha
      · exact ha
    · intro ha
      by_cases hk : a ∈ kept
      · exact .inl hk
      · exact .inr ⟨ha, hk⟩
  · refine pairwise_append.2 ⟨pairwise_insertionSort_score kept,
      pairwise_insertionSort_score _, fun a ha b hb => ?_⟩
    obtain ⟨hseen, hout⟩ := (hothers b).1 hb
    exact h.worse b hseen hout a ((mem_insertionSort le).1 ha)
  · have hlength : (kept.insertionSort le).length = kept.length := length_insertionSort le kept
    rcases Nat.lt_or_ge kept.length limit with hroom | hfull
    · have hnone : others = [] := by
        rw [eq_nil_iff_forall_not_mem]
        intro a ha
        exact ((hothers a).1 ha).2 (h.complete hroom a ((hothers a).1 ha).1)
      rw [hnone, append_nil, take_of_length_le (by omega)]
    · have hle := h.length_le
      rw [take_append_of_le_length (by omega), take_of_length_le (by omega)]

/-! ## A misled buffer -/

/-- **A hidden pair and a better item break a buffer of two.** -/
theorem not_best_of_hides {c : α} (hitems : items = [x, p, c] ∨ items = [p, x, c])
    (hkeys : (items.map key).Nodup) (hhides : Hides rank score p x) (hbetter : score c < score x) :
    ¬ IsBest score (· ∈ items) 2 (best key rank score 2 items) := by
  have hle : rank p ≤ rank x := hhides.1.le
  have hnle : ¬ rank x ≤ rank p := not_le.2 hhides.1
  obtain ⟨hxp, hxc, hpc⟩ : key x ≠ key p ∧ key x ≠ key c ∧ key p ≠ key c := by
    rcases hitems with rfl | rfl <;> simp at hkeys <;> tauto
  -- the better item of the pair comes first in the buffer
  have hbuffer : offerAll key rank score 2 items
      = if score c < score p then push rank c [x] else [p, x] := by
    rcases hitems with rfl | rfl
    · simp [offerAll, offer, push, hxp, hxc, hpc, hle]
    · simp [offerAll, offer, push, hxp.symm, hxc, hpc, hnle]
  have hin : ∀ a, a ∈ best key rank score 2 items ↔ a ∈ offerAll key rank score 2 items :=
    fun a => mem_insertionSort _
  have hmem : ∀ a, a = x ∨ a = p ∨ a = c → a ∈ items := by
    rcases hitems with rfl | rfl <;> simp
  have hx : x ∈ best key rank score 2 items := by
    rw [hin, hbuffer]
    split_ifs
    · exact mem_push.2 (.inr (.head _))
    · exact .tail _ (.head _)
  intro h
  by_cases hcp : score c < score p
  · -- `p` was thrown out for `c`
    refine absurd (h.le hx (hmem p (.inr (.inl rfl))) ?_) (not_le.2 hhides.2)
    rw [hin, hbuffer, if_pos hcp, mem_push, mem_singleton]
    rintro (rfl | rfl)
    · exact lt_irrefl _ hcp
    · exact lt_irrefl _ hhides.2
  · -- `c` was compared with `p` and refused
    refine absurd (h.le hx (hmem c (.inr (.inr rfl))) ?_) (not_le.2 hbetter)
    rw [hin, hbuffer, if_neg hcp, mem_cons, mem_singleton]
    rintro (rfl | rfl)
    · exact hpc rfl
    · exact lt_irrefl _ hbetter

/-! ## Scores with several parts

A score of several parts is a list, compared part by part.  Turning every part around turns the order around,
except that a list still comes before the lists it begins. -/

section Parts

variable {ν μ τ : Type*} [LinearOrder ν] [LinearOrder μ] [LinearOrder τ] {f : ν → μ}

/-- Turning the parts around keeps the order of a list and its beginning only. -/
theorem map_lt_map_iff (hf : StrictAnti f) {l m : List ν} (h : l < m) : l.map f < m.map f ↔ l <+: m := by
  induction l generalizing m with
  | nil =>
    cases m with
    | nil => exact absurd h (lt_irrefl _)
    | cons b m => exact iff_of_true (nil_lt_cons _ _) nil_prefix
  | cons a l ih =>
    cases m with
    | nil => exact absurd h (not_lt_nil _)
    | cons b m =>
      rw [map_cons, map_cons, cons_lt_cons_iff, cons_prefix_cons]
      rcases cons_lt_cons_iff.1 h with hlt | ⟨rfl, hlt⟩
      · have hgt := hf hlt
        refine iff_of_false ?_ fun hpre => hlt.ne hpre.1
        rintro (hlt' | ⟨heq, -⟩)
        · exact lt_asymm hgt hlt'
        · exact hgt.ne heq.symm
      · rw [← ih hlt]
        constructor
        · rintro (hlt' | ⟨-, hlt'⟩)
          · exact absurd hlt' (lt_irrefl _)
          · exact ⟨rfl, hlt'⟩
        · exact fun h => .inr ⟨rfl, h.2⟩

/-- **Under the reversed parts an item hides exactly those whose score its own score begins.** -/
theorem hides_iff (hf : StrictAnti f) {parts : α → List ν} {tie : α → τ} :
    Hides (fun a => toLex ((parts a).map f, tie a)) parts p x ↔ parts p <+: parts x ∧ parts p ≠ parts x := by
  unfold Hides
  rw [Prod.Lex.toLex_lt_toLex]
  constructor
  · rintro ⟨hlt | ⟨heq, -⟩, hscore⟩
    · exact ⟨(map_lt_map_iff hf hscore).1 hlt, hscore.ne⟩
    · exact absurd ((map_injective_iff.2 hf.injective) heq) hscore.ne
  · rintro ⟨hpre, hne⟩
    have hscore : parts p < parts x := by
      obtain ⟨rest, hrest⟩ := hpre
      cases rest with
      | nil => exact absurd ((append_nil _).symm.trans hrest) hne
      | cons b rest =>
        have hlt : parts p ++ [] < parts p ++ b :: rest := append_left_lt (nil_lt_cons b rest)
        rwa [append_nil, hrest] at hlt
    exact ⟨.inl ((map_lt_map_iff hf hscore).2 hpre), hscore⟩

end Parts

end BestKept
