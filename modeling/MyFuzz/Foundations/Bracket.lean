import Mathlib.Data.List.TakeWhile
import MyFuzz.Foundations.Sequence

/-!
# Foundations/Bracket — logs whose openings are closed one by one

A log is **bracketed** when every event that opens a key is followed by one event that closes it
before the next opening:

    open a · · close a · open b · close b · open c · ·
    └───────────────┘   └────────────────┘  └─ still open

`Bracketed` builds such logs by appending, so a step that appends keeps it by one constructor;
`Bracketed.closes_once` reads it back at any opening.
-/

variable {ε κ : Type*} {opens closes : ε → Option κ}

/-- A log whose openings are closed before the next, and the key that is open at its end. -/
inductive Bracketed (opens closes : ε → Option κ) : Option κ → List ε → Prop where
  | nil : Bracketed opens closes none []
  | neutral {o : Option κ} {l : List ε} {e : ε} (h : Bracketed opens closes o l)
      (ho : opens e = none) (hc : closes e = none) : Bracketed opens closes o (l ++ [e])
  | opening {k : κ} {l : List ε} {e : ε} (h : Bracketed opens closes none l)
      (ho : opens e = some k) (hc : closes e = none) : Bracketed opens closes (some k) (l ++ [e])
  | closing {k : κ} {l : List ε} {e : ε} (h : Bracketed opens closes (some k) l)
      (ho : opens e = none) (hc : closes e = some k) : Bracketed opens closes none (l ++ [e])

/-- The events up to the next opening. -/
def untilOpening (opens : ε → Option κ) (l : List ε) : List ε :=
  l.takeWhile fun e => (opens e).isNone

variable {l : List ε}

theorem untilOpening_eq_self (h : ∀ e ∈ l, opens e = none) : untilOpening opens l = l := by
  refine List.takeWhile_eq_self_iff.2 fun e he => ?_
  rw [h e he]
  rfl

theorem untilOpening_append_opening (h : ∀ e ∈ l, opens e = none) {e : ε} (he : (opens e).isSome)
    (rest : List ε) : untilOpening opens (l ++ e :: rest) = l := by
  rw [untilOpening, List.takeWhile_append_of_pos fun e he => by rw [h e he]; rfl,
    List.takeWhile_cons_of_neg (by simpa [Option.isSome_iff_ne_none] using he), List.append_nil]

/-- Appending after an opening does not reach what was closed before it. -/
theorem untilOpening_append (h : ∃ e ∈ l, (opens e).isSome) (rest : List ε) :
    untilOpening opens (l ++ rest) = untilOpening opens l := by
  induction l with
  | nil =>
    obtain ⟨e, he, -⟩ := h
    cases he
  | cons a l ih =>
    unfold untilOpening at ih ⊢
    rw [List.cons_append, List.takeWhile_cons, List.takeWhile_cons]
    split_ifs with ha
    · rw [ih]
      obtain ⟨e, he, hsome⟩ := h
      rcases List.mem_cons.1 he with rfl | he
      · rw [Option.isNone_iff_eq_none.1 ha] at hsome
        cases hsome
      · exact ⟨e, he, hsome⟩
    · rfl

namespace Bracketed

/-- What follows the opening of `k`: its one closing before the next opening, or nothing yet. -/
def ClosesOnce (opens closes : ε → Option κ) (o : Option κ) (k : κ) (after : List ε) : Prop :=
  ((untilOpening opens after).filterMap closes = [k] ∧ ((∀ e ∈ after, opens e = none) → o = none)) ∨
    ((∀ e ∈ after, opens e = none ∧ closes e = none) ∧ o = some k)

section Append

variable {o : Option κ} {k : κ} {after : List ε} {e : ε}

/-- The last segment of a log grows by what is appended. -/
theorem untilOpening_concat (h : ∀ e ∈ after, opens e = none) (ho : opens e = none) :
    (untilOpening opens (after ++ [e])).filterMap closes
      = (untilOpening opens after).filterMap closes ++ [e].filterMap closes := by
  have hall : ∀ e' ∈ after ++ [e], opens e' = none := by
    intro e' he'
    rcases List.mem_append.1 he' with he' | he'
    · exact h e' he'
    · rw [List.mem_singleton.1 he', ho]
  rw [untilOpening_eq_self hall, untilOpening_eq_self h, List.filterMap_append]

theorem closesOnce_neutral (h : ClosesOnce opens closes o k after) (ho : opens e = none)
    (hc : closes e = none) : ClosesOnce opens closes o k (after ++ [e]) := by
  rcases h with ⟨hseg, hopen⟩ | ⟨hneutral, hk⟩
  · refine .inl ⟨?_, fun hall => hopen fun e' he' => hall e' (List.mem_append_left _ he')⟩
    by_cases hall : ∀ e ∈ after, opens e = none
    · rw [untilOpening_concat hall ho, hseg, List.filterMap_cons_none hc]
      rfl
    · push Not at hall
      obtain ⟨e', he', hsome⟩ := hall
      rw [untilOpening_append ⟨e', he', Option.isSome_iff_ne_none.2 hsome⟩, hseg]
  · refine .inr ⟨fun e' he' => ?_, hk⟩
    rcases List.mem_append.1 he' with he' | he'
    · exact hneutral e' he'
    · rw [List.mem_singleton.1 he']
      exact ⟨ho, hc⟩

theorem closesOnce_opening (h : ClosesOnce opens closes none k after) (ho : (opens e).isSome)
    (o : Option κ) : ClosesOnce opens closes o k (after ++ [e]) := by
  rcases h with ⟨hseg, -⟩ | ⟨-, hk⟩
  · refine .inl ⟨?_, fun hall => ?_⟩
    · by_cases hall : ∀ e ∈ after, opens e = none
      · rw [untilOpening_append_opening hall ho, ← untilOpening_eq_self hall, hseg]
      · push Not at hall
        obtain ⟨e', he', hsome⟩ := hall
        rw [untilOpening_append ⟨e', he', Option.isSome_iff_ne_none.2 hsome⟩, hseg]
    · rw [hall e (List.mem_append_right _ List.mem_cons_self)] at ho
      cases ho
  · cases hk

theorem closesOnce_closing {k' : κ} (h : ClosesOnce opens closes (some k') k after)
    (ho : opens e = none) (hc : closes e = some k') :
    ClosesOnce opens closes none k (after ++ [e]) := by
  rcases h with ⟨hseg, hopen⟩ | ⟨hneutral, hk⟩
  · refine .inl ⟨?_, fun _ => rfl⟩
    by_cases hall : ∀ e ∈ after, opens e = none
    · cases hopen hall
    · push Not at hall
      obtain ⟨e', he', hsome⟩ := hall
      rw [untilOpening_append ⟨e', he', Option.isSome_iff_ne_none.2 hsome⟩, hseg]
  · cases hk
    refine .inl ⟨?_, fun _ => rfl⟩
    have hnone : after.filterMap closes = [] := List.filterMap_eq_nil_iff.2 fun e he => (hneutral e he).2
    have hall : ∀ e ∈ after, opens e = none := fun e he => (hneutral e he).1
    rw [untilOpening_concat hall ho, untilOpening_eq_self hall, hnone, List.filterMap_cons_some hc]
    rfl

end Append

variable {o : Option κ}

/-- **Every opening of a bracketed log is closed once** before the next, or is still open. -/
theorem closes_once (h : Bracketed opens closes o l) :
    ∀ {before after : List ε} {e : ε} {k : κ}, l = before ++ e :: after → opens e = some k →
      ClosesOnce opens closes o k after := by
  induction h with
  | nil =>
    intro before after e k hl
    exact absurd hl.symm (by simp)
  | neutral _ ho hc ih =>
    intro before after e k hl hopen
    rcases Sequence.concat_eq_append_cons.1 hl with ⟨rfl, -, rfl⟩ | ⟨after', rfl, hl'⟩
    · rw [ho] at hopen
      cases hopen
    · exact closesOnce_neutral (ih hl' hopen) ho hc
  | opening _ ho hc ih =>
    intro before after e k hl hopen
    rcases Sequence.concat_eq_append_cons.1 hl with ⟨rfl, -, rfl⟩ | ⟨after', rfl, hl'⟩
    · exact .inr ⟨nofun, ho.symm.trans hopen⟩
    · exact closesOnce_opening (ih hl' hopen) (by rw [ho]; rfl) _
  | closing _ ho hc ih =>
    intro before after e k hl hopen
    rcases Sequence.concat_eq_append_cons.1 hl with ⟨rfl, -, rfl⟩ | ⟨after', rfl, hl'⟩
    · rw [ho] at hopen
      cases hopen
    · exact closesOnce_closing (ih hl' hopen) ho hc

/-- **The key that is open was opened last**, and nothing was closed since. -/
theorem exists_opening (h : Bracketed opens closes o l) :
    ∀ {k : κ}, o = some k → ∃ before e after, l = before ++ e :: after ∧ opens e = some k ∧
      ∀ e' ∈ after, opens e' = none ∧ closes e' = none := by
  induction h with
  | nil =>
    intro k hk
    cases hk
  | @neutral o l e _ ho hc ih =>
    intro k hk
    obtain ⟨before, e', after, rfl, hopen, hafter⟩ := ih hk
    refine ⟨before, e', after ++ [e], by rw [List.append_assoc, List.cons_append], hopen, ?_⟩
    intro e'' he''
    rcases List.mem_append.1 he'' with he'' | he''
    · exact hafter e'' he''
    · rw [List.mem_singleton.1 he'']
      exact ⟨ho, hc⟩
  | @opening k' l e _ ho hc ih =>
    intro k hk
    cases hk
    exact ⟨l, e, [], rfl, ho, nofun⟩
  | closing _ ho hc ih =>
    intro k hk
    cases hk

end Bracketed
