import MyFuzz.Foundations.Sequence
import MyFuzz.Scenario.ReplayCompare

/-!
# Scenario/ReplayIdentity — identities read off two documents

Where the identities of two runs are not known they are paired by the order in which they appear:
the `i`-th distinct string under an identity field of the reference and that of the replay are both
rewritten to the token `(field, i)`.

    reference   execution: a b a c   ──▸  0 1 0 2
    actual      execution: x y x z   ──▸  0 1 0 2

A token names its field and position, so each mapping is injective whatever field overwrote what.
Documents that become equal therefore differ by one renaming of identities (`exists_bijOn`), and a
consistent renaming makes them equal (`normalize_rename`).
-/

namespace MyFuzz

namespace Replay

open Sequence Place Dict Value Repr

open List hiding getD lookup

variable {σ : Type}

/-! ## Identity places -/

theorem rules_consistent : ∀ rule ∈ normalizerRules, ∀ rule' ∈ normalizerRules, rule.scope = .field →
    rule'.scope = .field → ∀ field ∈ rule.fields, field ∈ rule'.fields → rule.action = rule'.action := by
  decide

theorem fieldRule_eq_identity_iff {f : String} :
    fieldRule f = some .executionIdentity ↔ f ∈ identityFieldNames := by
  unfold fieldRule identityFieldNames
  rw [Option.map_eq_some_iff, mem_flatMap]
  constructor
  · rintro ⟨rule, hfind, haction⟩
    have hrule := find?_some hfind
    simp only [decide_eq_true_eq] at hrule
    refine ⟨rule, mem_filter.2 ⟨mem_of_find?_eq_some hfind, ?_⟩, hrule.2⟩
    simp [hrule.1, haction]
  · rintro ⟨rule, hrule, hfield⟩
    obtain ⟨hmem, hrule⟩ := mem_filter.1 hrule
    simp only [decide_eq_true_eq] at hrule
    have hsome : (normalizerRules.find? fun rule => rule.scope = .field ∧ f ∈ rule.fields).isSome :=
      find?_isSome.2 ⟨rule, hmem, by simp [hrule.1, hfield]⟩
    obtain ⟨rule', hfind⟩ := Option.isSome_iff_exists.1 hsome
    have hrule' := find?_some hfind
    simp only [decide_eq_true_eq] at hrule'
    refine ⟨rule', hfind, ?_⟩
    rw [← rules_consistent rule hmem rule' (mem_of_find?_eq_some hfind) hrule.1 hrule'.1 f
      hfield hrule'.2, hrule.2]

variable {p : Place} {v : Value σ} {s field k token t : String} {edge : Bool} {ρ : String → String}

/-- **A place is an identity's when an identity field governs it.** -/
theorem kind_eq_identity_iff : p.kind = .identity ↔ ∃ f ∈ identityFieldNames, p.field = some f := by
  unfold kind
  constructor
  · intro h
    cases hrule : p.field.bind fieldRule with
    | none =>
      rw [hrule] at h
      simp only at h
      split_ifs at h
    | some action =>
      obtain ⟨f, hf, hf'⟩ := Option.bind_eq_some_iff.1 hrule
      rw [hrule] at h
      cases action with
      | executionIdentity => exact ⟨f, fieldRule_eq_identity_iff.1 hf', hf⟩
      | transactionExecutionPrefix | stateDependencyEndpoint => cases h
  · rintro ⟨f, hf, hfield⟩
    rw [hfield, Option.bind_some, fieldRule_eq_identity_iff.2 hf]

/-- The strings at identity places. -/
def identities (v : Value σ) : List String :=
  ((leavesRoot v).filter fun x => x.1.kind = .identity).map Prod.snd

/-- The strings under one field. -/
def stringsUnder (field : String) (v : Value σ) : List String :=
  ((leavesRoot v).filter fun x => x.1.field = some field).map Prod.snd

theorem mem_identities_iff : s ∈ identities v ↔ ∃ p, (p, s) ∈ leavesRoot v ∧ p.kind = .identity := by
  unfold identities
  rw [mem_map]
  constructor
  · rintro ⟨⟨p, s'⟩, hx, rfl⟩
    obtain ⟨hmem, hkind⟩ := mem_filter.1 hx
    exact ⟨p, hmem, by simpa using hkind⟩
  · rintro ⟨p, hmem, hkind⟩
    exact ⟨(p, s), mem_filter.2 ⟨hmem, by simpa using hkind⟩, rfl⟩

theorem mem_stringsUnder_iff :
    s ∈ stringsUnder field v ↔ ∃ p, (p, s) ∈ leavesRoot v ∧ p.field = some field := by
  unfold stringsUnder
  rw [mem_map]
  constructor
  · rintro ⟨⟨p, s'⟩, hx, rfl⟩
    obtain ⟨hmem, hfield⟩ := mem_filter.1 hx
    exact ⟨p, hmem, by simpa using hfield⟩
  · rintro ⟨p, hmem, hfield⟩
    exact ⟨(p, s), mem_filter.2 ⟨hmem, by simpa using hfield⟩, rfl⟩

theorem mem_identities_iff_stringsUnder :
    s ∈ identities v ↔ ∃ f ∈ identityFieldNames, s ∈ stringsUnder f v := by
  rw [mem_identities_iff]
  constructor
  · rintro ⟨p, hmem, hkind⟩
    obtain ⟨f, hf, hfield⟩ := kind_eq_identity_iff.1 hkind
    exact ⟨f, hf, mem_stringsUnder_iff.2 ⟨p, hmem, hfield⟩⟩
  · rintro ⟨f, hf, hs⟩
    obtain ⟨p, hmem, hfield⟩ := mem_stringsUnder_iff.1 hs
    exact ⟨p, hmem, kind_eq_identity_iff.2 ⟨f, hf, hfield⟩⟩

/-! ## Collecting identities -/

/-- Note the strings of a list of leaves. -/
def noteAll (found : Dict String (List String)) (xs : List (Place × String)) : Dict String (List String) :=
  xs.foldl (fun found x => note found x.1.field x.2) found

theorem noteAll_append (found : Dict String (List String)) (xs ys : List (Place × String)) :
    noteAll found (xs ++ ys) = noteAll (noteAll found xs) ys := foldl_append

theorem collectItems_eq : ∀ {items : List (Value σ)} (found : Dict String (List String)),
    (∀ v ∈ items, ∀ found, collect found p.field v = noteAll found (leaves p v)) →
    collectItems found p.field items = noteAll found (leavesItems p items)
  | [], _, _ => rfl
  | v :: items, found, ih => by
      rw [collectItems, ih v mem_cons_self, leavesItems, noteAll_append]
      exact collectItems_eq _ fun w hw => ih w (mem_cons_of_mem v hw)

theorem collectEntries_eq : ∀ {entries : List (String × Value σ)} (found : Dict String (List String)),
    (∀ e ∈ entries, ∀ (p : Place) (found), collect found p.field e.2 = noteAll found (leaves p e.2)) →
    collectEntries found entries = noteAll found (leavesEntries edge entries)
  | [], _, _ => rfl
  | (k, v) :: entries, found, ih => by
      rw [collectEntries, leavesEntries, noteAll_append, ← ih (k, v) mem_cons_self (entry edge k)]
      exact collectEntries_eq _ fun e he => ih e (.tail _ he)

/-- Collecting goes through the leaves in order. -/
theorem collect_eq (v : Value σ) : ∀ (p : Place) (found : Dict String (List String)),
    collect found p.field v = noteAll found (leaves p v) := by
  induction v using induct with
  | scalar x | str s => exact fun _ _ => rfl
  | list items ih
  | tuple items ih => exact fun p found => collectItems_eq (p := p.item) found fun v hv => ih v hv p.item
  | dict entries ih => exact fun p found => collectEntries_eq found ih

theorem collect_eq_leavesRoot (v : Value σ) (found : Dict String (List String)) :
    collect found none v = noteAll found (leavesRoot v) := by
  cases v with
  | scalar x | str s => rfl
  | list items | tuple items => exact collectItems_eq (p := event) found fun v _ => collect_eq v _
  | dict entries => exact collect_eq (.dict entries) root found

/-- What noting the leaves leaves under a field that is looked for. -/
theorem get?_noteAll : ∀ (xs : List (Place × String))
    {found : Dict String (List String)} {seen : List String}, found.get? field = some seen →
    (noteAll found xs).get? field
      = some (((xs.filter fun x => x.1.field = some field).map Prod.snd).foldl addNew seen)
  | [], _, _, h => h
  | (p, s) :: xs, found, seen, h => by
      by_cases hp : p.field = some field
      · have hnote : (note found p.field s).get? field = some (addNew seen s) := by
          rw [hp]
          unfold note addNew
          simp only [h]
          split_ifs with hs
          · exact h
          · exact get?_set_self _ _ _
        rw [filter_cons_of_pos (by simpa using hp), map_cons, foldl_cons]
        exact get?_noteAll xs hnote
      · have hnote : (note found p.field s).get? field = some seen := by
          unfold note
          cases hfield : p.field with
          | none => exact h
          | some f =>
            have hne : field ≠ f := fun heq => hp (by rw [hfield, heq])
            cases hget : found.get? f with
            | none => simpa only [hget] using h
            | some seen' =>
              simp only [hget]
              split_ifs with hs
              · exact h
              · rw [get?_set_of_ne _ hne, h]
        rw [filter_cons_of_neg (by simpa using hp)]
        exact get?_noteAll xs hnote

/-- **The values of an identity field are its strings in the order they appear.** -/
theorem getD_declaredIdentityValues (hf : field ∈ identityFieldNames) (v : Value σ) :
    (declaredIdentityValues v).getD field [] = firsts (stringsUnder field v) := by
  have hnodup : ((identityFieldNames.map fun field => (field, ([] : List String))).map
      Prod.fst).Nodup := by decide
  have hinit : ((empty : Dict String (List String)).update
      (identityFieldNames.map fun field => (field, []))).get? field = some [] :=
    get?_update_of_mem hnodup _ (mem_map.2 ⟨field, hf, rfl⟩)
  unfold declaredIdentityValues
  rw [collect_eq_leavesRoot, getD, get?_noteAll _ hinit]
  rfl

/-! ## Tokens -/

theorem colon_notMem_identityFieldNames : ∀ field ∈ identityFieldNames, ':' ∉ field.toList := by
  decide

theorem identityToken_inj {field' : String} {i i' : ℕ} (hf : field ∈ identityFieldNames)
    (hf' : field' ∈ identityFieldNames) (h : identityToken field i = identityToken field' i') :
    field = field' ∧ i = i' := by
  have hlist := congrArg String.toList h
  have hcolon : ":".toList = [':'] := by decide
  simp only [identityToken, String.toList_append, append_assoc, hcolon] at hlist
  obtain ⟨hfield, hindex⟩ := append_cons_inj (colon_notMem_identityFieldNames field hf)
    (colon_notMem_identityFieldNames field' hf') (append_cancel_left hlist)
  exact ⟨String.toList_inj.1 hfield, toList_repr_inj hindex⟩

/-- A string begins as the tokens do. -/
def IsToken (s : String) : Prop := identityFront.toList <+: s.toList

instance : DecidablePred IsToken := fun _ => inferInstanceAs (Decidable (_ <+: _))

theorem isToken_identityToken (field : String) (i : ℕ) : IsToken (identityToken field i) := by
  unfold IsToken identityToken
  simp only [String.toList_append, append_assoc]
  exact prefix_append _ _

theorem keys_identityTokens (field : String) (values : List String) :
    (identityTokens field values).map Prod.fst = values := by
  unfold identityTokens
  rw [map_map]
  exact zipIdx_map_fst 0 values

theorem mem_identityTokens_iff {values : List String} :
    (k, token) ∈ identityTokens field values ↔ ∃ i, values[i]? = some k ∧ token = identityToken field i := by
  unfold identityTokens
  rw [mem_map]
  constructor
  · rintro ⟨⟨k', i⟩, hmem, heq⟩
    cases heq
    exact ⟨i, mem_zipIdx_iff_getElem?.mp hmem, rfl⟩
  · rintro ⟨i, hk, rfl⟩
    exact ⟨(k, i), mem_zipIdx_iff_getElem?.mpr hk, rfl⟩

/-! ## One side of the mappings -/

/-- The mapping of one side: the tokens of the fields that are not skipped, in turn. -/
def side (skip : String → Prop) [DecidablePred skip] (values : String → List String)
    (d : Dict String String) (fields : List String) : Dict String String :=
  fields.foldl (fun d field => if skip field then d else d.update (identityTokens field (values field)))
    d

/-- A field is not paired. -/
def skipped (left right : Dict String (List String)) (field : String) : Prop :=
  left.getD field [] = [] ∨ (left.getD field []).length ≠ (right.getD field []).length

instance (left right : Dict String (List String)) : DecidablePred (skipped left right) :=
  fun _ => inferInstanceAs (Decidable (_ ∨ _))

theorem foldl_pairField_eq (left right : Dict String (List String)) : ∀ (fields : List String)
    (m : DeclaredIdentityMappings), (fields.foldl (pairField left right) m).reference
        = side (skipped left right) (left.getD · []) m.reference fields ∧
      (fields.foldl (pairField left right) m).actual
        = side (skipped left right) (right.getD · []) m.actual fields
  | [], _ => ⟨rfl, rfl⟩
  | field :: fields, m => by
      have ih := foldl_pairField_eq left right fields (pairField left right m field)
      unfold side at ih ⊢
      rw [foldl_cons, foldl_cons, foldl_cons, ih.1, ih.2]
      by_cases h : skipped left right field
      · have hm : pairField left right m field = m := if_pos h
        rw [hm, if_pos h, if_pos h]
        exact ⟨rfl, rfl⟩
      · rw [if_neg h, if_neg h, pairField, if_neg (by exact h)]
        exact ⟨rfl, rfl⟩

section Side

variable {skip : String → Prop} [DecidablePred skip] {values : String → List String}

/-- **A token of a mapping names the field and the position of its string.** -/
theorem get?_side (hnodup : ∀ field, (values field).Nodup) : ∀ {fields : List String}
    {d : Dict String String} {k token : String}, (side skip values d fields).get? k = some token →
    d.get? k = some token ∨ ∃ field ∈ fields, ∃ i, (values field)[i]? = some k ∧ token = identityToken field i
  | [], _, _, _, h => .inl h
  | field :: fields, d, k, token, h => by
      unfold side at h
      rw [foldl_cons] at h
      rcases get?_side hnodup h with h | ⟨field', hf', hi⟩
      · split_ifs at h with hskip
        · exact .inl h
        · rw [get?_update (by rw [keys_identityTokens]; exact hnodup field)] at h
          rcases Option.or_eq_some_iff.1 h with h | ⟨_, h⟩
          · obtain ⟨i, hi⟩ := mem_identityTokens_iff.1 (mem_of_lookup_eq_some h)
            exact .inr ⟨field, .head _, i, hi⟩
          · exact .inl h
      · exact .inr ⟨field', mem_cons_of_mem field hf', hi⟩

theorem isSome_side (hnodup : ∀ field, (values field).Nodup) : ∀ {fields : List String}
    {d : Dict String String}, ((d.get? k).isSome ∨ ∃ field ∈ fields, ¬ skip field ∧ k ∈ values field) →
    ((side skip values d fields).get? k).isSome
  | [], _, h => h.elim id fun ⟨_, hf, _⟩ => nomatch hf
  | field :: fields, d, h => by
      unfold side
      rw [foldl_cons]
      refine isSome_side hnodup ?_
      have hkeys : ((identityTokens field (values field)).map Prod.fst).Nodup := by
        rw [keys_identityTokens]
        exact hnodup field
      rcases h with h | ⟨field', hf', hskip, hk⟩
      · left
        split_ifs with hskip
        · exact h
        · rw [get?_update hkeys]
          cases lookup k (identityTokens field (values field)) with
          | none => exact h
          | some token => rfl
      · rcases mem_cons.1 hf' with rfl | hf'
        · left
          obtain ⟨i, hi⟩ := mem_iff_getElem?.mp hk
          rw [if_neg hskip, get?_update_of_mem hkeys _ (mem_identityTokens_iff.2 ⟨i, hi, rfl⟩)]
          rfl
        · exact .inr ⟨field', hf', hskip, hk⟩

variable {S : Set String}

theorem lookup_map_fst (hρ : Set.InjOn ρ S) (hk : k ∈ S) :
    ∀ {l : List (String × String)}, (∀ p ∈ l, p.1 ∈ S) →
    lookup (ρ k) (l.map fun p => (ρ p.1, p.2)) = lookup k l
  | [], _ => rfl
  | (k', v) :: l, hl => by
      have hk' : k' ∈ S := hl (k', v) (.head _)
      rw [map_cons, lookup, lookup,
        lookup_map_fst hρ hk fun p hp => hl p (.tail _ hp)]
      exact if_congr ⟨fun h => hρ hk' hk h, fun h => congrArg ρ h⟩ rfl rfl

theorem identityTokens_map (ρ : String → String) (field : String) (values : List String) :
    identityTokens field (values.map ρ)
      = (identityTokens field values).map fun p => (ρ p.1, p.2) := by
  unfold identityTokens
  rw [zipIdx_map, map_map, map_map]
  rfl

/-- **Renamed strings are mapped to the same tokens.** -/
theorem get?_side_map (hρ : Set.InjOn ρ S) (hnodup : ∀ field, (values field).Nodup)
    (hS : ∀ field, ∀ s ∈ values field, s ∈ S) :
    ∀ {fields : List String} {d d' : Dict String String}, (∀ k ∈ S, d'.get? (ρ k) = d.get? k) → ∀ k ∈ S,
      (side skip (fun field => (values field).map ρ) d' fields).get? (ρ k)
        = (side skip values d fields).get? k
  | [], _, _, h, k, hk => h k hk
  | field :: fields, d, d', h, k, hk => by
      unfold side
      rw [foldl_cons, foldl_cons]
      refine get?_side_map hρ hnodup hS (fun k hk => ?_) k hk
      split_ifs with hskip
      · exact h k hk
      · have hkeys : ((identityTokens field (values field)).map Prod.fst).Nodup := by
          rw [keys_identityTokens]
          exact hnodup field
        have hkeys' : ((identityTokens field ((values field).map ρ)).map Prod.fst).Nodup := by
          rw [keys_identityTokens]
          exact (hnodup field).map_on fun a ha b hb => hρ (hS field a ha) (hS field b hb)
        have hmem : ∀ p ∈ identityTokens field (values field), p.1 ∈ S := by
          intro p hp
          refine hS field p.1 ?_
          rw [← keys_identityTokens field (values field)]
          exact mem_map_of_mem hp
        rw [get?_update hkeys, get?_update hkeys', identityTokens_map,
          lookup_map_fst hρ hk hmem, h k hk]

end Side

theorem side_congr (skip : String → Prop) [DecidablePred skip] (values values' : String → List String) :
    ∀ {fields : List String} (d : Dict String String), (∀ field ∈ fields, values field = values' field) →
      side skip values d fields = side skip values' d fields
  | [], _, _ => rfl
  | field :: fields, d, h => by
      have ih := side_congr skip values values'
        (if skip field then d else d.update (identityTokens field (values field)))
        fun f hf => h f (mem_cons_of_mem field hf)
      unfold side at ih ⊢
      rw [foldl_cons, foldl_cons, ← h field mem_cons_self]
      exact ih

/-! ## The mappings of two documents -/

section Mappings

variable {reference actual : Value σ}

/-- The fields of two documents that are not paired. -/
def Unpaired (reference actual : Value σ) (field : String) : Prop :=
  skipped (declaredIdentityValues reference) (declaredIdentityValues actual) field

instance (reference actual : Value σ) : DecidablePred (Unpaired reference actual) :=
  fun _ => inferInstanceAs (Decidable (skipped _ _ _))

theorem reference_declaredIdentityMappings : (declaredIdentityMappings reference actual).reference
    = side (Unpaired reference actual) (fun field => firsts (stringsUnder field reference)) .empty
        identityFieldNames := by
  unfold declaredIdentityMappings
  rw [(foldl_pairField_eq _ _ _ _).1]
  exact side_congr (Unpaired reference actual) _ _ _ fun field hf => getD_declaredIdentityValues hf _

theorem actual_declaredIdentityMappings : (declaredIdentityMappings reference actual).actual
    = side (Unpaired reference actual) (fun field => firsts (stringsUnder field actual)) .empty
        identityFieldNames := by
  unfold declaredIdentityMappings
  rw [(foldl_pairField_eq _ _ _ _).2]
  exact side_congr (Unpaired reference actual) _ _ _ fun field hf => getD_declaredIdentityValues hf _

/-- Each token of a mapping names the field and the position of its string in a document. -/
def Names (v : Value σ) (m : Dict String String) : Prop :=
  ∀ {k token}, m.get? k = some token → ∃ field ∈ identityFieldNames, ∃ i,
    (firsts (stringsUnder field v))[i]? = some k ∧ token = identityToken field i

theorem names_side {v : Value σ} {skip : String → Prop} [DecidablePred skip] :
    Names v (side skip (fun field => firsts (stringsUnder field v)) .empty identityFieldNames) := by
  intro k token h
  rcases get?_side (fun field => nodup_firsts _) h with h | h
  · cases h
  · exact h

theorem names_reference (reference actual : Value σ) :
    Names reference (declaredIdentityMappings reference actual).reference := by
  rw [reference_declaredIdentityMappings]
  exact names_side

theorem names_actual (reference actual : Value σ) :
    Names actual (declaredIdentityMappings reference actual).actual := by
  rw [actual_declaredIdentityMappings]
  exact names_side

variable {v : Value σ} {m : Dict String String}

/-- **A mapping is injective.** -/
theorem Names.injective (h : Names v m) {k' : String} (hk : m.get? k = some token)
    (hk' : m.get? k' = some token) : k = k' := by
  obtain ⟨field, hf, i, hi, rfl⟩ := h hk
  obtain ⟨field', hf', i', hi', htoken⟩ := h hk'
  obtain ⟨rfl, rfl⟩ := identityToken_inj hf hf' htoken
  exact Option.some.inj (hi.symm.trans hi')

theorem Names.isToken (h : Names v m) (hk : m.get? k = some token) : IsToken token := by
  obtain ⟨field, _, i, _, rfl⟩ := h hk
  exact isToken_identityToken field i

/-- The strings of a mapping are identities of its document. -/
theorem Names.mem_identities (h : Names v m) (hk : m.get? k = some token) : k ∈ identities v := by
  obtain ⟨field, hf, i, hi, _⟩ := h hk
  exact mem_identities_iff_stringsUnder.2 ⟨field, hf, mem_firsts.1 (mem_of_getElem? hi)⟩

/-- Rewriting keeps strings that are no tokens apart. -/
theorem Names.getD_inj (h : Names v m) {s' : String} (hs : ¬ IsToken s) (hs' : ¬ IsToken s')
    (heq : m.getD s s = m.getD s' s') : s = s' := by
  unfold getD at heq
  cases hk : m.get? s with
  | none =>
    cases hk' : m.get? s' with
    | none => simpa [hk, hk'] using heq
    | some token' =>
      obtain rfl : s = token' := by simpa [hk, hk'] using heq
      exact absurd (h.isToken hk') hs
  | some token =>
    cases hk' : m.get? s' with
    | none =>
      obtain rfl : token = s' := by simpa [hk, hk'] using heq
      exact absurd (h.isToken hk) hs'
    | some token' =>
      obtain rfl : token = token' := by simpa [hk, hk'] using heq
      exact h.injective hk hk'

theorem singleQuote_notMem_identityToken : ∀ field ∈ identityFieldNames, ∀ i,
    singleQuote ∉ (identityToken field i).toList := by
  intro field hf i
  have hfield : ∀ field ∈ identityFieldNames, singleQuote ∉ field.toList := by decide
  have hfront : singleQuote ∉ identityFront.toList := by decide
  have hcolon : singleQuote ∉ ":".toList := by decide
  have hdigits : singleQuote ∉ i.repr.toList := by
    intro hmem
    rw [Nat.toList_repr] at hmem
    exact absurd (Nat.isDigit_of_mem_toDigits (by norm_num) (by norm_num) hmem) (by decide)
  simp only [identityToken, String.toList_append, mem_append, not_or]
  exact ⟨⟨⟨hfront, hfield field hf⟩, hcolon⟩, hdigits⟩

end Mappings

/-- What rewriting a transaction key does. -/
theorem rewriteKey_cases (m : Dict String String) (s : String) :
    (∃ e rest token, s = transactionKey e rest ∧ m.get? e = some token ∧
      rewriteKey m s = transactionKey token rest) ∨ rewriteKey m s = s := by
  unfold rewriteKey
  cases hmatch : matchTransactionKey s with
  | none => exact .inr rfl
  | some y =>
    obtain ⟨e, rest⟩ := y
    cases hget : m.get? e with
    | none => right; simp only [hget]
    | some token =>
      refine .inl ⟨e, rest, token, (matchTransactionKey_eq_some_iff.1 hmatch).1, hget, ?_⟩
      simp only [hget]

/-! ## Equal after rewriting: one renaming -/

/-- A transaction key of a token. -/
def TokenKey (s : String) : Prop := ∃ token rest, IsToken token ∧ s = transactionKey token rest

/-- Two strings at a reference place are equal, or keys of corresponding identities. -/
def KeysCorrespond (ids : List String) (ρ : String → String) (s t : String) : Prop :=
  s = t ∨ ∃ e ∈ ids, ∃ rest, s = transactionKey e rest ∧ t = transactionKey (ρ e) rest

/-- Two strings correspond under a renaming of identities. -/
def RenamedTo (ids : List String) (ρ : String → String) (p : Place) (s t : String) : Prop :=
  (p.kind = .identity → ρ s = t) ∧
  (p.kind = .reference → ¬ TokenKey s → ¬ TokenKey t → KeysCorrespond ids ρ s t)

section Bijection

variable {reference actual : Value σ} {m m' : Dict String String}

theorem identities_tokenFree (hv : ∀ x ∈ leavesRoot v, ¬ IsToken x.2) : ∀ s ∈ identities v, ¬ IsToken s := by
  intro s hs
  obtain ⟨p, hmem, _⟩ := mem_identities_iff.1 hs
  exact hv _ hmem

/-- Two keys that are rewritten alike are keys of corresponding identities. -/
theorem keysCorrespond_of_rewriteKey (hm : Names reference m) (hm' : Names actual m')
    (hρ : ∀ e ∈ identities reference, ∀ e' ∈ identities actual, m.getD e e = m'.getD e' e' → ρ e = e')
    (h : rewriteKey m s = rewriteKey m' t) (hs : ¬ TokenKey s) (ht : ¬ TokenKey t) :
    KeysCorrespond (identities reference) ρ s t := by
  rcases rewriteKey_cases m s with ⟨e, rest, token, rfl, hget, hkey⟩ | hkey
  · rcases rewriteKey_cases m' t with ⟨e', rest', token', rfl, hget', hkey'⟩ | hkey'
    · obtain ⟨field, hf, i, _, rfl⟩ := hm hget
      obtain ⟨field', hf', i', _, rfl⟩ := hm' hget'
      rw [hkey, hkey'] at h
      obtain ⟨htoken, rfl⟩ := transactionKey_inj (singleQuote_notMem_identityToken field hf i)
        (singleQuote_notMem_identityToken field' hf' i') h
      have he : e ∈ identities reference := hm.mem_identities hget
      have heq : ρ e = e' := hρ e he e' (hm'.mem_identities hget') (by
        rw [getD, getD, hget, hget', Option.getD_some, Option.getD_some, htoken])
      exact .inr ⟨e, he, rest, rfl, by rw [heq]⟩
    · rw [hkey, hkey'] at h
      exact absurd ⟨token, rest, hm.isToken hget, h.symm⟩ ht
  · rcases rewriteKey_cases m' t with ⟨e', rest', token', rfl, hget', hkey'⟩ | hkey'
    · rw [hkey, hkey'] at h
      exact absurd ⟨token', rest', hm'.isToken hget', h⟩ hs
    · rw [hkey, hkey'] at h
      exact .inl h

/-- **Documents that are rewritten to equal ones correspond under one renaming of identities.** -/
theorem exists_bijOn {E : σ → σ → Prop} (hwf : actual.WellFormed) (hm : Names reference m)
    (hm' : Names actual m') (hr : ∀ x ∈ leavesRoot reference, ¬ IsToken x.2)
    (ha : ∀ x ∈ leavesRoot actual, ¬ IsToken x.2)
    (h : CorrRoot E (fun p s t => rewriteString m p s = rewriteString m' p t) reference actual) :
    ∃ ρ : String → String, Set.BijOn ρ { s | s ∈ identities reference } { t | t ∈ identities actual } ∧
      CorrRoot (fun _ _ => True) (RenamedTo (identities reference) ρ) reference actual := by
  have hfree := identities_tokenFree hr
  have hfree' := identities_tokenFree ha
  have hrewrite : ∀ {p : Place} {s t : String}, p.kind = .identity →
      rewriteString m p s = rewriteString m' p t → m.getD s s = m'.getD t t := by
    intro p s t hp heq
    unfold rewriteString at heq
    rwa [hp] at heq
  have hkind : ∀ {p q : Place}, q.field = p.field → p.kind = .identity → q.kind = .identity := by
    intro p q hfield hp
    obtain ⟨f, hf, hpf⟩ := kind_eq_identity_iff.1 hp
    exact kind_eq_identity_iff.2 ⟨f, hf, hfield.trans hpf⟩
  have hmeet := h.meet hwf
  have hright : ∀ s ∈ identities reference, ∃ t ∈ identities actual, m.getD s s = m'.getD t t := by
    intro s hs
    obtain ⟨p, hmem, hp⟩ := mem_identities_iff.1 hs
    obtain ⟨⟨q, t⟩, ht, hfield, heq⟩ := hmeet.1 _ hmem
    exact ⟨t, mem_identities_iff.2 ⟨q, ht, hkind hfield hp⟩, hrewrite hp heq⟩
  have hleft : ∀ t ∈ identities actual, ∃ s ∈ identities reference, m.getD s s = m'.getD t t := by
    intro t ht
    obtain ⟨q, hmem, hq⟩ := mem_identities_iff.1 ht
    obtain ⟨⟨p, s⟩, hs, hfield, heq⟩ := hmeet.2 _ hmem
    have hp := hkind hfield.symm hq
    exact ⟨s, mem_identities_iff.2 ⟨p, hs, hp⟩, hrewrite hp heq⟩
  -- the renaming takes an identity to the one that is rewritten alike
  choose! ρ hρmem hρ using hright
  have hunique : ∀ e ∈ identities reference, ∀ e' ∈ identities actual,
      m.getD e e = m'.getD e' e' → ρ e = e' := by
    intro e he e' he' heq
    exact hm'.getD_inj (hfree' _ (hρmem e he)) (hfree' _ he') ((hρ e he).symm.trans heq)
  refine ⟨ρ, ⟨fun s hs => hρmem s hs, fun s hs s' hs' heq => ?_, fun t ht => ?_⟩, ?_⟩
  · exact hm.getD_inj (hfree _ hs) (hfree _ hs') (by rw [hρ s hs, hρ s' hs', heq])
  · obtain ⟨s, hs, heq⟩ := hleft t ht
    exact ⟨s, hs, hunique s hs t ht heq⟩
  · refine h.imp (fun _ _ _ => trivial) fun p s q t hs ht hfield heq =>
      ⟨fun hp => ?_, fun hp hs' ht' => ?_⟩
    · exact hunique s (mem_identities_iff.2 ⟨p, hs, hp⟩) t
        (mem_identities_iff.2 ⟨q, ht, hkind hfield hp⟩) (hrewrite hp heq)
    · unfold rewriteString at heq
      rw [hp] at heq
      exact keysCorrespond_of_rewriteKey hm hm' hunique heq hs' ht'

end Bijection

/-! ## Renamed documents -/

mutual

/-- Change every string of a tree by its place, keeping lists and tuples. -/
def mapStrings (f : Place → String → String) (p : Place) : Value σ → Value σ
  | .scalar x => .scalar x
  | .str s => .str (f p s)
  | .list items => .list (mapItems f p.item items)
  | .tuple items => .tuple (mapItems f p.item items)
  | .dict entries => .dict (mapEntries f (stateEdge p entries) entries)

/-- `mapStrings` for every item. -/
def mapItems (f : Place → String → String) (p : Place) : List (Value σ) → List (Value σ)
  | [] => []
  | v :: items => mapStrings f p v :: mapItems f p items

/-- `mapStrings` for every entry. -/
def mapEntries (f : Place → String → String) (edge : Bool) : List (String × Value σ) → List (String × Value σ)
  | [] => []
  | (k, v) :: entries => (k, mapStrings f (Place.entry edge k) v) :: mapEntries f edge entries

end

/-- Change every string of a document by its place. -/
def mapRoot (f : Place → String → String) : Value σ → Value σ
  | .list items => .list (mapItems f Place.event items)
  | .tuple items => .tuple (mapItems f Place.event items)
  | v => mapStrings f Place.root v

section MapStrings

variable {f g h : Place → String → String}

theorem mapEntries_eq_map (edge : Bool) : ∀ entries : List (String × Value σ),
    mapEntries f edge entries = entries.map fun e => (e.1, mapStrings f (entry edge e.1) e.2) := by
  intro entries
  induction entries with
  | nil => rfl
  | cons e entries ih => rw [mapEntries, ih, map_cons]

theorem isStateDependency_mapStrings (hf : KeepsKind f) (edge : Bool) (v : Option (Value σ)) :
    isStateDependency (v.map (mapStrings f (entry edge "kind"))) = isStateDependency v := by
  rcases v with _ | v
  · rfl
  · cases v with
    | str s => simp only [Option.map_some, mapStrings, hf edge s]
    | scalar x | list items | tuple items | dict entries => rfl

theorem stateEdge_mapEntries (hf : KeepsKind f) (edge : Bool) (p : Place)
    (entries : List (String × Value σ)) :
    stateEdge p (mapEntries f edge entries) = stateEdge p entries := by
  have hkeys : (mapEntries f edge entries).map Prod.fst = entries.map Prod.fst := by
    rw [mapEntries_eq_map, map_map]
    rfl
  have hlookup : lookup "kind" (mapEntries f edge entries)
      = (lookup "kind" entries).map (mapStrings f (entry edge "kind")) := by
    rw [mapEntries_eq_map]
    exact lookup_map (fun k v => mapStrings f (entry edge k) v) "kind" entries
  unfold stateEdge
  rw [hkeys, hlookup, isStateDependency_mapStrings hf]

/-- The strings of a changed tree are the changed strings, where they were. -/
def mapLeaf (f : Place → String → String) (x : Place × String) : Place × String := (x.1, f x.1 x.2)

theorem leavesItems_mapItems : ∀ {items : List (Value σ)},
    (∀ v ∈ items, leaves p (mapStrings f p v) = (leaves p v).map (mapLeaf f)) →
    leavesItems p (mapItems f p items) = (leavesItems p items).map (mapLeaf f)
  | [], _ => rfl
  | v :: items, ih => by
      rw [mapItems, leavesItems, leavesItems, map_append, ih v mem_cons_self,
        leavesItems_mapItems fun w hw => ih w (mem_cons_of_mem v hw)]

theorem leavesEntries_mapEntries : ∀ {entries : List (String × Value σ)},
    (∀ e ∈ entries, ∀ p, leaves p (mapStrings f p e.2) = (leaves p e.2).map (mapLeaf f)) →
    leavesEntries edge (mapEntries f edge entries) = (leavesEntries edge entries).map (mapLeaf f)
  | [], _ => rfl
  | (k, v) :: entries, ih => by
      rw [mapEntries, leavesEntries, leavesEntries, map_append, ih (k, v) mem_cons_self,
        leavesEntries_mapEntries fun e he => ih e (.tail _ he)]

theorem leaves_mapStrings (hf : KeepsKind f) (v : Value σ) : ∀ p : Place,
    leaves p (mapStrings f p v) = (leaves p v).map (mapLeaf f) := by
  induction v using induct with
  | scalar x | str s => exact fun _ => rfl
  | list items ih | tuple items ih => exact fun p => leavesItems_mapItems fun v hv => ih v hv p.item
  | dict entries ih =>
    intro p
    rw [mapStrings, leaves, stateEdge_mapEntries hf, leaves]
    exact leavesEntries_mapEntries ih

theorem leavesRoot_mapRoot (hf : KeepsKind f) (v : Value σ) :
    leavesRoot (mapRoot f v) = (leavesRoot v).map (mapLeaf f) := by
  cases v with
  | list items | tuple items => exact leavesItems_mapItems fun v _ => leaves_mapStrings hf v _
  | scalar x | str s => rfl
  | dict entries => exact leaves_mapStrings hf (.dict entries) root

theorem visitItems_mapItems : ∀ {items : List (Value σ)},
    (∀ v ∈ items, visit g p (mapStrings f p v) = visit h p v) →
    visitItems g p (mapItems f p items) = visitItems h p items
  | [], _ => rfl
  | v :: items, ih => by
      rw [mapItems, visitItems, visitItems, ih v mem_cons_self,
        visitItems_mapItems fun w hw => ih w (mem_cons_of_mem v hw)]

theorem visitEntries_mapEntries : ∀ {entries : List (String × Value σ)},
    (∀ e ∈ entries, visit g (entry edge e.1) (mapStrings f (entry edge e.1) e.2)
      = visit h (entry edge e.1) e.2) →
    visitEntries g edge (mapEntries f edge entries) = visitEntries h edge entries
  | [], _ => rfl
  | (k, v) :: entries, ih => by
      rw [mapEntries, visitEntries, visitEntries, ih (k, v) mem_cons_self,
        visitEntries_mapEntries fun e he => ih e (.tail _ he)]

theorem visit_mapStrings (hf : KeepsKind f) (v : Value σ) : ∀ p : Place,
    (∀ x ∈ leaves p v, g x.1 (f x.1 x.2) = h x.1 x.2) → visit g p (mapStrings f p v) = visit h p v := by
  induction v using induct with
  | scalar x => exact fun _ _ => rfl
  | str s => exact fun p hx => congrArg str (hx (p, s) (.head _))
  | list items ih | tuple items ih =>
    intro p hx
    refine congrArg list (visitItems_mapItems fun v hv => ih v hv p.item fun x hxv => ?_)
    exact hx x (mem_leavesItems.2 ⟨v, hv, hxv⟩)
  | dict entries ih =>
    intro p hx
    rw [mapStrings, visit, stateEdge_mapEntries hf, visit]
    refine congrArg dict (visitEntries_mapEntries fun e he => ih e he _ fun x hxv => ?_)
    exact hx x (mem_leavesEntries.2 ⟨e, he, hxv⟩)

/-- **Rewriting a changed document as the original is rewritten gives the same.** -/
theorem visitRoot_mapRoot (hf : KeepsKind f) (hx : ∀ x ∈ leavesRoot v, g x.1 (f x.1 x.2) = h x.1 x.2) :
    visitRoot g (mapRoot f v) = visitRoot h v := by
  cases v with
  | list items | tuple items =>
    refine congrArg list (visitItems_mapItems fun v hv => visit_mapStrings hf v _ ?_)
    exact fun x hxv => hx x (mem_leavesItems.2 ⟨v, hv, hxv⟩)
  | scalar x => rfl
  | str s => exact congrArg str (hx (root, s) (.head _))
  | dict entries => exact visit_mapStrings hf (.dict entries) root hx

end MapStrings

/-! ## A renaming makes documents equal -/

/-- Rename the identities at identity places and in transaction keys. -/
def renameString (ids : List String) (ρ : String → String) (p : Place) (s : String) : String :=
  match p.kind with
  | .identity => ρ s
  | .reference =>
      match matchTransactionKey s with
      | none => s
      | some (e, rest) => if e ∈ ids then transactionKey (ρ e) rest else s
  | .plain => s

/-- A document with its identities renamed. -/
def rename (ρ : String → String) (v : Value σ) : Value σ :=
  mapRoot (renameString (identities v) ρ) v

/-- A renaming that transaction keys can follow: injective, to identities a key can hold, and never to the
execution of a key that is not renamed. -/
structure Renaming (ρ : String → String) (v : Value σ) : Prop where
  injOn : Set.InjOn ρ { s | s ∈ identities v }
  uuid : ∀ x ∈ leavesRoot v, x.1.kind = .reference → ∀ {e rest},
    matchTransactionKey x.2 = some (e, rest) → e ∈ identities v → isUuid (ρ e) = true
  apart : ∀ x ∈ leavesRoot v, x.1.kind = .reference → ∀ {e rest},
    matchTransactionKey x.2 = some (e, rest) → e ∉ identities v → ∀ s ∈ identities v, ρ s ≠ e

section Rename

variable {reference : Value σ} {ρ : String → String}

theorem keepsKind_renameString (ids : List String) (ρ : String → String) :
    KeepsKind (renameString ids ρ) := by
  intro edge s
  have hkind : (entry edge "kind").kind = .plain := by cases edge <;> decide
  unfold renameString
  rw [hkind]

theorem stringsUnder_rename (hf : field ∈ identityFieldNames) :
    stringsUnder field (rename ρ reference) = (stringsUnder field reference).map ρ := by
  unfold stringsUnder rename
  rw [leavesRoot_mapRoot (keepsKind_renameString _ _), filter_map, map_map, map_map]
  refine map_congr_left fun x hx => ?_
  have hfield : x.1.field = some field := of_decide_eq_true (mem_filter.1 hx).2
  have hkind : x.1.kind = .identity := kind_eq_identity_iff.2 ⟨field, hf, hfield⟩
  simp only [Function.comp_apply, mapLeaf, renameString, hkind]

section

variable (hρ : Set.InjOn ρ { s | s ∈ identities reference })

include hρ

theorem injOn_stringsUnder
    (hf : field ∈ identityFieldNames) : Set.InjOn ρ { s | s ∈ stringsUnder field reference } :=
  hρ.mono fun _ hs => mem_identities_iff_stringsUnder.2 ⟨field, hf, hs⟩

theorem firsts_stringsUnder_rename (hf : field ∈ identityFieldNames) :
    firsts (stringsUnder field (rename ρ reference))
      = (firsts (stringsUnder field reference)).map ρ := by
  rw [stringsUnder_rename hf, firsts_map (injOn_stringsUnder hρ hf)]

/-- A renamed identity is mapped as the identity is. -/
theorem get?_actual_rename (hs : s ∈ identities reference) :
    (declaredIdentityMappings reference (rename ρ reference)).actual.get? (ρ s)
      = (declaredIdentityMappings reference (rename ρ reference)).reference.get? s := by
  -- outside the identity fields the values do not matter, and there they may be no identities
  let values : String → List String := fun field =>
    if field ∈ identityFieldNames then firsts (stringsUnder field reference) else []
  have hvalues : ∀ field ∈ identityFieldNames, firsts (stringsUnder field reference) = values field :=
    fun field hf => (if_pos hf).symm
  have hvalues' : ∀ field ∈ identityFieldNames,
      firsts (stringsUnder field (rename ρ reference)) = (values field).map ρ := fun field hf => by
    rw [firsts_stringsUnder_rename hρ hf, hvalues field hf]
  rw [actual_declaredIdentityMappings, reference_declaredIdentityMappings,
    side_congr _ _ _ _ hvalues', side_congr _ _ values _ hvalues]
  refine get?_side_map hρ (fun field => ?_) (fun field t ht => ?_) (fun _ _ => rfl) s hs
  · simp only [values]
    split_ifs
    · exact nodup_firsts _
    · exact nodup_nil
  · simp only [values] at ht
    split_ifs at ht with hf
    · exact mem_identities_iff_stringsUnder.2 ⟨field, hf, mem_firsts.1 ht⟩
    · cases ht

/-- Every identity of a document is mapped when the other is a renaming of it. -/
theorem isSome_reference_rename (hs : s ∈ identities reference) :
    ((declaredIdentityMappings reference (rename ρ reference)).reference.get? s).isSome := by
  obtain ⟨field, hf, hs⟩ := mem_identities_iff_stringsUnder.1 hs
  rw [reference_declaredIdentityMappings]
  refine isSome_side (fun field => nodup_firsts _) (.inr ⟨field, hf, ?_, mem_firsts.2 hs⟩)
  unfold Unpaired skipped
  rw [getD_declaredIdentityValues hf, getD_declaredIdentityValues hf,
    firsts_stringsUnder_rename hρ hf, length_map]
  rintro (hnil | hlen)
  · have := mem_firsts.2 hs
    rw [hnil] at this
    cases this
  · exact hlen rfl

end

theorem mem_identities_rename (ht : t ∈ identities (rename ρ reference)) :
    ∃ s ∈ identities reference, ρ s = t := by
  obtain ⟨field, hf, ht⟩ := mem_identities_iff_stringsUnder.1 ht
  rw [stringsUnder_rename hf] at ht
  obtain ⟨s, hs, rfl⟩ := mem_map.1 ht
  exact ⟨s, mem_identities_iff_stringsUnder.2 ⟨field, hf, hs⟩, rfl⟩

theorem get?_eq_none_of_notMem {m : Dict String String} (h : Names v m) (hs : s ∉ identities v) :
    m.get? s = none := by
  cases hget : m.get? s with
  | none => rfl
  | some token => exact absurd (h.mem_identities hget) hs

/-- A renamed transaction key is rewritten as the key is. -/
theorem rewriteKey_rename (hρ : Renaming ρ reference) (hx : (p, s) ∈ leavesRoot reference)
    (hp : p.kind = .reference) :
    rewriteKey (declaredIdentityMappings reference (rename ρ reference)).actual
        (renameString (identities reference) ρ p s)
      = rewriteKey (declaredIdentityMappings reference (rename ρ reference)).reference s := by
  unfold renameString
  rw [hp]
  cases hmatch : matchTransactionKey s with
  | none => simp only [rewriteKey, hmatch]
  | some y =>
    obtain ⟨e, rest⟩ := y
    simp only
    split_ifs with he
    · obtain ⟨rfl, _, hline⟩ := matchTransactionKey_eq_some_iff.1 hmatch
      have hmatch' : matchTransactionKey (transactionKey (ρ e) rest) = some (ρ e, rest) :=
        matchTransactionKey_eq_some_iff.2 ⟨rfl, hρ.uuid _ hx hp hmatch he, hline⟩
      obtain ⟨token, htoken⟩ := Option.isSome_iff_exists.1 (isSome_reference_rename hρ.injOn he)
      have htoken' := (get?_actual_rename hρ.injOn he).trans htoken
      simp only [rewriteKey, hmatch, hmatch', htoken, htoken']
    · have hnone := get?_eq_none_of_notMem (names_reference reference (rename ρ reference)) he
      have hrenamed : e ∉ identities (rename ρ reference) := by
        intro hmem
        obtain ⟨t, ht, hte⟩ := mem_identities_rename hmem
        exact hρ.apart _ hx hp hmatch he t ht hte
      have hnone' := get?_eq_none_of_notMem (names_actual reference (rename ρ reference)) hrenamed
      simp only [rewriteKey, hmatch, hnone, hnone']

/-- **A renamed document is rewritten to the same document.** -/
theorem normalize_rename (hρ : Renaming ρ reference) :
    normalizeWithMapping (rename ρ reference) (declaredIdentityMappings reference (rename ρ reference)).actual
      = normalizeWithMapping reference
        (declaredIdentityMappings reference (rename ρ reference)).reference := by
  refine visitRoot_mapRoot (keepsKind_renameString _ _) fun x hx => ?_
  unfold rewriteString
  cases hkind : x.1.kind with
  | plain => simp only [renameString, hkind]
  | reference => exact rewriteKey_rename hρ hx hkind
  | identity =>
    have hs : x.2 ∈ identities reference := mem_identities_iff.2 ⟨x.1, hx, hkind⟩
    obtain ⟨token, htoken⟩ := Option.isSome_iff_exists.1 (isSome_reference_rename hρ.injOn hs)
    have htoken' := (get?_actual_rename hρ.injOn hs).trans htoken
    simp only [renameString, hkind, getD, htoken, htoken', Option.getD_some]

end Rename

/-- **Derived identity mappings are a consistent renaming**: they are injective; documents rewritten to
equal ones correspond under one bijection of their identities; and a renaming that the keys follow is
rewritten away. -/
theorem declared_identities_renamed (reference actual : Document σ)
    (hr : ∀ x ∈ leavesRoot reference.1, ¬ IsToken x.2) (ha : ∀ x ∈ leavesRoot actual.1, ¬ IsToken x.2) :
    (∀ k k' token, (declaredIdentityMappings reference.1 actual.1).reference.get? k = some token →
      (declaredIdentityMappings reference.1 actual.1).reference.get? k' = some token → k = k') ∧
    (∀ k k' token, (declaredIdentityMappings reference.1 actual.1).actual.get? k = some token →
      (declaredIdentityMappings reference.1 actual.1).actual.get? k' = some token → k = k') ∧
    (∀ E : σ → σ → Prop, Value.Equal E
        (normalizeWithMapping reference.1 (declaredIdentityMappings reference.1 actual.1).reference)
        (normalizeWithMapping actual.1 (declaredIdentityMappings reference.1 actual.1).actual) →
      ∃ ρ : String → String, Set.BijOn ρ { s | s ∈ identities reference.1 } { t | t ∈ identities actual.1 } ∧
        CorrRoot (fun _ _ => True) (RenamedTo (identities reference.1) ρ) reference.1 actual.1) ∧
    (∀ ρ : String → String, Renaming ρ reference.1 → actual.1 = rename ρ reference.1 →
      normalizeWithMapping actual.1 (declaredIdentityMappings reference.1 actual.1).actual
        = normalizeWithMapping reference.1
            (declaredIdentityMappings reference.1 actual.1).reference) := by
  refine ⟨fun _ _ _ => Names.injective (names_reference _ _),
    fun _ _ _ => Names.injective (names_actual _ _), fun E h => ?_, fun ρ hρ heq => ?_⟩
  · have hcorr := (equal_visitRoot_iff (keepsKind_rewriteString _) (keepsKind_rewriteString _) _ _).mp h
    exact exists_bijOn actual.2 (names_reference _ _) (names_actual _ _) hr ha hcorr
  · rw [heq]
    exact normalize_rename hρ

theorem kind_executionRecord : ∀ x ∈ leavesRoot (executionRecord (uuidOf '0')).1, x.1.kind ≠ .reference := by
  decide

theorem identities_executionRecord : identities (executionRecord (uuidOf '0')).1 = [uuidOf '0'] := by
  decide

/-- A record of one run keeps no transaction key, so every renaming of its identity is one. -/
theorem renaming_executionRecord : Renaming (fun _ => uuidOf '1') (executionRecord (uuidOf '0')).1 where
  injOn := by
    intro s hs t ht _
    rw [identities_executionRecord] at hs ht
    exact (mem_singleton.1 hs).trans (mem_singleton.1 ht).symm
  uuid x hx hkind := absurd hkind (kind_executionRecord x hx)
  apart x hx hkind := absurd hkind (kind_executionRecord x hx)

/-- The record of a run with its identity renamed is rewritten as the record is. -/
theorem rename_executionRecord :
    normalizeWithMapping (executionRecord (uuidOf '1')).1 (declaredIdentityMappings
        (executionRecord (uuidOf '0')).1 (executionRecord (uuidOf '1')).1).actual
      = normalizeWithMapping (executionRecord (uuidOf '0')).1 (declaredIdentityMappings
        (executionRecord (uuidOf '0')).1 (executionRecord (uuidOf '1')).1).reference :=
  (declared_identities_renamed (executionRecord (uuidOf '0')) (executionRecord (uuidOf '1'))
    (by decide) (by decide)).2.2.2 _ renaming_executionRecord
      (by
        unfold rename
        have hkind : (Place.entry false "execution").kind = .identity := by decide
        simp [executionRecord, mapRoot, mapItems, mapStrings, mapEntries, stateEdge, Place.event,
          isStateDependency, Dict.lookup, renameString, hkind])

/-- A record that names its execution and a writer of that execution. -/
def writerRecord (execution writer : String) : Document (Scalar Unit) :=
  ⟨.list [.dict [("execution", .str execution), ("writer_event_id", .str (transactionKey writer "x"))]],
    by simp [Value.WellFormed, Value.WellFormedItems, Value.WellFormedEntries]⟩

/-- Rename the strings at identity places only. -/
def renameIdentityPlaces (ρ : String → String) (v : Value σ) : Value σ :=
  mapRoot (fun p s => if p.kind = .identity then ρ s else s) v

/-- **A transaction key does not follow a renaming of the identity fields.** -/
theorem renamed_identity_leaves_key :
    Function.Injective (Equiv.swap (uuidOf '0') (uuidOf '1')) ∧
    (∀ x ∈ leavesRoot (writerRecord (uuidOf '0') (uuidOf '0')).1, ¬ IsToken x.2) ∧
    (∀ x ∈ leavesRoot (writerRecord (uuidOf '1') (uuidOf '0')).1, ¬ IsToken x.2) ∧
    (writerRecord (uuidOf '1') (uuidOf '0')).1 = renameIdentityPlaces
      (Equiv.swap (uuidOf '0') (uuidOf '1')) (writerRecord (uuidOf '0') (uuidOf '0')).1 ∧
    normalizeWithMapping (writerRecord (uuidOf '0') (uuidOf '0')).1
        (declaredIdentityMappings (writerRecord (uuidOf '0') (uuidOf '0')).1
          (writerRecord (uuidOf '1') (uuidOf '0')).1).reference
      ≠ normalizeWithMapping (writerRecord (uuidOf '1') (uuidOf '0')).1
        (declaredIdentityMappings (writerRecord (uuidOf '0') (uuidOf '0')).1
          (writerRecord (uuidOf '1') (uuidOf '0')).1).actual := by
  refine ⟨(Equiv.swap _ _).injective, by decide, by decide, ?_, fun h => ?_⟩
  · have hkind : (Place.entry false "execution").kind = .identity := by decide
    have hkind' : (Place.entry false "writer_event_id").kind = .reference := by decide
    simp [writerRecord, renameIdentityPlaces, mapRoot, mapItems, mapStrings, mapEntries, stateEdge,
      Place.event, isStateDependency, Dict.lookup, hkind, hkind']
  · exact absurd (congrArg leavesRoot h) (by decide)

end Replay

end MyFuzz
