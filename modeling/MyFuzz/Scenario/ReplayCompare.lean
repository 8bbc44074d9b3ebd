import MyFuzz.Foundations.Repr
import MyFuzz.Scenario.ReplayWalk

/-!
# Scenario/ReplayCompare — what a replay comparison ignores

`diff` finds no difference exactly between equal trees (`diff_eq_none_iff`), so two runs compare
equal exactly when their documents correspond under the two rewrites.  `Agrees` says what that comes
to for a pair of strings: at a declared position the two name executions of the same role, or neither
names one of its own run and they are equal; anywhere else they are equal.
-/

namespace MyFuzz

namespace Replay

open Outcome Dict

open List hiding getD lookup lookup_eq_none_iff

variable {α : Type} {l : List Char} {rest s id role t : String}
  {executionIds : Dict String (Option String)} {mapping : Dict String String}

/-! ## Differences -/

section Diff

variable {φ : Type} [BEq φ]

/-- Scalars of one type that are equal. -/
def SameScalar (x y : Scalar φ) : Prop := x.same y = true

theorem typeName_eq_of_same {x y : Scalar φ} (h : SameScalar x y) :
    typeName (.scalar x) = typeName (.scalar y) := by
  cases x <;> cases y <;> first | rfl | exact absurd h (by simp [SameScalar, Scalar.same])

theorem lacking_eq_nil_iff {σ : Type} {ls rs : List (String × Value σ)} :
    lacking ls rs = [] ↔ ∀ k ∈ ls.map Prod.fst, k ∈ rs.map Prod.fst := by
  unfold lacking
  rw [← length_eq_zero_iff, length_insertionSort, length_eq_zero_iff, filter_eq_nil_iff]
  refine forall₂_congr fun k _ => ?_
  simp

theorem firstFound_eq_none_iff {found : List (String × α)} : firstFound found = none ↔ found = [] := by
  unfold firstFound
  constructor
  · intro h
    rw [Option.bind_eq_none_iff] at h
    cases hhead : ((found.map Prod.fst).insertionSort (· ≤ ·)).head? with
    | none =>
      have hnil := congrArg List.length (head?_eq_none_iff.1 hhead)
      rw [length_insertionSort, length_map, length_nil] at hnil
      exact length_eq_zero_iff.1 hnil
    | some k =>
      have hmem := mem_of_mem_head? hhead
      rw [(perm_insertionSort _ _).mem_iff] at hmem
      exact absurd hmem (lookup_eq_none_iff.1 (h k hhead))
  · rintro rfl
    rfl

theorem diffEntries_eq_nil_iff {rs : List (String × Value (Scalar φ))} {path : List PathStep} :
    ∀ {ls : List (String × Value (Scalar φ))}, diffEntries ls rs path = [] ↔
      ∀ e ∈ ls, ∀ w, lookup e.1 rs = some w → diff e.2 w (path ++ [.key e.1]) = none
  | [] => by simp [diffEntries]
  | (k, v) :: ls => by
      rw [diffEntries, forall_mem_cons, ← @diffEntries_eq_nil_iff rs path ls]
      cases hw : lookup k rs with
      | none => simp
      | some w => cases hd : diff v w (path ++ [.key k]) <;> simp [hd]

theorem diffItems_eq_none_iff (path : List PathStep) : ∀ {ls rs : List (Value (Scalar φ))} {i : ℕ},
    ls.length = rs.length → (∀ v ∈ ls, ∀ w path, diff v w path = none ↔ Value.Equal SameScalar v w) →
    (diffItems ls rs path i = none ↔ Value.EqualItems SameScalar ls rs)
  | [], [], _, _, _ => by simp [diffItems, Value.EqualItems]
  | [], _ :: _, _, h, _ => nomatch h
  | _ :: _, [], _, h, _ => nomatch h
  | v :: ls, w :: rs, i, hlen, ih => by
      have hv := ih v mem_cons_self w (path ++ [.index i])
      rw [diffItems, Value.EqualItems, ← hv, ← diffItems_eq_none_iff path (i := i + 1) (Nat.succ.inj hlen)
          fun v' hv' => ih v' (mem_cons_of_mem v hv')]
      cases hd : diff v w (path ++ [.index i]) <;> simp

/-- **No difference is found exactly between equal trees.** -/
theorem diff_eq_none_iff (l : Value (Scalar φ)) : ∀ (r : Value (Scalar φ)) (path : List PathStep),
    diff l r path = none ↔ Value.Equal SameScalar l r := by
  induction l using Value.induct with
  | scalar x =>
    intro r path
    cases r with
    | scalar y =>
      rw [diff, Value.Equal]
      split_ifs with ht hs
      · exact ⟨fun h => h.elim, fun h => absurd (typeName_eq_of_same h) ht⟩
      · exact ⟨fun _ => hs, fun _ => rfl⟩
      · exact ⟨fun h => h.elim, fun h => absurd h hs⟩
    | str s | list rs | tuple rs | dict rs => simp [diff, Value.Equal]
  | str s => intro r path; cases r <;> simp [diff, Value.Equal]
  | list ls ih =>
    intro r path
    cases r with
    | list rs =>
      rw [diff, Value.Equal]
      split_ifs with hlen
      · exact ⟨fun h => h.elim, fun h => absurd (Value.equalItems_iff.1 h).length_eq hlen⟩
      · exact diffItems_eq_none_iff path (not_not.1 hlen) ih
    | scalar x | str s | tuple rs | dict rs => simp [diff, Value.Equal]
  | tuple ls ih =>
    intro r path
    cases r with
    | tuple rs =>
      rw [diff, Value.Equal]
      split_ifs with hlen
      · exact ⟨fun h => h.elim, fun h => absurd (Value.equalItems_iff.1 h).length_eq hlen⟩
      · exact diffItems_eq_none_iff path (not_not.1 hlen) ih
    | scalar x | str s | list rs | dict rs => simp [diff, Value.Equal]
  | dict ls ih =>
    intro r path
    cases r with
    | dict rs =>
      rw [diff, Value.Equal]
      constructor
      · intro h
        cases hmissing : lacking ls rs with
        | cons k ks => rw [hmissing] at h; cases h
        | nil =>
          cases hextra : lacking rs ls with
          | cons k ks => rw [hmissing, hextra] at h; cases h
          | nil =>
            rw [hmissing, hextra] at h
            have hsub := lacking_eq_nil_iff.1 hmissing
            have hfound := diffEntries_eq_nil_iff.1 (firstFound_eq_none_iff.1 h)
            refine ⟨fun k => ⟨hsub k, lacking_eq_nil_iff.1 hextra k⟩, ?_⟩
            refine Value.equalEntries_iff.2 fun e he => ?_
            have hkey : e.1 ∈ rs.map Prod.fst := hsub e.1 (mem_map_of_mem he)
            obtain ⟨w, hw⟩ := Option.ne_none_iff_exists'.1
              (mt lookup_eq_none_iff.1 (not_not.2 hkey))
            exact ⟨w, hw, (ih e he w _).1 (hfound e he w hw)⟩
      · rintro ⟨hkeys, hentries⟩
        rw [lacking_eq_nil_iff.2 fun k => (hkeys k).1, lacking_eq_nil_iff.2 fun k => (hkeys k).2]
        refine firstFound_eq_none_iff.2 (diffEntries_eq_nil_iff.2 fun e he w hw => ?_)
        obtain ⟨w', hw', heq⟩ := Value.equalEntries_iff.1 hentries e he
        cases hw.symm.trans hw'
        exact (ih e he w _).2 heq
    | scalar x | str s | list rs | tuple rs => simp [diff, Value.Equal]

end Diff

/-! ## Transaction keys -/

theorem stripFront_eq_some_iff {front l' : List Char} : stripFront front l = some l' ↔ l = front ++ l' := by
  unfold stripFront
  split_ifs with h
  · obtain ⟨t, rfl⟩ := isPrefixOf_iff_prefix.1 h
    simp
  · refine ⟨fun h' => (nomatch h'), ?_⟩
    rintro rfl
    exact absurd (List.isPrefixOf_iff_prefix.2 (prefix_append _ _)) h

theorem closeKey_eq_some_iff : closeKey l = some rest ↔ l = rest.toList ++ [')'] ∧ '\n' ∉ rest.toList := by
  unfold closeKey
  constructor
  · intro h
    split_ifs at h with hl
    cases h
    rw [String.toList_ofList]
    exact ⟨(dropLast_append_getLast? ')' hl.1).symm, hl.2⟩
  · rintro ⟨rfl, hrest⟩
    rw [if_pos (by simpa using hrest)]
    simp

theorem toList_transactionKey (execution rest : String) : (transactionKey execution rest).toList
    = keyFront.toList
      ++ (execution.toList ++ (keyMiddle.toList ++ (rest.toList ++ [')']))) := by
  simp [transactionKey]

/-- **What the key pattern matches.** -/
theorem matchTransactionKey_eq_some_iff {execution : String} :
    matchTransactionKey s = some (execution, rest) ↔
      s = transactionKey execution rest ∧ isUuid execution = true ∧ '\n' ∉ rest.toList := by
  constructor
  · intro h
    obtain ⟨l, hl, h⟩ := Option.bind_eq_some_iff.1 h
    split_ifs at h with huuid
    obtain ⟨tail, htail, h⟩ := Option.bind_eq_some_iff.1 h
    obtain ⟨rest', hrest, h⟩ := Option.bind_eq_some_iff.1 h
    cases Option.some.inj h
    obtain ⟨rfl, hline⟩ := closeKey_eq_some_iff.1 hrest
    refine ⟨?_, huuid, hline⟩
    rw [← String.toList_inj, toList_transactionKey, String.toList_ofList,
      stripFront_eq_some_iff.1 hl, ← stripFront_eq_some_iff.1 htail, take_append_drop]
  · rintro ⟨rfl, huuid, hline⟩
    have hlen : execution.toList.length = 32 := by
      simp only [isUuid, Bool.and_eq_true, decide_eq_true_eq] at huuid
      exact huuid.1
    have htake : (execution.toList ++ (keyMiddle.toList ++ (rest.toList ++ [')']))).take 32
        = execution.toList := by rw [← hlen, take_left]
    have hdrop : (execution.toList ++ (keyMiddle.toList ++ (rest.toList ++ [')']))).drop 32
        = keyMiddle.toList ++ (rest.toList ++ [')']) := by rw [← hlen, drop_left]
    refine Option.bind_eq_some_iff.2
      ⟨_, stripFront_eq_some_iff.2 (toList_transactionKey execution rest), ?_⟩
    rw [htake, hdrop, String.ofList_toList, if_pos huuid]
    refine Option.bind_eq_some_iff.2 ⟨_, stripFront_eq_some_iff.2 rfl, ?_⟩
    exact Option.bind_eq_some_iff.2 ⟨rest, closeKey_eq_some_iff.2 ⟨rfl, hline⟩, rfl⟩

/-- The execution of a key ends at the first quote. -/
theorem transactionKey_inj {e e' rest' : String} (he : Repr.singleQuote ∉ e.toList)
    (he' : Repr.singleQuote ∉ e'.toList) (h : transactionKey e rest = transactionKey e' rest') :
    e = e' ∧ rest = rest' := by
  have hlist := congrArg String.toList h
  rw [toList_transactionKey, toList_transactionKey] at hlist
  have hquote : keyMiddle.toList = Repr.singleQuote :: [',', ' '] := by decide
  have hlist := append_cancel_left hlist
  rw [hquote, cons_append, cons_append] at hlist
  obtain ⟨hexec, hrest⟩ := Repr.append_cons_inj he he' hlist
  refine ⟨String.toList_inj.1 hexec, String.toList_inj.1 ?_⟩
  exact append_cancel_right (List.cons.inj (List.cons.inj hrest).2).2

/-! ## Execution identities -/

/-- A role was issued an identity. -/
def Issued (executionIds : Dict String (Option String)) (id role : String) : Prop :=
  executionIds.get? role = some (some id)

theorem mem_issued_iff : (role, id) ∈ issued executionIds ↔ Issued executionIds id role := by
  unfold issued Issued
  rw [mem_filterMap, ← mem_entries_iff]
  constructor
  · rintro ⟨⟨role', value⟩, hmem, h⟩
    obtain ⟨id', rfl, h⟩ := Option.map_eq_some_iff.1 h
    cases h
    exact hmem
  · exact fun h => ⟨_, h, rfl⟩

/-- What a mapping made of checked identities is. -/
structure Validated (executionIds : Dict String (Option String)) (mapping : Dict String String) : Prop where
  get?_iff : ∀ {id token}, mapping.get? id = some token ↔
    ∃ role, Issued executionIds id role ∧ token = executionToken role
  role_mem : ∀ {id role}, Issued executionIds id role → role ∈ executionRoles
  uuid : ∀ {id role}, Issued executionIds id role → isUuid id = true

theorem validated_of_ok (h : validateIds executionRoles executionIds = .ok mapping) :
    Validated executionIds mapping := by
  obtain ⟨hroles, ⟨hnodup, huuid⟩, h⟩ := ensure_ok₂ h
  cases h
  have hkeys : (((issued executionIds).map fun p => (p.2, executionToken p.1)).map Prod.fst).Nodup := by
    rw [map_map]
    exact hnodup
  refine ⟨fun {id token} => ?_, fun {id role} hid => ?_, fun {id role} hid => ?_⟩
  · rw [get?_update hkeys, get?_empty, Option.or_none]
    constructor
    · intro hlookup
      obtain ⟨⟨role, id'⟩, hmem, heq⟩ := mem_map.1 (mem_of_lookup_eq_some hlookup)
      cases heq
      exact ⟨role, mem_issued_iff.1 hmem, rfl⟩
    · rintro ⟨role, hid, rfl⟩
      refine lookup_eq_some_of_mem hkeys (mem_map.2 ⟨(role, id), ?_, rfl⟩)
      exact mem_issued_iff.2 hid
  · exact hroles.1 role (mem_keys_iff.2 (by rw [hid]; rfl))
  · exact huuid _ (mem_issued_iff.2 hid)

/-! ## What two strings name -/

/-- A string is a transaction key of an issued execution: the role and the rest of the key. -/
def NamesKey (executionIds : Dict String (Option String)) (s : String) (x : String × String) : Prop :=
  ∃ execution, Issued executionIds execution x.1 ∧ '\n' ∉ x.2.toList ∧ s = transactionKey execution x.2

/-- Two strings name the same thing on their sides, or neither names one and they are equal. -/
def SameName {α : Type} (N N' : String → α → Prop) (s t : String) : Prop :=
  (∃ x, N s x ∧ N' t x) ∨ ((¬ ∃ x, N s x) ∧ (¬ ∃ x, N' t x) ∧ s = t)

/-- Two strings at a place agree. -/
def Agrees (referenceIds actualIds : Dict String (Option String)) (p : Place) (s t : String) : Prop :=
  match p.kind with
  | .identity => SameName (Issued referenceIds) (Issued actualIds) s t
  | .reference => SameName (NamesKey referenceIds) (NamesKey actualIds) s t
  | .plain => s = t

/-- A string has the form rewriting gives: a token, or a transaction key of one. -/
def TokenForm (s : String) : Prop :=
  ∃ role ∈ executionRoles, s = executionToken role ∨ ∃ rest, s = transactionKey (executionToken role) rest

/-- No string of a document has the form rewriting gives. -/
def TokenFree {σ : Type} (v : Value σ) : Prop := ∀ x ∈ leavesRoot v, ¬ TokenForm x.2

/-- **Two rewrites agree on two strings exactly when these name the same thing.**  A rewrite replaces
a string that names `x` by `rebuild x` and keeps any other. -/
theorem rewrite_eq_iff {N N' : String → α → Prop} {rebuild : α → String} {f g : String → String}
    (hf : ∀ {x}, N s x → f s = rebuild x) (hf' : (¬ ∃ x, N s x) → f s = s)
    (hg : ∀ {x}, N' t x → g t = rebuild x) (hg' : (¬ ∃ x, N' t x) → g t = t)
    (hinj : ∀ {x y}, N s x → N' t y → rebuild x = rebuild y → x = y)
    (hs : ∀ {y}, N' t y → rebuild y ≠ s) (ht : ∀ {x}, N s x → rebuild x ≠ t) :
    f s = g t ↔ SameName N N' s t := by
  by_cases hN : ∃ x, N s x
  · obtain ⟨x, hx⟩ := hN
    rw [hf hx]
    by_cases hN' : ∃ y, N' t y
    · obtain ⟨y, hy⟩ := hN'
      rw [hg hy]
      constructor
      · intro h
        obtain rfl := hinj hx hy h
        exact .inl ⟨x, hx, hy⟩
      · rintro (⟨z, hz, hz'⟩ | ⟨hnot, _⟩)
        · rw [← hf hx, ← hg hy, hf hz, hg hz']
        · exact absurd ⟨x, hx⟩ hnot
    · rw [hg' hN']
      refine ⟨fun h => absurd h (ht hx), ?_⟩
      rintro (⟨z, _, hz'⟩ | ⟨hnot, _⟩)
      · exact absurd ⟨z, hz'⟩ hN'
      · exact absurd ⟨x, hx⟩ hnot
  · rw [hf' hN]
    by_cases hN' : ∃ y, N' t y
    · obtain ⟨y, hy⟩ := hN'
      rw [hg hy]
      refine ⟨fun h => absurd h.symm (hs hy), ?_⟩
      rintro (⟨z, hz, _⟩ | ⟨_, hnot, _⟩)
      · exact absurd ⟨z, hz⟩ hN
      · exact absurd ⟨y, hy⟩ hnot
    · rw [hg' hN']
      constructor
      · exact fun h => .inr ⟨hN, hN', h⟩
      · rintro (⟨z, hz, _⟩ | ⟨_, _, h⟩)
        · exact absurd ⟨z, hz⟩ hN
        · exact h

section Leaf

variable {executionIds executionIds' : Dict String (Option String)} {mapping mapping' : Dict String String}

theorem executionToken_inj {role' : String} (h : executionToken role = executionToken role') :
    role = role' := by
  have hlist := congrArg String.toList h
  simp only [executionToken, String.toList_append] at hlist
  exact String.toList_inj.1 (append_cancel_left hlist)

section

variable (h : Validated executionIds mapping)

include h

theorem Validated.getD_of_issued
    (hid : Issued executionIds id role) : mapping.getD id id = executionToken role := by
  rw [getD, h.get?_iff.2 ⟨role, hid, rfl⟩, Option.getD_some]

theorem Validated.get?_of_not
    (hid : ¬ ∃ role, Issued executionIds id role) : mapping.get? id = none := by
  cases hget : mapping.get? id with
  | none => rfl
  | some token =>
    obtain ⟨role, hrole, _⟩ := h.get?_iff.1 hget
    exact absurd ⟨role, hrole⟩ hid

theorem Validated.rewriteKey_of_names {x : String × String}
    (hs : NamesKey executionIds s x) :
    rewriteKey mapping s = transactionKey (executionToken x.1) x.2 := by
  obtain ⟨execution, hid, hline, rfl⟩ := hs
  unfold rewriteKey
  rw [matchTransactionKey_eq_some_iff.2 ⟨rfl, h.uuid hid, hline⟩]
  simp only [h.get?_iff.2 ⟨x.1, hid, rfl⟩]

theorem Validated.rewriteKey_of_not
    (hs : ¬ ∃ x, NamesKey executionIds s x) : rewriteKey mapping s = s := by
  unfold rewriteKey
  cases hmatch : matchTransactionKey s with
  | none => rfl
  | some y =>
    obtain ⟨execution, rest⟩ := y
    obtain ⟨rfl, _, hline⟩ := matchTransactionKey_eq_some_iff.1 hmatch
    have hnot : ¬ ∃ role, Issued executionIds execution role := fun ⟨role, hid⟩ =>
      hs ⟨(role, rest), execution, hid, hline, rfl⟩
    simp only [h.get?_of_not hnot]

end

theorem singleQuote_notMem_token : ∀ role ∈ executionRoles,
    Repr.singleQuote ∉ (executionToken role).toList := by
  decide

/-- **Rewriting makes two strings equal exactly when they agree.** -/
theorem rewriteString_eq_iff (h : Validated executionIds mapping)
    (h' : Validated executionIds' mapping') {p : Place} (hs : ¬ TokenForm s) (ht : ¬ TokenForm t) :
    rewriteString mapping p s = rewriteString mapping' p t ↔ Agrees executionIds executionIds' p s t := by
  unfold rewriteString Agrees
  cases p.kind with
  | plain => exact Iff.rfl
  | identity =>
    exact rewrite_eq_iff (f := fun s => mapping.getD s s) (g := fun s => mapping'.getD s s)
      h.getD_of_issued (fun hid => by rw [getD, h.get?_of_not hid]; rfl)
      h'.getD_of_issued (fun hid => by rw [getD, h'.get?_of_not hid]; rfl)
      (fun _ _ => executionToken_inj)
      (fun {role} hid heq => hs ⟨role, h'.role_mem hid, .inl heq.symm⟩)
      (fun {role} hid heq => ht ⟨role, h.role_mem hid, .inl heq.symm⟩)
  | reference =>
    refine rewrite_eq_iff (f := rewriteKey mapping) (g := rewriteKey mapping') h.rewriteKey_of_names
      h.rewriteKey_of_not h'.rewriteKey_of_names h'.rewriteKey_of_not ?_ ?_ ?_
    · rintro ⟨role, rest⟩ ⟨role', rest'⟩ ⟨e, hid, _⟩ ⟨e', hid', _⟩ heq
      obtain ⟨htoken, rfl⟩ := transactionKey_inj (singleQuote_notMem_token role (h.role_mem hid))
        (singleQuote_notMem_token role' (h'.role_mem hid')) heq
      rw [executionToken_inj htoken]
    · rintro ⟨role, rest⟩ ⟨e, hid, _⟩ heq
      exact hs ⟨role, h'.role_mem hid, .inr ⟨rest, heq.symm⟩⟩
    · rintro ⟨role, rest⟩ ⟨e, hid, _⟩ heq
      exact ht ⟨role, h.role_mem hid, .inr ⟨rest, heq.symm⟩⟩

end Leaf

theorem keepsKind_rewriteString (mapping : Dict String String) : KeepsKind (rewriteString mapping) := by
  intro edge s
  have hkind : (Place.entry edge "kind").kind = .plain := by cases edge <;> decide
  unfold rewriteString
  rw [hkind]

/-! ## Comparing two runs -/

section Runs

variable {φ : Type} [BEq φ]

theorem firstReplayDifference_of_ok {reference actual : Value (Scalar φ)}
    {referenceIds actualIds : Dict String (Option String)} {mapping' : Dict String String}
    (hr : validateIds executionRoles referenceIds = .ok mapping)
    (ha : validateIds executionRoles actualIds = .ok mapping') :
    firstReplayDifference reference actual referenceIds actualIds
      = .ok (diff (normalizeWithMapping reference mapping) (normalizeWithMapping actual mapping') []) := by
  unfold firstReplayDifference normalizeExecutionIdentities
  rw [hr, ha]
  rfl

/-- **A replay comparison hides nothing but declared identities.** It reports nothing exactly when the
documents have the same shape and equal leaves, up to strings at declared positions that name the same thing
of their runs. -/
theorem replay_difference_eq_none_iff (reference actual : Document (Scalar φ))
    (referenceIds actualIds : Dict String (Option String))
    (hr : ∃ mapping, validateIds executionRoles referenceIds = .ok mapping)
    (ha : ∃ mapping, validateIds executionRoles actualIds = .ok mapping)
    (href : TokenFree reference.1) (hact : TokenFree actual.1) :
    ∃ difference, firstReplayDifference reference.1 actual.1 referenceIds actualIds = .ok difference ∧
      (difference = none ↔ CorrRoot SameScalar (Agrees referenceIds actualIds) reference.1 actual.1) := by
  obtain ⟨mapping, hr⟩ := hr
  obtain ⟨mapping', ha⟩ := ha
  refine ⟨_, firstReplayDifference_of_ok hr ha, ?_⟩
  have h := validated_of_ok hr
  have h' := validated_of_ok ha
  rw [diff_eq_none_iff]
  unfold normalizeWithMapping
  rw [equal_visitRoot_iff (keepsKind_rewriteString mapping) (keepsKind_rewriteString mapping')]
  constructor
  · intro hcorr
    exact hcorr.imp (fun _ _ => id) fun q s q' t hs ht _ =>
      (rewriteString_eq_iff h h' (href _ hs) (hact _ ht)).mp
  · intro hcorr
    exact hcorr.imp (fun _ _ => id) fun q s q' t hs ht _ =>
      (rewriteString_eq_iff h h' (href _ hs) (hact _ ht)).mpr

end Runs

/-- An identity of 32 equal digits. -/
def uuidOf (c : Char) : String := String.ofList (List.replicate 32 c)

/-- Only the CPU of a run was issued an identity. -/
def cpuIds (id : String) : Dict String (Option String) :=
  ⟨[("cpu", some id), ("dma", none), ("uart", none), ("runner", none)], by simp⟩

/-- A record that names its execution. -/
def executionRecord (id : String) : Document (Scalar Unit) :=
  ⟨.list [.dict [("execution", .str id)]], by simp [Value.WellFormed, Value.WellFormedItems,
    Value.WellFormedEntries]⟩

theorem validateIds_cpuIds_zero : ∃ mapping, validateIds executionRoles (cpuIds (uuidOf '0')) = .ok mapping :=
  ⟨empty.update [(uuidOf '0', "execution:cpu")], by decide⟩

theorem validateIds_cpuIds_one : ∃ mapping, validateIds executionRoles (cpuIds (uuidOf '1')) = .ok mapping :=
  ⟨empty.update [(uuidOf '1', "execution:cpu")], by decide⟩

theorem tokenFree_executionRecord {c : Char} (hc : c ≠ 'e') (hc' : c ≠ 'T') :
    TokenFree (executionRecord (uuidOf c)).1 := by
  intro x hx
  obtain rfl : x = (Place.entry false "execution", uuidOf c) := by
    simpa [executionRecord, leavesRoot, items?, leavesItems, leaves, leavesEntries, stateEdge,
      Place.event, isStateDependency, lookup] using hx
  have hhead : (uuidOf c).toList.head? = some c := by simp [uuidOf]
  rintro ⟨role, _, h | ⟨rest, h⟩⟩
  · rw [show uuidOf c = executionToken role from h] at hhead
    simp [executionToken] at hhead
    exact hc hhead.symm
  · rw [show uuidOf c = transactionKey (executionToken role) rest from h] at hhead
    simp [transactionKey, keyFront] at hhead
    exact hc' hhead.symm

/-- Two runs whose CPUs were issued different identities compare equal. -/
theorem replay_difference_of_cpu :
    ∃ difference, firstReplayDifference (executionRecord (uuidOf '0')).1
        (executionRecord (uuidOf '1')).1 (cpuIds (uuidOf '0')) (cpuIds (uuidOf '1')) = .ok difference ∧
      (difference = none ↔ CorrRoot SameScalar (Agrees (cpuIds (uuidOf '0')) (cpuIds (uuidOf '1')))
        (executionRecord (uuidOf '0')).1 (executionRecord (uuidOf '1')).1) :=
  replay_difference_eq_none_iff _ _ _ _ validateIds_cpuIds_zero validateIds_cpuIds_one
    (tokenFree_executionRecord (by decide) (by decide))
    (tokenFree_executionRecord (by decide) (by decide))

/-- **Equal documents are told apart when an identity is issued on one side only.** -/
theorem equal_records_reported :
    (∃ mapping, validateIds executionRoles (cpuIds (uuidOf '0')) = .ok mapping) ∧
    (∃ mapping, validateIds executionRoles (cpuIds (uuidOf '1')) = .ok mapping) ∧
    TokenFree (executionRecord (uuidOf '0')).1 ∧
    (firstReplayDifference (executionRecord (uuidOf '0')).1 (executionRecord (uuidOf '0')).1
      (cpuIds (uuidOf '0')) (cpuIds (uuidOf '1'))).toOption.map Option.isSome = some true :=
  ⟨validateIds_cpuIds_zero, validateIds_cpuIds_one,
    tokenFree_executionRecord (by decide) (by decide), by decide⟩

end Replay

end MyFuzz
