import MyFuzz.Composition.ConstraintIr
import MyFuzz.Foundations.BitExpr

/-!
# Composition/ConstraintGraph — the expression below an object

An object of a graph and everything below it is an expression of one width, `Unfolds`.  There is at most
one for each object, it is the same in every graph that looks the same below the object, and there is one
for each object that was validated:

    validate p = ok  ⟹  every output unfolds to an expression
-/

namespace MyFuzz

namespace ConstraintIr

open Outcome List

/-- A place in a graph: an object, or the arguments of a concatenation. -/
inductive Site (ι : Type) where
  | node (i : ι)
  | items (args : List (Arg ι))

/-! ## Unfolding -/

/-- **The expression of an object**: operators with the arguments and widths they take. -/
inductive Unfolds {ι : Type} (look : ι → Option (Expr ι)) : Site ι → (w : ℕ) → BitExpr w → Prop
  | const {i : ι} {w : ℕ} {value : ℤ} {hw : 0 < w} (hvalue : 0 ≤ value ∧ value < 2 ^ w)
      (h : look i = some ⟨.const, w, [.int value], hw⟩) :
      Unfolds look (.node i) w (.const (BitVec.ofInt w value))
  | ref {i : ι} {w : ℕ} {name : String} {hw : 0 < w} (h : look i = some ⟨.ref, w, [.text name], hw⟩) :
      Unfolds look (.node i) w (.ref name)
  | and {i l r : ι} {w : ℕ} {hw : 0 < w} {a b : BitExpr w} (ha : Unfolds look (.node l) w a)
      (hb : Unfolds look (.node r) w b) (h : look i = some ⟨.and, w, [.expr l, .expr r], hw⟩) :
      Unfolds look (.node i) w (.and a b)
  | or {i l r : ι} {w : ℕ} {hw : 0 < w} {a b : BitExpr w} (ha : Unfolds look (.node l) w a)
      (hb : Unfolds look (.node r) w b) (h : look i = some ⟨.or, w, [.expr l, .expr r], hw⟩) :
      Unfolds look (.node i) w (.or a b)
  | not {i l : ι} {w : ℕ} {hw : 0 < w} {a : BitExpr w} (ha : Unfolds look (.node l) w a)
      (h : look i = some ⟨.not, w, [.expr l], hw⟩) : Unfolds look (.node i) w (.not a)
  | eq {i l r : ι} {w : ℕ} {hw : 0 < 1} {a b : BitExpr w} (ha : Unfolds look (.node l) w a)
      (hb : Unfolds look (.node r) w b) (h : look i = some ⟨.eq, 1, [.expr l, .expr r], hw⟩) :
      Unfolds look (.node i) 1 (.eq a b)
  | mux {i s l r : ι} {w : ℕ} {hw : 0 < w} {c : BitExpr 1} {a b : BitExpr w}
      (hc : Unfolds look (.node s) 1 c) (ha : Unfolds look (.node l) w a) (hb : Unfolds look (.node r) w b)
      (h : look i = some ⟨.mux, w, [.expr s, .expr l, .expr r], hw⟩) :
      Unfolds look (.node i) w (.mux c a b)
  | slice {i s : ι} {hi lo w : ℕ} {hw : 0 < hi - lo + 1} {a : BitExpr w} (hle : lo ≤ hi) (hlt : hi < w)
      (ha : Unfolds look (.node s) w a)
      (h : look i = some ⟨.slice, hi - lo + 1, [.expr s, .int hi, .int lo], hw⟩) :
      Unfolds look (.node i) (hi - lo + 1) (.slice hi lo a)
  | concat {i : ι} {w : ℕ} {hw : 0 < w} {args : List (Arg ι)} {a : BitExpr w}
      (ha : Unfolds look (.items args) w a) (h : look i = some ⟨.concat, w, args, hw⟩) :
      Unfolds look (.node i) w a
  | nil : Unfolds look (.items []) 0 .nil
  | cons {i : ι} {args : List (Arg ι)} {v w : ℕ} {a : BitExpr v} {b : BitExpr w}
      (ha : Unfolds look (.node i) v a) (hb : Unfolds look (.items args) w b) :
      Unfolds look (.items (.expr i :: args)) (v + w) (.append a b)

variable {ι : Type} {look : ι → Option (Expr ι)}

/-- **An object has at most one expression.** -/
theorem Unfolds.unique {site : Site ι} {w w' : ℕ} {a : BitExpr w} {b : BitExpr w'}
    (ha : Unfolds look site w a) (hb : Unfolds look site w' b) :
    (⟨w, a⟩ : Σ w, BitExpr w) = ⟨w', b⟩ := by
  induction ha generalizing w' with
  | const _ h | ref h =>
    cases hb <;> cases h.symm.trans ‹look _ = some _›
    rfl
  | and _ _ h iha ihb | or _ _ h iha ihb | eq _ _ h iha ihb =>
    cases hb <;> cases h.symm.trans ‹look _ = some _›
    rename_i ha' hb' _
    cases iha ha'
    cases ihb hb'
    rfl
  | not _ h iha =>
    cases hb <;> cases h.symm.trans ‹look _ = some _›
    rename_i ha' _
    cases iha ha'
    rfl
  | mux _ _ _ h ihc iha ihb =>
    cases hb <;> cases h.symm.trans ‹look _ = some _›
    rename_i hc' ha' hb' _
    cases ihc hc'
    cases iha ha'
    cases ihb hb'
    rfl
  | slice _ _ _ h iha =>
    cases hb with
    | slice _ _ ha' h' =>
      have hargs := congrArg Expr.args (Option.some.inj (h.symm.trans h'))
      simp only [List.cons.injEq, Arg.expr.injEq, Arg.int.injEq, Nat.cast_inj, and_true] at hargs
      obtain ⟨rfl, rfl, rfl⟩ := hargs
      cases iha ha'
      rfl
    | _ => cases h.symm.trans ‹look _ = some _›
  | concat _ h iha =>
    cases hb with
    | concat ha' h' =>
      cases h.symm.trans h'
      exact iha ha'
    | _ => cases h.symm.trans ‹look _ = some _›
  | nil =>
    cases hb
    rfl
  | cons _ _ iha ihb =>
    cases hb with
    | cons ha' hb' =>
      cases iha ha'
      cases ihb hb'
      rfl

/-- The width of an expression is that of its object. -/
theorem Unfolds.exists_look {i : ι} {w : ℕ} {a : BitExpr w} (h : Unfolds look (.node i) w a) :
    ∃ e, look i = some e ∧ e.width = w := by
  cases h <;> exact ⟨_, ‹look _ = some _›, rfl⟩

/-! ## Graphs that look alike -/

variable {κ : Type} {look' : κ → Option (Expr κ)} {φ : ι → κ}

/-- An argument with its object renamed. -/
def Arg.map (φ : ι → κ) : Arg ι → Arg κ
  | .expr i => .expr (φ i)
  | .int value => .int value
  | .text value => .text value
  | .other => .other

/-- A node with its arguments renamed. -/
def Expr.map (φ : ι → κ) (e : Expr ι) : Expr κ := ⟨e.op, e.width, e.args.map (Arg.map φ), e.width_pos⟩

/-- A site with its objects renamed. -/
def Site.map (φ : ι → κ) : Site ι → Site κ
  | .node i => .node (φ i)
  | .items args => .items (args.map (Arg.map φ))

/-- The objects of a site lie in a set. -/
def Site.In (S : Set ι) : Site ι → Prop
  | .node i => i ∈ S
  | .items args => ∀ i, .expr i ∈ args → i ∈ S

/-- **Renaming objects keeps the expression**, on a set that holds everything below its members. -/
theorem Unfolds.rename {S : Set ι} (hS : ∀ i ∈ S, ∀ e, look i = some e → look' (φ i) = some (e.map φ) ∧
      ∀ j, .expr j ∈ e.args → j ∈ S)
    {site : Site ι} {w : ℕ} {a : BitExpr w} (h : Unfolds look site w a) (hsite : site.In S) :
    Unfolds look' (site.map φ) w a := by
  induction h with
  | const hvalue h => exact .const hvalue (hS _ hsite _ h).1
  | ref h => exact .ref (hS _ hsite _ h).1
  | and _ _ h iha ihb =>
    obtain ⟨hlook, hbelow⟩ := hS _ hsite _ h
    exact .and (iha (hbelow _ (by simp))) (ihb (hbelow _ (by simp))) hlook
  | or _ _ h iha ihb =>
    obtain ⟨hlook, hbelow⟩ := hS _ hsite _ h
    exact .or (iha (hbelow _ (by simp))) (ihb (hbelow _ (by simp))) hlook
  | not _ h iha =>
    obtain ⟨hlook, hbelow⟩ := hS _ hsite _ h
    exact .not (iha (hbelow _ (by simp))) hlook
  | eq _ _ h iha ihb =>
    obtain ⟨hlook, hbelow⟩ := hS _ hsite _ h
    exact .eq (iha (hbelow _ (by simp))) (ihb (hbelow _ (by simp))) hlook
  | mux _ _ _ h ihc iha ihb =>
    obtain ⟨hlook, hbelow⟩ := hS _ hsite _ h
    exact .mux (ihc (hbelow _ (by simp))) (iha (hbelow _ (by simp))) (ihb (hbelow _ (by simp))) hlook
  | slice hle hlt _ h iha =>
    obtain ⟨hlook, hbelow⟩ := hS _ hsite _ h
    exact .slice hle hlt (iha (hbelow _ (by simp))) hlook
  | concat _ h iha =>
    obtain ⟨hlook, hbelow⟩ := hS _ hsite _ h
    exact .concat (iha hbelow) hlook
  | nil => exact .nil
  | cons _ _ iha ihb =>
    exact .cons (iha (hsite _ (.head _)))
      (ihb fun j hj => hsite j (.tail _ hj))

/-! ## Validated objects -/

variable {n : ℕ} {h : Heap n} {i : Fin n} {seen seen' : Seen n}

/-- A heap as a graph. -/
def graph (h : Heap n) (i : Fin n) : Option (Expr (Fin n)) := some (h i)

/-- The object has an expression. -/
def Valid (h : Heap n) (i : Fin n) : Prop := ∃ w a, Unfolds (graph h) (.node i) w a

theorem Valid.at_width (hv : Valid h i) {w : ℕ} (hw : (h i).width = w) :
    ∃ a : BitExpr w, Unfolds (graph h) (.node i) w a := by
  obtain ⟨v, a, ha⟩ := hv
  obtain ⟨e, he, rfl⟩ := ha.exists_look
  cases he
  subst hw
  exact ⟨a, ha⟩

theorem graph_of {op : Op} {w : ℕ} {args : List (Arg (Fin n))} (hop : (h i).op = op)
    (hwidth : (h i).width = w) (hargs : (h i).args = args) :
    ∃ hw, graph h i = some ⟨op, w, args, hw⟩ := by
  subst hop hwidth hargs
  exact ⟨(h i).width_pos, rfl⟩

/-- What a validation step does: it finishes the object, and what is finished has an expression. -/
def Finishes (h : Heap n) (visit : Fin n → Seen n → Except Exn (Seen n)) : Prop :=
  ∀ i seen seen', visit i seen = .ok seen' → (∀ j ∈ seen.visited, Valid h j) →
    (∀ j ∈ seen'.visited, Valid h j) ∧ i ∈ seen'.visited ∧ seen.visited ⊆ seen'.visited

variable {visit : Fin n → Seen n → Except Exn (Seen n)}

/-- Objects one after another. -/
theorem valid_of_visitAll (hvisit : Finishes h visit) {items : List (Fin n)}
    (hall : visitAll visit items seen = .ok seen') (hseen : ∀ j ∈ seen.visited, Valid h j) :
    (∀ j ∈ seen'.visited, Valid h j) ∧ (∀ i ∈ items, i ∈ seen'.visited) ∧ seen.visited ⊆ seen'.visited := by
  induction items generalizing seen with
  | nil =>
    cases hall
    exact ⟨hseen, nofun, fun _ hj => hj⟩
  | cons i items ih =>
    unfold visitAll at hall
    rw [foldlM_cons] at hall
    obtain ⟨next, hnext, hrest⟩ := bind_ok.1 hall
    obtain ⟨hvalid, hmem, hsub⟩ := hvisit i seen next hnext hseen
    obtain ⟨hvalid', hmem', hsub'⟩ := ih hrest hvalid
    exact ⟨hvalid', forall_mem_cons.2 ⟨hsub' hmem, hmem'⟩, List.Subset.trans hsub hsub'⟩

theorem eq_of_objects {args : List (Arg (Fin n))} {items : List (Fin n)}
    (hobjects : objects args = some items) : args = items.map .expr := by
  induction args generalizing items with
  | nil =>
    cases hobjects
    rfl
  | cons arg args ih =>
    cases arg with
    | expr i =>
      obtain ⟨rest, hrest, rfl⟩ := Option.map_eq_some_iff.1 hobjects
      rw [ih hrest]
      rfl
    | int _ | text _ | other => cases hobjects

/-- Finished objects are the parts of a concatenation. -/
theorem unfolds_items {items : List (Fin n)} (hitems : ∀ i ∈ items, Valid h i) :
    ∃ a, Unfolds (graph h) (.items (items.map .expr)) (items.map fun i => (h i).width).sum a := by
  induction items with
  | nil => exact ⟨_, .nil⟩
  | cons i items ih =>
    obtain ⟨a, ha⟩ := (hitems i (.head _)).at_width rfl
    obtain ⟨b, hb⟩ := ih fun j hj => hitems j (.tail _ hj)
    exact ⟨_, .cons ha hb⟩

/-- The arguments of an operator that has only objects. -/
theorem valid_of_validateObjects (hvisit : Finishes h visit) {admits : List (Fin n) → Bool}
    {message : String} (hnode : validateObjects visit admits message (h i) seen = .ok seen')
    (hseen : ∀ j ∈ seen.visited, Valid h j) :
    ∃ items, (h i).args = items.map .expr ∧ admits items = true ∧ (∀ j ∈ items, Valid h j) ∧
      (∀ j ∈ seen'.visited, Valid h j) ∧ seen.visited ⊆ seen'.visited := by
  unfold validateObjects at hnode
  split at hnode
  · rename_i items hitems
    split_ifs at hnode with hadmits
    · obtain ⟨hvalid, hmem, hsub⟩ := valid_of_visitAll hvisit hnode hseen
      exact ⟨items, eq_of_objects hitems, hadmits, fun j hj => hvalid j (hmem j hj), hvalid, hsub⟩
    · cases hnode
  · cases hnode

section

variable {width : ℕ} {items : List (Fin n)}

theorem admitsBinary_eq_true (hadmits : admitsBinary h width items = true) :
    ∃ l r, items = [l, r] ∧ (h l).width = (h r).width ∧ (h l).width = width := by
  unfold admitsBinary at hadmits
  split at hadmits
  · exact ⟨_, _, rfl, of_decide_eq_true hadmits⟩
  · cases hadmits

theorem admitsNot_eq_true (hadmits : admitsNot h width items = true) :
    ∃ l, items = [l] ∧ (h l).width = width := by
  unfold admitsNot at hadmits
  split at hadmits
  · exact ⟨_, rfl, of_decide_eq_true hadmits⟩
  · cases hadmits

theorem admitsEqual_eq_true (hadmits : admitsEqual h width items = true) :
    ∃ l r, items = [l, r] ∧ width = 1 ∧ (h l).width = (h r).width := by
  unfold admitsEqual at hadmits
  split at hadmits
  · exact ⟨_, _, rfl, of_decide_eq_true hadmits⟩
  · cases hadmits

theorem admitsMux_eq_true (hadmits : admitsMux h width items = true) :
    ∃ s l r, items = [s, l, r] ∧ (h s).width = 1 ∧ (h l).width = (h r).width ∧ (h l).width = width := by
  unfold admitsMux at hadmits
  split at hadmits
  · exact ⟨_, _, _, rfl, of_decide_eq_true hadmits⟩
  · cases hadmits

end

/-- Leaves add no object. -/
theorem valid_of_validateConst (hop : (h i).op = .const)
    (hnode : validateConst (h i) seen = .ok seen') : Valid h i ∧ seen' = seen := by
  unfold validateConst at hnode
  split at hnode
  · rename_i value hargs
    split_ifs at hnode with hvalue
    · obtain ⟨hw, hgraph⟩ := graph_of hop rfl hargs
      exact ⟨⟨_, _, .const hvalue hgraph⟩, (Except.ok.inj hnode).symm⟩
    · cases hnode
  · cases hnode

theorem valid_of_validateRef (hop : (h i).op = .ref) (hnode : validateRef (h i) seen = .ok seen') :
    Valid h i ∧ seen'.visited = seen.visited := by
  unfold validateRef at hnode
  split at hnode
  · rename_i name hargs
    split_ifs at hnode
    · cases hnode
    · cases hnode
    · cases hnode
      obtain ⟨hw, hgraph⟩ := graph_of hop rfl hargs
      exact ⟨⟨_, _, .ref hgraph⟩, rfl⟩
  · cases hnode

theorem valid_of_validateSlice (hvisit : Finishes h visit) (hop : (h i).op = .slice)
    (hnode : validateSlice h visit (h i) seen = .ok seen') (hseen : ∀ j ∈ seen.visited, Valid h j) :
    Valid h i ∧ (∀ j ∈ seen'.visited, Valid h j) ∧ seen.visited ⊆ seen'.visited := by
  unfold validateSlice at hnode
  split at hnode
  · rename_i source hi lo hargs
    split_ifs at hnode with hbounds hwidth
    · cases hnode
    · cases hnode
    · obtain ⟨hvalid, hmem, hsub⟩ := hvisit source seen seen' hnode hseen
      obtain ⟨a, ha⟩ := (hvalid source hmem).at_width rfl
      refine ⟨?_, hvalid, hsub⟩
      rw [not_or, not_or, not_lt, not_lt, not_le] at hbounds
      obtain ⟨hlo, hle, hlt⟩ := hbounds
      lift lo to ℕ using hlo
      lift hi to ℕ using (by omega)
      obtain ⟨hw, hgraph⟩ := graph_of hop (show (h i).width = hi - lo + 1 by omega) hargs
      exact ⟨_, _, .slice (by omega) (by omega) ha hgraph⟩
  · cases hnode
  · cases hnode

/-- **A node that is validated has an expression.** -/
theorem valid_of_validateNode (hvisit : Finishes h visit)
    (hnode : validateNode h visit (h i) seen = .ok seen') (hseen : ∀ j ∈ seen.visited, Valid h j) :
    Valid h i ∧ (∀ j ∈ seen'.visited, Valid h j) ∧ seen.visited ⊆ seen'.visited := by
  unfold validateNode at hnode
  split at hnode
  case h_1 hop =>
    obtain ⟨hvalid, rfl⟩ := valid_of_validateConst hop hnode
    exact ⟨hvalid, hseen, fun _ hj => hj⟩
  case h_2 hop =>
    obtain ⟨hvalid, hvisited⟩ := valid_of_validateRef hop hnode
    rw [hvisited]
    exact ⟨hvalid, hseen, fun _ hj => hj⟩
  case h_3 hop =>
    obtain ⟨_, hargs, hadmits, hitems, hvalid⟩ := valid_of_validateObjects hvisit hnode hseen
    obtain ⟨l, r, rfl, hlr, hl⟩ := admitsBinary_eq_true hadmits
    obtain ⟨a, ha⟩ := (hitems l (by simp)).at_width hl
    obtain ⟨b, hb⟩ := (hitems r (by simp)).at_width (hlr.symm.trans hl)
    obtain ⟨hw, hgraph⟩ := graph_of hop rfl hargs
    exact ⟨⟨_, _, .and ha hb hgraph⟩, hvalid⟩
  case h_4 hop =>
    obtain ⟨_, hargs, hadmits, hitems, hvalid⟩ := valid_of_validateObjects hvisit hnode hseen
    obtain ⟨l, r, rfl, hlr, hl⟩ := admitsBinary_eq_true hadmits
    obtain ⟨a, ha⟩ := (hitems l (by simp)).at_width hl
    obtain ⟨b, hb⟩ := (hitems r (by simp)).at_width (hlr.symm.trans hl)
    obtain ⟨hw, hgraph⟩ := graph_of hop rfl hargs
    exact ⟨⟨_, _, .or ha hb hgraph⟩, hvalid⟩
  case h_5 hop =>
    obtain ⟨_, hargs, hadmits, hitems, hvalid⟩ := valid_of_validateObjects hvisit hnode hseen
    obtain ⟨l, rfl, hl⟩ := admitsNot_eq_true hadmits
    obtain ⟨a, ha⟩ := (hitems l (by simp)).at_width hl
    obtain ⟨hw, hgraph⟩ := graph_of hop rfl hargs
    exact ⟨⟨_, _, .not ha hgraph⟩, hvalid⟩
  case h_6 hop =>
    obtain ⟨_, hargs, hadmits, hitems, hvalid⟩ := valid_of_validateObjects hvisit hnode hseen
    obtain ⟨l, r, rfl, hone, hlr⟩ := admitsEqual_eq_true hadmits
    obtain ⟨a, ha⟩ := (hitems l (by simp)).at_width hlr
    obtain ⟨b, hb⟩ := (hitems r (by simp)).at_width rfl
    obtain ⟨hw, hgraph⟩ := graph_of hop hone hargs
    exact ⟨⟨_, _, .eq ha hb hgraph⟩, hvalid⟩
  case h_7 hop =>
    obtain ⟨_, hargs, hadmits, hitems, hvalid⟩ := valid_of_validateObjects hvisit hnode hseen
    obtain ⟨s, l, r, rfl, hone, hlr, hl⟩ := admitsMux_eq_true hadmits
    obtain ⟨c, hc⟩ := (hitems s (by simp)).at_width hone
    obtain ⟨a, ha⟩ := (hitems l (by simp)).at_width hl
    obtain ⟨b, hb⟩ := (hitems r (by simp)).at_width (hlr.symm.trans hl)
    obtain ⟨hw, hgraph⟩ := graph_of hop rfl hargs
    exact ⟨⟨_, _, .mux hc ha hb hgraph⟩, hvalid⟩
  case h_8 hop => exact valid_of_validateSlice hvisit hop hnode hseen
  case h_9 hop =>
    obtain ⟨items, hargs, hadmits, hitems, hvalid⟩ := valid_of_validateObjects hvisit hnode hseen
    obtain ⟨-, hsum⟩ := of_decide_eq_true hadmits
    obtain ⟨a, ha⟩ := unfolds_items hitems
    obtain ⟨hw, hgraph⟩ := graph_of hop hsum hargs
    exact ⟨⟨_, _, .concat ha hgraph⟩, hvalid⟩
  case h_10 => cases hnode

/-- **A validated expression is finished.** -/
theorem finishes_validateExpr (h : Heap n) (fuel : ℕ) (visiting : List (Fin n)) :
    Finishes h (validateExpr h fuel visiting) := by
  induction fuel generalizing visiting with
  | zero =>
    intro i seen seen' hexpr
    cases hexpr
  | succ fuel ih =>
    intro i seen seen' hexpr hseen
    rw [validateExpr] at hexpr
    split_ifs at hexpr with hcycle hmem
    · cases hexpr
    · cases hexpr
      exact ⟨hseen, hmem, fun _ hj => hj⟩
    · obtain ⟨next, hnode, hexpr⟩ := bind_ok.1 hexpr
      cases hexpr
      obtain ⟨hvalid, hall, hsub⟩ := valid_of_validateNode (ih _) hnode hseen
      exact ⟨forall_mem_cons.2 ⟨hvalid, hall⟩, .head _,
        fun j hj => .tail _ (hsub hj)⟩

/-! ## Validated programs -/

/-- Outputs one after another: new names, and objects with an expression. -/
theorem valid_of_validateOutputs {outputs : List (String × Arg (Fin n))} {names : List String}
    {final : List String × Seen n} (hall : outputs.foldlM (validateOutput h) (names, seen) = .ok final)
    (hseen : ∀ j ∈ seen.visited, Valid h j) :
    (outputs.map Prod.fst).Nodup ∧ (∀ o ∈ outputs, o.1 ∉ names) ∧
      ∀ o ∈ outputs, ∃ i, o.2 = .expr i ∧ Valid h i := by
  induction outputs generalizing names seen with
  | nil =>
    exact ⟨nodup_nil, nofun, nofun⟩
  | cons o outputs ih =>
    rw [foldlM_cons] at hall
    obtain ⟨next, hnext, hrest⟩ := bind_ok.1 hall
    unfold validateOutput at hnext
    split_ifs at hnext with hempty hdup
    · cases hnext
    · cases hnext
    · split at hnext
      · rename_i i harg
        obtain ⟨seen', hexpr, hnext⟩ := bind_ok.1 hnext
        cases hnext
        obtain ⟨hvalid, hmem, -⟩ := finishes_validateExpr h _ _ _ _ _ hexpr hseen
        obtain ⟨hnodup, hnames, hobjects⟩ := ih hrest hvalid
        refine ⟨?_, ?_, forall_mem_cons.2 ⟨⟨i, harg, hvalid i hmem⟩, hobjects⟩⟩
        · rw [map_cons, nodup_cons]
          refine ⟨fun hin => ?_, hnodup⟩
          obtain ⟨o', ho', heq⟩ := mem_map.1 hin
          exact hnames o' ho' (heq ▸ (.head _))
        · exact forall_mem_cons.2
            ⟨hdup, fun o' ho' hin => hnames o' ho' (.tail _ hin)⟩
      · cases hnext

/-- **A validated program has an expression for every output**, under distinct names. -/
theorem valid_of_validate {p : ConstraintProgram n} (hv : p.validate = .ok ()) :
    (p.outputs.map Prod.fst).Nodup ∧ ∀ o ∈ p.outputs, ∃ i, o.2 = .expr i ∧ Valid p.heap i := by
  obtain ⟨final, hfinal, -⟩ := bind_ok.1 hv
  obtain ⟨hnodup, -, hobjects⟩ := valid_of_validateOutputs hfinal nofun
  exact ⟨hnodup, hobjects⟩

end ConstraintIr

end MyFuzz
