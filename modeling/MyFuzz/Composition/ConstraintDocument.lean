import MyFuzz.Composition.ConstraintEvaluation

/-!
# Composition/ConstraintDocument — programs with equal documents evaluate equally

A document is itself a graph, with numbers for objects.  Numbering keeps every expression, so a document
determines the expressions of the outputs and, with them, what is evaluated:

    object i  ──number──▸  k          Unfolds (graph h) i a   ⟹   Unfolds (document) k a
-/

namespace MyFuzz

namespace ConstraintIr

open Outcome Dict

open List hiding getD length_set

variable {n : ℕ} {h : Heap n} {i : Fin n} {w : ℕ}

/-! ## Documents as graphs -/

/-- What a record says of a node when objects have the numbers `φ`. -/
def argNumber {ι : Type} (φ : ι → ℕ) : Arg ι → ℤ
  | .expr i => φ i
  | _ => 0

def payloadOf {ι : Type} (φ : ι → ℕ) (e : Expr ι) : Payload :=
  match e.op, e.args with
  | .const, .int value :: _ => .value value
  | .ref, .text name :: _ => .name name
  | .slice, .expr source :: .int hi :: .int lo :: _ => .args [(φ source : ℤ), hi, lo]
  | _, args => .args (args.map (argNumber φ))

/-- The arguments that a payload stands for. -/
def Payload.toArgs : Op → Payload → List (Arg ℕ)
  | _, .value v => [.int v]
  | _, .name s => [.text s]
  | .slice, .args [source, hi, lo] => [.expr source.toNat, .int hi, .int lo]
  | _, .args l => l.map fun k => .expr k.toNat

/-- The node that a record stands for. -/
def Record.toExpr (r : Record) : Option (Expr ℕ) :=
  if hw : 0 < r.width then some ⟨r.op, r.width, r.payload.toArgs r.op, hw⟩ else none

/-- The records as a graph. -/
def recordGraph (nodes : List (Option Record)) (k : ℕ) : Option (Expr ℕ) :=
  nodes[k]?.bind fun r => r.bind Record.toExpr

variable {ι : Type} {look : ι → Option (Expr ι)} {a : BitExpr w} {s s' : Numbering n} {k : ℕ}
  {items opened : List (Fin n)} {name : String} {v : ℤ}

/-- Parts of a concatenation are all objects. -/
theorem Unfolds.map_toNat (φ : ι → ℕ) {site : Site ι} (hunfolds : Unfolds look site w a)
    {args : List (Arg ι)} (hsite : site = .items args) :
    (args.map (argNumber φ)).map (fun k => Arg.expr k.toNat) = args.map (Arg.map φ) := by
  induction hunfolds generalizing args with
  | nil =>
    cases hsite
    rfl
  | cons _ _ _ ihb =>
    cases hsite
    rw [map_cons, map_cons, map_cons, ihb rfl]
    rfl
  | _ => cases hsite

/-- **A record stands for its node**, with the objects renamed to their numbers. -/
theorem toExpr_payloadOf {φ : ι → ℕ} {i : ι} {e : Expr ι} (hunfolds : Unfolds look (.node i) w a)
    (hlook : look i = some e) (k : ℕ) :
    Record.toExpr ⟨k, e.op, e.width, payloadOf φ e⟩ = some (e.map φ) := by
  unfold Record.toExpr
  rw [dif_pos e.width_pos]
  have hargs : (payloadOf φ e).toArgs e.op = e.args.map (Arg.map φ) := by
    cases hunfolds with
    | concat ha h' =>
      cases hlook.symm.trans h'
      simp only [payloadOf, Payload.toArgs]
      exact ha.map_toNat φ rfl
    | _ =>
      cases hlook.symm.trans ‹look i = some ⟨_, _, _, _⟩›
      rfl
  rw [hargs]
  rfl

/-! ## Numbering -/

/-- The number of an object that has one. -/
def Numbering.number (s : Numbering n) (i : Fin n) : ℕ := s.nodeIds.getD i 0

/-- Objects keep their numbers. -/
def Numbering.Extends (s s' : Numbering n) : Prop :=
  ∀ j k, s.nodeIds.get? j = some k → s'.nodeIds.get? j = some k

/-- **Numbers so far**: one for each object, and a record for each object that is not open. -/
structure Numbered (h : Heap n) (opened : List (Fin n)) (s : Numbering n) : Prop where
  bound : ∀ j k, s.nodeIds.get? j = some k → k < s.nodes.length
  inj : ∀ j j' k, s.nodeIds.get? j = some k → s.nodeIds.get? j' = some k → j = j'
  filled : ∀ j k, s.nodeIds.get? j = some k → j ∉ opened →
    s.nodes[k]? = some (some ⟨k, (h j).op, (h j).width, payloadOf s.number (h j)⟩)
  below : ∀ j k, s.nodeIds.get? j = some k → j ∉ opened →
    ∀ j', .expr j' ∈ (h j).args → (s.nodeIds.get? j').isSome
  valid : ∀ j k, s.nodeIds.get? j = some k → Valid h j

theorem number_of_get? (hk : s.nodeIds.get? i = some k) : s.number i = k := by
  unfold Numbering.number getD
  rw [hk]
  rfl

theorem Numbering.Extends.number_eq (hext : s.Extends s') (hi : (s.nodeIds.get? i).isSome) :
    s'.number i = s.number i := by
  obtain ⟨k, hk⟩ := Option.isSome_iff_exists.1 hi
  rw [number_of_get? hk, number_of_get? (hext i k hk)]

theorem Numbering.Extends.trans {s'' : Numbering n} (h : s.Extends s') (h' : s'.Extends s'') :
    s.Extends s'' := fun j k hk => h' j k (h j k hk)

/-- A payload depends only on the numbers of the node's objects. -/
theorem payloadOf_congr {φ ψ : Fin n → ℕ} {e : Expr (Fin n)} (heq : ∀ j, .expr j ∈ e.args → φ j = ψ j) :
    payloadOf φ e = payloadOf ψ e := by
  have hmap : ∀ args : List (Arg (Fin n)), (∀ j, .expr j ∈ args → φ j = ψ j) →
      args.map (argNumber φ) = args.map (argNumber ψ) := by
    intro args hargs
    refine map_congr_left fun a ha => ?_
    cases a with
    | expr j => exact congrArg Nat.cast (hargs j ha)
    | _ => rfl
  unfold payloadOf
  split
  · rfl
  · rfl
  · rename_i source hi lo tail _ hargs
    rw [heq source (hargs ▸ mem_cons_self)]
  · rw [hmap _ heq]

/-- There are at most as many numbers as objects. -/
theorem length_nodeIds_le (s : Numbering n) : s.nodeIds.length ≤ n := by
  have hcard := s.nodeIds.nodup.length_le_card
  rwa [Fintype.card_fin, length_map] at hcard

/-- What numbering an object does. -/
def Numbers (h : Heap n) (fuel : ℕ) (step : Fin n → Numbering n → Except Exn (ℕ × Numbering n)) : Prop :=
  ∀ opened i s, Valid h i → Numbered h opened s → n + 1 ≤ s.nodeIds.length + fuel →
    ∃ k s', step i s = .ok (k, s') ∧ Numbered h opened s' ∧ s.Extends s' ∧
      s'.nodeIds.get? i = some k ∧ s.nodeIds.length ≤ s'.nodeIds.length

variable {fuel : ℕ} {step : Fin n → Numbering n → Except Exn (ℕ × Numbering n)}

/-- Objects one after another. -/
theorem encodeAll_ok (hstep : Numbers h fuel step) (hitems : ∀ i ∈ items, Valid h i)
    (hs : Numbered h opened s) (hroom : n + 1 ≤ s.nodeIds.length + fuel) :
    ∃ s', encodeAll step (items.map .expr) s = .ok ((items.map .expr).map (argNumber s'.number), s') ∧
      Numbered h opened s' ∧ s.Extends s' ∧ (∀ i ∈ items, (s'.nodeIds.get? i).isSome) ∧
      s.nodeIds.length ≤ s'.nodeIds.length := by
  induction items generalizing s with
  | nil => exact ⟨s, rfl, hs, fun _ _ hk => hk, nofun, le_rfl⟩
  | cons i items ih =>
    obtain ⟨k, s', hk, hs', hext, hget, hlen⟩ := hstep opened i s (hitems i (.head _)) hs hroom
    obtain ⟨s'', hrest, hs'', hext', hsome, hlen'⟩ :=
      ih (fun j hj => hitems j (.tail _ hj)) hs' (by omega)
    have hget' := hext' i k hget
    refine ⟨s'', ?_, hs'', hext.trans hext', forall_mem_cons.2 ⟨?_, hsome⟩, by omega⟩
    · rw [map_cons, encodeAll, hk, ok_bind]
      dsimp only
      rw [hrest, ok_bind, map_cons, argNumber, number_of_get? hget']
      rfl
    · rw [hget']
      rfl

/-- What the record of a node takes: the payload, with every object of the node numbered. -/
def PayloadReady (h : Heap n) (fuel : ℕ) (step : Fin n → Numbering n → Except Exn (ℕ × Numbering n))
    (i : Fin n) : Prop :=
  ∀ opened s, Numbered h opened s → n + 1 ≤ s.nodeIds.length + fuel →
    ∃ s', encodePayload step (h i) s = .ok (payloadOf s'.number (h i), s') ∧ Numbered h opened s' ∧
      s.Extends s' ∧ (∀ j, .expr j ∈ (h i).args → (s'.nodeIds.get? j).isSome) ∧
      s.nodeIds.length ≤ s'.nodeIds.length

/-- An operator that has only objects. -/
theorem payloadReady_objects (hstep : Numbers h fuel step) {op : Op} {hw : 0 < w}
    (hnode : h i = ⟨op, w, items.map .expr, hw⟩) (hop : op ≠ .const ∧ op ≠ .ref ∧ op ≠ .slice)
    (hitems : ∀ j ∈ items, Valid h j) : PayloadReady h fuel step i := by
  intro opened s hs hroom
  obtain ⟨s', hall, hs', hext, hsome, hlen⟩ := encodeAll_ok hstep hitems hs hroom
  refine ⟨s', ?_, hs', hext, fun j hj => ?_, hlen⟩
  · have hpayload : payloadOf s'.number (h i) = .args ((items.map .expr).map (argNumber s'.number)) := by
      rw [hnode]
      unfold payloadOf
      cases op <;> simp_all
    have hencode : encodePayload step (h i) s = (encodeAll step (items.map .expr) s >>= fun p =>
        return (.args p.1, p.2)) := by
      rw [hnode]
      unfold encodePayload
      cases op <;> simp_all
    rw [hencode, hpayload, hall]
    rfl
  · rw [hnode] at hj
    obtain ⟨j', hj', heq⟩ := mem_map.1 hj
    cases heq
    exact hsome j hj'

/-- The parts of a concatenation are objects with expressions. -/
theorem Unfolds.exists_items {site : Site (Fin n)} (hunfolds : Unfolds (graph h) site w a)
    {args : List (Arg (Fin n))} (hsite : site = .items args) :
    ∃ items : List (Fin n), args = items.map .expr ∧ ∀ j ∈ items, Valid h j := by
  induction hunfolds generalizing args with
  | nil =>
    cases hsite
    exact ⟨[], rfl, nofun⟩
  | @cons i rest v w a b ha _ _ ihb =>
    cases hsite
    obtain ⟨items, rfl, hitems⟩ := ihb rfl
    exact ⟨i :: items, rfl, forall_mem_cons.2 ⟨⟨v, a, ha⟩, hitems⟩⟩
  | _ => cases hsite

/-- **Every node with an expression has a payload.** -/
theorem payloadReady (hstep : Numbers h fuel step) (hvalid : Valid h i) : PayloadReady h fuel step i := by
  obtain ⟨w, a, hunfolds⟩ := hvalid
  cases hunfolds with
  | const hvalue hlook | ref hlook =>
    intro opened s hs hroom
    rw [heap_of_graph hlook]
    exact ⟨s, rfl, hs, fun _ _ hk => hk, fun j hj => by simp at hj, le_rfl⟩
  | slice hle hlt ha hlook =>
    intro opened s hs hroom
    obtain ⟨k, s', hk, hs', hext, hget, hlen⟩ := hstep opened _ s ⟨_, _, ha⟩ hs hroom
    rw [heap_of_graph hlook]
    refine ⟨s', ?_, hs', hext, fun j hj => ?_, hlen⟩
    · simp only [encodePayload, payloadOf, hk, ok_bind, number_of_get? hget]
      rfl
    · obtain rfl : j = _ := by simpa using hj
      rw [hget]
      rfl
  | and ha hb hlook | or ha hb hlook | eq ha hb hlook =>
    exact payloadReady_objects hstep (heap_of_graph hlook) (by simp)
      (forall_mem_cons.2 ⟨⟨_, _, ha⟩, forall_mem_singleton.2 ⟨_, _, hb⟩⟩)
  | not ha hlook =>
    exact payloadReady_objects hstep (heap_of_graph hlook) (by simp)
      (forall_mem_singleton.2 ⟨_, _, ha⟩)
  | mux hc ha hb hlook =>
    exact payloadReady_objects hstep (heap_of_graph hlook) (by simp)
      (forall_mem_cons.2 ⟨⟨_, _, hc⟩,
        forall_mem_cons.2 ⟨⟨_, _, ha⟩, forall_mem_singleton.2 ⟨_, _, hb⟩⟩⟩)
  | concat ha hlook =>
    obtain ⟨items, rfl, hitems⟩ := ha.exists_items rfl
    exact payloadReady_objects hstep (heap_of_graph hlook) (by simp) hitems

/-- An object gets the next number, and is open until its record is filled in. -/
theorem numbered_open (hs : Numbered h opened s) (hvalid : Valid h i) (hnew : s.nodeIds.get? i = none) :
    Numbered h (i :: opened) ⟨s.nodeIds.set i s.nodes.length, s.nodes ++ [none]⟩ ∧
      s.Extends ⟨s.nodeIds.set i s.nodes.length, s.nodes ++ [none]⟩ := by
  have hext : s.Extends ⟨s.nodeIds.set i s.nodes.length, s.nodes ++ [none]⟩ := by
    intro j k hk
    refine (get?_set_of_ne _ ?_ _).trans hk
    rintro rfl
    rw [hnew] at hk
    cases hk
  have hold : ∀ j k, (s.nodeIds.set i s.nodes.length).get? j = some k → j ≠ i →
      s.nodeIds.get? j = some k := by
    intro j k hk hne
    rwa [get?_set_of_ne _ hne] at hk
  refine ⟨⟨fun j k hk => ?_, fun j j' k hk hk' => ?_, fun j k hk hj => ?_, fun j k hk hj j' hj' => ?_,
    fun j k hk => ?_⟩, hext⟩
  · rw [length_append, length_singleton]
    rw [get?_set] at hk
    split_ifs at hk
    · have := Option.some.inj hk
      omega
    · have := hs.bound j k hk
      omega
  · rw [get?_set] at hk hk'
    split_ifs at hk hk' with hi hi' hi'
    · rw [hi, hi']
    · have := hs.bound j' k hk'
      have := Option.some.inj hk
      omega
    · have := hs.bound j k hk
      have := Option.some.inj hk'
      omega
    · exact hs.inj j j' k hk hk'
  · obtain ⟨hne, hj⟩ := not_or.1 (mt mem_cons.2 hj)
    have hk := hold j k hk hne
    rw [getElem?_append_left (hs.bound j k hk), hs.filled j k hk hj]
    congr 3
    exact payloadOf_congr fun j' hj' => (hext.number_eq (hs.below j k hk hj j' hj')).symm
  · obtain ⟨hne, hj⟩ := not_or.1 (mt mem_cons.2 hj)
    obtain ⟨k', hk'⟩ := Option.isSome_iff_exists.1 (hs.below j k (hold j k hk hne) hj j' hj')
    exact Option.isSome_iff_exists.2 ⟨k', hext j' k' hk'⟩
  · by_cases hji : j = i
    · rwa [hji]
    · exact hs.valid j k (hold j k hk hji)

/-- The open object's record is filled in. -/
theorem numbered_close (hs : Numbered h (i :: opened) s) (hk : s.nodeIds.get? i = some k)
    (hbelow : ∀ j, .expr j ∈ (h i).args → (s.nodeIds.get? j).isSome) :
    Numbered h opened
      { s with nodes := s.nodes.set k (some ⟨k, (h i).op, (h i).width, payloadOf s.number (h i)⟩) } := by
  refine ⟨fun j k' hk' => ?_, hs.inj, fun j k' hk' hj => ?_, fun j k' hk' hj j' hj' => ?_, hs.valid⟩
  · rw [List.length_set]
    exact hs.bound j k' hk'
  · by_cases hji : j = i
    · subst hji
      obtain rfl := Option.some.inj (hk'.symm.trans hk)
      exact List.getElem?_set_self (hs.bound j k' hk)
    · have hne : k ≠ k' := fun heq => hji (hs.inj j i k' hk' (heq ▸ hk))
      refine (List.getElem?_set_ne hne).trans (hs.filled j k' hk' ?_)
      exact fun hmem => (List.mem_cons.1 hmem).elim hji hj
  · by_cases hji : j = i
    · subst hji
      exact hbelow j' hj'
    · exact hs.below j k' hk' (fun hmem => (List.mem_cons.1 hmem).elim hji hj) j' hj'

/-- **Every object with an expression is numbered.** -/
theorem numbers_encode (h : Heap n) (fuel : ℕ) : Numbers h fuel (encode h fuel) := by
  induction fuel with
  | zero =>
    intro opened i s _ _ hroom
    have := length_nodeIds_le s
    omega
  | succ fuel ih =>
    intro opened i s hvalid hs hroom
    rw [encode]
    cases hget : s.nodeIds.get? i with
    | some k => exact ⟨k, s, rfl, hs, fun _ _ hk => hk, hget, le_rfl⟩
    | none =>
      obtain ⟨hopen, hext⟩ := numbered_open hs hvalid hget
      have hlength : (s.nodeIds.set i s.nodes.length).length = s.nodeIds.length + 1 := by
        rw [length_set, hget]
        rfl
      obtain ⟨s', hpayload, hs', hext', hbelow, hlen⟩ := payloadReady ih hvalid (i :: opened)
        ⟨s.nodeIds.set i s.nodes.length, s.nodes ++ [none]⟩ hopen (by dsimp only; omega)
      have hk : s'.nodeIds.get? i = some s.nodes.length := hext' i _ (get?_set_self ..)
      refine ⟨s.nodes.length, _, ?_, numbered_close hs' hk hbelow, hext.trans hext', hk, ?_⟩
      · dsimp only
        rw [hpayload]
        rfl
      · dsimp only at hlen ⊢
        omega

/-- Outputs one after another. -/
theorem encodeOutputs_ok {outputs : List (String × Arg (Fin n))}
    (houtputs : ∀ o ∈ outputs, ∃ i, o.2 = .expr i ∧ Valid h i) (hs : Numbered h [] s) :
    ∃ outs s', encodeOutputs h outputs s = .ok (outs, s') ∧ Numbered h [] s' ∧ s.Extends s' ∧
      List.Forall₂ (fun o out => out.1 = o.1 ∧ ∃ i, o.2 = .expr i ∧ s'.nodeIds.get? i = some out.2)
        outputs outs := by
  induction outputs generalizing s with
  | nil => exact ⟨[], s, rfl, hs, fun _ _ hk => hk, .nil⟩
  | cons o outputs ih =>
    obtain ⟨name, arg⟩ := o
    obtain ⟨i, rfl, hvalid⟩ := houtputs _ (.head _)
    obtain ⟨k, s', hk, hs', hext, hget, -⟩ := numbers_encode h (n + 1) [] i s hvalid hs (Nat.le_add_left _ _)
    obtain ⟨outs, s'', hrest, hs'', hext', hall⟩ :=
      ih (fun o ho => houtputs o (.tail _ ho)) hs'
    refine ⟨(name, k) :: outs, s'', ?_, hs'', hext.trans hext', .cons ⟨rfl, i, rfl, hext' i k hget⟩ hall⟩
    rw [encodeOutputs, hk, ok_bind]
    dsimp only
    rw [hrest]
    rfl

/-! ## What a program means -/

/-- A named expression. -/
structure NamedExpr where
  name : String
  width : ℕ
  expr : BitExpr width

/-- **The expressions of a program's outputs.** -/
def Means (p : ConstraintProgram n) (outs : List NamedExpr) : Prop :=
  List.Forall₂ (fun o d => o.1 = d.name ∧ ∃ i, o.2 = .expr i ∧
    Unfolds (graph p.heap) (.node i) d.width d.expr) p.outputs outs

variable {p : ConstraintProgram n} {outs : List NamedExpr}

/-- A validated program has a meaning. -/
theorem exists_means (hv : p.validate = .ok ()) : ∃ outs, Means p outs := by
  obtain ⟨-, hobjects⟩ := valid_of_validate hv
  unfold Means
  revert hobjects
  generalize p.outputs = outputs
  intro hobjects
  induction outputs with
  | nil => exact ⟨[], .nil⟩
  | cons o outputs ih =>
    obtain ⟨outs, hall⟩ := ih fun o ho => hobjects o (.tail _ ho)
    obtain ⟨i, hi, w, a, ha⟩ := hobjects o (.head _)
    exact ⟨⟨o.1, w, a⟩ :: outs, .cons ⟨rfl, i, hi, ha⟩ hall⟩

/-- Two lists that go with a third. -/
theorem forall₂_join {α β γ : Type*} {R : α → β → Prop} {Q : α → γ → Prop} {S : β → γ → Prop}
    (hS : ∀ a b c, R a b → Q a c → S b c) {as : List α} {bs : List β} {cs : List γ}
    (hR : List.Forall₂ R as bs) (hQ : List.Forall₂ Q as cs) : List.Forall₂ S bs cs := by
  induction hR generalizing cs with
  | nil =>
    cases hQ
    exact .nil
  | cons hab _ ih =>
    cases hQ with
    | cons hac hQ => exact .cons (hS _ _ _ hab hac) (ih hQ)

/-- An output as the document gives it. -/
def Documented (D : Document) (d : NamedExpr) (out : String × ℕ) : Prop :=
  out.1 = d.name ∧ Unfolds (recordGraph D.nodes) (.node out.2) d.width d.expr

/-- **The document keeps the meaning.** -/
theorem document_means (hv : p.validate = .ok ()) (hmeans : Means p outs) :
    ∃ D, p.document = .ok D ∧ List.Forall₂ (Documented D) outs D.outputs := by
  obtain ⟨-, hobjects⟩ := valid_of_validate hv
  have hempty : Numbered p.heap [] ⟨empty, []⟩ :=
    ⟨fun _ _ hk => (by cases hk), fun _ _ _ hk => (by cases hk), fun _ _ hk => (by cases hk),
      fun _ _ hk => (by cases hk), fun _ _ hk => (by cases hk)⟩
  obtain ⟨outputs, s, hencode, hs, -, hall⟩ := encodeOutputs_ok hobjects hempty
  refine ⟨⟨"constraint_ir.v1", outputs, s.nodes⟩, ?_, ?_⟩
  · unfold ConstraintProgram.document
    rw [hv, ok_bind, hencode]
    rfl
  · have hrename : ∀ j ∈ {j | (s.nodeIds.get? j).isSome}, ∀ e, graph p.heap j = some e →
        recordGraph s.nodes (s.number j) = some (e.map s.number) ∧
          ∀ j', .expr j' ∈ e.args → j' ∈ {j | (s.nodeIds.get? j).isSome} := by
      intro j hj e he
      obtain ⟨k, hk⟩ := Option.isSome_iff_exists.1 hj
      obtain ⟨w, a, ha⟩ := hs.valid j k hk
      obtain rfl := heap_of_graph he
      refine ⟨?_, hs.below j k hk not_mem_nil⟩
      rw [number_of_get? hk, recordGraph, hs.filled j k hk not_mem_nil]
      exact toExpr_payloadOf ha he k
    refine forall₂_join ?_ hmeans hall
    rintro o d out ⟨hname, i, hi, ha⟩ ⟨hout, i', hi', hget⟩
    obtain rfl : i = i' := by
      rw [hi] at hi'
      exact Arg.expr.inj hi'
    refine ⟨hout.trans hname, ?_⟩
    have hk := ha.rename (φ := s.number) hrename (Option.isSome_iff_exists.2 ⟨out.2, hget⟩)
    rwa [Site.map, number_of_get? hget] at hk

/-- **A document has one meaning.** -/
theorem documented_unique {D : Document} {outs outs' : List NamedExpr}
    (hall : List.Forall₂ (Documented D) outs D.outputs)
    (hall' : List.Forall₂ (Documented D) outs' D.outputs) : outs = outs' := by
  refine left_unique_forall₂' ?_ hall hall'
  rintro ⟨name, w, a⟩ ⟨name', w', a'⟩ out ⟨hname, ha⟩ ⟨hname', ha'⟩
  obtain rfl : name = name' := hname.symm.trans hname'
  cases ha.unique ha'
  rfl

/-! ## Evaluation of a program -/

variable {inputs : Dict String Input}

/-- The integer that a name stands for. -/
def valueOf (inputs : Dict String Input) (name : String) : ℤ :=
  match inputs.get? name with
  | some (.int value) => value
  | _ => 0

/-- The name has an integer. -/
def IsInteger (inputs : Dict String Input) (name : String) : Prop :=
  ∃ value, inputs.get? name = some (.int value)

theorem readInput_eq_ok : readInput inputs name = .ok v ↔ inputs.get? name = some (.int v) := by
  unfold readInput
  split
  · rename_i hget
    rw [hget]
    exact ⟨fun hok => (by cases hok), fun hsome => (by cases hsome)⟩
  · rename_i hget
    rw [hget]
    exact ⟨fun hok => by rw [Except.ok.inj hok], fun hsome => by
      cases hsome
      rfl⟩
  · rename_i hget
    rw [hget]
    exact ⟨fun hok => (by cases hok), fun hsome => (by cases hsome)⟩

theorem valueOf_of_readInput (hread : readInput inputs name = .ok v) : valueOf inputs name = v := by
  unfold valueOf
  rw [readInput_eq_ok.1 hread]

/-- The value of a named expression. -/
def NamedExpr.run (inputs : Dict String Input) (d : NamedExpr) : Except Exn (String × ℕ) :=
  (d.expr.run (readInput inputs)).map fun v => (d.name, v.toNat)

/-- **Evaluating a program runs its expressions.** -/
theorem evaluate_eq (hv : p.validate = .ok ()) (hmeans : Means p outs) :
    evaluate p inputs = (do
      let values ← outs.mapM (NamedExpr.run inputs)
      return empty.update values) := by
  have hall : p.outputs.mapM (evaluateOutput p.heap inputs) = outs.mapM (NamedExpr.run inputs) := by
    unfold Means at hmeans
    generalize p.outputs = outputs at hmeans ⊢
    induction hmeans with
    | nil => rfl
    | @cons o d outputs outs hd _ ih =>
      obtain ⟨hname, i, hi, ha⟩ := hd
      have hempty : Sound p.heap inputs empty := fun j v hj => by cases hj
      have hbelow : Below p.heap (n + 1) [] (d.expr.size + 1) := ⟨Nat.le_add_left _ _, nodup_nil, nofun⟩
      have hreturns := evaluated_of_unfolds ha _ _ hbelow empty hempty
      have houtput : evaluateOutput p.heap inputs o = d.run inputs := by
        unfold evaluateOutput NamedExpr.run
        rw [hi]
        dsimp only
        cases hrun : d.expr.run (readInput inputs) with
        | error e =>
          rw [hrun] at hreturns
          rw [hreturns]
          rfl
        | ok v =>
          rw [hrun] at hreturns
          obtain ⟨_, memo, hexpr, rfl, -⟩ := hreturns
          rw [hexpr, hname]
          rfl
      rw [mapM_cons, mapM_cons, houtput, ih]
  unfold evaluate
  rw [hv, ok_bind, hall]

/-- The names of the outputs are distinct. -/
theorem nodup_names (hv : p.validate = .ok ()) (hmeans : Means p outs) : (outs.map NamedExpr.name).Nodup := by
  have hnames : outs.map NamedExpr.name = p.outputs.map Prod.fst := by
    unfold Means at hmeans
    generalize p.outputs = outputs at hmeans ⊢
    induction hmeans with
    | nil => rfl
    | cons hd _ ih => rw [map_cons, map_cons, ih, hd.1]
  rw [hnames]
  exact (valid_of_validate hv).1

/-- **Evaluation is the bit-vector semantics.** A validated program has an expression for every output,
which is evaluated to what it denotes where every name it reaches has an integer, and else not at all;
programs with the same document evaluate the same. -/
theorem evaluate_correct (p : ConstraintProgram n) (hv : p.validate = .ok ()) :
    ∃ outs, Means p outs ∧
      (∀ inputs, (∀ d ∈ outs, ∀ name ∈ d.expr.reached (valueOf inputs), IsInteger inputs name) →
        ∃ values, evaluate p inputs = .ok values ∧ values.length = outs.length ∧
          ∀ d ∈ outs, values.get? d.name = some (d.expr.denote (valueOf inputs)).toNat ∧
            (d.expr.denote (valueOf inputs)).toNat < 2 ^ d.width) ∧
      (∀ inputs e, evaluate p inputs = .error e →
        ∃ d ∈ outs, ∃ name ∈ d.expr.reached (valueOf inputs), ¬ IsInteger inputs name) ∧
      ∀ (m : ℕ) (q : ConstraintProgram m), q.document = p.document →
        ∀ inputs, evaluate q inputs = evaluate p inputs := by
  obtain ⟨outs, hmeans⟩ := exists_means hv
  refine ⟨outs, hmeans, fun inputs hint => ?_, fun inputs e herror => ?_, fun m q hdoc inputs => ?_⟩
  · have hrun : ∀ d ∈ outs, d.run inputs = .ok (d.name, (d.expr.denote (valueOf inputs)).toNat) := by
      intro d hd
      unfold NamedExpr.run
      rw [BitExpr.run_eq_ok (ρ := valueOf inputs)]
      · rfl
      · intro name hname
        obtain ⟨v, hget⟩ := hint d hd name hname
        have hread := readInput_eq_ok.2 hget
        rw [valueOf_of_readInput hread, hread]
    have hnodup := nodup_names hv hmeans
    have hkeys : ((outs.map fun d => (d.name, (d.expr.denote (valueOf inputs)).toNat)).map
        Prod.fst).Nodup := by
      rw [List.map_map]
      exact hnodup
    refine ⟨Dict.empty.update (outs.map fun d => (d.name, (d.expr.denote (valueOf inputs)).toNat)),
      ?_, ?_, fun d hd => ⟨?_, BitVec.isLt _⟩⟩
    · rw [evaluate_eq hv hmeans, mapM_of_ok hrun]
      rfl
    · rw [Dict.length_update hkeys]
      simp [Dict.empty, Dict.length, Dict.get?, Dict.lookup]
    · exact Dict.get?_update_of_mem hkeys _ (List.mem_map_of_mem hd)
  · by_contra! hall
    have hok : ∀ d ∈ outs, ∃ b, d.run inputs = .ok b := by
      intro d hd
      unfold NamedExpr.run
      cases hrun : d.expr.run (readInput inputs) with
      | ok v => exact ⟨_, rfl⟩
      | error x =>
        obtain ⟨name, hname, hno⟩ := BitExpr.exists_of_run_eq_error
          (fun _ _ => valueOf_of_readInput) hrun
        obtain ⟨v, hv⟩ := hall d hd name hname
        exact absurd (readInput_eq_ok.2 hv) (hno v)
    obtain ⟨values, hvalues⟩ := exists_mapM_eq_ok hok
    rw [evaluate_eq hv hmeans, hvalues] at herror
    cases herror
  · obtain ⟨D, hD, hall⟩ := document_means hv hmeans
    rw [hD] at hdoc
    obtain ⟨⟨⟩, hvq, -⟩ := bind_ok.1 hdoc
    obtain ⟨outs', hmeans'⟩ := exists_means hvq
    obtain ⟨D', hD', hall'⟩ := document_means hvq hmeans'
    obtain rfl : D = D' := Except.ok.inj (hdoc.symm.trans hD')
    obtain rfl := documented_unique hall hall'
    rw [evaluate_eq hv hmeans, evaluate_eq hvq hmeans']

/-- Two outputs that share a reference: `a & ~a` and `~a`. -/
def shared : ConstraintProgram 3 where
  heap := ![⟨.ref, 4, [.text "a"], by decide⟩, ⟨.not, 4, [.expr 0], by decide⟩,
    ⟨.and, 4, [.expr 0, .expr 1], by decide⟩]
  outputs := [("x", .expr 2), ("y", .expr 1)]

theorem shared_evaluates : shared.validate = .ok () ∧ ∃ outs, Means shared outs ∧
    ∀ inputs, (∀ d ∈ outs, ∀ name ∈ d.expr.reached (valueOf inputs), IsInteger inputs name) →
      ∃ values, evaluate shared inputs = .ok values ∧ values.length = outs.length ∧
        ∀ d ∈ outs, values.get? d.name = some (d.expr.denote (valueOf inputs)).toNat ∧
          (d.expr.denote (valueOf inputs)).toNat < 2 ^ d.width := by
  refine ⟨rfl, ?_⟩
  obtain ⟨outs, hmeans, hvalues, -, -⟩ := evaluate_correct shared rfl
  exact ⟨outs, hmeans, hvalues⟩

example : (evaluate shared (Dict.empty.set "a" (.int (-6)))).toOption.map Dict.entries =
    some [("x", 0), ("y", 5)] := by rfl

end ConstraintIr

end MyFuzz
