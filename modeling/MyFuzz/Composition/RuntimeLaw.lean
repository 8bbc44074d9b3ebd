import MyFuzz.Composition.RuntimeFields

/-!
# Composition/RuntimeLaw — when projected samples are legal

The fields of an accepted layout tile the raw sample, and the members of a port tile the port:

    raw   ──slices──▸ values ──zero gates──▸ result     slice f result = what `f` was given
    result ──slices──▸ ports                            every port bit is a bit of one of its fields

A sample is legal if every active field satisfies what its layout declares and every other one is zero.  That
fails in one case only: a field with an enumeration, a range and a mask is given values of the grid.
-/

namespace MyFuzz

open Dict

open List hiding getD

variable {width : ℕ}

/-! ## Instruction payloads -/

namespace RiscvInstructionTransducer

variable {x : RiscvInstructionTransducer}

open Outcome in
/-- **A payload is repaired to a legal word of its width.** -/
theorem repairPayload_legal (havailable : ∃ t ∈ x.templates, t.width = width) (payload : ℕ) :
    ∃ choice, x.repairPayload payload width false = .ok choice ∧ choice.word < 2 ^ width ∧
      x.provider.isLegalWord choice.word (width = 16) = true := by
  have hwidth : (width : ℤ) = 16 ∨ (width : ℤ) = 32 := by
    obtain ⟨t, ht, rfl⟩ := havailable
    have hmem := (valid_templates x t ht).2.2.1
    simp only [mem_cons, not_mem_nil, or_false] at hmem
    omega
  have hselector : payload >>> (width - selectorWidth) &&& (2 ^ selectorWidth - 1) < 2 ^ selectorWidth :=
    Nat.and_lt_two_pow _ (by decide)
  have hselector : (0 : ℤ) ≤ (payload >>> (width - selectorWidth) &&& (2 ^ selectorWidth - 1) : ℕ) ∧
      ((payload >>> (width - selectorWidth) &&& (2 ^ selectorWidth - 1) : ℕ) : ℤ) < 2 ^ selectorWidth :=
    ⟨Int.natCast_nonneg _, by exact_mod_cast hselector⟩
  obtain ⟨choice, hmem, hrepair⟩ := x.repair_eq hselector hwidth
    (havailable.imp fun t ht => ⟨ht.1, by exact_mod_cast ht.2⟩) false
  rcases mem_choices hmem with ⟨t, ht, htw, rfl⟩ | ⟨-, hillegal⟩
  · obtain ⟨hw, hmatches, hsettled, -⟩ := repairedWord_spec ht payload
    have htw : t.width = width := by exact_mod_cast htw
    subst htw
    have hchoice : x.repairPayload payload t.width false = x.repairTemplate t payload := by
      unfold repairPayload
      rw [ensure_of (Int.natCast_nonneg payload), ok_bind, ensure_of hwidth, ok_bind]
      exact hrepair payload
    rw [hchoice, repairTemplate_eq ht payload]
    exact ⟨_, rfl, hw, isLegalWord_of_settled ht hw hmatches hsettled⟩
  · cases hillegal

end RiscvInstructionTransducer

namespace Composition

open BitField Outcome Packing

/-! ## Accepted layouts -/

variable {fields : List LayoutField} {raw : ℕ}

/-- The places of the raw-bit uses follow each other. -/
theorem contiguous_of_validateUse {start stop : ℕ}
    (hwidth : ∀ field ∈ fields, field.rawLo + field.width = field.rawHi + 1)
    (h : fields.foldlM validateUse start = .ok stop) :
    Contiguous LayoutField.rawLo LayoutField.width start fields stop ∧ ∀ field ∈ fields, 0 < field.width := by
  induction fields generalizing start with
  | nil => exact ⟨Except.ok.inj h, nofun⟩
  | cons field rest ih =>
    rw [foldlM_cons] at h
    obtain ⟨next, hnext, h⟩ := bind_ok.1 h
    obtain ⟨⟨hlo, hle⟩, -, hnext⟩ := ensure_ok₂ hnext
    cases hnext
    have hfield := hwidth field (.head _)
    obtain ⟨hrest, hpos⟩ := ih (fun other hin => hwidth other (.tail _ hin)) h
    refine ⟨⟨hlo, ?_⟩, fun other hin => ?_⟩
    · rw [← hlo, hfield]
      exact hrest
    · rcases mem_cons.1 hin with rfl | hin
      · omega
      · exact hpos other hin

/-- **The fields of a layout tile the raw sample.** -/
theorem tiles_of_validateTotalUse {layout : InputLayout} {u : Unit}
    (hwidth : ∀ field ∈ layout.fields, field.rawLo + field.width = field.rawHi + 1)
    (h : layout.validateTotalUse = .ok u) :
    layout.fields.Pairwise (Packing.Apart LayoutField.rawLo LayoutField.width) ∧
      ∀ field ∈ layout.fields, 0 < field.width ∧ field.rawLo + field.width ≤ layout.rawWidth := by
  obtain ⟨-, h⟩ := ensure_ok.1 h
  obtain ⟨cursor, hcursor, h⟩ := bind_ok.1 h
  have hstop := ensure_eq_ok.1 h
  have hperm := perm_insertionSort (fun a b : LayoutField => a.rawLo ≤ b.rawLo) layout.fields
  obtain ⟨htiles, hpos⟩ := contiguous_of_validateUse
    (fun field hin => hwidth field (hperm.mem_iff.1 hin)) hcursor
  refine ⟨(hperm.pairwise_iff fun h => Or.symm h).1 htiles.apart, fun field hin => ?_⟩
  have hin := hperm.mem_iff.2 hin
  exact ⟨hpos field hin, hstop ▸ (htiles.bounds.2 field hin).2⟩

/-- **What an accepted layout keeps.** -/
structure RuntimeProjector.Accepted (isa : Option IsaContract) (p : RuntimeProjector) : Prop where
  checked : ∀ f ∈ p.fields, f.Checked (p.fields.map RuntimeField.field) isa
  ids : (p.fields.map fun f => f.field.fieldId).Nodup
  width_pos : ∀ f ∈ p.fields, 0 < f.field.width
  apart : p.fields.Pairwise (Packing.Apart (fun f => f.field.rawLo) fun f => f.field.width)
  inside : ∀ f ∈ p.fields, f.field.rawLo + f.field.width ≤ p.rawWidth
  transducer : ∀ contract, isa = some contract → ∀ h : contract.SupportsLegalInstructionValidation,
    p.transducer = some ⟨contract, h⟩
  bindings : validatePortBindings (p.fields.map RuntimeField.field) = .ok ()

/-- **The constructor accepts checked layouts only.** -/
theorem RuntimeProjector.accepted {layout : InputLayout} {isa : Option IsaContract}
    {requireCompilerProvenance : Bool} {p : RuntimeProjector}
    (h : RuntimeProjector.new layout isa requireCompilerProvenance = .ok p) :
    p.Accepted isa ∧ p.rawWidth = layout.rawWidth ∧ p.fields.map RuntimeField.field = layout.fields := by
  obtain ⟨hwidth, h⟩ := ensure_ok.1 h
  obtain ⟨u, huse, h⟩ := bind_ok.1 h
  obtain ⟨hids, h⟩ := ensure_ok.1 h
  obtain ⟨fields, hfields, _, hports, h⟩ := bind_ok₂ h
  cases h
  obtain ⟨hapart, hinside⟩ := tiles_of_validateTotalUse hwidth huse
  have hmap : fields.map RuntimeField.field = layout.fields := by
    have hall := mapM_eq_ok.1 hfields
    refine forall₂_eq_eq_eq ▸ forall₂_map_left_iff.2 (hall.flip.imp ?_)
    exact fun f field hcheck => (LayoutField.check_eq_ok hcheck).1
  have hin : ∀ f ∈ fields, f.field ∈ layout.fields := by
    intro f hf
    rw [← hmap]
    exact mem_map_of_mem hf
  refine ⟨⟨fun f hf => ?_, ?_, fun f hf => (hinside _ (hin f hf)).1, ?_,
    fun f hf => (hinside _ (hin f hf)).2, ?_, ?_⟩, rfl, hmap⟩
  · obtain ⟨field, -, hcheck⟩ := mem_of_mapM_eq_ok hfields hf
    rw [hmap]
    exact (LayoutField.check_eq_ok hcheck).2
  · rw [← hmap, map_map] at hids
    exact hids
  · rw [← hmap] at hapart
    exact (pairwise_map (f := RuntimeField.field)).1 hapart
  · rintro contract rfl hsupports
    simp only [Option.bind_some, dif_pos hsupports]
  · rw [hmap]
    exact hports

/-! ## Projected values -/

/-- The base set has operations of 32 bits, and the compressed set of 16. -/
theorem exists_template {contract : IsaContract} (h : contract.SupportsLegalInstructionValidation)
    (hwidth : width = 16 ∨ width = 32)
    (hcompressed : width = 16 → "C" ∈ contract.extensions ∧ contract.instructionAlignment = 2) :
    ∃ t ∈ (⟨contract, h⟩ : RiscvInstructionTransducer).templates, t.width = width := by
  rcases hwidth with rfl | rfl
  · refine ⟨compressedTemplate "C.LW" 0 2 0 0, mem_append_right _ ?_, rfl⟩
    rw [if_pos (hcompressed rfl)]
    simp [cTemplates]
  · refine ⟨baseTemplate "ADDI" "I" 0x13 (some 0) none 0 0,
      mem_append_left _ (mem_append_left _ ?_), rfl⟩
    simp [iTemplates, funct3Forms, opImmForms]

namespace RuntimeProjector

variable {p : RuntimeProjector} {isa : Option IsaContract} {f g : RuntimeField}

/-- The value of a field. -/
def emitted (p : RuntimeProjector) (raw : ℕ) (f : RuntimeField) : ℕ :=
  (f.value p.transducer raw).toOption.getD 0

/-- **Every field has a value, which fits it and is legal if it is an instruction.** -/
theorem Accepted.value_eq (hp : p.Accepted isa) (hf : f ∈ p.fields) (raw : ℕ) :
    f.value p.transducer raw = .ok (p.emitted raw f) ∧ p.emitted raw f < 2 ^ f.field.width ∧
    (f.field.encoding = "riscv_imc" → ∃ x, p.transducer = some x ∧
      x.provider.isLegalWord (p.emitted raw f) (f.field.width = 16) = true) ∧
    (f.field.encoding ≠ "riscv_imc" → p.emitted raw f = f.select (f.slice raw)) := by
  by_cases hencoding : f.field.encoding = "riscv_imc"
  · obtain ⟨-, contract, hisa, hsupports, hwidth, hcompressed⟩ := (hp.checked f hf).instruction hencoding
    have htransducer := hp.transducer contract hisa hsupports
    obtain ⟨choice, hrepair, hlt, hlegal⟩ := RiscvInstructionTransducer.repairPayload_legal
      (exists_template hsupports hwidth hcompressed) (f.select (f.slice raw))
    have hvalue : f.value p.transducer raw = .ok choice.word := by
      unfold RuntimeField.value
      rw [if_pos hencoding, htransducer]
      simp only [hrepair, ok_bind]
      rfl
    have hemitted : p.emitted raw f = choice.word := by
      rw [emitted, hvalue]
      rfl
    rw [hemitted]
    exact ⟨hvalue, hlt, fun _ => ⟨_, htransducer, hlegal⟩, fun hne => absurd hencoding hne⟩
  · have hvalue : f.value p.transducer raw = .ok (f.select (f.slice raw)) := by
      unfold RuntimeField.value
      rw [if_neg hencoding]
    have hemitted : p.emitted raw f = f.select (f.slice raw) := by
      rw [emitted, hvalue]
      rfl
    rw [hemitted]
    refine ⟨hvalue, ?_, fun heq => absurd heq hencoding, fun _ => rfl⟩
    unfold RuntimeField.select
    split_ifs
    · exact RuntimeField.bits_lt _
    · exact RuntimeField.bits_lt _

/-- The values of all fields by their names. -/
def values (p : RuntimeProjector) (raw : ℕ) : Dict String ℕ :=
  Dict.empty.update (p.fields.map fun f => (f.field.fieldId, p.emitted raw f))

/-- What a field is given in the result. -/
def final (p : RuntimeProjector) (raw : ℕ) : RuntimeField → ℕ := gated (p.values raw)

section

variable (hp : p.Accepted isa) (hf : f ∈ p.fields)

include hp hf

theorem Accepted.getD_values (raw : ℕ) :
    (p.values raw).getD f.field.fieldId 0 = p.emitted raw f := by
  have hkeys : ((p.fields.map fun f => (f.field.fieldId, p.emitted raw f)).map Prod.fst).Nodup := by
    rw [List.map_map]
    exact hp.ids
  rw [getD, values, get?_update_of_mem hkeys _
    (List.mem_map_of_mem (f := fun f => (f.field.fieldId, p.emitted raw f)) hf)]
  rfl

/-- A field without a gate is given its value. -/
theorem Accepted.final_of_ungated
    (h : f.constraint.gatedBy = none) (raw : ℕ) : p.final raw f = p.emitted raw f := by
  rw [final, gated, h]
  exact hp.getD_values hf raw

/-- A gated field is given its value when the gate's is not zero. -/
theorem Accepted.final_of_gated (hg : g ∈ p.fields)
    (h : f.constraint.gatedBy = some g.field.fieldId) (raw : ℕ) :
    p.final raw f = if p.emitted raw g = 0 then 0 else p.emitted raw f := by
  rw [final, gated, h]
  simp only [hp.getD_values hg, hp.getD_values hf]

/-- **The gate of a field is a field of one bit, without a gate of its own.** -/
theorem Accepted.exists_gate {gate : String}
    (h : f.constraint.gatedBy = some gate) : ∃ g ∈ p.fields, g.field.fieldId = gate ∧ g.field.width = 1 ∧
      g.constraint.gatedBy = none ∧ g.field.encoding ≠ "riscv_imc" ∧ g.field.role ≠ f.field.role := by
  obtain ⟨hrole, other, hin, hid, hwidth, hvalid⟩ := (hp.checked f hf).gate gate h
  obtain ⟨g, hg, rfl⟩ := mem_map.1 hin
  refine ⟨g, hg, hid, hwidth, ?_, fun hencoding => ?_, fun heq => hrole (heq ▸ hvalid)⟩
  · cases hgate : g.constraint.gatedBy with
    | none => rfl
    | some name => exact absurd hvalid ((hp.checked g hg).gate name hgate).1
  · obtain ⟨-, contract, -, -, hwide, -⟩ := (hp.checked g hg).instruction hencoding
    omega

theorem Accepted.final_lt (raw : ℕ) :
    p.final raw f < 2 ^ f.field.width := by
  have hlt := (hp.value_eq hf raw).2.1
  cases hgate : f.constraint.gatedBy with
  | none => rwa [hp.final_of_ungated hf hgate]
  | some gate =>
    obtain ⟨g, hg, rfl, -⟩ := hp.exists_gate hf hgate
    rw [hp.final_of_gated hf hg hgate]
    split_ifs
    · exact Nat.two_pow_pos _
    · exact hlt

end

/-- The word that a projection returns. -/
def projected (p : RuntimeProjector) (raw : ℕ) : ℕ :=
  pack (fun f : RuntimeField => f.field.rawLo) (p.final raw) p.fields

/-- **Projection returns for every raw sample.** -/
theorem Accepted.project_eq (hp : p.Accepted isa) (h : raw < 2 ^ p.rawWidth) :
    p.project raw = .ok (p.projected raw) := by
  have hraw : (0 : ℤ) ≤ raw ∧ (raw : ℤ) < 2 ^ p.rawWidth := ⟨Int.natCast_nonneg raw, by exact_mod_cast h⟩
  have hfold : p.fields.foldlM (fun (values : Dict String ℕ) f => do
      let value ← f.value p.transducer raw
      return values.set f.field.fieldId value) empty = .ok (p.values raw) := by
    rw [values, update, foldl_map]
    refine foldlM_of_ok (fun f hf values => ?_) _
    rw [(hp.value_eq hf raw).1, ok_bind]
    rfl
  unfold project
  rw [ensure_of hraw, ok_bind, Int.toNat_natCast, hfold, ok_bind]
  rfl

/-- **The result holds what each field was given.** -/
theorem Accepted.slice_projected (hp : p.Accepted isa) (hf : f ∈ p.fields) (raw : ℕ) :
    f.slice (p.projected raw) = p.final raw f :=
  readSegment_pack (fun _ hg => hp.final_lt hg raw) hp.apart hf

theorem Accepted.projected_lt (hp : p.Accepted isa) (raw : ℕ) : p.projected raw < 2 ^ p.rawWidth :=
  pack_lt (fun _ hg => hp.final_lt hg raw) hp.inside

end RuntimeProjector

/-! ## Ports -/

/-- The members of a port follow each other. -/
theorem contiguous_of_validateMember {port : String} {fields : List LayoutField} {start : ℕ} {stop : ℤ}
    (hcoordinates : ∀ field ∈ fields, ∀ low, field.portRawLo = some low →
      field.portRawHi.getD 0 + 1 = low + field.width)
    (h : fields.foldlM (validateMember port) (start : ℤ) = .ok stop) :
    ∃ last : ℕ, Contiguous LayoutField.portOffset LayoutField.width start fields last := by
  induction fields generalizing start with
  | nil => exact ⟨start, rfl⟩
  | cons field rest ih =>
    rw [foldlM_cons] at h
    obtain ⟨next, hnext, h⟩ := bind_ok.1 h
    obtain ⟨hlow, hnext⟩ := ensure_ok.1 hnext
    have hnext := Except.ok.inj hnext
    rw [hcoordinates field mem_cons_self _ hlow, ← Nat.cast_add] at hnext
    rw [← hnext] at h
    obtain ⟨last, hrest⟩ := ih (fun other hin => hcoordinates other (.tail _ hin)) h
    refine ⟨last, ?_, hrest⟩
    rw [LayoutField.portOffset, hlow]
    rfl

/-- **A port is one whole field, or its members are apart.** -/
theorem port_of_bindings (h : validatePortBindings fields = .ok ()) {field : LayoutField}
    (hin : field ∈ fields) (hport : field.port ≠ "") :
    (fields.filter fun other => other.port = field.port).Pairwise
        (Packing.Apart LayoutField.portOffset LayoutField.width) ∧
      (field.memberPath = [] → field.portOffset = 0 ∧
        (fields.filter fun other => other.port = field.port).length = 1) := by
  obtain ⟨u, hcoordinates, h⟩ := bind_ok.1 h
  have hcoordinates := forM_eq_ok.1 hcoordinates
  have hgroup : (fields.filter fun other => other.port ≠ "").filter (fun other => other.port = field.port)
      = fields.filter fun other => other.port = field.port := by
    rw [filter_filter]
    refine filter_congr fun other _ => ?_
    by_cases heq : other.port = field.port
    · simp [heq, hport]
    · simp [heq]
  have hbound : ∀ other ∈ fields.filter (fun other => other.port = field.port),
      other ∈ fields.filter fun other => other.port ≠ "" := by
    intro other hother
    rw [← hgroup] at hother
    exact (mem_filter.1 hother).1
  have hself : field ∈ fields.filter fun other => other.port = field.port :=
    mem_filter.2 ⟨hin, decide_eq_true rfl⟩
  have hcheck := forM_eq_ok.1 h field.port (Sequence.mem_firsts.2 (mem_map_of_mem (hbound _ hself)))
  rw [hgroup] at hcheck
  obtain ⟨hmixed, hcheck⟩ := ensure_ok.1 hcheck
  cases hmembers : (fields.filter fun other => other.port = field.port).filter
      (fun other => other.memberPath ≠ []) with
  | nil =>
    rw [hmembers] at hcheck
    have hone := ensure_eq_ok.1 hcheck
    obtain ⟨single, hsingle⟩ := length_eq_one_iff.1 hone
    rw [hsingle]
    refine ⟨pairwise_singleton _ _, fun hwhole => ⟨?_, rfl⟩⟩
    have hfield := hcoordinates field (hbound _ hself)
    rw [LayoutField.checkCoordinates, if_pos hwhole] at hfield
    rw [LayoutField.portOffset, (ensure_eq_ok.1 hfield).1]
    rfl
  | cons first rest =>
    -- every field of the port is a member
    have hall : ∀ other ∈ fields.filter (fun other => other.port = field.port), other.memberPath ≠ [] := by
      rw [hmembers] at hmixed
      have hlength := hmixed.resolve_left (by simp)
      rw [← hmembers] at hlength
      have hsame := filter_sublist.eq_of_length hlength
      intro other hother
      rw [← hsame] at hother
      exact of_decide_eq_true (mem_filter.1 hother).2
    refine ⟨?_, fun hwhole => absurd hwhole (hall field hself)⟩
    have hmembers' := filter_eq_self.2 fun other hother => decide_eq_true (hall other hother)
    rw [hmembers'] at hmembers
    rw [hmembers'] at hcheck
    rw [hmembers] at hcheck ⊢
    obtain ⟨-, hcheck⟩ := ensure_ok.1 hcheck
    obtain ⟨cursor, hcursor, -⟩ := bind_ok.1 hcheck
    have hperm := perm_insertionSort
      (fun a b : LayoutField => a.portRawLo.getD 0 ≤ b.portRawLo.getD 0) (first :: rest)
    have hwidth : ∀ other ∈ (first :: rest).insertionSort
        (fun a b : LayoutField => a.portRawLo.getD 0 ≤ b.portRawLo.getD 0), ∀ low,
        other.portRawLo = some low → other.portRawHi.getD 0 + 1 = low + other.width := by
      intro other hother low hlow
      have hother : other ∈ fields.filter fun other => other.port = field.port :=
        hmembers ▸ hperm.mem_iff.1 hother
      have hother' := hcoordinates other (hbound other hother)
      rw [LayoutField.checkCoordinates, if_neg (hall other hother), hlow] at hother'
      cases hhigh : other.portRawHi with
      | none => rw [hhigh] at hother'; cases hother'
      | some high =>
        cases hport : other.portWidth with
        | none => rw [hhigh, hport] at hother'; cases hother'
        | some width =>
          rw [hhigh, hport] at hother'
          obtain ⟨-, -, -, heq⟩ := ensure_eq_ok.1 hother'
          rw [Option.getD_some]
          linarith
    obtain ⟨last, htiles⟩ := @contiguous_of_validateMember field.port _ 0 cursor hwidth hcursor
    exact (hperm.pairwise_iff fun h => Or.symm h).1 htiles.apart

namespace RuntimeProjector

variable {p : RuntimeProjector} {isa : Option IsaContract} {f : RuntimeField}

/-- Join a field that has a port. -/
def join (projected : ℕ) (ports : Dict String ℕ) (f : RuntimeField) : Dict String ℕ :=
  if f.field.memberPath = [] then ports.set f.field.port (f.slice projected)
  else ports.set f.field.port (ports.getD f.field.port 0 ||| f.slice projected <<< f.field.portOffset)

/-- The word of one port. -/
def portWord (projected : ℕ) (fields : List RuntimeField) (port : String) : ℕ :=
  pack (fun f : RuntimeField => f.field.portOffset) (fun f => f.slice projected)
    (fields.filter fun f => f.field.port = port)

/-- **Joining the fields gives every port the word of its fields.** -/
theorem get?_join {projected : ℕ} {fields : List RuntimeField}
    (hwhole : ∀ before f after, fields = before ++ f :: after → f.field.memberPath = [] →
      f.field.portOffset = 0 ∧ before.filter (fun g => g.field.port = f.field.port) = [])
    (port : String) : (fields.foldl (join projected) empty).get? port =
      if ∃ f ∈ fields, f.field.port = port then some (portWord projected fields port) else none := by
  induction fields using List.reverseRecOn with
  | nil => rfl
  | append_singleton fields f ih =>
    have ih := ih fun before g after heq =>
      hwhole before g (after ++ [f]) (by rw [heq, List.append_assoc, List.cons_append])
    rw [List.foldl_concat, join]
    by_cases hport : f.field.port = port
    · have hex : ∃ g ∈ fields ++ [f], g.field.port = port :=
        ⟨f, List.mem_append_right _ (.head _), hport⟩
      have hfilter : (fields ++ [f]).filter (fun g => g.field.port = port) =
          fields.filter (fun g => g.field.port = port) ++ [f] := by
        rw [List.filter_append, List.filter_cons_of_pos (by simpa using hport), List.filter_nil]
      rw [if_pos hex, portWord, hfilter, pack_concat]
      split_ifs with hmember
      · obtain ⟨hoffset, hbefore⟩ := hwhole fields f [] rfl hmember
        rw [← hport, get?_set_self, hbefore, hoffset, Nat.shiftLeft_zero]
        exact congrArg some (Nat.zero_or _).symm
      · rw [← hport, get?_set_self, hport, getD, ih]
        split_ifs with hold
        · rfl
        · have hempty : fields.filter (fun g => g.field.port = port) = [] := by
            rw [List.filter_eq_nil_iff]
            exact fun g hg heq => hold ⟨g, hg, of_decide_eq_true heq⟩
          rw [hempty]
          rfl
    · have hfilter : (fields ++ [f]).filter (fun g => g.field.port = port) =
          fields.filter (fun g => g.field.port = port) := by
        rw [List.filter_append, List.filter_cons_of_neg (by simpa using hport), List.filter_nil,
          List.append_nil]
      have hex : (∃ g ∈ fields ++ [f], g.field.port = port) ↔ ∃ g ∈ fields, g.field.port = port := by
        constructor
        · rintro ⟨g, hg, heq⟩
          rcases List.mem_append.1 hg with hg | hg
          · exact ⟨g, hg, heq⟩
          · exact absurd (List.mem_singleton.1 hg ▸ heq) hport
        · rintro ⟨g, hg, heq⟩
          exact ⟨g, List.mem_append_left _ hg, heq⟩
      have hother : (if f.field.memberPath = [] then
          (fields.foldl (join projected) empty).set f.field.port (f.slice projected)
        else (fields.foldl (join projected) empty).set f.field.port
          ((fields.foldl (join projected) empty).getD f.field.port 0 |||
            f.slice projected <<< f.field.portOffset)).get? port =
          (fields.foldl (join projected) empty).get? port := by
        split_ifs
        · exact get?_set_of_ne _ (Ne.symm hport) _
        · exact get?_set_of_ne _ (Ne.symm hport) _
      rw [hother, ih, portWord, portWord, hfilter]
      simp only [hex]

/-- **Ports that are put together from exactly their fields' bits of a word.** -/
structure Assembled (p : RuntimeProjector) (projected : ℕ) (ports : Dict String ℕ) : Prop where
  /-- The bits of a field are read back from its port. -/
  driven : ∀ f ∈ p.fields, ∃ word, ports.get? f.field.port = some word ∧
    readSegment word f.field.portOffset f.field.width = f.slice projected
  /-- A port has no other bits. -/
  exact : ∀ port word, ports.get? port = some word → ∀ i, word.testBit i = true →
    ∃ f ∈ p.fields, f.field.port = port ∧ f.field.portOffset ≤ i ∧ i < f.field.portOffset + f.field.width

/-- **The ports of a projected word, when every field has one.** -/
theorem Accepted.projectPorts_eq (hp : p.Accepted isa) (hports : ∀ f ∈ p.fields, f.field.port ≠ "")
    (h : raw < 2 ^ p.rawWidth) :
    ∃ ports, p.projectPorts raw = .ok ports ∧ p.Assembled (p.projected raw) ports := by
  have hjoin : p.projectPorts raw = .ok (p.fields.foldl (join (p.projected raw)) empty) := by
    unfold projectPorts
    rw [hp.project_eq h, ok_bind]
    refine foldlM_of_ok (fun f hf ports => ?_) _
    unfold joinPort join
    rw [ensure_of (hports f hf), ok_bind]
    split_ifs <;> rfl
  have hbinding : ∀ f ∈ p.fields, (p.fields.filter fun g => g.field.port = f.field.port).Pairwise
      (Packing.Apart (fun g => g.field.portOffset) fun g => g.field.width) ∧
      (f.field.memberPath = [] → f.field.portOffset = 0 ∧
        (p.fields.filter fun g => g.field.port = f.field.port).length = 1) := by
    intro f hf
    obtain ⟨hapart, hwhole⟩ := port_of_bindings hp.bindings (mem_map_of_mem hf) (hports f hf)
    rw [filter_map] at hapart hwhole
    rw [length_map] at hwhole
    exact ⟨(pairwise_map (f := RuntimeField.field)).1 hapart, hwhole⟩
  have hwhole : ∀ before f after, p.fields = before ++ f :: after → f.field.memberPath = [] →
      f.field.portOffset = 0 ∧ before.filter (fun g => g.field.port = f.field.port) = [] := by
    intro before f after heq hwhole
    have hf : f ∈ p.fields := heq ▸ mem_append_right _ (.head _)
    obtain ⟨hoffset, hone⟩ := (hbinding f hf).2 hwhole
    refine ⟨hoffset, ?_⟩
    rw [heq, filter_append, filter_cons_of_pos (by simp), length_append,
      length_cons] at hone
    exact length_eq_zero_iff.1 (by omega)
  have hget := @get?_join (p.projected raw) p.fields hwhole
  refine ⟨_, hjoin, fun f hf => ?_, fun port word hword i hi => ?_⟩
  · refine ⟨portWord (p.projected raw) p.fields f.field.port, ?_, ?_⟩
    · rw [hget, if_pos ⟨f, hf, rfl⟩]
    · have hfit : ∀ g ∈ p.fields.filter (fun g => g.field.port = f.field.port),
          g.slice (p.projected raw) < 2 ^ g.field.width := fun g _ => readSegment_lt _ _ _
      exact readSegment_pack hfit (hbinding f hf).1 (mem_filter.2 ⟨hf, decide_eq_true rfl⟩)
  · rw [hget] at hword
    split_ifs at hword
    cases hword
    obtain ⟨f, hf, hle, hbit⟩ := testBit_pack.1 hi
    obtain ⟨hin, hport⟩ := mem_filter.1 hf
    have hlt := lt_of_testBit (readSegment_lt (p.projected raw) f.field.rawLo f.field.width) hbit
    exact ⟨f, hin, of_decide_eq_true hport, hle, by omega⟩

end RuntimeProjector

/-! ## Legal samples -/

/-- **What a layout declares of the value of a field, all together.** -/
structure RuntimeField.Satisfies (transducer : Option RiscvInstructionTransducer) (f : RuntimeField)
    (value : ℕ) : Prop where
  range : ∀ low high, f.field.constraint.get? "range" = some (.sequence [some low, some high]) →
    low ≤ f.number value ∧ f.number value ≤ high
  aligned : ∀ n : ℤ, f.field.constraint.get? "alignment" = some (.int n) → n ∣ f.number value
  enum : ∀ items, f.field.constraint.get? "enum" = some (.sequence items) → some (f.number value) ∈ items
  masked : ∀ n : ℤ, f.field.constraint.get? "mask" = some (.int n) → value &&& n.toNat = value
  legal : f.field.encoding = "riscv_imc" → ∃ x, transducer = some x ∧
    x.provider.isLegalWord value (f.field.width = 16) = true

namespace RuntimeProjector

variable (p : RuntimeProjector) {isa : Option IsaContract} {f : RuntimeField}

/-- The gate of a field is absent or not zero. -/
def Active (result : ℕ) (f : RuntimeField) : Prop :=
  ∀ gate, f.field.constraint.get? "gated_by" = some (.text gate) →
    ∃ g ∈ p.fields, g.field.fieldId = gate ∧ g.slice result ≠ 0

/-- **A legal sample.** -/
structure LegalSample (result : ℕ) : Prop where
  below : result < 2 ^ p.rawWidth
  satisfied : ∀ f ∈ p.fields, p.Active result f → f.Satisfies p.transducer (f.slice result)
  silent : ∀ f ∈ p.fields, ¬ p.Active result f → f.slice result = 0

/-- **Every raw sample is projected to a legal one and put together to its ports.** -/
def EmitsLegal : Prop :=
  ∀ raw : ℕ, raw < 2 ^ p.rawWidth → ∃ result, p.project raw = .ok result ∧ p.LegalSample result ∧
    ((∀ f ∈ p.fields, f.field.port ≠ "") → ∃ ports, p.projectPorts raw = .ok ports ∧ p.Assembled result ports)

/-- The gate of a field is absent, or its constraint allows a value that is not zero. -/
def CanOpen (f : RuntimeField) : Prop :=
  ∀ gate, f.constraint.gatedBy = some gate →
    ∃ g ∈ p.fields, g.field.fieldId = gate ∧ ∃ value ≠ 0, g.Selectable value

/-- The value of a grid that a source selects. -/
def gridValue (f : RuntimeField) (low high : ℤ) (mask source : ℕ) : ℤ :=
  let grid := f.field.grid f.constraint.alignment low high mask
  (grid[source % grid.length]?).getD 0

/-- **An enumeration beside a range and a mask has the values of the grid that sources select.** -/
def EnumeratesGrids : Prop :=
  ∀ f ∈ p.fields, ∀ e mask low high, f.constraint.enum = some e → f.constraint.mask = some mask →
    f.constraint.bounds = some (low, high) → p.CanOpen f →
    ∀ source < 2 ^ f.field.width, gridValue f low high mask (source &&& mask) ∈ e

variable {p}

theorem Accepted.eq_of_id (hp : p.Accepted isa) {g h : RuntimeField} (hg : g ∈ p.fields) (hh : h ∈ p.fields)
    (heq : g.field.fieldId = h.field.fieldId) : g = h :=
  inj_on_of_nodup_map hp.ids hg hh heq

/-- An active field is given its value, and its gate can open. -/
theorem Accepted.final_of_active (hp : p.Accepted isa) (hf : f ∈ p.fields)
    (h : p.Active (p.projected raw) f) : p.final raw f = p.emitted raw f ∧ p.CanOpen f := by
  cases hgate : f.constraint.gatedBy with
  | none => exact ⟨hp.final_of_ungated hf hgate raw, fun gate heq => by rw [hgate] at heq; cases heq⟩
  | some gate =>
    obtain ⟨g, hg, rfl, hwidth, hungated, hencoding, -⟩ := hp.exists_gate hf hgate
    obtain ⟨g', hg', hid, hopen⟩ := h _ (((hp.checked f hf).readsGate _).2 hgate)
    obtain rfl := hp.eq_of_id hg' hg hid
    rw [hp.slice_projected hg, hp.final_of_ungated hg hungated] at hopen
    refine ⟨by rw [hp.final_of_gated hf hg hgate, if_neg hopen], fun gate heq => ⟨g', hg, ?_, ?_⟩⟩
    · rw [hgate] at heq
      exact Option.some.inj heq
    · rw [(hp.value_eq hg raw).2.2.2 hencoding] at hopen
      have hlt := readSegment_lt raw g'.field.rawLo g'.field.width
      rw [hwidth] at hlt
      refine ((hp.checked g' hg).exists_select_ne_zero hwidth).1 ⟨g'.slice raw, ?_, hopen⟩
      rwa [RuntimeField.slice, hwidth]

/-- A field that is not active is given zero. -/
theorem Accepted.final_of_not_active (hp : p.Accepted isa) (hf : f ∈ p.fields)
    (h : ¬ p.Active (p.projected raw) f) : p.final raw f = 0 := by
  unfold Active at h
  push Not at h
  obtain ⟨gate, hget, hzero⟩ := h
  have hgate := ((hp.checked f hf).readsGate gate).1 hget
  obtain ⟨g, hg, rfl, -, hungated, -⟩ := hp.exists_gate hf hgate
  have hclosed := hzero g hg rfl
  rw [hp.slice_projected hg, hp.final_of_ungated hg hungated] at hclosed
  rw [hp.final_of_gated hf hg hgate, if_pos hclosed]

/-- An instruction field declares no number. -/
theorem instruction_get? {key : String} (h : f.field.InstructionOk isa) (hne : key ≠ "randomizable")
    {value : ConstraintValue} : f.field.constraint.get? key ≠ some value := by
  intro hget
  exact hne (h.1 key (mem_keys_iff.2 (by rw [hget]; rfl)))

/-- **The value of a field satisfies what is declared, if the grids are in their enumerations.** -/
theorem Accepted.satisfies (hp : p.Accepted isa) (hgrids : p.EnumeratesGrids) (hf : f ∈ p.fields)
    (hopen : p.CanOpen f) (raw : ℕ) : f.Satisfies p.transducer (p.emitted raw f) := by
  obtain ⟨-, -, hlegal, hselect⟩ := hp.value_eq hf raw
  have hchecked := hp.checked f hf
  have hpos := hp.width_pos f hf
  by_cases hencoding : f.field.encoding = "riscv_imc"
  · have hinstruction := hchecked.instruction hencoding
    exact ⟨fun _ _ h => absurd h (instruction_get? hinstruction (by decide)),
      fun _ h => absurd h (instruction_get? hinstruction (by decide)),
      fun _ h => absurd h (instruction_get? hinstruction (by decide)),
      fun _ h => absurd h (instruction_get? hinstruction (by decide)), hlegal⟩
  · rw [hselect hencoding]
    have hslice : f.slice raw < 2 ^ f.field.width := readSegment_lt _ _ _
    obtain ⟨hrange, haligned, hmasked⟩ := hchecked.select hpos hslice
    refine ⟨fun low high h => hrange _ (hchecked.readsRange low high h), fun n h => ?_,
      fun items h => ?_, fun n h => hmasked _ (hchecked.readsMask n h), fun heq => absurd heq hencoding⟩
    · rw [hchecked.readsAlignment n h]
      exact haligned
    · obtain ⟨e, henum, hitems⟩ := hchecked.readsEnum items h
      rw [← LayoutField.mem_integers hitems]
      cases hmask : f.constraint.mask with
      | none => exact hchecked.select_enum hpos henum (.inl hmask) _
      | some mask =>
        cases hbounds : f.constraint.bounds with
        | none => exact hchecked.select_enum hpos henum (.inr hbounds) _
        | some bounds =>
          obtain ⟨low, high⟩ := bounds
          have hin := hgrids f hf e mask low high henum hmask hbounds hopen _ hslice
          rw [hchecked.select_grid hpos hmask hbounds, RuntimeField.candidate,
            (hchecked.grid mask low high hmask hbounds).1]
          exact hin

/-- **A raw sample with chosen slices.** -/
theorem Accepted.exists_raw (hp : p.Accepted isa) (choose : RuntimeField → ℕ)
    (hfit : ∀ f ∈ p.fields, choose f < 2 ^ f.field.width) :
    ∃ raw < 2 ^ p.rawWidth, ∀ f ∈ p.fields, f.slice raw = choose f :=
  ⟨pack (fun f : RuntimeField => f.field.rawLo) choose p.fields, pack_lt hfit hp.inside,
    fun _ hf => readSegment_pack hfit hp.apart hf⟩

/-- A source of a field that can open reaches it in some raw sample. -/
theorem Accepted.exists_active (hp : p.Accepted isa) (hf : f ∈ p.fields) (hopen : p.CanOpen f)
    {source : ℕ} (hsource : source < 2 ^ f.field.width) :
    ∃ raw < 2 ^ p.rawWidth, f.slice raw = source ∧ p.Active (p.projected raw) f := by
  classical
  cases hgate : f.constraint.gatedBy with
  | none =>
    obtain ⟨raw, hraw, hslices⟩ := hp.exists_raw (fun g => if g = f then source else 0) fun g _ => by
      split_ifs with heq
      · rwa [heq]
      · exact Nat.two_pow_pos _
    refine ⟨raw, hraw, by rw [hslices f hf, if_pos rfl], fun gate hget => ?_⟩
    rw [(hp.checked f hf).readsGate, hgate] at hget
    cases hget
  | some gate =>
    obtain ⟨g, hg, rfl, hwidth, hungated, hencoding, hrole⟩ := hp.exists_gate hf hgate
    obtain ⟨g', hg', hid, hselect⟩ := hopen _ hgate
    obtain rfl := hp.eq_of_id hg' hg hid
    obtain ⟨bit, hbit, hselect⟩ := ((hp.checked g' hg).exists_select_ne_zero hwidth).2 hselect
    have hne : g' ≠ f := fun heq => hrole (by rw [heq])
    obtain ⟨raw, hraw, hslices⟩ := hp.exists_raw
        (fun h => if h = f then source else if h = g' then bit else 0) fun h _ => by
      split_ifs with heq heq'
      · rwa [heq]
      · rwa [heq', hwidth]
      · exact Nat.two_pow_pos _
    refine ⟨raw, hraw, by rw [hslices f hf, if_pos rfl], fun gate hget => ?_⟩
    rw [(hp.checked f hf).readsGate, hgate] at hget
    refine ⟨g', hg, Option.some.inj hget, ?_⟩
    rw [hp.slice_projected hg, hp.final_of_ungated hg hungated, (hp.value_eq hg raw).2.2.2 hencoding,
      hslices g' hg, if_neg hne, if_pos rfl]
    exact hselect

/-- **Projected samples are legal exactly when the enumerations have the grids that stand beside them.** -/
theorem emitsLegal_iff {layout : InputLayout} {requireCompilerProvenance : Bool}
    (h : RuntimeProjector.new layout isa requireCompilerProvenance = .ok p) :
    p.EmitsLegal ↔ p.EnumeratesGrids := by
  obtain ⟨hp, -, -⟩ := accepted h
  constructor
  · intro hlegal f hf e mask low high henum hmask hbounds hopen source hsource
    obtain ⟨raw, hraw, hslice, hactive⟩ := hp.exists_active hf hopen hsource
    obtain ⟨result, hproject, hsample, -⟩ := hlegal raw hraw
    obtain rfl := Except.ok.inj ((hp.project_eq hraw).symm.trans hproject)
    have hchecked := hp.checked f hf
    -- a field with an enumeration holds no instruction
    have hencoding : f.field.encoding ≠ "riscv_imc" := by
      intro hencoding
      obtain ⟨items, hget, -⟩ := hchecked.declaresEnum e henum
      exact instruction_get? (hchecked.instruction hencoding) (by decide) hget
    obtain ⟨items, hget, hitems⟩ := hchecked.declaresEnum e henum
    have hin := (hsample.satisfied f hf hactive).enum items hget
    rw [← LayoutField.mem_integers hitems, hp.slice_projected hf, (hp.final_of_active hf hactive).1,
      (hp.value_eq hf raw).2.2.2 hencoding, hslice,
      hchecked.select_grid (hp.width_pos f hf) hmask hbounds, RuntimeField.candidate,
      (hchecked.grid mask low high hmask hbounds).1] at hin
    exact hin
  · intro hgrids raw hraw
    refine ⟨p.projected raw, hp.project_eq hraw, ⟨hp.projected_lt raw, fun f hf hactive => ?_,
      fun f hf hinactive => ?_⟩, fun hports => hp.projectPorts_eq hports hraw⟩
    · obtain ⟨hfinal, hopen⟩ := hp.final_of_active hf hactive
      rw [hp.slice_projected hf, hfinal]
      exact hp.satisfies hgrids hf hopen raw
    · rw [hp.slice_projected hf]
      exact hp.final_of_not_active hf hinactive

/-- A mode of two bits, driven by the whole port `mode`. -/
def modeField (constraint : Dict String ConstraintValue) : LayoutField :=
  { fieldId := "dut:mode", owner := "dut", role := "data", width := 2, rawLo := 0, rawHi := 1,
    encoding := "bits", constraint := constraint, port := "mode" }

/-- Modes of the range 0..3 under a mask. -/
def boundedModes (modes : List (Option ℤ)) (mask : ℤ) : Dict String ConstraintValue :=
  ((Dict.empty.set "enum" (.sequence modes)).set "range" (.sequence [some 0, some 3])).set "mask" (.int mask)

theorem evenModes_emitsLegal : ∃ p : RuntimeProjector,
    RuntimeProjector.new ⟨2, [modeField (boundedModes [some 2, some 0] 2)]⟩ none false = .ok p ∧
      p.EmitsLegal := by
  have hnew : RuntimeProjector.new ⟨2, [modeField (boundedModes [some 2, some 0] 2)]⟩ none false =
      .ok ⟨2, [⟨modeField (boundedModes [some 2, some 0] 2),
        ⟨1, some 2, some (0, 3), some [2, 0], none⟩, [0, 2]⟩], none⟩ := rfl
  refine ⟨_, hnew, (emitsLegal_iff hnew).mpr ?_⟩
  intro f hf e mask low high henum hmask hbounds _
  rw [List.mem_singleton.mp hf] at henum hmask hbounds ⊢
  cases henum
  cases hmask
  cases hbounds
  decide

/-- **An enumeration beside a range and a mask is accepted, and 0 is projected to 0, which it does
not list.** -/
theorem unlisted_value_projected : ∃ p : RuntimeProjector,
    RuntimeProjector.new ⟨2, [modeField (boundedModes [some 1, some 2] 3)]⟩ none false = .ok p ∧
      p.project 0 = .ok 0 ∧ ¬ p.EmitsLegal := by
  refine ⟨⟨2, [⟨modeField (boundedModes [some 1, some 2] 3),
    ⟨1, some 3, some (0, 3), some [1, 2], none⟩, [0, 1, 2, 3]⟩], none⟩, rfl, rfl, fun hlegal => ?_⟩
  obtain ⟨result, hproject, hsample, -⟩ := hlegal 0 (by decide)
  obtain rfl : 0 = result := Except.ok.inj hproject
  have hin := (hsample.satisfied _ List.mem_cons_self (fun gate hgate => by cases hgate)).enum _ rfl
  revert hin
  decide

end RuntimeProjector

end Composition

end MyFuzz
