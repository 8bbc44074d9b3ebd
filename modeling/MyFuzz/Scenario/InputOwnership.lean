import MyFuzz.Scenario.InputRouting

/-!
# Scenario/InputOwnership — input bits change only through their owner

Two writers share the number of a port, and ownership keeps their segments apart: an injection passes
only over bits of a source, a binding was accepted only over bits bound to its producer.  A bit is
therefore read off the events since the last reset: the last injection over it, or the last
observation that was routed to it.

The event log is asked after the write, so an injection it refuses has changed its bits already; what
a bit is holds for the runs in which every write is recorded.
-/

namespace MyFuzz

open Outcome InputState Dict

variable {World : Type}

/-! ## Segments of a port -/

/-- One bit of a port. -/
def InputState.bit (s : InputState World) (component port : String) (i : ℕ) : Bool :=
  (s.port component port).testBit i

@[simp] theorem bit_after {α : Type} (s : InputState World) (reply : SceneReply World α)
    (component port : String) (i : ℕ) : (s.after reply).bit component port i = s.bit component port i :=
  rfl

variable {component port : String} {s : InputState World} {i : ℕ}

/-- A bit of a written port. -/
theorem bit_write (s : InputState World) {offset width value : ℕ} (hvalue : value < 2 ^ width)
    (component' port' : String) (i : ℕ) :
    (s.write component port offset width value).bit component' port' i
      = if component' = component ∧ port' = port ∧ offset ≤ i ∧ i < offset + width
        then value.testBit (i - offset) else s.bit component' port' i := by
  unfold InputState.bit InputState.write InputState.port
  dsimp only
  by_cases hc : component' = component
  · subst hc
    rw [getD_set_self]
    by_cases hp : port' = port
    · subst hp
      rw [getD_set_self, BitField.testBit_writeSegment _ hvalue]
      simp
    · rw [getD_set_of_ne _ hp]
      simp [hp]
  · rw [getD_set_of_ne _ hc]
    simp [hc]

theorem bit_noInputs (sessions : List String) (h : s.inputs = InputState.noInputs sessions)
    (component port : String) (i : ℕ) : s.bit component port i = false := by
  have hempty : (InputState.noInputs sessions).getD component empty = empty :=
    getD_update_const rfl
  unfold InputState.bit InputState.port
  rw [h, hempty]
  exact Nat.zero_testBit i

/-! ## What the checks say -/

namespace OwnershipMap

variable {m : OwnershipMap} {componentId port : String} {bitOffset width : ℤ}

/-- The owners of a range are those of its bits. -/
theorem owner_of_selected {bits : List InputOwner} (hbits : m.bits.get? (componentId, port) = some bits)
    (hrange : 0 ≤ bitOffset ∧ 1 ≤ width ∧ bitOffset + width ≤ bits.length)
    (hi : bitOffset.toNat ≤ i ∧ i < bitOffset.toNat + width.toNat) :
    ∃ owner ∈ selected bits bitOffset width, m.owner? componentId port i = some owner := by
  have hlt : i < bits.length := by omega
  refine ⟨bits[i], ?_, by rw [owner?, hbits, Option.bind_some, List.getElem?_eq_getElem hlt]⟩
  refine List.mem_iff_getElem?.mpr ⟨i - bitOffset.toNat, ?_⟩
  rw [selected, List.getElem?_take_of_lt (by omega), List.getElem?_drop,
    show bitOffset.toNat + (i - bitOffset.toNat) = i by omega, List.getElem?_eq_getElem hlt]

variable {producer : String}

/-- **A mutation reaches only bits of sources.** -/
theorem mutationSource_spec (h : m.mutationSource componentId port bitOffset width = .ok producer) :
    1 ≤ width ∧ 0 ≤ bitOffset ∧ ∀ i, bitOffset.toNat ≤ i ∧ i < bitOffset.toNat + width.toNat →
        ∃ owner, m.owner? componentId port i = some owner ∧ owner.kind = .source := by
  obtain ⟨bits, hbits, h⟩ := bind_ok.1 h
  obtain ⟨hrange, h⟩ := ensure_ok.1 h
  obtain ⟨_, hsource, -⟩ := bind_ok.1 h
  refine ⟨hrange.2.1, hrange.1, fun i hi => ?_⟩
  obtain ⟨owner, hmem, howner⟩ := owner_of_selected (field_eq_ok.1 hbits) hrange hi
  exact ⟨owner, howner, ensure_eq_ok.1 (forM_eq_ok.1 hsource owner hmem)⟩

/-- **A binding reaches only bits that its producer is bound to.** -/
theorem bindingProducer_spec (h : m.bindingProducer componentId port bitOffset width = .ok producer) :
    ∀ i, bitOffset.toNat ≤ i ∧ i < bitOffset.toNat + width.toNat →
      ∃ owner, m.owner? componentId port i = some owner ∧ owner.kind = .bound ∧
        owner.producerRef = producer := by
  unfold bindingProducer at h
  split at h
  · cases h
  next bits hbits =>
  obtain ⟨hrange, hbound, h⟩ := ensure_ok₂ h
  intro i hi
  obtain ⟨owner, hmem, howner⟩ := owner_of_selected hbits hrange hi
  refine ⟨owner, howner, hbound owner hmem, ?_⟩
  have hproducer := List.mem_map_of_mem (f := InputOwner.producerRef) hmem
  split at h
  · cases h
  · next first others hmap =>
    obtain ⟨hall, h⟩ := ensure_ok.1 h
    cases h
    rw [hmap] at hproducer
    rcases List.mem_cons.1 hproducer with heq | hother
    · exact heq
    · exact hall _ hother

end OwnershipMap

/-- A binding drives a bit. -/
def Binding.Targets (b : Binding) (component port : String) (i : ℕ) : Prop :=
  b.targetComponent = component ∧ b.targetPort = port ∧ b.targetBitOffset ≤ i ∧
    i < b.targetBitOffset + b.width

instance (b : Binding) (component port : String) (i : ℕ) : Decidable (b.Targets component port i) :=
  inferInstanceAs (Decidable (_ ∧ _))

section Scene

variable (scene : InputScene World)

variable {b : Binding} {bitOffset value : ℤ} {width : Option ℤ} {segment : Segment}
  {source : String} {outputs : Dict String ℤ}

/-- **The bits of a binding are bound to its producer.** -/
theorem owner_of_targets (hb : b ∈ scene.bindings) (h : b.Targets component port i) :
    ∃ owner, scene.ownership.owner? component port i = some owner ∧ owner.kind = .bound ∧
      owner.producerRef = b.producer := by
  obtain ⟨rfl, rfl, hlow, hhigh⟩ := h
  have hcheck := forM_eq_ok.1 scene.accepted b hb
  obtain ⟨-, hcheck⟩ := ensure_ok.1 hcheck
  obtain ⟨actual, hactual, hcheck⟩ := bind_ok.1 hcheck
  obtain rfl := ensure_eq_ok.1 hcheck
  exact OwnershipMap.bindingProducer_spec hactual i ⟨by simpa using hlow, by simpa using hhigh⟩

/-- A segment covers a bit. -/
def Segment.Covers (segment : Segment) (i : ℕ) : Prop :=
  segment.offset ≤ i ∧ i < segment.offset + segment.width

instance (segment : Segment) (i : ℕ) : Decidable (segment.Covers i) :=
  inferInstanceAs (Decidable (_ ∧ _))

/-- **The segment of a checked injection belongs to sources.** -/
theorem checkInjection_spec
    (h : checkInjection scene component port value bitOffset width s = .ok segment) :
    segment.value < 2 ^ segment.width ∧ ∀ i, segment.Covers i →
      ∃ owner, scene.ownership.owner? component port i = some owner ∧ owner.kind = .source := by
  obtain ⟨-, -, h⟩ := ensure_ok₂ h
  obtain ⟨fieldWidth, -, producer, hproducer, h⟩ := bind_ok₂ h
  obtain ⟨hvalue, h⟩ := ensure_ok.1 h
  cases h
  refine ⟨?_, (OwnershipMap.mutationSource_spec hproducer).2.2⟩
  have hlt := hvalue.2
  zify
  rw [Int.toNat_of_nonneg hvalue.1]
  exact_mod_cast hlt

/-! ## Events -/

/-- What happened to the inputs. -/
inductive InputEvent where
  | injected (component port : String) (segment : Segment)
  | observed (component : String) (outputs : Dict String ℤ)
  | cleared

/-- The event of a call: a successful injection, an observation, or a reset that passed its
barrier. -/
def InputState.event (s : InputState World) : InputCall → Option InputEvent
  | .inject component port value bitOffset width =>
      match checkInjection scene component port value bitOffset width s,
        (injectSource scene component port value bitOffset width s).1 with
      | .ok segment, .ok _ => some (.injected component port segment)
      | _, _ => none
  | .route component outputs => some (.observed component outputs)
  | .resetAll =>
      if s.status = .running ∧ (scene.resetSessions s.world).result.isOk then some .cleared else none

/-- The bit of the last injection over it, latest event first. -/
def sourceBit (component port : String) (i : ℕ) : List InputEvent → Bool
  | [] => false
  | .cleared :: _ => false
  | .observed _ _ :: rest => sourceBit component port i rest
  | .injected component' port' segment :: rest =>
      if component = component' ∧ port = port' ∧ segment.Covers i then
        segment.value.testBit (i - segment.offset)
      else sourceBit component port i rest

/-- The value that an observation has for a bit: along the last binding that carries one. -/
def carriedBit (bindings : List Binding) (source : String) (outputs : Dict String ℤ)
    (component port : String) (i : ℕ) : Option Bool :=
  (bindings.filterMap fun b =>
    if b.Targets component port i then (b.observed source outputs).map fun value =>
      value.toNat.testBit (b.sourceBitOffset + (i - b.targetBitOffset))
    else none).getLast?

/-- The bit of the last observation that was routed to it, latest event first. -/
def boundBit (bindings : List Binding) (component port : String) (i : ℕ) : List InputEvent → Bool
  | [] => false
  | .cleared :: _ => false
  | .injected _ _ _ :: rest => boundBit bindings component port i rest
  | .observed source outputs :: rest =>
      (carriedBit bindings source outputs component port i).getD
        (boundBit bindings component port i rest)

/-- **What a bit is, by its owner.** -/
def ownedBit (component port : String) (i : ℕ) (events : List InputEvent) : Bool :=
  match (scene.ownership.owner? component port i).map InputOwner.kind with
  | some .source => sourceBit component port i events
  | some .bound => boundBit scene.bindings component port i events
  | _ => false

/-- A call and its event. -/
def inputStep (r : InputState World × List InputEvent) (c : InputCall) : InputState World × List InputEvent :=
  (r.1.call scene c, (r.1.event scene c).toList ++ r.2)

/-! ## Recorded calls -/

/-- Every delivery of an observation is recorded: the values are nonnegative and the log takes them. -/
def Delivered (component : String) (outputs : Dict String ℤ) : List Binding → InputState World → Prop
  | [], _ => True
  | b :: rest, s =>
      match b.observed component outputs with
      | none => Delivered component outputs rest s
      | some value =>
          0 ≤ value ∧ (scene.recordDelivery s.world b
              (BitField.readSegment value.toNat b.sourceBitOffset b.width)
              (BitField.writeSegment (s.port b.targetComponent b.targetPort) b.targetBitOffset b.width
                (BitField.readSegment value.toNat b.sourceBitOffset b.width))).result = .ok () ∧
            Delivered component outputs rest (deliverBinding scene b value s).2

/-- **The event log takes what a call writes.** -/
def Recorded (r : InputState World × List InputEvent) : InputCall → Prop
  | .inject component port value bitOffset width =>
      ∀ segment, checkInjection scene component port value bitOffset width r.1 = .ok segment →
        (scene.recordInjection (scene.admitSource r.1.world component port segment.offset
          segment.width segment.value).world component port segment.offset segment.width
          segment.value).result = .ok ()
  | .route component outputs => Delivered scene component outputs scene.bindings r.1
  | .resetAll => True

/-! ## Frames -/

theorem bit_deliverBinding (b : Binding) (hvalue : 0 ≤ value) (s : InputState World)
    (component port : String) (i : ℕ) :
    (deliverBinding scene b value s).2.bit component port i
      = if b.Targets component port i
        then value.toNat.testBit (b.sourceBitOffset + (i - b.targetBitOffset))
        else s.bit component port i := by
  unfold deliverBinding
  rw [if_neg (not_lt.2 hvalue)]
  rw [bit_after, bit_write s (BitField.readSegment_lt _ _ _)]
  by_cases h : b.Targets component port i
  · have hin : i - b.targetBitOffset < b.width := by
      have hrange := h.2.2
      omega
    rw [if_pos h, if_pos ⟨h.1.symm, h.2.1.symm, h.2.2⟩, BitField.testBit_readSegment,
      decide_eq_true hin, Bool.true_and]
  · rw [if_neg h, if_neg fun h' => h ⟨h'.1.symm, h'.2.1.symm, h'.2.2⟩]

/-- A delivery changes only the bits of its binding. -/
theorem bit_deliverBinding_of_not_targets (h : ¬ b.Targets component port i) (value : ℤ)
    (s : InputState World) :
    (deliverBinding scene b value s).2.bit component port i = s.bit component port i := by
  by_cases hvalue : value < 0
  · rw [deliverBinding, if_pos hvalue]
  · rw [bit_deliverBinding scene b (not_lt.1 hvalue), if_neg h]

/-- **A routing changes only bits that a binding of its component targets.** -/
theorem bit_route_of_not_targets (outputs : Dict String ℤ) : ∀ {bindings : List Binding},
    (∀ b ∈ bindings, b.sourceComponent = source → ¬ b.Targets component port i) →
    ∀ s : InputState World, (routeObservedOutputs scene source outputs bindings s).2.bit component
      port i = s.bit component port i
  | [], _, _ => rfl
  | b :: rest, h, s => by
      have hrest : ∀ b ∈ rest, b.sourceComponent = source → ¬ b.Targets component port i :=
        fun b hb => h b (.tail _ hb)
      unfold routeObservedOutputs
      split
      · exact bit_route_of_not_targets outputs hrest s
      · next value hobserved =>
        have hsource : b.sourceComponent = source := by
          unfold Binding.observed at hobserved
          split_ifs at hobserved with hne
          exact not_not.1 hne
        have hframe := bit_deliverBinding_of_not_targets scene
          (h b List.mem_cons_self hsource) value s
        split
        · next e s' heq =>
          rw [heq] at hframe
          exact hframe
        · next s' heq =>
          rw [heq] at hframe
          rw [bit_route_of_not_targets outputs hrest s']
          exact hframe

/-- A written injection. -/
theorem bit_writeInjection (hvalue : segment.value < 2 ^ segment.width) (tick : Option ℤ)
    (s : InputState World) (component' port' : String) (i : ℕ) :
    (writeInjection scene component port segment tick s).2.bit component' port' i
      = if component' = component ∧ port' = port ∧ segment.Covers i
        then segment.value.testBit (i - segment.offset) else s.bit component' port' i := by
  unfold writeInjection
  dsimp only
  rw [bit_after, bit_write s hvalue]
  rfl

/-- **An injection changes only bits of its segment.** -/
theorem bit_inject 
    (s : InputState World) {component' port' : String}
    (h : ∀ segment, checkInjection scene component port value bitOffset width s = .ok segment →
      ¬ (component' = component ∧ port' = port ∧ segment.Covers i)) :
    (injectSource scene component port value bitOffset width s).2.bit component' port' i
      = s.bit component' port' i := by
  unfold injectSource
  split
  · rfl
  · next segment hsegment =>
    dsimp only
    split
    · exact bit_after _ _ _ _ _
    · rw [bit_writeInjection scene (checkInjection_spec scene hsegment).1,
        if_neg (h segment hsegment), bit_after]

/-! ## Bits by their owner -/

/-- One more binding in front: it counts when no later one carries the bit. -/
theorem carriedBit_cons (b : Binding) (rest : List Binding) (source : String)
    (outputs : Dict String ℤ) (component port : String) (i : ℕ) (bit : Bool) :
    (carriedBit (b :: rest) source outputs component port i).getD bit
      = (carriedBit rest source outputs component port i).getD
        ((if b.Targets component port i then (b.observed source outputs).map fun value =>
            value.toNat.testBit (b.sourceBitOffset + (i - b.targetBitOffset))
          else none).getD bit) := by
  unfold carriedBit
  rw [List.filterMap_cons]
  split
  · next h => rw [h, Option.getD_none]
  · next carried h => rw [h, List.getLast?_cons, Option.getD_some, Option.getD_some]

/-- **A recorded routing sets each bit to what the observation carries to it.** -/
theorem bit_route (component port : String) (i : ℕ) :
    ∀ {bindings : List Binding} {s : InputState World}, Delivered scene source outputs bindings s →
    (routeObservedOutputs scene source outputs bindings s).2.bit component port i
      = (carriedBit bindings source outputs component port i).getD (s.bit component port i)
  | [], _, _ => rfl
  | b :: rest, s, h => by
      rw [carriedBit_cons]
      unfold routeObservedOutputs
      unfold Delivered at h
      cases hobserved : b.observed source outputs with
      | none =>
        rw [hobserved] at h
        rw [bit_route component port i h, Option.map_none, ite_self, Option.getD_none]
      | some value =>
        rw [hobserved] at h
        obtain ⟨hvalue, hrecorded, hrest⟩ := h
        have hok : (deliverBinding scene b value s).1 = .ok () := by
          rw [deliverBinding, if_neg (not_lt.2 hvalue)]
          rw [← hrecorded]
          unfold InputState.write InputState.port
          dsimp only
          rw [getD_set_self, getD_set_self]
        have hbit := bit_deliverBinding scene b hvalue s component port i
        cases hdeliver : deliverBinding scene b value s with
        | mk result s' =>
          rw [hdeliver] at hok hbit hrest
          dsimp only at hok hbit hrest ⊢
          rw [hdeliver, hok]
          rw [bit_route component port i hrest, hbit]
          congr 1
          split_ifs <;> rfl

/-- A routed bit is bound. -/
theorem carriedBit_eq_none 
    (h : ∀ owner, scene.ownership.owner? component port i = some owner → owner.kind ≠ .bound) :
    carriedBit scene.bindings source outputs component port i = none := by
  unfold carriedBit
  rw [List.getLast?_eq_none_iff, List.filterMap_eq_nil_iff]
  intro b hb
  rw [if_neg]
  intro htargets
  obtain ⟨owner, howner, hbound, -⟩ := owner_of_targets scene hb htargets
  exact h owner howner hbound

/-- Every bit is what its owner made it. -/
def Driven (r : InputState World × List InputEvent) : Prop :=
  ∀ component port i, r.1.bit component port i = ownedBit scene component port i r.2

theorem driven_start (world : World) : Driven scene (start scene.sessions world, []) := by
  intro component port i
  rw [bit_noInputs scene.sessions rfl]
  unfold ownedBit
  split <;> rfl

variable {events : List InputEvent}

theorem driven_route (h : Driven scene (s, events)) (hd : Delivered scene source outputs scene.bindings s) :
    Driven scene ((routeObservedOutputs scene source outputs scene.bindings s).2,
      .observed source outputs :: events) := by
  intro component port i
  have hbit := h component port i
  rw [bit_route scene component port i hd, hbit]
  unfold ownedBit
  cases howner : scene.ownership.owner? component port i with
  | none =>
    rw [carriedBit_eq_none scene (fun owner h => by rw [howner] at h; cases h), Option.getD_none]
    rfl
  | some owner =>
    rw [Option.map_some]
    cases hkind : owner.kind with
    | bound => rfl
    | source =>
      rw [carriedBit_eq_none scene (fun other h => by
        cases howner.symm.trans h
        rw [hkind]
        decide), Option.getD_none]
      rfl
    | fixed =>
      rw [carriedBit_eq_none scene (fun other h => by
        cases howner.symm.trans h
        rw [hkind]
        decide), Option.getD_none]

theorem driven_inject (h : Driven scene (s, events))
    (hr : Recorded scene (s, events) (.inject component port value bitOffset width)) :
    Driven scene (inputStep scene (s, events) (.inject component port value bitOffset width)) := by
  intro component' port' i
  have hbit := h component' port' i
  dsimp only [inputStep, call, event] at hbit ⊢
  cases hcheck : checkInjection scene component port value bitOffset width s with
  | error e =>
    rw [bit_inject scene s (fun segment hs => by rw [hcheck] at hs; cases hs), hbit]
    rfl
  | ok segment =>
    obtain ⟨hvalue, howners⟩ := checkInjection_spec scene hcheck
    have hrecord := hr segment hcheck
    rw [injectSource, hcheck]
    dsimp only at hrecord ⊢
    cases hadmit : (scene.admitSource s.world component port segment.offset segment.width
        segment.value).result with
    | error e =>
      rw [bit_after, hbit]
      rfl
    | ok tick =>
      have hok : (writeInjection scene component port segment tick (s.after (scene.admitSource s.world
          component port segment.offset segment.width segment.value))).1 = .ok tick := by
        unfold writeInjection after
        dsimp only
        rw [hrecord]
        rfl
      rw [hok, bit_writeInjection scene hvalue, bit_after, hbit]
      dsimp only [Option.toList, List.cons_append, List.nil_append]
      unfold ownedBit
      by_cases hcovers : component' = component ∧ port' = port ∧ segment.Covers i
      · obtain ⟨rfl, rfl, hcovers⟩ := hcovers
        obtain ⟨owner, howner, hkind⟩ := howners i hcovers
        rw [if_pos ⟨rfl, rfl, hcovers⟩, howner, Option.map_some, hkind]
        rw [sourceBit, if_pos ⟨rfl, rfl, hcovers⟩]
      · rw [if_neg hcovers]
        split
        · rw [sourceBit, if_neg hcovers]
        · rfl
        · rfl

theorem driven_reset (h : Driven scene (s, events)) :
    Driven scene (inputStep scene (s, events) .resetAll) := by
  intro component port i
  have hbit := h component port i
  dsimp only [inputStep, call, event] at hbit ⊢
  unfold clearInputs
  by_cases hstatus : s.status = .running
  · rw [if_neg (not_not.2 hstatus)]
    dsimp only
    cases hreset : (scene.resetSessions s.world).result with
    | error e =>
      rw [if_neg (fun hok => Bool.false_ne_true hok.2)]
      rw [bit_after, hbit]
      rfl
    | ok _ =>
      rw [if_pos ⟨hstatus, rfl⟩]
      rw [bit_after, bit_noInputs scene.sessions rfl]
      unfold ownedBit
      split <;> rfl
  · rw [if_pos hstatus, if_neg (fun hok => hstatus hok.1)]
    exact hbit

/-- Every recorded call keeps the bits with their owners. -/
theorem driven_step (r : InputState World × List InputEvent) (c : InputCall) (h : Driven scene r)
    (hr : Recorded scene r c) : Driven scene (inputStep scene r c) := by
  obtain ⟨s, events⟩ := r
  cases c with
  | inject component port value bitOffset width => exact driven_inject scene h hr
  | route component outputs => exact driven_route scene h hr
  | resetAll => exact driven_reset scene h

/-- No call sets a bit that neither a source nor a binding owns. -/
theorem unowned_step
    (howner : ∀ owner, scene.ownership.owner? component port i = some owner → owner.kind = .fixed)
    (h : s.bit component port i = false) (c : InputCall) :
    (s.call scene c).bit component port i = false := by
  cases c with
  | inject component' port' value bitOffset width =>
    refine (bit_inject scene s fun segment hsegment hcovers => ?_).trans h
    obtain ⟨rfl, rfl, hcovers⟩ := hcovers
    obtain ⟨owner, hget, hkind⟩ := (checkInjection_spec scene hsegment).2 i hcovers
    rw [howner owner hget] at hkind
    cases hkind
  | route source outputs =>
    refine (bit_route_of_not_targets scene outputs (fun b hb _ htargets => ?_) s).trans h
    obtain ⟨owner, hget, hkind, -⟩ := owner_of_targets scene hb htargets
    rw [howner owner hget] at hkind
    cases hkind
  | resetAll =>
    unfold call clearInputs
    dsimp only
    split
    · exact h
    · split
      · exact h
      · exact bit_noInputs scene.sessions rfl component port i

/-- **Input bits change only through their declared owner.** While the log takes what is written, a bit of a
source is that of the last injection over it since a reset, a bound bit that of the last observation carried
to it, and every other bit is clear. In any run a fixed bit is never set, and injections and routings stay
inside their segments and bindings. -/
theorem inputs_change_through_owner (world : World) (calls : List InputCall) :
    let start : InputState World × List InputEvent := (InputState.start scene.sessions world, [])
    (Run.Guarded (inputStep scene) (Recorded scene) start calls →
      ∀ component port i, (Run.run (inputStep scene) start calls).1.bit component port i
        = ownedBit scene component port i (Run.run (inputStep scene) start calls).2) ∧
    (∀ component port i owner, scene.ownership.owner? component port i = some owner →
      owner.kind = .fixed → (Run.run (inputStep scene) start calls).1.bit component port i = false) ∧
    (∀ (s : InputState World) component port value bitOffset width component' port' i,
      (∀ segment, checkInjection scene component port value bitOffset width s = .ok segment →
        ¬ (component' = component ∧ port' = port ∧ segment.Covers i)) →
      (s.call scene (.inject component port value bitOffset width)).bit component' port' i
        = s.bit component' port' i) ∧
    (∀ (s : InputState World) source outputs component port i,
      (∀ b ∈ scene.bindings, b.sourceComponent = source → ¬ b.Targets component port i) →
      (s.call scene (.route source outputs)).bit component port i = s.bit component port i) ∧
    (∀ b ∈ scene.bindings, ∀ component port i, b.Targets component port i →
      ∃ owner, scene.ownership.owner? component port i = some owner ∧ owner.kind = .bound ∧
        owner.producerRef = b.producer) := by
  intro start
  refine ⟨fun hguarded => ?_, fun component port i owner howner hfixed => ?_, ?_, ?_, ?_⟩
  · exact Run.run_invariant_of_guarded (driven_step scene) calls (driven_start scene world) hguarded
  · refine Run.run_invariant
      (P := fun r : InputState World × List InputEvent => r.1.bit component port i = false)
      (fun r c hr => ?_) calls (bit_noInputs scene.sessions rfl component port i)
    refine unowned_step scene (fun other hother => ?_) hr c
    cases howner.symm.trans hother
    exact hfixed
  · exact fun s component port value bitOffset width component' port' i h => bit_inject scene s h
  · exact fun s source outputs component port i h => bit_route_of_not_targets scene outputs h s
  · exact fun b hb component port i h => owner_of_targets scene hb h

end Scene

/-! ### A refused record -/

/-- One fuzzable bit, under an event log that takes no record. -/
def refusingScene : InputScene Unit where
  sessions := ["gpio"]
  ownership := ⟨⟨[(("gpio", "in"), [⟨"gpio", "in", 0, 1, .source, "pads"⟩])], by decide⟩⟩
  bindings := []
  accepted := rfl
  admitSource _ _ _ _ _ _ := ⟨.ok none, (), false⟩
  recordInjection _ _ _ _ _ _ := ⟨.error (.runtimeError "evidence record bound exceeded"), (), false⟩
  recordDelivery _ _ _ _ := ⟨.ok (), (), false⟩
  resetSessions _ := ⟨.ok (), (), false⟩
  afterBarrier _ := ⟨.ok (), (), false⟩

/-- An injection that raises has set its bit all the same. -/
theorem refused_injection_sets_bit :
    ¬ ∀ (scene : InputScene Unit) (calls : List InputCall) (component port : String) (i : ℕ),
      (Run.run (inputStep scene) (InputState.start scene.sessions (), []) calls).1.bit component
          port i
        = ownedBit scene component port i
          (Run.run (inputStep scene) (InputState.start scene.sessions (), []) calls).2 := by
  intro h
  have hbit := h refusingScene [.inject "gpio" "in" 1 0 none] "gpio" "in" 0
  cases hbit

/-- The same bit under a log that takes the record. -/
def recordingScene : InputScene Unit :=
  { refusingScene with recordInjection := fun _ _ _ _ _ _ => ⟨.ok (), (), false⟩ }

/-- There the bit is that of the injection. -/
theorem recorded_injection_sets_bit :
    (Run.run (inputStep recordingScene) (InputState.start recordingScene.sessions (), [])
      [.inject "gpio" "in" 1 0 none]).1.bit "gpio" "in" 0 = true := by
  refine ((inputs_change_through_owner recordingScene () _).1 ?_ _ _ _).trans rfl
  exact ⟨fun _ _ => rfl, trivial⟩

end MyFuzz
