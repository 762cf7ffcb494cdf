import WordMachine.Proofs.Collection

/-!
References that lead somewhere. In a closed heap every object refers to objects only; reading such
a heap through a word that leads to an object raises no fault for a stale reference, and every
operation keeps all handles that led to an object.
-/

namespace WordMachine

/-- A fault that no stale reference causes: if it is about a reference, the word is none, or it is
the null reference. -/
def Fault.Permitted (fault : Fault) : Prop :=
  fault.code = 1001 →
    (∃ word : Word, fault = .notRef word ∧ word.isRef = false) ∨
      fault = .invalidRef Word.null.toHandle.index Word.null.toHandle.generation

theorem Fault.permitted_of_code {fault : Fault} (other : fault.code ≠ 1001) : fault.Permitted :=
  fun code => absurd code other

theorem Fault.wrongKind_permitted (expected got : RefKind) : (wrongKind expected got).Permitted :=
  permitted_of_code (show 1004 ≠ 1001 by decide)

namespace Heap

open Fault

variable {word : Word} {heap after before : Heap} {fault : Fault}

/-- A word that is no reference, or the null reference, or leads to an object. -/
def Resolves (heap : Heap) (word : Word) : Prop :=
  word.isRef = true → word.isNull = false → ∃ object, heap.lookup? word.toHandle = some object

theorem resolves_of_isRef (noRef : word.isRef = false) : Resolves heap word := by
  intro isRef
  rw [noRef] at isRef
  cases isRef

theorem resolves_null (heap : Heap) : Resolves heap .null := by
  intro _ notNull
  cases notNull

def Leads (heap : Heap) (word : Word) : Prop :=
  word.isRef = true ∧ ∃ object, heap.lookup? word.toHandle = some object

theorem Leads.resolves (leads : Leads heap word) : Resolves heap word :=
  fun _ _ => leads.2

theorem Resolves.leads (leads : Leads heap word) (resolves : Resolves after word) :
    Leads after word := by
  obtain ⟨isRef, object, found⟩ := leads
  refine ⟨isRef, resolves isRef (Bool.eq_false_iff.2 fun isNull => ?_)⟩
  exact lookup?_index_ne_zero found (Word.index_of_isNull isNull)

/-- A heap all of whose objects refer to objects. -/
def Closed (heap : Heap) : Prop :=
  ∀ handle object word,
    heap.lookup? handle = some object → object.payload.Refers word → Resolves heap word

/-- Whether every handle that leads to an object still does. -/
def Extends (before after : Heap) : Prop :=
  ∀ handle object,
    before.lookup? handle = some object → ∃ other, after.lookup? handle = some other

theorem Extends.refl (heap : Heap) : Extends heap heap :=
  fun _ object found => ⟨object, found⟩

theorem Extends.trans {first second third : Heap} (before : Extends first second)
    (after : Extends second third) : Extends first third := by
  intro handle object found
  obtain ⟨other, otherFound⟩ := before handle object found
  exact after handle other otherFound

theorem Extends.resolves (grown : Extends before after) (resolves : Resolves before word) :
    Resolves after word := by
  intro isRef notNull
  obtain ⟨object, found⟩ := resolves isRef notNull
  exact grown _ object found

theorem Extends.leads (grown : Extends before after) (leads : Leads before word) :
    Leads after word := by
  obtain ⟨isRef, object, found⟩ := leads
  exact ⟨isRef, grown _ object found⟩

/-- Whether a word refers to a link that leads on to another word. -/
def Precedes (heap : Heap) (previous word : Word) : Prop :=
  ∃ object byte flat, heap.deref word = .ok object ∧ object.payload = .link previous byte flat

/-- A heap that is laid out and closed, and in which every chain of links ends. -/
structure Intact (heap : Heap) : Prop where
  wellFormed : WellFormed heap
  closed : Closed heap
  chains : WellFounded (Precedes heap)

theorem chains_of_links (chains : WellFounded (Precedes before))
    (links : ∀ handle object previous byte flat,
      after.lookup? handle = some object → object.payload = .link previous byte flat →
      ∃ other known, before.lookup? handle = some other ∧
        other.payload = .link previous byte known) : WellFounded (Precedes after) := by
  refine Subrelation.wf ?_ chains
  rintro previous word ⟨object, byte, flat, found, payload⟩
  obtain ⟨isRef, objectFound⟩ := deref_eq_ok.1 found
  obtain ⟨other, known, otherFound, otherPayload⟩ := links _ _ _ _ _ objectFound payload
  exact ⟨other, byte, known, deref_eq_ok.2 ⟨isRef, otherFound⟩, otherPayload⟩

/-! ## Reading -/

theorem deref_permitted (resolves : Resolves heap word) (failed : heap.deref word = .error fault) :
    fault.Permitted := by
  unfold deref at failed
  by_cases isRef : word.isRef = true
  · rw [if_pos isRef] at failed
    split at failed
    · cases failed
    · next missing =>
      cases failed
      intro _
      by_cases isNull : word.isNull = true
      · have equal : word = .null := by simpa [Word.isNull] using isNull
        rw [equal]
        exact Or.inr rfl
      · obtain ⟨object, found⟩ := resolves isRef (Bool.eq_false_iff.2 isNull)
        rw [missing] at found
        cases found
  · rw [if_neg isRef] at failed
    cases failed
    exact fun _ => Or.inl ⟨word, rfl, Bool.eq_false_iff.2 isRef⟩

theorem deref_lookup? {object : Object} (found : heap.deref word = .ok object) :
    heap.lookup? word.toHandle = some object :=
  (deref_eq_ok.1 found).2

theorem notRef_zero_permitted : (Fault.notRef 0).Permitted :=
  fun _ => Or.inl ⟨0, rfl, rfl⟩

theorem chainText_permitted (closed : Closed heap) {fuel : Nat} {tail : List UInt8}
    (resolves : Resolves heap word) (failed : heap.chainText fuel word tail = .error fault) :
    fault.Permitted := by
  induction fuel generalizing word tail with
  | zero =>
    cases failed
    exact notRef_zero_permitted
  | succ fuel ih =>
    unfold chainText at failed
    split at failed
    · next derefFailed =>
      cases failed
      exact deref_permitted resolves derefFailed
    · next object found =>
      split at failed
      · cases failed
      · cases failed
      · cases failed
      · next previous byte payload =>
        refine ih (closed _ object previous (deref_lookup? found) ?_) failed
        rw [payload]
        exact .previous
      · cases failed
        exact notRef_zero_permitted

theorem text_permitted (closed : Closed heap) (resolves : Resolves heap word)
    (failed : heap.text word = .error fault) : fault.Permitted := by
  unfold text at failed
  split at failed
  · next derefFailed =>
    cases failed
    exact deref_permitted resolves derefFailed
  · next object found =>
    split at failed
    · cases failed
    · cases failed
    · cases failed
    · next previous byte payload =>
      split at failed
      · next chainFailed =>
        cases failed
        refine chainText_permitted closed (closed _ object previous (deref_lookup? found) ?_)
          chainFailed
        rw [payload]
        exact .previous
      · cases failed
    · cases failed
      exact wrongKind_permitted _ _

section Views

variable {heap : Heap} {word : Word} {fault : Fault}

theorem view_permitted {α : Type} {kind : RefKind} {select : Payload → Option α}
    (resolves : Resolves heap word) (failed : heap.view kind select word = .error fault) :
    fault.Permitted := by
  unfold view at failed
  split at failed
  · next derefFailed =>
    cases failed
    exact deref_permitted resolves derefFailed
  · split at failed
    · cases failed
    · cases failed
      exact wrongKind_permitted _ _

theorem view_eq_ok {α : Type} {kind : RefKind} {select : Payload → Option α} {value : α}
    (viewed : heap.view kind select word = .ok value) :
    ∃ object, heap.lookup? word.toHandle = some object ∧ select object.payload = some value := by
  unfold view at viewed
  split at viewed
  · cases viewed
  · next object found =>
    split at viewed
    · next selected =>
      cases viewed
      exact ⟨object, deref_lookup? found, selected⟩
    · cases viewed

theorem long_permitted (resolves : Resolves heap word) (failed : heap.long word = .error fault) :
    fault.Permitted := by
  unfold long at failed
  split at failed
  · split at failed
    · next derefFailed =>
      cases failed
      exact deref_permitted resolves derefFailed
    · split at failed
      · cases failed
      · cases failed
        exact wrongKind_permitted _ _
  · cases failed

theorem fields_resolve (closed : Closed heap) {fields : Array Word}
    (viewed : heap.fields word = .ok fields) : ∀ field ∈ fields, Resolves heap field := by
  intro field member
  obtain ⟨object, found, selected⟩ := view_eq_ok viewed
  split at selected
  · next payload =>
    cases selected
    refine closed _ object field found ?_
    rw [payload]
    exact .field member
  · cases selected

/-- The value of a call that succeeded leads to an object. -/
theorem outcome_resolves (closed : Closed heap) {value : Word}
    (viewed : heap.outcome word = .ok (some (value, .success))) : Resolves heap value := by
  obtain ⟨object, found, selected⟩ := view_eq_ok viewed
  split at selected
  · next payload =>
    cases selected
    refine closed _ object value found ?_
    rw [payload]
    exact .outcome
  · cases selected

theorem delayed_eq_ok {call : Delayed} (viewed : heap.delayed word = .ok call) :
    ∃ object, heap.lookup? word.toHandle = some object ∧ object.payload = .lazy call := by
  obtain ⟨object, found, selected⟩ := view_eq_ok viewed
  split at selected
  · next payload =>
    cases selected
    exact ⟨object, found, payload⟩
  · cases selected

theorem delayed_resolve (closed : Closed heap) {call : Delayed}
    (viewed : heap.delayed word = .ok call) {value : Word}
    (held : (Payload.lazy call).Refers value) : Resolves heap value := by
  obtain ⟨object, found, payload⟩ := delayed_eq_ok viewed
  rw [← payload] at held
  exact closed _ object value found held

theorem stream_eq_ok {stream : Stream} (viewed : heap.stream word = .ok stream) :
    ∃ object, heap.lookup? word.toHandle = some object := by
  obtain ⟨object, found, _⟩ := view_eq_ok viewed
  exact ⟨object, found⟩

end Views

/-! ## Changing -/

section Changes

variable {heap : Heap}
variable {word : Word} {object : Object}

theorem extends_of_modify {changed : Heap} {index : UInt32} {change : Object → Object}
    (positive : index ≠ 0)
    (slots : changed.slots = heap.slots.modify (index.toNat - 1) fun slot =>
      { slot with object := slot.object.map change }) :
    Extends heap changed := by
  intro handle object found
  rw [lookup?_modify positive slots]
  by_cases same : handle.index = index
  · rw [if_pos same, found]
    exact ⟨change object, rfl⟩
  · rw [if_neg same]
    exact ⟨object, found⟩

/-- A change of an object that adds no references but to objects keeps a heap closed. -/
theorem Closed.of_modify {changed : Heap} {index : UInt32} {change : Object → Object}
    (closed : Closed heap) (positive : index ≠ 0)
    (slots : changed.slots = heap.slots.modify (index.toNat - 1) fun slot =>
      { slot with object := slot.object.map change })
    (refers : ∀ handle object word,
      heap.lookup? handle = some object → (change object).payload.Refers word →
      Resolves heap word) :
    Closed changed := by
  have grown := extends_of_modify positive slots
  intro handle object word found held
  rw [lookup?_modify positive slots] at found
  refine grown.resolves ?_
  by_cases same : handle.index = index
  · rw [if_pos same] at found
    obtain ⟨before, beforeFound, rfl⟩ := Option.map_eq_some_iff.1 found
    exact refers handle before word beforeFound held
  · rw [if_neg same] at found
    exact closed handle object word found held

/-- A change of an object that makes no link keeps the end of every chain. -/
theorem chains_of_modify {changed : Heap} {index : UInt32} {change : Object → Object}
    (chains : WellFounded (Precedes heap)) (positive : index ≠ 0)
    (slots : changed.slots = heap.slots.modify (index.toNat - 1) fun slot =>
      { slot with object := slot.object.map change })
    (links : ∀ object previous byte flat, (change object).payload = .link previous byte flat →
      ∃ known, object.payload = .link previous byte known) :
    WellFounded (Precedes changed) := by
  refine chains_of_links chains fun handle object previous byte flat found payload => ?_
  rw [lookup?_modify positive slots] at found
  by_cases same : handle.index = index
  · rw [if_pos same] at found
    obtain ⟨before, beforeFound, rfl⟩ := Option.map_eq_some_iff.1 found
    obtain ⟨known, before⟩ := links before previous byte flat payload
    exact ⟨_, known, beforeFound, before⟩
  · rw [if_neg same] at found
    exact ⟨object, flat, found, payload⟩

theorem Intact.setPayload (intact : Intact heap) (found : heap.lookup? word.toHandle = some object)
    {payload : Payload} (refers : ∀ next, payload.Refers next → Resolves heap next)
    (unlinked : payload.kind ≠ .stringLink) :
    Intact (heap.setPayload word payload) ∧ Extends heap (heap.setPayload word payload) := by
  have positive := lookup?_index_ne_zero found
  have slots := setPayload_slots heap word payload
  refine ⟨⟨intact.wellFormed.setPayload word payload, ?_, ?_⟩, extends_of_modify positive slots⟩
  · exact intact.closed.of_modify positive slots fun _ _ next _ held => refers next held
  · exact chains_of_modify intact.chains positive slots fun _ _ _ _ link =>
      absurd (congrArg Payload.kind link) unlinked

theorem Intact.remember (intact : Intact heap) (found : heap.lookup? word.toHandle = some object)
    (text : Bytes) : Intact (heap.remember word text) ∧ Extends heap (heap.remember word text) := by
  have positive := lookup?_index_ne_zero found
  have slots := remember_slots heap word text
  refine ⟨⟨intact.wellFormed.remember word text, ?_, ?_⟩, extends_of_modify positive slots⟩
  · refine intact.closed.of_modify positive slots fun handle other next otherFound held => ?_
    -- Only the text is new; the predecessor of a link stays.
    split at held
    · next previous byte flat payload =>
      cases held
      refine intact.closed handle other next otherFound ?_
      rw [payload]
      exact .previous
    · exact intact.closed handle other next otherFound held
  · refine chains_of_modify intact.chains positive slots fun other previous byte flat link => ?_
    split at link
    · next payload =>
      cases link
      exact ⟨_, payload⟩
    · exact ⟨flat, link⟩

theorem Intact.setText (intact : Intact heap) (found : heap.lookup? word.toHandle = some object)
    (text : Bytes) (freed : Nat) :
    Intact (heap.setText word text freed) ∧ Extends heap (heap.setText word text freed) := by
  have positive := lookup?_index_ne_zero found
  have slots := setText_slots heap word text freed
  refine ⟨⟨intact.wellFormed.setText word text freed, ?_, ?_⟩, extends_of_modify positive slots⟩
  · refine intact.closed.of_modify positive slots fun _ _ _ _ held => ?_
    cases held
  · refine chains_of_modify intact.chains positive slots fun _ _ _ _ link => ?_
    cases link

theorem Intact.fill (intact : Intact heap) {text : Bytes} {after : Heap}
    (filled : heap.fill word text = .ok after) :
    Intact after ∧ Extends heap after ∧ after.slots.size = heap.slots.size := by
  unfold Heap.fill at filled
  split at filled
  · cases filled
  · next object derefFound =>
    have found := deref_lookup? derefFound
    split at filled
    · cases filled
      obtain ⟨now, grown⟩ := intact.setText found text _
      exact ⟨now, grown, Array.size_modify⟩
    · cases filled
      obtain ⟨now, grown⟩ := intact.setText found text _
      exact ⟨now, grown, Array.size_modify⟩
    · cases filled

theorem fill_permitted {text : Bytes} {fault : Fault} (resolves : Resolves heap word)
    (failed : heap.fill word text = .error fault) : fault.Permitted := by
  unfold Heap.fill at failed
  split at failed
  · next derefFailed =>
    cases failed
    exact deref_permitted resolves derefFailed
  · split at failed
    · cases failed
    · cases failed
    · cases failed
      exact wrongKind_permitted _ _

/-- The return of a delayed call gives a value that leads to an object. -/
theorem Intact.force (intact : Intact heap) {value stored : Word} {after : Heap}
    (resolves : Resolves heap value) (forced : heap.force word value = .ok (stored, after)) :
    Intact after ∧ Extends heap after ∧ after.slots.size = heap.slots.size ∧
      Resolves heap stored := by
  unfold Heap.force at forced
  split at forced
  · cases forced
  · next viewed =>
    cases forced
    exact ⟨intact, Extends.refl _, rfl, delayed_resolve intact.closed viewed .value⟩
  · next viewed =>
    cases forced
    obtain ⟨object, found, _⟩ := delayed_eq_ok viewed
    have refers : ∀ next, (Payload.lazy (.forced value)).Refers next → Resolves heap next := by
      rintro next ⟨⟩
      exact resolves
    obtain ⟨now, grown⟩ := intact.setPayload found refers nofun
    exact ⟨now, grown, Array.size_modify, resolves⟩

theorem force_permitted {value : Word} {fault : Fault} (resolves : Resolves heap word)
    (failed : heap.force word value = .error fault) : fault.Permitted := by
  unfold Heap.force at failed
  split at failed
  · next viewFailed =>
    cases failed
    exact view_permitted resolves viewFailed
  · cases failed
  · cases failed

/-- A new object that refers to objects keeps a heap intact, and leads to itself. -/
theorem Intact.allocate (intact : Intact heap) (room : heap.slots.size + 1 < 2 ^ 32)
    {payload : Payload} (refers : ∀ next, payload.Refers next → Resolves heap next) :
    Intact (heap.allocate payload).2 ∧ Extends heap (heap.allocate payload).2 ∧
      Leads (heap.allocate payload).2 (heap.allocate payload).1 := by
  have allocated := allocate_allocated intact.wellFormed room payload
  have grown : Extends heap (heap.allocate payload).2 := by
    intro handle object found
    by_cases same : handle.index = (heap.allocate payload).1.toHandle.index ∧
        handle.generation = (heap.allocate payload).1.toHandle.generation
    · rw [lookup?_congr heap same.1 same.2, allocated.fresh] at found
      cases found
    · refine ⟨object, ?_⟩
      rw [allocated.others handle (Decidable.not_and_iff_or_not.1 same)]
      exact found
  -- What any object refers to now was there before.
  have known : ∀ handle object next,
      (heap.allocate payload).2.lookup? handle = some object → object.payload.Refers next →
      Resolves heap next := by
    intro handle object next found held
    by_cases same : handle.index = (heap.allocate payload).1.toHandle.index ∧
        handle.generation = (heap.allocate payload).1.toHandle.generation
    · rw [lookup?_congr _ same.1 same.2, allocated.found] at found
      cases found
      exact refers next held
    · rw [allocated.others handle (Decidable.not_and_iff_or_not.1 same)] at found
      exact intact.closed handle object next found held
  refine ⟨⟨intact.wellFormed.allocate room payload, ?_, ?_⟩, grown, allocated.isRef, _,
    allocated.found⟩
  · exact fun handle object next found held => grown.resolves (known handle object next found held)
  · -- A chain leaves the new object at once, and what was there before does not lead to it.
    have older : ∀ word, Resolves heap word → Acc (Precedes (heap.allocate payload).2) word := by
      intro word
      induction word using intact.chains.induction with
      | _ word ih =>
        intro resolves
        constructor
        rintro previous ⟨object, byte, flat, found, link⟩
        obtain ⟨isRef, objectFound⟩ := deref_eq_ok.1 found
        have notNull : word.isNull = false := Bool.eq_false_iff.2 fun isNull =>
          lookup?_index_ne_zero objectFound (Word.index_of_isNull isNull)
        obtain ⟨before, beforeFound⟩ := resolves isRef notNull
        have same := allocated.others word.toHandle ?_
        · rw [objectFound, beforeFound] at same
          cases same
          have held : object.payload.Refers previous := by
            rw [link]
            exact .previous
          exact ih previous
            ⟨object, byte, flat, deref_eq_ok.2 ⟨isRef, beforeFound⟩, link⟩
            (intact.closed _ _ _ beforeFound held)
        · by_contra both
          simp only [not_or, not_not] at both
          rw [lookup?_congr heap both.1 both.2, allocated.fresh] at beforeFound
          cases beforeFound
    refine ⟨fun word => ⟨word, ?_⟩⟩
    rintro previous ⟨object, byte, flat, found, link⟩
    refine older previous (known _ object previous (deref_eq_ok.1 found).2 ?_)
    rw [link]
    exact .previous

/-- A collection keeps every word that the roots lead to leading to an object. -/
theorem Intact.collect (intact : Intact heap) (roots : List Word)
    (resolve : ∀ word ∈ roots, Resolves heap word) :
    Intact (heap.collect roots).1 ∧
      ∀ word, Reached heap roots word → Resolves (heap.collect roots).1 word := by
  have kept : ∀ handle object, (heap.collect roots).1.lookup? handle = some object ↔
      heap.lookup? handle = some object ∧ Reaches heap roots handle := by
    intro handle object
    rw [collect_eq, lookup?_pace]
    exact lookup?_sweep_mark intact.wellFormed roots handle object
  have before : ∀ word, Reached heap roots word → Resolves heap word := by
    intro word reached
    induction reached with
    | root member => exact resolve _ member
    | follow _ _ found refers _ => exact intact.closed _ _ _ found refers
  have after : ∀ word, Reached heap roots word → Resolves (heap.collect roots).1 word := by
    intro word reached isRef notNull
    obtain ⟨object, found⟩ := before word reached isRef notNull
    exact ⟨object, (kept _ object).2 ⟨found, word, reached, isRef, rfl, rfl⟩⟩
  refine ⟨⟨?_, ?_, ?_⟩, after⟩
  · rw [collect_eq]
    exact (intact.wellFormed.sweep_mark roots).pace _ _
  · intro handle object next found refers
    obtain ⟨found, word, reached, isRef, index, generation⟩ := (kept handle object).1 found
    rw [← lookup?_congr heap index generation] at found
    exact after next (.follow reached isRef found refers)
  · refine chains_of_links intact.chains fun handle object previous byte flat found link => ?_
    exact ⟨object, flat, ((kept handle object).1 found).1, link⟩

end Changes

end Heap

end WordMachine
