import WordMachine.Proofs.HeapLayout

/-!
What the operations of the heap do: they keep its layout, allocation gives out a handle that led
nowhere before, and a change of an object's contents is seen through its own handle only.
-/

namespace WordMachine.Heap

variable {heap : Heap} {live : List UInt32}

/-! ## Changing an object -/

theorem shape?_modify {changed : Heap} {position : Nat} {change : Slot → Slot}
    (slots : changed.slots = heap.slots.modify position change)
    (keeps : ∀ slot, shapeOf (change slot) = shapeOf slot) : changed.shape? = heap.shape? := by
  funext index
  unfold shape?
  rw [slot?_eq_slotIn, slot?_eq_slotIn, slots]
  by_cases zero : index = 0
  · rw [zero]
    rfl
  · rw [slotIn_of_ne_zero _ zero, slotIn_of_ne_zero _ zero, Array.getElem?_modify]
    split
    · simp [Function.comp_def, keeps]
    · rfl

theorem WellFormed.of_modify {changed : Heap} {position : Nat} {change : Slot → Slot}
    (wellFormed : WellFormed heap) (slots : changed.slots = heap.slots.modify position change)
    (keepsShape : ∀ slot, shapeOf (change slot) = shapeOf slot)
    (keepsMark : ∀ slot, (change slot).marked = slot.marked) (head : changed.head = heap.head)
    (free : changed.free = heap.free) : WellFormed changed := by
  have size : changed.slots.size = heap.slots.size := by
    rw [slots, Array.size_modify]
  have layout := wellFormed.layout.of_shape?_eq (shape?_modify slots keepsShape) head free size
  refine WellFormed.of_layout layout ?_
  intro index slot found
  have positive := ne_zero_of_slotIn found
  have unmarked : ∀ old, heap.slots[index.toNat - 1]? = some old → old.marked = false := by
    intro old oldFound
    refine wellFormed.unmarked index old ?_
    rw [slot?_eq_slotIn, slotIn_of_ne_zero _ positive]
    exact oldFound
  rw [slot?_eq_slotIn, slotIn_of_ne_zero _ positive, slots, Array.getElem?_modify] at found
  split at found
  · obtain ⟨old, oldFound, rfl⟩ := Option.map_eq_some_iff.1 found
    rw [keepsMark]
    exact unmarked old oldFound
  · exact unmarked slot found

theorem setPayload_slots (heap : Heap) (word : Word) (payload : Payload) :
    (heap.setPayload word payload).slots =
      heap.slots.modify (word.toHandle.index.toNat - 1) fun slot =>
        { slot with object := slot.object.map fun object => { object with payload } } := rfl

theorem remember_slots (heap : Heap) (word : Word) (text : Bytes) :
    (heap.remember word text).slots =
      heap.slots.modify (word.toHandle.index.toNat - 1) fun slot =>
        { slot with
          object := slot.object.map fun object =>
            match object.payload with
            | .link previous byte _ => { object with payload := .link previous byte (some text) }
            | _ => object } := rfl

theorem setText_slots (heap : Heap) (word : Word) (text : Bytes) (freed : Nat) :
    (heap.setText word text freed).slots =
      heap.slots.modify (word.toHandle.index.toNat - 1) fun slot =>
        { slot with
          object := slot.object.map fun object => ⟨object.size - freed, .string text⟩ } := rfl

theorem WellFormed.setPayload (wellFormed : WellFormed heap) (word : Word) (payload : Payload) :
    WellFormed (heap.setPayload word payload) := by
  refine wellFormed.of_modify (setPayload_slots heap word payload) ?_ ?_ rfl rfl
  · intro slot
    cases slot with
    | mk generation object next marked => cases object <;> rfl
  · intro slot
    rfl

theorem WellFormed.remember (wellFormed : WellFormed heap) (word : Word) (text : Bytes) :
    WellFormed (heap.remember word text) := by
  refine wellFormed.of_modify (remember_slots heap word text) ?_ ?_ rfl rfl
  · intro slot
    cases slot with
    | mk generation object next marked => cases object <;> rfl
  · intro slot
    rfl

theorem WellFormed.setText (wellFormed : WellFormed heap) (word : Word) (text : Bytes)
    (freed : Nat) : WellFormed (heap.setText word text freed) := by
  refine wellFormed.of_modify (setText_slots heap word text freed) ?_ ?_ rfl rfl
  · intro slot
    cases slot with
    | mk generation object next marked => cases object <;> rfl
  · intro slot
    rfl

theorem lookup?_modify
    {heap changed : Heap} {index : UInt32} {change : Object → Object}
    (positive : index ≠ 0)
    (slots : changed.slots = heap.slots.modify (index.toNat - 1) fun slot =>
      { slot with object := slot.object.map change })
    (handle : Handle) :
    changed.lookup? handle =
      if handle.index = index then (heap.lookup? handle).map change
      else heap.lookup? handle := by
  unfold lookup?
  rw [slot?_eq_slotIn, slot?_eq_slotIn, slots, slotIn_modify _ positive]
  by_cases same : handle.index = index
  · rw [if_pos same, if_pos same]
    cases slotIn heap.slots handle.index with
    | none => rfl
    | some slot =>
      by_cases current : slot.generation = handle.generation
      · simp [current]
      · simp [current]
  · rw [if_neg same, if_neg same]

theorem lookup?_index_ne_zero {handle : Handle} {object : Object}
    (found : heap.lookup? handle = some object) : handle.index ≠ 0 := by
  obtain ⟨slot, slotFound, _⟩ := lookup?_eq_some.1 found
  exact ne_zero_of_slotIn slotFound

/-! ## Allocation -/

/-- Where a heap puts its next object. -/
structure Vacancy (heap : Heap) (index generation : UInt32) : Prop where
  positive : index ≠ 0
  unused : heap.object? index = none
  masked : generation &&& Handle.generationMask = generation
  kept : ∀ slot, heap.slot? index = some slot → slot.generation = generation

/-- A new object is reached through a handle to a slot that had none. -/
theorem place_spec (layout : Layout heap live) (room : heap.slots.size + 1 < 2 ^ 32)
    (object : Object) :
    ∃ index generation,
      Vacancy heap index generation ∧
      (heap.place object).1 = .ofHandle (.make index generation) ∧
      (heap.place object).2.head = index ∧
      (heap.place object).2.free = heap.free.filter (· ≠ index) ∧
      (heap.place object).2.slots.size ≤ heap.slots.size + 1 ∧
      ∀ other, (heap.place object).2.slot? other =
        if other = index then some { generation, object := some object, next := heap.head }
        else heap.slot? other := by
  unfold place
  cases free : heap.free with
  | nil =>
    refine ⟨UInt32.ofNat (heap.slots.size + 1), 0, ⟨?_, ?_, rfl, ?_⟩, rfl, rfl, ?_, ?_, ?_⟩
    · intro zero
      have number : (UInt32.ofNat (heap.slots.size + 1)).toNat = heap.slots.size + 1 :=
        UInt32.toNat_ofNat_of_lt room
      rw [zero] at number
      simp at number
    · unfold object?
      rw [slot?_eq_slotIn, slotIn_size layout.small]
      rfl
    · intro slot found
      rw [slot?_eq_slotIn, slotIn_size layout.small] at found
      cases found
    · simp
    · simp
    · intro other
      exact slotIn_push heap.slots room _ other
  | cons index rest =>
    have member : index ∈ heap.free := by
      rw [free]
      exact List.mem_cons_self
    obtain ⟨shape, found, notUsed⟩ := (layout.notInUse index).1 member
    obtain ⟨slot, slotFound, rfl⟩ := shape?_eq_some.1 found
    have positive := ne_zero_of_slotIn slotFound
    have vacant : slot.object = none := by simpa [shapeOf] using notUsed
    simp only [slotFound]
    refine ⟨index, slot.generation, ⟨positive, ?_, ?_, ?_⟩, rfl, rfl, ?_, ?_, ?_⟩
    · simp [object?, slotFound, vacant]
    · exact layout.generation index _ found
    · intro other otherFound
      exact congrArg Slot.generation (Option.some.inj (otherFound.symm.trans slotFound))
    · have notInRest : index ∉ rest := by
        have nodup := layout.freeNodup
        rw [free] at nodup
        exact (List.nodup_cons.1 nodup).1
      rw [List.filter_cons_of_neg (by simp)]
      refine (List.filter_eq_self.2 ?_).symm
      intro other otherMember
      simp only [decide_eq_true_eq]
      rintro rfl
      exact notInRest otherMember
    · simp
    · intro other
      change slotIn (heap.slots.setIfInBounds (index.toNat - 1) _) other = _
      rw [slotIn_setIfInBounds _ positive]
      by_cases same : other = index
      · subst same
        simp only [slot?_eq_slotIn] at slotFound
        simp [slotFound]
      · simp [same, slot?_eq_slotIn]

theorem Layout.place (layout : Layout heap live) (room : heap.slots.size + 1 < 2 ^ 32)
    (object : Object) : Layout (heap.place object).2 ((heap.place object).2.head :: live) := by
  obtain ⟨index, generation, vacancy, _, head, free, size, slots⟩ :=
    place_spec layout room object
  have shapes : ∀ other, (heap.place object).2.shape? other =
      if other = index then some ⟨generation, heap.head, true⟩ else heap.shape? other := by
    intro other
    unfold shape?
    rw [slots]
    split
    · rfl
    · rfl
  have notLive : index ∉ live := by
    intro member
    obtain ⟨shape, found, used⟩ := (layout.inUse index).1 member
    obtain ⟨slot, slotFound, rfl⟩ := shape?_eq_some.1 found
    have unused := vacancy.unused
    simp only [object?, slotFound, Option.bind_some] at unused
    simp [shapeOf, unused] at used
  rw [head]
  constructor
  case chain =>
    rw [head]
    have first : (heap.place object).2.shape? index = some ⟨generation, heap.head, true⟩ := by
      rw [shapes, if_pos rfl]
    refine Chain.cons first (layout.chain.congr ?_)
    intro other member
    rw [shapes, if_neg]
    rintro rfl
    exact notLive member
  case nodup =>
    exact List.nodup_cons.2 ⟨notLive, layout.nodup⟩
  case inUse =>
    intro other
    rw [shapes, List.mem_cons]
    by_cases same : other = index
    · simp [same]
    · simp only [same, if_false, false_or]
      exact layout.inUse other
  case freeNodup =>
    rw [free]
    exact layout.freeNodup.filter _
  case notInUse =>
    intro other
    rw [shapes, free, List.mem_filter]
    by_cases same : other = index
    · simp [same]
    · simp only [same, if_false, ne_eq, not_false_eq_true, decide_true, and_true]
      exact layout.notInUse other
  case generation =>
    intro other shape found
    rw [shapes] at found
    split at found
    · cases found
      exact vacancy.masked
    · exact layout.generation other shape found
  case small =>
    omega

/-- A new object, and how it is seen. -/
structure Allocated (before after : Heap) (word : Word) (object : Object) : Prop where
  isRef : word.isRef = true
  notNull : word.isNull = false
  fresh : before.lookup? word.toHandle = none
  found : after.lookup? word.toHandle = some object
  others : ∀ handle,
    handle.index ≠ word.toHandle.index ∨ handle.generation ≠ word.toHandle.generation →
    after.lookup? handle = before.lookup? handle

theorem place_allocated (layout : Layout heap live) (room : heap.slots.size + 1 < 2 ^ 32)
    (object : Object) : Allocated heap (heap.place object).2 (heap.place object).1 object := by
  obtain ⟨index, generation, vacancy, word, _, _, _, slots⟩ := place_spec layout room object
  have nothing : ∀ handle : Handle, handle.index = index → heap.lookup? handle = none := by
    intro handle same
    cases found : heap.lookup? handle with
    | none => rfl
    | some object =>
      obtain ⟨slot, slotFound, _, objectFound⟩ := lookup?_eq_some.1 found
      have unused := vacancy.unused
      rw [same] at slotFound
      simp [object?, slotFound, objectFound] at unused
  rw [word]
  constructor
  case isRef => simp
  case notNull =>
    refine Bool.eq_false_iff.2 fun isNull => vacancy.positive ?_
    have zero := Word.index_of_isNull isNull
    simpa using zero
  case fresh =>
    refine nothing _ ?_
    simp
  case found =>
    refine lookup?_eq_some.2
      ⟨{ generation, object := some object, next := heap.head }, ?_, ?_, ?_⟩
    · rw [slots]
      simp
    · simp [vacancy.masked]
    · rfl
  case others =>
    intro handle different
    simp only [Word.toHandle_ofHandle, Handle.index_make, Handle.generation_make,
      vacancy.masked] at different
    by_cases same : handle.index = index
    · have otherGeneration : ¬ generation = handle.generation := by
        intro equal
        simp [same, equal] at different
      rw [nothing handle same]
      unfold lookup?
      rw [slots, if_pos same]
      simp [otherGeneration]
    · unfold lookup?
      rw [slots, if_neg same]

theorem Unmarked.place (unmarked : Unmarked heap) (layout : Layout heap live)
    (room : heap.slots.size + 1 < 2 ^ 32) (object : Object) : Unmarked (heap.place object).2 := by
  obtain ⟨index, generation, _, _, _, _, _, slots⟩ := place_spec layout room object
  intro other slot found
  rw [slots] at found
  split at found
  · cases found
    rfl
  · exact unmarked other slot found

/-- The heap in which an allocation places its object: only figures have changed. -/
def charged (heap : Heap) (size : Nat) : Heap :=
  pace { heap with bytes := heap.bytes + size, allocations := heap.allocations + 1 } size

theorem allocate_eq (heap : Heap) (payload : Payload) :
    heap.allocate payload =
      (heap.charged (headerSize + payload.size)).place ⟨headerSize + payload.size, payload⟩ := rfl

theorem charged_slots (heap : Heap) (size : Nat) : (heap.charged size).slots = heap.slots := by
  unfold charged pace
  split <;> rfl

theorem charged_head (heap : Heap) (size : Nat) : (heap.charged size).head = heap.head := by
  unfold charged pace
  split <;> rfl

theorem charged_free (heap : Heap) (size : Nat) : (heap.charged size).free = heap.free := by
  unfold charged pace
  split <;> rfl

theorem charged_count (heap : Heap) (size : Nat) : (heap.charged size).count = heap.count := by
  unfold charged pace
  split <;> rfl

theorem charged_bytes (heap : Heap) (size : Nat) :
    (heap.charged size).bytes = heap.bytes + size := by
  unfold charged pace
  split <;> rfl

theorem charged_slot? (heap : Heap) (size : Nat) : (heap.charged size).slot? = heap.slot? := by
  funext index
  rw [slot?_eq_slotIn, slot?_eq_slotIn, charged_slots]

theorem charged_lookup? (heap : Heap) (size : Nat) :
    (heap.charged size).lookup? = heap.lookup? := by
  funext handle
  unfold lookup?
  rw [charged_slot?]

theorem Layout.charged (layout : Layout heap live) (size : Nat) :
    Layout (heap.charged size) live := by
  refine layout.of_shape?_eq ?_ (charged_head heap size) (charged_free heap size) ?_
  · funext index
    unfold shape?
    rw [charged_slot?]
  · rw [charged_slots]

theorem WellFormed.allocate (wellFormed : WellFormed heap) (room : heap.slots.size + 1 < 2 ^ 32)
    (payload : Payload) : WellFormed (heap.allocate payload).2 := by
  rw [allocate_eq]
  have layout := wellFormed.layout.charged (headerSize + payload.size)
  have unmarked : Unmarked (heap.charged (headerSize + payload.size)) := by
    intro index slot found
    rw [charged_slot?] at found
    exact wellFormed.unmarked index slot found
  rw [← charged_slots heap (headerSize + payload.size)] at room
  exact WellFormed.of_layout (layout.place room _) (unmarked.place layout room _)

theorem allocate_allocated (wellFormed : WellFormed heap) (room : heap.slots.size + 1 < 2 ^ 32)
    (payload : Payload) :
    Allocated heap (heap.allocate payload).2 (heap.allocate payload).1
      ⟨headerSize + payload.size, payload⟩ := by
  rw [allocate_eq]
  have layout := wellFormed.layout.charged (headerSize + payload.size)
  have lookups := charged_lookup? heap (headerSize + payload.size)
  rw [← charged_slots heap (headerSize + payload.size)] at room
  have allocated := place_allocated layout room ⟨headerSize + payload.size, payload⟩
  exact ⟨allocated.isRef, allocated.notNull, lookups ▸ allocated.fresh, allocated.found,
    lookups ▸ allocated.others⟩

end WordMachine.Heap
