import WordMachine.Proofs.Sweeping
import WordMachine.Machine.Session

/-!
Collections are exact: on any heap that operations and earlier collections lead to, a collection
keeps the objects that the roots reach, frees all others and accounts for them.
-/

namespace WordMachine

namespace Heap

variable {heap after : Heap} {live : List UInt32} {word : Word} {object : Object} {text : Bytes}
variable {count : Nat}

/-! ## Accounting of single operations -/

theorem object?_eq_some {index : UInt32} :
    heap.object? index = some object ↔
      ∃ slot, heap.slot? index = some slot ∧ slot.object = some object := by
  simp [object?, Option.bind_eq_some_iff]

theorem Layout.object?_isSome (layout : Layout heap live) (index : UInt32) :
    index ∈ live ↔ ∃ object, heap.object? index = some object := by
  rw [layout.inUse]
  constructor
  · rintro ⟨shape, found, used⟩
    obtain ⟨slot, slotFound, rfl⟩ := shape?_eq_some.1 found
    obtain ⟨object, objectFound⟩ := Option.isSome_iff_exists.1 used
    exact ⟨object, object?_eq_some.2 ⟨slot, slotFound, objectFound⟩⟩
  · rintro ⟨object, found⟩
    obtain ⟨slot, slotFound, objectFound⟩ := object?_eq_some.1 found
    refine ⟨shapeOf slot, shape?_eq_some.2 ⟨slot, slotFound, rfl⟩, ?_⟩
    simp [shapeOf, objectFound]

theorem sum_congr {before after : UInt32 → Nat}
    (same : ∀ index ∈ live, after index = before index) :
    (live.map after).sum = (live.map before).sum :=
  congrArg List.sum (List.map_congr_left same)

theorem place_object? (layout : Layout heap live) (room : heap.slots.size + 1 < 2 ^ 32)
    (object : Object) (index : UInt32) :
    (heap.place object).2.object? index =
      if index = (heap.place object).2.head then some object else heap.object? index := by
  obtain ⟨target, generation, _, _, head, _, _, slots⟩ := place_spec layout room object
  unfold object?
  rw [slots, head]
  split <;> rfl

theorem place_count (heap : Heap) (object : Object) :
    (heap.place object).2.count = heap.count + 1 := by
  unfold place
  split <;> rfl

theorem place_bytes (heap : Heap) (object : Object) : (heap.place object).2.bytes = heap.bytes := by
  unfold place
  split <;> rfl

theorem Layout.allocate (layout : Layout heap live) (room : heap.slots.size + 1 < 2 ^ 32)
    (payload : Payload) :
    Layout (heap.allocate payload).2 ((heap.allocate payload).2.head :: live) := by
  rw [← charged_slots heap (headerSize + payload.size)] at room
  exact (layout.charged (headerSize + payload.size)).place room _

theorem allocate_object? (layout : Layout heap live) (room : heap.slots.size + 1 < 2 ^ 32)
    (payload : Payload) (index : UInt32) :
    (heap.allocate payload).2.object? index =
      if index = (heap.allocate payload).2.head then some ⟨headerSize + payload.size, payload⟩
      else heap.object? index := by
  have charged : (heap.charged (headerSize + payload.size)).object? index = heap.object? index := by
    unfold object?
    rw [charged_slot?]
  rw [← charged_slots heap (headerSize + payload.size)] at room
  rw [allocate_eq, place_object? (layout.charged _) room, charged]

theorem Accounted.allocate (accounted : Accounted heap live) (layout : Layout heap live)
    (room : heap.slots.size + 1 < 2 ^ 32) (payload : Payload) :
    Accounted (heap.allocate payload).2 ((heap.allocate payload).2.head :: live) := by
  have objects := allocate_object? layout room payload
  have notLive := (List.nodup_cons.1 (layout.allocate room payload).nodup).1
  constructor
  case count =>
    rw [allocate_eq, place_count, charged_count, accounted.count, List.length_cons]
  case bytes =>
    have others : (live.map (heap.allocate payload).2.sizeAt).sum =
        (live.map heap.sizeAt).sum := by
      refine sum_congr fun index member => ?_
      have different : index ≠ (heap.allocate payload).2.head := by
        rintro rfl
        exact notLive member
      unfold sizeAt
      rw [objects, if_neg different]
    have first : (heap.allocate payload).2.sizeAt (heap.allocate payload).2.head =
        headerSize + payload.size := by
      unfold sizeAt
      rw [objects, if_pos rfl]
      rfl
    have total : (heap.allocate payload).2.bytes =
        heap.bytes + (headerSize + payload.size : Nat) := by
      rw [allocate_eq, place_bytes, charged_bytes]
    rw [total, accounted.bytes, List.map_cons, List.sum_cons, others, first]
    omega
  case strings =>
    intro index object found isString
    rw [objects] at found
    split at found
    · cases found
      rfl
    · exact accounted.strings index object found isString

theorem object?_modify
    {heap changed : Heap} {index : UInt32} {change : Object → Object}
    (positive : index ≠ 0)
    (slots : changed.slots = heap.slots.modify (index.toNat - 1) fun slot =>
      { slot with object := slot.object.map change })
    (other : UInt32) :
    changed.object? other =
      if other = index then (heap.object? other).map change else heap.object? other := by
  unfold object?
  rw [slot?_eq_slotIn, slot?_eq_slotIn, slots, slotIn_modify _ positive]
  by_cases same : other = index
  · rw [if_pos same, if_pos same]
    cases slotIn heap.slots other with
    | none => rfl
    | some slot => rfl
  · rw [if_neg same, if_neg same]

/-- A change of an object that gives back some of its bytes keeps the accounts. -/
theorem Accounted.of_modify
    {heap changed : Heap} {live : List UInt32} {index : UInt32} {object : Object}
    {change : Object → Object} (freed : Nat)
    (accounted : Accounted heap live) (layout : Layout heap live)
    (found : heap.object? index = some object)
    (slots : changed.slots = heap.slots.modify (index.toNat - 1) fun slot =>
      { slot with object := slot.object.map change })
    (count : changed.count = heap.count)
    (bytes : changed.bytes = heap.bytes - freed)
    (size : (change object).size + freed = object.size)
    (strings : (change object).payload.kind = .string →
      (change object).size = headerSize + (change object).payload.size) :
    Accounted changed live := by
  obtain ⟨slot, slotFound, _⟩ := object?_eq_some.1 found
  have objects := object?_modify (ne_zero_of_slotIn slotFound) slots
  have member : index ∈ live := (layout.object?_isSome index).2 ⟨object, found⟩
  constructor
  case count =>
    rw [count]
    exact accounted.count
  case bytes =>
    obtain ⟨before, after, rfl⟩ := List.append_of_mem member
    have nodup := layout.nodup
    have others : ∀ other, other ≠ index → changed.sizeAt other = heap.sizeAt other := by
      intro other different
      unfold sizeAt
      rw [objects, if_neg different]
    have inFront : (before.map changed.sizeAt).sum = (before.map heap.sizeAt).sum := by
      refine sum_congr fun other otherMember => others other ?_
      rintro rfl
      exact (List.nodup_append.1 nodup).2.2 other otherMember other List.mem_cons_self rfl
    have behind : (after.map changed.sizeAt).sum = (after.map heap.sizeAt).sum := by
      refine sum_congr fun other otherMember => others other ?_
      rintro rfl
      exact (List.nodup_cons.1 (List.nodup_append.1 nodup).2.1).1 otherMember
    have here : changed.sizeAt index + freed = heap.sizeAt index := by
      unfold sizeAt
      rw [objects, if_pos rfl, found]
      exact size
    have total := accounted.bytes
    simp only [List.map_append, List.map_cons, List.sum_append, List.sum_cons] at total ⊢
    rw [bytes, total, inFront, behind]
    omega
  case strings =>
    intro other otherObject otherFound isString
    rw [objects] at otherFound
    split at otherFound
    · next same =>
      subst same
      rw [found] at otherFound
      cases otherFound
      exact strings isString
    · exact accounted.strings other otherObject otherFound isString

/-! ## Accounting of collections -/

theorem OnlyMarks.object? {marked : Heap} (same : OnlyMarks heap marked) :
    marked.object? = heap.object? := by
  funext index
  unfold Heap.object?
  have equal := same.slots index
  cases found : marked.slot? index with
  | none =>
    rw [found] at equal
    rw [Option.map_eq_none_iff.1 equal.symm]
  | some slot =>
    obtain ⟨original, originalFound, _, object, _⟩ := same.slot found
    rw [originalFound]
    exact object.symm

theorem OnlyMarks.layout {marked : Heap} (same : OnlyMarks heap marked)
    (layout : Layout heap live) : Layout marked live := by
  refine layout.of_shape?_eq ?_ ?_ ?_ same.size
  · funext index
    have equal := congrArg (Option.map shapeOf) (same.slots index)
    simp only [Option.map_map] at equal
    exact equal
  · have heads := congrArg Heap.head same.rest
    exact heads
  · have frees := congrArg Heap.free same.rest
    exact frees

theorem Freed.sum_eq (freed : List Freed) (start : Int) :
    freed.foldl (fun (bytes : Int) (entry : Freed) => bytes - entry.object.size) start =
      start - ((freed.map fun entry => entry.object.size).sum : Nat) := by
  induction freed generalizing start with
  | nil => simp
  | cons entry freed ih =>
    rw [List.foldl_cons, ih, List.map_cons, List.sum_cons]
    omega

section Swept

variable {heap : Heap} {kept dropped : List UInt32}

theorem Swept.object?_kept (swept : Swept heap kept dropped) {index : UInt32}
    (member : index ∈ kept) : heap.sweep.1.object? index = heap.object? index := by
  obtain ⟨slot, next, found, _, now⟩ := swept.done.keptSlots index member
  unfold object?
  rw [sweep_slot?, now, found]
  rfl

/-- The freed objects are those of the slots taken out, in the order of the list. -/
theorem Swept.freed_eq (swept : Swept heap kept dropped) :
    heap.sweep.2 =
      (dropped.filterMap fun index => (heap.object? index).map (Freed.mk index)).reverse := by
  rw [sweep_freed, swept.done.freed]

theorem filterMap_freed {live : List UInt32}
    (found : ∀ index ∈ live, ∃ object, heap.object? index = some object) :
    ((live.filterMap fun index => (heap.object? index).map (Freed.mk index)).map Freed.index =
        live) ∧
      ((live.filterMap fun index => (heap.object? index).map (Freed.mk index)).map
        fun entry => entry.object.size) = live.map heap.sizeAt := by
  induction live with
  | nil => exact ⟨rfl, rfl⟩
  | cons index live ih =>
    obtain ⟨object, objectFound⟩ := found index List.mem_cons_self
    obtain ⟨indexes, sizes⟩ :=
      ih fun other member => found other (List.mem_cons_of_mem index member)
    have size : heap.sizeAt index = object.size := by simp [sizeAt, objectFound]
    simp only [List.filterMap_cons, objectFound, Option.map_some, List.map_cons, indexes, sizes,
      size, and_self]

theorem Swept.dropped_object? (swept : Swept heap kept dropped) (layout : Layout heap heap.live)
    (index : UInt32) (member : index ∈ dropped) : ∃ object, heap.object? index = some object :=
  (layout.object?_isSome index).1 ((swept.mem_live index).2 (Or.inr member))

theorem Swept.freed_indexes (swept : Swept heap kept dropped) (layout : Layout heap heap.live) :
    heap.sweep.2.map Freed.index = dropped.reverse := by
  rw [swept.freed_eq, List.map_reverse, (filterMap_freed (swept.dropped_object? layout)).1]

theorem Swept.freed_sizes (swept : Swept heap kept dropped) (layout : Layout heap heap.live) :
    (heap.sweep.2.map fun entry => entry.object.size).sum = (dropped.map heap.sizeAt).sum := by
  rw [swept.freed_eq, List.map_reverse, (filterMap_freed (swept.dropped_object? layout)).2,
    List.sum_reverse]

theorem Swept.accounted (swept : Swept heap kept dropped) (layout : Layout heap heap.live)
    (accounted : Accounted heap heap.live) : Accounted heap.sweep.1 kept := by
  have sameCount := congrArg Heap.count swept.done.figures
  have sameBytes := congrArg Heap.bytes swept.done.figures
  have number : heap.sweep.2.length = dropped.length := by
    have lengths := congrArg List.length (swept.freed_indexes layout)
    simpa using lengths
  constructor
  case count =>
    have all := swept.all.length_eq
    rw [List.length_append] at all
    change heap.sweeping.heap.count - heap.sweep.2.length = kept.length
    rw [show heap.sweeping.heap.count = heap.count from sameCount, accounted.count, number]
    omega
  case bytes =>
    have all := (swept.all.map heap.sizeAt).sum_nat
    rw [List.map_append, List.sum_append] at all
    have keptSizes : (kept.map heap.sweep.1.sizeAt).sum = (kept.map heap.sizeAt).sum := by
      refine sum_congr fun index member => ?_
      unfold sizeAt
      rw [swept.object?_kept member]
    change heap.sweep.2.foldl (fun (bytes : Int) (entry : Freed) => bytes - entry.object.size)
      heap.sweeping.heap.bytes = _
    rw [Freed.sum_eq, swept.freed_sizes layout,
      show heap.sweeping.heap.bytes = heap.bytes from sameBytes, accounted.bytes, keptSizes]
    omega
  case strings =>
    intro index object found isString
    have member : index ∈ kept := ((swept.layout layout).object?_isSome index).2 ⟨object, found⟩
    rw [swept.object?_kept member] at found
    exact accounted.strings index object found isString

end Swept

/-! ## Collections -/

theorem Layout.mem_of_lookup? (layout : Layout heap live) {handle : Handle}
    (found : heap.lookup? handle = some object) : handle.index ∈ live := by
  obtain ⟨slot, slotFound, _, objectFound⟩ := lookup?_eq_some.1 found
  exact (layout.object?_isSome _).2 ⟨object, object?_eq_some.2 ⟨slot, slotFound, objectFound⟩⟩

theorem mem_live_of_marked (wellFormed : WellFormed heap) (roots : List Word) {index : UInt32}
    (marked : Marked (heap.mark roots) index) : index ∈ heap.live := by
  have invariant := (Marking.invariant_start wellFormed.unmarked roots).run
    (roots.length + heap.referenceCount)
  obtain ⟨word, object, _, _, rfl, found⟩ := invariant.sound index marked
  exact wellFormed.layout.mem_of_lookup? found

/-- What a collection leaves of a heap, and what it reports as freed. -/
structure Collected (heap : Heap) (roots : List Word) (after : Heap) (freed : List Freed) :
    Prop where
  /-- An object is kept, unchanged and under its handle, exactly if the roots lead to it. -/
  kept : ∀ handle object,
    after.lookup? handle = some object ↔
      heap.lookup? handle = some object ∧ Reaches heap roots handle
  /-- The other objects are freed, each once. -/
  gone : ∀ index object,
    Freed.mk index object ∈ freed ↔
      ∃ handle : Handle, handle.index = index ∧ heap.lookup? handle = some object ∧
        ¬ Reaches heap roots handle
  once : (freed.map Freed.index).Nodup
  unmarked : Unmarked after
  /-- The figures are those of the objects kept and freed. -/
  count : after.count + freed.length = heap.count
  bytes : after.bytes + ((freed.map fun entry => entry.object.size).sum : Nat) = heap.bytes

section Collect

variable {heap : Heap}

theorem mark_layout (wellFormed : WellFormed heap) (roots : List Word) :
    Layout (heap.mark roots) (heap.mark roots).live := by
  have layout := (mark_onlyMarks wellFormed roots).layout wellFormed.layout
  rw [layout.live_eq]
  exact layout

theorem mark_live (wellFormed : WellFormed heap) (roots : List Word) :
    (heap.mark roots).live = heap.live :=
  ((mark_onlyMarks wellFormed roots).layout wellFormed.layout).live_eq

theorem mark_accounted (wellFormed : WellFormed heap) (accounted : Accounted heap heap.live)
    (roots : List Word) : Accounted (heap.mark roots) (heap.mark roots).live := by
  have same := mark_onlyMarks wellFormed roots
  have count := congrArg Heap.count same.rest
  have bytes := congrArg Heap.bytes same.rest
  have sizes : (heap.mark roots).sizeAt = heap.sizeAt := by
    funext index
    unfold sizeAt
    rw [same.object?]
  rw [mark_live wellFormed]
  refine ⟨Eq.trans count accounted.count, ?_, ?_⟩
  · rw [sizes]
    exact Eq.trans bytes accounted.bytes
  · rw [same.object?]
    exact accounted.strings

theorem WellFormed.sweep_mark (wellFormed : WellFormed heap) (roots : List Word) :
    WellFormed (heap.mark roots).sweep.1 := by
  have layout := mark_layout wellFormed roots
  obtain ⟨kept, dropped, swept⟩ := exists_swept layout
  refine WellFormed.of_layout (swept.layout layout) (swept.unmarked ?_)
  intro index marked
  rw [mark_live wellFormed]
  exact mem_live_of_marked wellFormed roots marked

theorem Accounted.sweep_mark (accounted : Accounted heap heap.live) (wellFormed : WellFormed heap)
    (roots : List Word) : Accounted (heap.mark roots).sweep.1 (heap.mark roots).sweep.1.live := by
  have layout := mark_layout wellFormed roots
  obtain ⟨kept, dropped, swept⟩ := exists_swept layout
  rw [(swept.layout layout).live_eq]
  exact swept.accounted layout (mark_accounted wellFormed accounted roots)

theorem lookup?_sweep_mark (wellFormed : WellFormed heap) (roots : List Word)
    (handle : Handle) (object : Object) :
    (heap.mark roots).sweep.1.lookup? handle = some object ↔
      heap.lookup? handle = some object ∧ Reaches heap roots handle := by
  have layout := mark_layout wellFormed roots
  obtain ⟨kept, dropped, swept⟩ := exists_swept layout
  rw [swept.lookup? layout, (mark_onlyMarks wellFormed roots).lookup?]
  constructor
  · rintro ⟨found, marked⟩
    exact ⟨found, (marked_mark_iff wellFormed roots found).1 marked⟩
  · rintro ⟨found, reaches⟩
    exact ⟨found, (marked_mark_iff wellFormed roots found).2 reaches⟩

theorem exists_lookup? (wellFormed : WellFormed heap) {index : UInt32} {object : Object}
    (found : heap.object? index = some object) :
    ∃ handle : Handle, handle.index = index ∧ heap.lookup? handle = some object := by
  obtain ⟨slot, slotFound, objectFound⟩ := object?_eq_some.1 found
  have masked := wellFormed.layout.generation index (shapeOf slot)
    (shape?_eq_some.2 ⟨slot, slotFound, rfl⟩)
  refine ⟨.make index slot.generation, Handle.index_make _ _, ?_⟩
  refine lookup?_eq_some.2 ⟨slot, ?_, ?_, objectFound⟩
  · rw [Handle.index_make]
    exact slotFound
  · rw [Handle.generation_make]
    exact masked.symm

theorem mem_freed (wellFormed : WellFormed heap) (roots : List Word)
    (index : UInt32) (object : Object) :
    Freed.mk index object ∈ (heap.mark roots).sweep.2 ↔
      ∃ handle : Handle, handle.index = index ∧ heap.lookup? handle = some object ∧
        ¬ Reaches heap roots handle := by
  have layout := mark_layout wellFormed roots
  have same := mark_onlyMarks wellFormed roots
  obtain ⟨kept, dropped, swept⟩ := exists_swept layout
  have listed : Freed.mk index object ∈ (heap.mark roots).sweep.2 ↔
      index ∈ dropped ∧ heap.object? index = some object := by
    rw [swept.freed_eq, List.mem_reverse, List.mem_filterMap, same.object?]
    constructor
    · rintro ⟨other, member, equal⟩
      obtain ⟨found, objectFound, entry⟩ := Option.map_eq_some_iff.1 equal
      cases entry
      exact ⟨member, objectFound⟩
    · rintro ⟨member, found⟩
      exact ⟨index, member, by rw [found]; rfl⟩
  rw [listed]
  constructor
  · rintro ⟨member, found⟩
    obtain ⟨handle, rfl, handleFound⟩ := exists_lookup? wellFormed found
    refine ⟨handle, rfl, handleFound, fun reaches => ?_⟩
    have marked := (marked_mark_iff wellFormed roots handleFound).2 reaches
    have inUse := (swept.mem_live handle.index).2 (Or.inr member)
    exact swept.notDropped ((swept.mem_kept inUse).2 marked) member
  · rintro ⟨handle, rfl, found, notReached⟩
    have inUse : handle.index ∈ (heap.mark roots).live := by
      rw [mark_live wellFormed]
      exact wellFormed.layout.mem_of_lookup? found
    obtain ⟨slot, slotFound, _, objectFound⟩ := lookup?_eq_some.1 found
    refine ⟨?_, object?_eq_some.2 ⟨slot, slotFound, objectFound⟩⟩
    rcases (swept.mem_live _).1 inUse with member | member
    · have marked := (swept.mem_kept inUse).1 member
      exact absurd ((marked_mark_iff wellFormed roots found).1 marked) notReached
    · exact member

theorem sweep_mark_collected (wellFormed : WellFormed heap) (accounted : Accounted heap heap.live)
    (roots : List Word) :
    Collected heap roots (heap.mark roots).sweep.1 (heap.mark roots).sweep.2 := by
  have layout := mark_layout wellFormed roots
  have marked := mark_accounted wellFormed accounted roots
  obtain ⟨kept, dropped, swept⟩ := exists_swept layout
  have after := swept.accounted layout marked
  have indexes := swept.freed_indexes layout
  constructor
  case kept => exact lookup?_sweep_mark wellFormed roots
  case gone => exact mem_freed wellFormed roots
  case once =>
    rw [indexes, List.nodup_reverse]
    exact (List.nodup_append.1 swept.nodup).2.1
  case unmarked => exact (wellFormed.sweep_mark roots).unmarked
  case count =>
    have number := congrArg List.length indexes
    have all := swept.all.length_eq
    rw [List.length_map, List.length_reverse] at number
    rw [List.length_append, mark_live wellFormed] at all
    rw [after.count, number, accounted.count]
    exact all
  case bytes =>
    have all := (swept.all.map (heap.mark roots).sizeAt).sum_nat
    rw [List.map_append, List.sum_append] at all
    have keptSizes : (kept.map (heap.mark roots).sweep.1.sizeAt).sum =
        (kept.map (heap.mark roots).sizeAt).sum := by
      refine sum_congr fun index member => ?_
      unfold sizeAt
      rw [swept.object?_kept member]
    have same : (heap.mark roots).bytes = heap.bytes := by
      have bytes := congrArg Heap.bytes (mark_onlyMarks wellFormed roots).rest
      exact bytes
    rw [after.bytes, swept.freed_sizes layout, keptSizes, ← same, marked.bytes]
    omega

end Collect

/-! ## Heaps that operations lead to -/

/-- The heaps that operations and collections lead to. Slots are numbered by 32 bits, so there is
room for a new slot while the number after the next one is one too. -/
inductive Reachable : Heap → Prop
  | new (interval limit : Int) :
      Reachable (.new interval limit)
  | allocate {heap : Heap} (payload : Payload) :
      Reachable heap →
      heap.slots.size + 1 < 2 ^ 32 →
      Reachable (heap.allocate payload).2
  | trim {heap after : Heap} {word : Word} {count : Nat} :
      Reachable heap →
      heap.trim word count = .ok after →
      Reachable after
  /-- A read gives no more bytes than there is room for. -/
  | fill {heap after : Heap} {word : Word} {text current : Bytes} :
      Reachable heap →
      heap.text word = .ok current →
      text.size ≤ current.size →
      heap.fill word text = .ok after →
      Reachable after
  | flatten {heap : Heap} {word : Word} {text : Bytes} :
      Reachable heap →
      heap.text word = .ok text →
      Reachable (heap.remember word text)
  /-- A future gets its outcome, a lazy call its value, or a stream moves on. -/
  | change {heap : Heap} {word : Word} {object : Object} (payload : Payload) :
      Reachable heap →
      heap.deref word = .ok object →
      payload.kind = object.payload.kind →
      payload.kind ≠ .string →
      Reachable (heap.setPayload word payload)
  /-- A collection is requested, or a request taken up. -/
  | pace {heap : Heap} (left : Int) (requested : Bool) :
      Reachable heap →
      Reachable { heap with left, requested }
  | collect {heap : Heap} (roots : List Word) :
      Reachable heap →
      Reachable (heap.collect roots).1

theorem deref_eq_ok :
    heap.deref word = .ok object ↔
      word.isRef = true ∧ heap.lookup? word.toHandle = some object := by
  unfold deref
  by_cases isRef : word.isRef = true
  · rw [if_pos isRef]
    cases heap.lookup? word.toHandle with
    | none => simp
    | some found => simp [isRef]
  · rw [if_neg isRef]
    simp [isRef]

theorem object?_of_lookup? {handle : Handle} (found : heap.lookup? handle = some object) :
    heap.object? handle.index = some object := by
  obtain ⟨slot, slotFound, _, objectFound⟩ := lookup?_eq_some.1 found
  exact object?_eq_some.2 ⟨slot, slotFound, objectFound⟩

/-- A heap that is laid out and accounted for. -/
structure Sound (heap : Heap) : Prop where
  wellFormed : WellFormed heap
  accounted : Accounted heap heap.live

theorem Sound.of_live (wellFormed : WellFormed heap) (layout : Layout heap live)
    (accounted : Accounted heap live) : Sound heap := by
  refine ⟨wellFormed, ?_⟩
  rw [layout.live_eq]
  exact accounted

theorem Sound.new (interval limit : Int) : Sound (.new interval limit) := by
  have nothing : ∀ index, (Heap.new interval limit).slot? index = none := by
    intro index
    simp [Heap.new, Heap.slot?]
  have noShape : ∀ index, (Heap.new interval limit).shape? index = none := by
    intro index
    rw [shape?, nothing]
    rfl
  have layout : Layout (Heap.new interval limit) [] := by
    constructor
    case chain => exact Chain.nil
    case nodup => exact List.nodup_nil
    case inUse => simp [noShape]
    case freeNodup => exact List.nodup_nil
    case notInUse =>
      intro index
      rw [noShape]
      simp [Heap.new]
    case generation =>
      intro index shape found
      rw [noShape] at found
      cases found
    case small => simp [Heap.new]
  refine Sound.of_live (WellFormed.of_layout layout ?_) layout ⟨rfl, rfl, ?_⟩
  · intro index slot found
    rw [nothing] at found
    cases found
  · intro index object found
    rw [object?, nothing] at found
    cases found

theorem Sound.allocate (sound : Sound heap) (payload : Payload)
    (room : heap.slots.size + 1 < 2 ^ 32) : Sound (heap.allocate payload).2 :=
  Sound.of_live (sound.wellFormed.allocate room payload)
    (sound.wellFormed.layout.allocate room payload)
    (sound.accounted.allocate sound.wellFormed.layout room payload)

/-- A new text for a string that gives back what it does not use. -/
theorem Sound.setText (sound : Sound heap) (found : heap.lookup? word.toHandle = some object)
    (isString : object.payload.kind = .string) (text : Bytes)
    (shorter : text.size ≤ object.payload.size) :
    Sound (heap.setText word text (object.payload.size - text.size)) := by
  have objectFound := object?_of_lookup? found
  have wellFormed := sound.wellFormed.setText word text (object.payload.size - text.size)
  have layout : Layout (heap.setText word text (object.payload.size - text.size)) heap.live := by
    refine sound.wellFormed.layout.of_shape?_eq (shape?_modify (setText_slots _ _ _ _) ?_)
      rfl rfl ?_
    · intro slot
      cases slot with
      | mk generation object next marked => cases object <;> rfl
    · rw [setText_slots, Array.size_modify]
  have size := sound.accounted.strings _ object objectFound isString
  refine Sound.of_live wellFormed layout
    (sound.accounted.of_modify _ sound.wellFormed.layout objectFound (setText_slots _ _ _ _)
      rfl rfl ?_ ?_)
  · change object.size - (object.payload.size - text.size) + _ = object.size
    omega
  · intro _
    change object.size - (object.payload.size - text.size) = headerSize + text.size
    omega

/-- A change of an object that keeps its size keeps a heap sound, if a string that results is
accounted by its length. -/
theorem Sound.of_modify {heap changed : Heap} (sound : Sound heap) {word : Word} {object : Object}
    {change : Object → Object}
    (found : heap.lookup? word.toHandle = some object)
    (slots : changed.slots = heap.slots.modify (word.toHandle.index.toNat - 1) fun slot =>
      { slot with object := slot.object.map change })
    (rest : { changed with slots := heap.slots } = heap)
    (size : (change object).size = object.size)
    (strings : (change object).payload.kind = .string →
      (change object).size = headerSize + (change object).payload.size) :
    Sound changed := by
  have objectFound := object?_of_lookup? found
  have keepsShape : ∀ slot : Slot,
      shapeOf { slot with object := slot.object.map change } = shapeOf slot := by
    intro slot
    cases slot with
    | mk generation object next marked => cases object <;> rfl
  have head := congrArg Heap.head rest
  have free := congrArg Heap.free rest
  have count := congrArg Heap.count rest
  have bytes := congrArg Heap.bytes rest
  have wellFormed := sound.wellFormed.of_modify slots keepsShape (fun _ => rfl) head free
  have layout := sound.wellFormed.layout.of_shape?_eq (shape?_modify slots keepsShape) head free
    (by rw [slots, Array.size_modify])
  refine Sound.of_live wellFormed layout
    (sound.accounted.of_modify 0 sound.wellFormed.layout objectFound slots count ?_ size strings)
  exact Eq.trans bytes (Int.sub_zero _).symm

theorem Sound.setPayload (sound : Sound heap) (found : heap.lookup? word.toHandle = some object)
    {payload : Payload} (notString : payload.kind ≠ .string) :
    Sound (heap.setPayload word payload) :=
  sound.of_modify found (setPayload_slots heap word payload) rfl rfl
    fun isString => absurd isString notString

theorem Sound.remember (sound : Sound heap) (found : heap.lookup? word.toHandle = some object)
    (text : Bytes) : Sound (heap.remember word text) := by
  have strings := sound.accounted.strings _ object (object?_of_lookup? found)
  refine sound.of_modify found (remember_slots heap word text) rfl ?_ ?_
  · split <;> rfl
  · split
    · intro isString
      cases isString
    · exact strings

theorem size_take (inside : count < text.size) : (Bytes.take text count).size = count := by
  simp only [Bytes.take, ByteArray.size_extract, Nat.sub_zero]
  exact Nat.min_eq_left (Nat.le_of_lt inside)

theorem size_replicate (count : Nat) (byte : UInt8) :
    (Bytes.replicate count byte).size = count := by
  simp [Bytes.replicate, ByteArray.size]

theorem text_eq_ok (read : heap.text word = .ok text) :
    ∃ object, heap.lookup? word.toHandle = some object ∧
      (object.payload.kind = .string → object.payload.size = text.size) := by
  unfold Heap.text at read
  split at read
  · cases read
  · next object found =>
    refine ⟨object, (deref_eq_ok.1 found).2, ?_⟩
    split at read
    · next current payload =>
      cases read
      intro _
      rw [payload]
      rfl
    · next length payload =>
      cases read
      intro _
      rw [payload, size_replicate]
      rfl
    · next payload =>
      rw [payload]
      intro isString
      cases isString
    · next payload =>
      rw [payload]
      intro isString
      cases isString
    · cases read

/-- What cutting a string comes to: nothing, or a new text that gives back what it does not use. -/
theorem trim_eq_ok (trimmed : heap.trim word count = .ok after) :
    after = heap ∨
      ∃ object text, heap.lookup? word.toHandle = some object ∧ object.payload.kind = .string ∧
        text.size ≤ object.payload.size ∧
        after = heap.setText word text (object.payload.size - text.size) := by
  unfold Heap.trim at trimmed
  split at trimmed
  · cases trimmed
  · next object found =>
    obtain ⟨_, objectFound⟩ := deref_eq_ok.1 found
    split at trimmed
    · next text payload =>
      cases trimmed
      split
      · next inside =>
        refine Or.inr ⟨object, Bytes.take text count, objectFound, by rw [payload]; rfl, ?_, ?_⟩
        · rw [payload, size_take inside]
          exact Nat.le_of_lt inside
        · rw [payload, size_take inside]
          rfl
      · exact Or.inl rfl
    · next length payload =>
      cases trimmed
      split
      · next inside =>
        refine Or.inr ⟨object, Bytes.replicate count 0, objectFound, by rw [payload]; rfl, ?_, ?_⟩
        · rw [payload, size_replicate]
          exact Nat.le_of_lt inside
        · rw [payload, size_replicate]
          rfl
      · exact Or.inl rfl
    · cases trimmed

theorem Sound.trim (sound : Sound heap) (trimmed : heap.trim word count = .ok after) :
    Sound after := by
  rcases trim_eq_ok trimmed with rfl | ⟨object, text, found, isString, shorter, rfl⟩
  · exact sound
  · exact sound.setText found isString text shorter

theorem fill_eq_ok {current : Bytes} (read : heap.text word = .ok current)
    (filled : heap.fill word text = .ok after) :
    ∃ object, heap.lookup? word.toHandle = some object ∧ object.payload.kind = .string ∧
      object.payload.size = current.size ∧
      after = heap.setText word text (object.payload.size - text.size) := by
  obtain ⟨object, found, size⟩ := text_eq_ok read
  unfold Heap.fill at filled
  split at filled
  · cases filled
  · next other otherFound =>
    have same : other = object :=
      Option.some.inj ((deref_eq_ok.1 otherFound).2.symm.trans found)
    subst same
    split at filled
    · next payload =>
      have isString : other.payload.kind = .string := by rw [payload]; rfl
      cases filled
      exact ⟨other, found, isString, size isString, by rw [payload]; rfl⟩
    · next payload =>
      have isString : other.payload.kind = .string := by rw [payload]; rfl
      cases filled
      exact ⟨other, found, isString, size isString, by rw [payload]; rfl⟩
    · cases filled

theorem Sound.fill (sound : Sound heap) {current : Bytes} (read : heap.text word = .ok current)
    (shorter : text.size ≤ current.size) (filled : heap.fill word text = .ok after) :
    Sound after := by
  obtain ⟨object, found, isString, size, rfl⟩ := fill_eq_ok read filled
  exact sound.setText found isString text (by rw [size]; exact shorter)

theorem WellFormed.pace (wellFormed : WellFormed heap) (left : Int) (requested : Bool) :
    WellFormed { heap with left, requested } :=
  WellFormed.of_layout (wellFormed.layout.of_shape?_eq rfl rfl rfl rfl) wellFormed.unmarked

theorem lookup?_pace (heap : Heap) (left : Int) (requested : Bool) (handle : Handle) :
    ({ heap with left, requested } : Heap).lookup? handle = heap.lookup? handle := rfl

theorem Sound.pace (sound : Sound heap) (left : Int) (requested : Bool) :
    Sound { heap with left, requested } := by
  have layout : Layout { heap with left, requested } heap.live :=
    sound.wellFormed.layout.of_shape?_eq rfl rfl rfl rfl
  refine Sound.of_live (sound.wellFormed.pace left requested) layout ?_
  exact ⟨sound.accounted.count, sound.accounted.bytes, sound.accounted.strings⟩

theorem collect_eq (heap : Heap) (roots : List Word) :
    heap.collect roots =
      ({ (heap.mark roots).sweep.1 with left := (heap.mark roots).sweep.1.interval },
        (heap.mark roots).sweep.2) := rfl

theorem Sound.sweep_mark (sound : Sound heap) (roots : List Word) :
    Sound (heap.mark roots).sweep.1 :=
  ⟨sound.wellFormed.sweep_mark roots, sound.accounted.sweep_mark sound.wellFormed roots⟩

theorem Sound.collect (sound : Sound heap) (roots : List Word) : Sound (heap.collect roots).1 := by
  rw [collect_eq]
  exact (sound.sweep_mark roots).pace _ _

theorem Reachable.sound (reachable : Reachable heap) : Sound heap := by
  induction reachable with
  | new interval limit => exact Sound.new interval limit
  | allocate payload _ room sound => exact sound.allocate payload room
  | trim _ trimmed sound => exact sound.trim trimmed
  | fill _ read shorter filled sound => exact sound.fill read shorter filled
  | flatten _ read sound =>
    obtain ⟨object, found, _⟩ := text_eq_ok read
    exact sound.remember found _
  | change payload _ found _ notString sound =>
    exact sound.setPayload (deref_eq_ok.1 found).2 notString
  | pace left requested _ sound => exact sound.pace left requested
  | collect roots _ sound => exact sound.collect roots

end Heap

/-! ## The report of a collection -/

theorem Shared.log_heap (shared : Shared) (line : Unit → Bytes) :
    (shared.log line).heap = shared.heap := by
  unfold Shared.log
  split <;> rfl

theorem Shared.foldl_keeps {α β : Type} {view : Shared → β} {change : Shared → α → Shared}
    (keeps : ∀ shared item, view (change shared item) = view shared) (items : List α)
    (shared : Shared) : view (items.foldl change shared) = view shared := by
  induction items generalizing shared with
  | nil => rfl
  | cons item items ih =>
    rw [List.foldl_cons, ih, keeps]

theorem Shared.collect_keeps {β : Type} {view : Shared → β}
    (logged : ∀ shared line, view (Shared.log shared line) = view shared)
    (closed : ∀ shared stream, view (closeStream shared stream) = view shared)
    (reported : ∀ shared milestone, view (Shared.report shared milestone) = view shared)
    (shared : Shared) (roots : List Word) :
    view (shared.collect roots).2 = view { shared with heap := (shared.heap.collect roots).1 } := by
  unfold Shared.collect
  rw [reported, logged, foldl_keeps closed, foldl_keeps fun shared _ => logged shared _]

/-- A collection changes the heap as marking and sweeping do. -/
theorem Shared.collect_heap (shared : Shared) (roots : List Word) :
    (shared.collect roots).2.heap = (shared.heap.collect roots).1 :=
  collect_keeps log_heap (fun _ _ => rfl) (fun _ _ => rfl) shared roots

theorem Heap.Freed.total_eq (freed : List Freed) (start : Nat) :
    freed.foldl (fun (total : Nat) (entry : Freed) => total + entry.object.size) start =
      start + (freed.map fun entry => entry.object.size).sum := by
  induction freed generalizing start with
  | nil => simp
  | cons entry freed ih =>
    rw [List.foldl_cons, ih, List.map_cons, List.sum_cons]
    omega

theorem Shared.collect_report (shared : Shared) (roots : List Word) :
    (shared.collect roots).1.freed = (shared.heap.collect roots).2.length ∧
      (shared.collect roots).1.freedBytes =
        ((shared.heap.collect roots).2.map fun entry => entry.object.size).sum := by
  refine ⟨rfl, ?_⟩
  exact (Heap.Freed.total_eq _ 0).trans (Nat.zero_add _)

namespace Heap

theorem Collected.pace {heap after : Heap} {roots : List Word} {freed : List Freed}
    (collected : Collected heap roots after freed) (left : Int) :
    Collected heap roots { after with left } freed :=
  ⟨collected.kept, collected.gone, collected.once, collected.unmarked, collected.count,
    collected.bytes⟩

/-- Collection is exact. Both loops end; the objects that the roots lead to are kept as they are,
all others are freed, and the report gives their number and total size. -/
theorem collection_exact {heap : Heap} (reachable : Reachable heap) (roots : List Word) :
    (heap.marking roots).pending = [] ∧
      (heap.mark roots).sweeping.index = 0 ∧
      Collected heap roots (heap.mark roots).sweep.1 (heap.mark roots).sweep.2 ∧
      ∀ shared : Shared, shared.heap = heap →
        ∃ freed, Collected heap roots (shared.collect roots).2.heap freed ∧
          (shared.collect roots).1.freed = freed.length ∧
          (shared.collect roots).1.freedBytes =
            (freed.map fun entry => entry.object.size).sum := by
  have sound := reachable.sound
  have collected := sweep_mark_collected sound.wellFormed sound.accounted roots
  obtain ⟨kept, dropped, swept⟩ := exists_swept (mark_layout sound.wellFormed roots)
  refine ⟨pending_marking sound.wellFormed roots, swept.atEnd, collected, ?_⟩
  rintro shared rfl
  obtain ⟨number, total⟩ := shared.collect_report roots
  refine ⟨_, ?_, number, total⟩
  rw [Shared.collect_heap, collect_eq]
  exact collected.pace _

/-- A lazy call whose value is a struct that refers back to it, and a number. -/
def knot : Heap :=
  let call : Word := .ofHandle (.make 1 0)
  let pair : Word := .ofHandle (.make 2 0)
  let heap := ((Heap.new 0 0).allocate (.lazy (.pending 0 #[]))).2
  let heap := (heap.allocate (.struct #[call])).2
  ((heap.setPayload call (.lazy (.forced pair))).allocate (.long (-1))).2

theorem collection_exact_knot :
    Reachable knot ∧
      (knot.marking [.ofHandle (.make 2 0)]).pending = [] ∧
      (knot.mark [.ofHandle (.make 2 0)]).sweep.2.length = 1 ∧
      Collected knot [.ofHandle (.make 2 0)] (knot.mark [.ofHandle (.make 2 0)]).sweep.1
        (knot.mark [.ofHandle (.make 2 0)]).sweep.2 := by
  have reachable : Reachable knot := by
    have call := Reachable.allocate (.lazy (.pending 0 #[])) (.new 0 0) (by decide)
    have pair := Reachable.allocate (.struct #[.ofHandle (.make 1 0)]) call (by decide)
    have forced := Reachable.change (.lazy (.forced (.ofHandle (.make 2 0)))) pair
      (show deref _ (.ofHandle (.make 1 0)) = .ok ⟨96, .lazy (.pending 0 #[])⟩ from rfl)
      rfl (by decide)
    exact Reachable.allocate (.long (-1)) forced (by decide)
  obtain ⟨marked, _, collected, _⟩ := collection_exact reachable [.ofHandle (.make 2 0)]
  exact ⟨reachable, marked, by decide, collected⟩

end Heap

end WordMachine
