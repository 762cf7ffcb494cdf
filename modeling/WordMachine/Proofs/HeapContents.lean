import WordMachine.Proofs.Collection

/-!
What the objects of a heap hold, taken together: what is true of all of them, and what they come to
when each counts for something. A new object adds to this, a collection divides it between the heap
and the freed objects, and a change of one object changes its part.
-/

namespace WordMachine

theorem mem_of_mem_modify {α : Type} {items : Array α} {position : Nat} {change : α → α} {item : α}
    (member : item ∈ items.modify position change) :
    item ∈ items ∨ ∃ before, items[position]? = some before ∧ item = change before := by
  obtain ⟨place, found⟩ := Array.mem_iff_getElem?.1 member
  rw [Array.getElem?_modify] at found
  by_cases same : position = place
  · rw [if_pos same] at found
    obtain ⟨before, beforeFound, rfl⟩ := Option.map_eq_some_iff.1 found
    rw [← same] at beforeFound
    exact Or.inr ⟨before, beforeFound, rfl⟩
  · rw [if_neg same] at found
    exact Or.inl (Array.mem_of_getElem? found)

namespace Heap

def slotCost (cost : Payload → Nat) (slot : Slot) : Nat :=
  slot.object.elim 0 fun object => cost object.payload

/-- What the objects of a heap count for together. -/
def total (cost : Payload → Nat) (heap : Heap) : Nat :=
  (heap.slots.toList.map (slotCost cost)).sum

/-- A heap whose objects all have a property. -/
def Each (holds : Payload → Prop) (heap : Heap) : Prop :=
  ∀ slot ∈ heap.slots, ∀ object, slot.object = some object → holds object.payload

/-- A heap that holds no object that another does not hold. -/
def Thins (before after : Heap) : Prop :=
  ∀ slot ∈ after.slots, ∀ object, slot.object = some object →
    ∃ other ∈ before.slots, other.object = some object

variable {heap before after : Heap} {cost : Payload → Nat} {holds : Payload → Prop}

theorem mem_slots_of_slot? {index : UInt32} {slot : Slot} (found : heap.slot? index = some slot) :
    slot ∈ heap.slots := by
  rw [slot?_eq_slotIn] at found
  rw [slotIn_of_ne_zero _ (ne_zero_of_slotIn found)] at found
  exact Array.mem_of_getElem? found

theorem Each.lookup? (each : heap.Each holds) {handle : Handle} {object : Object}
    (found : heap.lookup? handle = some object) :
    holds object.payload := by
  obtain ⟨slot, slotFound, _, objectFound⟩ := lookup?_eq_some.1 found
  exact each slot (mem_slots_of_slot? slotFound) object objectFound

theorem stream_of_lookup? {word : Word} {object : Object} {stream : Stream}
    (isRef : word.isRef = true) (found : heap.lookup? word.toHandle = some object)
    (holds : object.payload = .stream stream) :
    heap.stream word = .ok stream := by
  unfold Heap.stream view deref
  rw [if_pos isRef, found]
  dsimp only
  rw [holds]

theorem exists_mem_streams (wellFormed : heap.WellFormed) {handle : Handle} {object : Object}
    {stream : Stream} (found : heap.lookup? handle = some object)
    (holds : object.payload = .stream stream) :
    ∃ word ∈ heap.streams, word.isRef = true ∧ word.toHandle.index = handle.index ∧
      word.toHandle.generation = handle.generation := by
  have live := wellFormed.layout.mem_of_lookup? found
  obtain ⟨slot, slotFound, generation, _⟩ := lookup?_eq_some.1 found
  have masked := wellFormed.layout.generation handle.index (shapeOf slot)
    (shape?_eq_some.2 ⟨slot, slotFound, rfl⟩)
  have same : (Handle.make handle.index slot.generation).generation = handle.generation := by
    rw [Handle.generation_make, ← generation]
    exact masked
  have leads : heap.lookup? (.make handle.index slot.generation) = some object := by
    rw [lookup?_congr heap (Handle.index_make _ _) same]
    exact found
  have listed : Handle.make handle.index slot.generation ∈ heap.handles :=
    List.mem_map.2 ⟨handle.index, live, by rw [slotFound]⟩
  refine ⟨.ofHandle (.make handle.index slot.generation), List.mem_filterMap.2 ⟨_, listed, ?_⟩,
    Word.isRef_ofHandle _, ?_, ?_⟩
  · rw [leads]
    dsimp only
    rw [holds]
  · rw [Word.toHandle_ofHandle, Handle.index_make]
  · rw [Word.toHandle_ofHandle, same]

theorem Each.mono {weaker : Payload → Prop} (each : heap.Each holds)
    (implies : ∀ payload, holds payload → weaker payload) :
    heap.Each weaker :=
  fun slot member object found => implies _ (each slot member object found)

theorem cost_le_total {handle : Handle} {object : Object}
    (found : heap.lookup? handle = some object) :
    cost object.payload ≤ heap.total cost := by
  obtain ⟨slot, slotFound, _, objectFound⟩ := lookup?_eq_some.1 found
  have counted : slotCost cost slot ≤ heap.total cost :=
    List.le_sum_of_mem (List.mem_map_of_mem (mem_slots_of_slot? slotFound).val)
  unfold slotCost at counted
  rw [objectFound] at counted
  exact counted

theorem exists_of_total_ne_zero (wellFormed : heap.WellFormed) (counts : heap.total cost ≠ 0) :
    ∃ handle object, heap.lookup? handle = some object ∧ cost object.payload ≠ 0 := by
  obtain ⟨slot, member, costs⟩ := exists_of_sum_map_ne_zero counts
  unfold slotCost at costs
  cases held : slot.object with
  | none =>
    rw [held] at costs
    exact absurd rfl costs
  | some object =>
    rw [held] at costs
    obtain ⟨position, found⟩ := List.mem_iff_getElem?.1 member
    have bound := (List.getElem?_eq_some_iff.1 found).1
    rw [Array.length_toList] at bound
    have number : (UInt32.ofNat (position + 1)).toNat = position + 1 :=
      UInt32.toNat_ofNat_of_lt (Nat.lt_of_le_of_lt bound wellFormed.layout.small)
    have positive : UInt32.ofNat (position + 1) ≠ 0 := by
      intro zero
      rw [zero] at number
      cases number
    have slotFound : heap.slot? (UInt32.ofNat (position + 1)) = some slot := by
      rw [slot?_eq_slotIn, slotIn_of_ne_zero _ positive, number]
      exact Array.getElem?_toList.symm.trans found
    obtain ⟨handle, _, leads⟩ :=
      exists_lookup? wellFormed (object?_eq_some.2 ⟨slot, slotFound, held⟩)
    exact ⟨handle, object, leads, costs⟩

/-! ## Changes of one slot -/

theorem thins_modify (index : Nat) (change : Slot → Slot)
    (slots : after.slots = before.slots.modify index change)
    (leaves : ∀ slot object, (change slot).object = some object → slot.object = some object) :
    before.Thins after := by
  intro slot member object found
  rw [slots] at member
  rcases mem_of_mem_modify member with same | ⟨other, otherFound, rfl⟩
  · exact ⟨slot, same, found⟩
  · exact ⟨other, Array.mem_of_getElem? otherFound, leaves other object found⟩

theorem Each.modify_of_slot (each : before.Each holds) {position : Nat} {change : Object → Object}
    (slots : after.slots = before.slots.modify position fun slot =>
      { slot with object := slot.object.map change })
    (changed : ∀ slot object, before.slots[position]? = some slot → slot.object = some object →
      holds (change object).payload) :
    after.Each holds := by
  intro slot member object found
  rw [slots] at member
  rcases mem_of_mem_modify member with same | ⟨other, otherFound, rfl⟩
  · exact each slot same object found
  · obtain ⟨original, originalFound, rfl⟩ := Option.map_eq_some_iff.1 found
    exact changed other original otherFound originalFound

theorem Each.modify (each : before.Each holds) {handle : Handle} {object : Object}
    (found : before.lookup? handle = some object) {change : Object → Object}
    (slots : after.slots = before.slots.modify (handle.index.toNat - 1) fun slot =>
      { slot with object := slot.object.map change })
    (changed : holds (change object).payload) :
    after.Each holds := by
  refine each.modify_of_slot slots fun slot other placed held => ?_
  obtain ⟨known, knownFound, _, objectFound⟩ := lookup?_eq_some.1 found
  rw [slot?_eq_slotIn, slotIn_of_ne_zero _ (ne_zero_of_slotIn knownFound), placed] at knownFound
  cases knownFound
  rw [held] at objectFound
  cases objectFound
  exact changed

theorem total_modify {index : UInt32} {slot : Slot} (change : Slot → Slot)
    (found : before.slot? index = some slot)
    (slots : after.slots = before.slots.modify (index.toNat - 1) change) :
    after.total cost + slotCost cost slot = before.total cost + slotCost cost (change slot) := by
  rw [slot?_eq_slotIn, slotIn_of_ne_zero _ (ne_zero_of_slotIn found), ← Array.getElem?_toList]
    at found
  unfold total
  rw [slots, Array.toList_modify]
  exact sum_map_modify _ change found

theorem total_change {handle : Handle} {object : Object}
    (found : before.lookup? handle = some object) (change : Object → Object)
    (slots : after.slots = before.slots.modify (handle.index.toNat - 1) fun slot =>
      { slot with object := slot.object.map change }) :
    after.total cost + cost object.payload = before.total cost + cost (change object).payload := by
  obtain ⟨slot, slotFound, _, objectFound⟩ := lookup?_eq_some.1 found
  have totals := @total_modify before after cost _ slot _ slotFound slots
  unfold slotCost at totals
  dsimp only at totals
  rw [objectFound] at totals
  exact totals

theorem total_modify_of_same (index : Nat) (change : Slot → Slot)
    (same : ∀ slot, (change slot).object = slot.object)
    (slots : after.slots = before.slots.modify index change) :
    after.total cost = before.total cost := by
  unfold total
  rw [slots, Array.toList_modify]
  cases found : before.slots.toList[index]? with
  | none => rw [List.modify_eq_self (List.getElem?_eq_none_iff.1 found)]
  | some slot =>
    have sums := sum_map_modify (slotCost cost) change found
    have equal : slotCost cost (change slot) = slotCost cost slot := by
      unfold slotCost
      rw [same]
    omega

theorem total_of_slots (slots : after.slots = before.slots) :
    after.total cost = before.total cost := by
  unfold total
  rw [slots]

/-! ## New objects -/

theorem mem_slots_allocate {payload : Payload} {slot : Slot}
    (member : slot ∈ (heap.allocate payload).2.slots) :
    slot ∈ heap.slots ∨ slot.object = some ⟨headerSize + payload.size, payload⟩ := by
  rw [allocate_eq] at member
  rw [← heap.charged_slots (headerSize + payload.size)]
  unfold place at member
  split at member
  · rcases Array.mem_or_eq_of_mem_setIfInBounds member with before | rfl
    · exact Or.inl before
    · exact Or.inr rfl
  · rcases Array.mem_push.1 member with before | rfl
    · exact Or.inl before
    · exact Or.inr rfl

theorem Each.allocate (each : heap.Each holds) {payload : Payload} (new : holds payload) :
    (heap.allocate payload).2.Each holds := by
  intro slot member object found
  rcases mem_slots_allocate member with before | made
  · exact each slot before object found
  · rw [made] at found
    cases found
    exact new

/-- A new object takes the place of none. -/
theorem total_allocate (wellFormed : heap.WellFormed) (payload : Payload) :
    (heap.allocate payload).2.total cost = heap.total cost + cost payload := by
  rw [allocate_eq, ← total_of_slots (heap.charged_slots (headerSize + payload.size))]
  have layout := wellFormed.layout.charged (headerSize + payload.size)
  generalize heap.charged (headerSize + payload.size) = charged at layout ⊢
  unfold place
  cases free : charged.free with
  | nil =>
    unfold total
    simp only [Array.toList_push, List.map_append, List.sum_append, List.map_cons, List.map_nil,
      List.sum_cons, List.sum_nil]
    rfl
  | cons index rest =>
    have member : index ∈ charged.free := by
      rw [free]
      exact List.mem_cons_self
    obtain ⟨shape, found, notUsed⟩ := (layout.notInUse index).1 member
    obtain ⟨slot, slotFound, rfl⟩ := shape?_eq_some.1 found
    have vacant : slotCost cost slot = 0 := by
      unfold slotCost
      rw [show slot.object = none by simpa [shapeOf] using notUsed]
      rfl
    rw [slot?_eq_slotIn] at slotFound
    have placed := slotFound
    rw [slotIn_of_ne_zero _ (ne_zero_of_slotIn slotFound), ← Array.getElem?_toList] at placed
    unfold total
    simp only [Array.toList_setIfInBounds]
    have sums : ∀ changed,
        ((charged.slots.toList.set (index.toNat - 1) changed).map (slotCost cost)).sum =
          (charged.slots.toList.map (slotCost cost)).sum + slotCost cost changed := by
      intro changed
      have replaced := @sum_map_set _ _ _ _ changed (slotCost cost) placed
      rw [vacant] at replaced
      exact replaced
    exact sums _

/-! ## Collections -/

theorem Thins.refl (heap : Heap) : heap.Thins heap :=
  fun slot member _ found => ⟨slot, member, found⟩

theorem Thins.trans {between : Heap} (first : before.Thins between) (second : between.Thins after) :
    before.Thins after := by
  intro slot member object found
  obtain ⟨other, otherMember, otherFound⟩ := second slot member object found
  exact first other otherMember object otherFound

theorem Each.thin (each : before.Each holds) (thins : before.Thins after) : after.Each holds := by
  intro slot member object found
  obtain ⟨other, otherMember, otherFound⟩ := thins slot member object found
  exact each other otherMember object otherFound

theorem Marking.step_modifies (heap : Heap) (word : Word) (rest : List Word) :
    (Marking.step ⟨heap, word :: rest⟩).heap.slots = heap.slots ∨
      ∃ index, (Marking.step ⟨heap, word :: rest⟩).heap.slots =
        heap.slots.modify index fun slot => { slot with marked := true } := by
  unfold Marking.step
  dsimp only
  cases heap.reached? word with
  | none => exact Or.inl rfl
  | some found =>
    obtain ⟨slot, object⟩ := found
    dsimp only
    by_cases marked : slot.marked = true
    · rw [if_pos marked]
      exact Or.inl rfl
    · rw [if_neg marked]
      exact Or.inr ⟨word.toHandle.index.toNat - 1, rfl⟩

theorem Marking.run_keeps (count : Nat) (marking : Marking) :
    marking.heap.Thins (Marking.run count marking).heap ∧
      (Marking.run count marking).heap.total cost = marking.heap.total cost := by
  induction count generalizing marking with
  | zero => exact ⟨.refl _, rfl⟩
  | succ count ih =>
    obtain ⟨heap, pending⟩ := marking
    cases pending with
    | nil => exact ⟨.refl _, rfl⟩
    | cons word rest =>
      obtain ⟨thins, same⟩ := ih (Marking.step ⟨heap, word :: rest⟩)
      rcases Marking.step_modifies heap word rest with slots | ⟨index, slots⟩
      · refine ⟨Thins.trans ?_ thins, same.trans (total_of_slots slots)⟩
        intro slot member object found
        rw [slots] at member
        exact ⟨slot, member, found⟩
      · exact ⟨(thins_modify index _ slots fun _ _ found => found).trans thins,
          same.trans (total_modify_of_same index (fun slot => { slot with marked := true })
            (fun _ => rfl) slots)⟩

theorem link_keeps (heap : Heap) (index next : UInt32) :
    heap.Thins (heap.link index next) ∧ (heap.link index next).total cost = heap.total cost := by
  unfold link
  split
  · exact ⟨fun slot member _ found => ⟨slot, member, found⟩, total_of_slots rfl⟩
  · exact
      ⟨thins_modify (index.toNat - 1) (fun slot => { slot with next }) rfl fun _ _ found => found,
      total_modify_of_same (index.toNat - 1) (fun slot => { slot with next }) (fun _ => rfl) rfl⟩

/-- What freed objects count for together. -/
def freedTotal (cost : Payload → Nat) (freed : List Freed) : Nat :=
  (freed.map fun entry => cost entry.object.payload).sum

theorem freedTotal_append (first second : List Freed) :
    freedTotal cost (first ++ second) = freedTotal cost first + freedTotal cost second := by
  unfold freedTotal
  rw [List.map_append, List.sum_append]

theorem Sweeping.step_divides (sweeping : Sweeping) :
    sweeping.heap.Thins sweeping.step.heap ∧
      sweeping.step.heap.total cost + freedTotal cost sweeping.step.freed =
        sweeping.heap.total cost + freedTotal cost sweeping.freed := by
  obtain ⟨heap, previous, index, freed⟩ := sweeping
  unfold Sweeping.step
  dsimp only
  split
  · exact ⟨.refl _, rfl⟩
  · next slot found =>
    split
    · refine ⟨thins_modify (index.toNat - 1) (fun slot => { slot with marked := false }) rfl
        fun _ _ held => held, ?_⟩
      rw [total_modify_of_same (index.toNat - 1) (fun slot => { slot with marked := false })
        (fun _ => rfl) rfl]
    · obtain ⟨thins, same⟩ := @link_keeps cost heap previous slot.next
      refine ⟨thins.trans (thins_modify (index.toNat - 1) release rfl fun _ _ held => nomatch held),
        ?_⟩
      -- The slot may have got another successor, if it is its own predecessor.
      obtain ⟨linked, linkedFound, object⟩ : ∃ linked,
          (heap.link previous slot.next).slot? index = some linked ∧
            linked.object = slot.object := by
        rw [link_slot?, found]
        split
        · exact ⟨_, rfl, rfl⟩
        · exact ⟨_, rfl, rfl⟩
      have released := @total_modify (heap.link previous slot.next)
        { heap.link previous slot.next with
          slots := (heap.link previous slot.next).slots.modify (index.toNat - 1) release
          free := index :: (heap.link previous slot.next).free } cost index linked release
        linkedFound rfl
      have nothing : slotCost cost (release linked) = 0 := rfl
      have known : slotCost cost linked = slotCost cost slot := by
        unfold slotCost
        rw [object]
      have taken :
          freedTotal cost (slot.object.map (Freed.mk index)).toList = slotCost cost slot := by
        unfold freedTotal slotCost
        cases slot.object with
        | none => rfl
        | some object => exact Nat.add_zero _
      rw [freedTotal_append, taken]
      dsimp only at released ⊢
      omega

theorem Sweeping.run_divides (count : Nat) (sweeping : Sweeping) :
    sweeping.heap.Thins (Sweeping.run count sweeping).heap ∧
      (Sweeping.run count sweeping).heap.total cost +
          freedTotal cost (Sweeping.run count sweeping).freed =
        sweeping.heap.total cost + freedTotal cost sweeping.freed := by
  induction count generalizing sweeping with
  | zero => exact ⟨.refl _, rfl⟩
  | succ count ih =>
    unfold Sweeping.run
    split
    · exact ⟨.refl _, rfl⟩
    · obtain ⟨thins, divides⟩ := @Sweeping.step_divides cost sweeping
      obtain ⟨rest, total⟩ := ih sweeping.step
      exact ⟨thins.trans rest, total.trans divides⟩

theorem thins_collect (heap : Heap) (roots : List Word) : heap.Thins (heap.collect roots).1 := by
  unfold collect sweep sweeping
  exact Thins.trans (@Marking.run_keeps (fun _ => 0) _ ⟨heap, roots⟩).1
    (@Sweeping.run_divides (fun _ => 0) _ ⟨heap.mark roots, 0, (heap.mark roots).head, []⟩).1

/-- A collection divides what the objects count for. -/
theorem total_collect (cost : Payload → Nat) (heap : Heap) (roots : List Word) :
    (heap.collect roots).1.total cost + freedTotal cost (heap.collect roots).2 =
      heap.total cost := by
  have marked := (@Marking.run_keeps cost (roots.length + heap.referenceCount) ⟨heap, roots⟩).2
  have divides := (@Sweeping.run_divides cost (heap.mark roots).slots.size
    ⟨heap.mark roots, 0, (heap.mark roots).head, []⟩).2
  have reversed : freedTotal cost (heap.collect roots).2 =
      freedTotal cost (heap.mark roots).sweeping.freed := by
    change freedTotal cost (heap.mark roots).sweeping.freed.reverse = _
    unfold freedTotal
    rw [List.map_reverse, List.sum_reverse]
  rw [reversed]
  unfold collect sweep sweeping
  exact divides.trans marked

theorem Each.freed (each : heap.Each holds) (wellFormed : heap.WellFormed) (roots : List Word)
    {entry : Freed} (member : entry ∈ (heap.collect roots).2) :
    holds entry.object.payload := by
  obtain ⟨handle, _, found, _⟩ := (mem_freed wellFormed roots entry.index entry.object).1 member
  exact each.lookup? found

end Heap

end WordMachine
