import WordMachine.Proofs.HeapRepresentation

/-!
Stale handles are detected. The record of a heap says which words its allocations returned and
which slots its sweeps released; from it follows which words lead to an object, and that a word
leads to nothing once its object was freed, until the generations of its slot repeat.
-/

namespace WordMachine

namespace Heap

variable {heap : Heap} {past : List Event} {word : Word} {object : Object} {payload : Payload}

/-! ## Records -/

/-- What happens to the objects of a heap. -/
inductive Event where
  | made (word : Word) (payload : Payload)
  /-- An operation was applied to the object in a slot. -/
  | edited (index : UInt32)
  | released (index : UInt32)
  deriving DecidableEq

/-- What an operation does to the objects, last event first. -/
def events (heap : Heap) : Operation → List Event
  | .allocate payload =>
    match heap.allocate? payload with
    | some (word, _) => [.made word payload]
    | none => []
  | .trim word _ => [.edited word.toHandle.index]
  | .fill word _ => [.edited word.toHandle.index]
  | .flatten word => [.edited word.toHandle.index]
  | .complete word _ => [.edited word.toHandle.index]
  | .force word _ => [.edited word.toHandle.index]
  | .move word _ => [.edited word.toHandle.index]
  | .mark _ => []
  | .sweep => (heap.sweep.2.map fun freed => .released freed.index).reverse

/-- What operations do to the objects, after what happened before them; last event first. -/
def history (heap : Heap) : List Operation → List Event → List Event
  | [], past => past
  | operation :: operations, past =>
    (heap.operate operation).history operations (heap.events operation ++ past)

/-- Whether a word was returned by an allocation, with what happened since and before. -/
def Returned (past : List Event) (word : Word) (payload : Payload) (later earlier : List Event) :
    Prop :=
  past = later ++ .made word payload :: earlier

section

variable {past later earlier : List Event} {word : Word} {payload : Payload}

theorem not_returned_nil : ¬Returned [] word payload later earlier := by
  intro returned
  simp [Returned] at returned

theorem returned_cons {event : Event} :
    Returned (event :: past) word payload later earlier ↔
      (later = [] ∧ event = .made word payload ∧ past = earlier) ∨
        ∃ since, later = event :: since ∧ Returned past word payload since earlier := by
  unfold Returned
  rw [List.cons_eq_append_iff]
  constructor
  · rintro (⟨empty, same⟩ | ⟨since, split, same⟩)
    · injection same with first rest
      exact .inl ⟨empty, first.symm, rest.symm⟩
    · exact .inr ⟨since, split, same⟩
  · rintro (⟨empty, rfl, rfl⟩ | ⟨since, split, same⟩)
    · exact .inl ⟨empty, rfl⟩
    · exact .inr ⟨since, split, same⟩

theorem Returned.after {event : Event} (returned : Returned past word payload later earlier) :
    Returned (event :: past) word payload (event :: later) earlier :=
  returned_cons.2 (.inr ⟨later, rfl, returned⟩)

theorem returned_released {indexes : List UInt32} :
    Returned (indexes.map .released ++ past) word payload later earlier ↔
      ∃ since, later = indexes.map .released ++ since ∧
        Returned past word payload since earlier := by
  induction indexes generalizing later with
  | nil => simp
  | cons index indexes ih =>
    rw [List.map_cons, List.cons_append, returned_cons]
    constructor
    · rintro (⟨_, other, _⟩ | ⟨since, rfl, returned⟩)
      · cases other
      · obtain ⟨rest, rfl, before⟩ := ih.1 returned
        exact ⟨rest, rfl, before⟩
    · rintro ⟨since, rfl, returned⟩
      exact .inr ⟨_, rfl, ih.2 ⟨since, rfl, returned⟩⟩

end

theorem count_released {indexes : List UInt32} (nodup : indexes.Nodup) (index : UInt32) :
    (indexes.map Event.released).count (.released index) = if index ∈ indexes then 1 else 0 := by
  have injective : Function.Injective Event.released := fun left right same => by
    injection same
  rw [List.count_map_of_injective _ _ injective]
  by_cases member : index ∈ indexes
  · rw [if_pos member, List.count_eq_one_of_mem nodup member]
  · rw [if_neg member, List.count_eq_zero_of_not_mem member]

/-! ## Generations -/

theorem toNat_generationMask (bits : UInt32) :
    (bits &&& Handle.generationMask).toNat = bits.toNat % 2 ^ 31 := by
  rw [UInt32.toNat_and]
  exact Nat.and_two_pow_sub_one_eq_mod bits.toNat 31

theorem toNat_release (generation : UInt32) :
    ((generation + 1) &&& Handle.generationMask).toNat = (generation.toNat + 1) % 2 ^ 31 := by
  rw [toNat_generationMask, UInt32.toNat_add]
  simp only [UInt32.reduceToNat]
  omega

theorem place_new {live : List UInt32} (layout : Layout heap live)
    (room : heap.slots.size + 1 < 2 ^ 32) (object : Object)
    (missing : heap.slot? (heap.place object).2.head = none) :
    heap.slots.size < (heap.place object).2.head.toNat ∧
      (heap.place object).1 = .ofHandle (.make (heap.place object).2.head 0) := by
  unfold place at missing ⊢
  cases free : heap.free with
  | nil =>
    have number : (UInt32.ofNat (heap.slots.size + 1)).toNat = heap.slots.size + 1 :=
      UInt32.toNat_ofNat_of_lt room
    refine ⟨?_, rfl⟩
    change heap.slots.size < (UInt32.ofNat (heap.slots.size + 1)).toNat
    omega
  | cons index rest =>
    have member : index ∈ heap.free := by
      rw [free]
      exact List.mem_cons_self
    obtain ⟨shape, found, _⟩ := (layout.notInUse index).1 member
    obtain ⟨slot, slotFound, _⟩ := shape?_eq_some.1 found
    simp [free, slotFound] at missing

theorem place_size (heap : Heap) (object : Object) :
    heap.slots.size ≤ (heap.place object).2.slots.size := by
  unfold place
  split <;> simp

/-- Where an allocation puts its object, and the generation it does so in. -/
structure Placed (heap after : Heap) (word : Word) (object : Object) (index generation : UInt32) :
    Prop where
  isRef : word.isRef = true
  inSlot : word.toHandle.index = index
  inGeneration : word.toHandle.generation = generation
  unused : heap.object? index = none
  used : ∀ slot, heap.slot? index = some slot → slot.generation = generation
  new : heap.slot? index = none → heap.slots.size < index.toNat ∧ generation = 0
  size : heap.slots.size ≤ after.slots.size
  slot : ∀ other, other ≠ index → after.slot? other = heap.slot? other
  filled : ∃ next, after.slot? index = some { generation, object := some object, next }

theorem exists_placed {live : List UInt32} (layout : Layout heap live)
    (room : heap.slots.size + 1 < 2 ^ 32) (payload : Payload) :
    ∃ index generation, Placed heap (heap.allocate payload).2 (heap.allocate payload).1
      ⟨headerSize + payload.size, payload⟩ index generation := by
  have slots := charged_slot? heap (headerSize + payload.size)
  have sizes := charged_slots heap (headerSize + payload.size)
  have layoutCharged := layout.charged (headerSize + payload.size)
  have roomCharged := room
  rw [← sizes] at roomCharged
  obtain ⟨index, generation, vacancy, word, head, _, _, after⟩ :=
    place_spec layoutCharged roomCharged ⟨headerSize + payload.size, payload⟩
  have made := place_new layoutCharged roomCharged ⟨headerSize + payload.size, payload⟩
  rw [head, word, slots, sizes] at made
  rw [allocate_eq, word]
  refine ⟨index, generation, ?_, ?_, ?_, ?_, ?_, ?_, ?_, ?_, ?_⟩
  · exact Word.isRef_ofHandle _
  · simp
  · simpa using vacancy.masked
  · have unused := vacancy.unused
    unfold object? at unused ⊢
    rwa [slots] at unused
  · rw [← slots]
    exact vacancy.kept
  · intro missing
    obtain ⟨outside, same⟩ := made missing
    have generations := congrArg (fun word => (Word.toHandle word).generation) same
    simp only [Word.toHandle_ofHandle, Handle.generation_make, vacancy.masked] at generations
    exact ⟨outside, generations.trans rfl⟩
  · rw [← sizes]
    exact place_size _ _
  · intro other different
    rw [after, if_neg different, slots]
  · rw [after, if_pos rfl]
    exact ⟨_, rfl⟩

/-! ## Edits -/

/-- What an operation on the object in a slot leaves as it was. -/
structure Edited (heap after : Heap) (index : UInt32) : Prop where
  size : after.slots.size = heap.slots.size
  generation : ∀ other,
    (after.slot? other).map Slot.generation = (heap.slot? other).map Slot.generation
  others : ∀ other, other ≠ index → after.object? other = heap.object? other
  kind : (after.object? index).map (fun object => object.payload.kind) =
    (heap.object? index).map fun object => object.payload.kind

theorem Edited.refl (heap : Heap) (index : UInt32) : Edited heap heap index :=
  ⟨rfl, fun _ => rfl, fun _ _ => rfl, rfl⟩

theorem Edited.of_modify {heap after : Heap} {word : Word} {object : Object}
    {change : Object → Object} (found : heap.lookup? word.toHandle = some object)
    (slots : after.slots = heap.slots.modify (word.toHandle.index.toNat - 1) fun slot =>
      { slot with object := slot.object.map change })
    (kind : (change object).payload.kind = object.payload.kind) :
    Edited heap after word.toHandle.index where
  size := by
    rw [slots, Array.size_modify]
  generation := by
    intro other
    have shapes : after.shape? other = heap.shape? other := by
      apply congrFun (shape?_modify slots _)
      intro slot
      cases slot with
      | mk generation object next marked => cases object <;> rfl
    have generations := congrArg (Option.map Shape.generation) shapes
    unfold shape? at generations
    rw [Option.map_map, Option.map_map] at generations
    exact generations
  others := by
    intro other different
    rw [object?_modify (lookup?_index_ne_zero found) slots, if_neg different]
  kind := by
    rw [object?_modify (lookup?_index_ne_zero found) slots, if_pos rfl, object?_of_lookup? found]
    exact congrArg some kind

theorem edited_setText (found : heap.lookup? word.toHandle = some object)
    (isString : object.payload.kind = .string) (text : Bytes) (freed : Nat) :
    Edited heap (heap.setText word text freed) word.toHandle.index := by
  apply Edited.of_modify found (setText_slots heap word text freed)
  exact isString.symm

theorem edited_trim (heap : Heap) (word : Word) (count : Nat) :
    Edited heap (heap.operate (.trim word count)) word.toHandle.index := by
  simp only [operate]
  cases trimmed : heap.trim word count with
  | error fault => exact .refl heap _
  | ok after =>
    rcases trim_eq_ok trimmed with rfl | ⟨object, text, found, isString, _, rfl⟩
    · exact .refl after _
    · exact edited_setText found isString text _

theorem edited_fill (heap : Heap) (word : Word) (text : Bytes) :
    Edited heap (heap.operate (.fill word text)) word.toHandle.index := by
  simp only [operate]
  cases read : heap.text word with
  | error fault => exact .refl heap _
  | ok current =>
    by_cases shorter : text.size ≤ current.size
    · simp only [shorter, if_true]
      cases filled : heap.fill word text with
      | error fault => exact .refl heap _
      | ok after =>
        obtain ⟨object, found, isString, _, rfl⟩ := fill_eq_ok read filled
        exact edited_setText found isString text _
    · simp only [shorter, if_false]
      exact .refl heap _

theorem edited_flatten (heap : Heap) (word : Word) :
    Edited heap (heap.operate (.flatten word)) word.toHandle.index := by
  simp only [operate]
  cases read : heap.text word with
  | error fault => exact .refl heap _
  | ok text =>
    obtain ⟨object, found, _⟩ := text_eq_ok read
    apply Edited.of_modify found (remember_slots heap word text)
    cases payload : object.payload with
    | link previous byte flat => rfl
    | _ => simp only [payload]

/-- The contents of an object are replaced by others of the kind that was asked for. -/
theorem edited_setPayload {α : Type} {kind : RefKind} {select : Payload → Option α} {value : α}
    (seen : heap.view kind select word = .ok value)
    (selects : ∀ payload, (select payload).isSome = true → payload.kind = kind)
    (same : payload.kind = kind) :
    Edited heap (heap.setPayload word payload) word.toHandle.index := by
  obtain ⟨object, found, selected⟩ := view_eq_ok seen
  apply Edited.of_modify found (setPayload_slots heap word payload)
  rw [selects object.payload (by rw [selected]; rfl)]
  exact same

theorem edited_complete (heap : Heap) (word : Word) (outcome : Word × ExecState) :
    Edited heap (heap.operate (.complete word outcome)) word.toHandle.index := by
  simp only [operate]
  cases seen : heap.outcome word with
  | error fault => exact .refl heap _
  | ok before =>
    apply edited_setPayload seen _ rfl
    intro payload some
    cases payload <;> first | rfl | cases some

theorem edited_force (heap : Heap) (word value : Word) :
    Edited heap (heap.operate (.force word value)) word.toHandle.index := by
  simp only [operate, Heap.force]
  cases seen : heap.delayed word with
  | error fault => exact .refl heap _
  | ok call =>
    cases call with
    | forced first => exact .refl heap _
    | pending target arguments =>
      apply edited_setPayload seen _ rfl
      intro payload some
      cases payload <;> first | rfl | cases some

theorem edited_move (heap : Heap) (word : Word) (stream : Stream) :
    Edited heap (heap.operate (.move word stream)) word.toHandle.index := by
  simp only [operate]
  cases seen : heap.stream word with
  | error fault => exact .refl heap _
  | ok before =>
    apply edited_setPayload seen _ rfl
    intro payload some
    cases payload <;> first | rfl | cases some

/-! ## What the record says of the heap -/

/-- How the record of a heap, last event first, describes its slots. -/
structure Recorded (heap : Heap) (past : List Event) : Prop where
  upheld : Upheld heap
  generation : ∀ index slot, heap.slot? index = some slot →
    slot.generation.toNat = past.count (.released index) % 2 ^ 31
  unused : ∀ index, heap.slots.size < index.toNat → .released index ∉ past
  /-- A word was returned in the generation its slot had then. -/
  named : ∀ word payload later earlier, Returned past word payload later earlier →
    word.isRef = true ∧
      word.toHandle.generation.toNat = earlier.count (.released word.toHandle.index) % 2 ^ 31
  /-- An object stays until its slot is released. -/
  held : ∀ word payload later earlier, Returned past word payload later earlier →
    .released word.toHandle.index ∉ later →
      ∃ object, heap.object? word.toHandle.index = some object ∧
        object.payload.kind = payload.kind ∧
        (.edited word.toHandle.index ∉ later → object = ⟨headerSize + payload.size, payload⟩)
  /-- Every object was made in its slot and has stayed since. -/
  traced : ∀ index object, heap.object? index = some object →
    ∃ word payload later earlier, Returned past word payload later earlier ∧
      word.toHandle.index = index ∧ .released index ∉ later

theorem Recorded.new (interval limit : Int) : Recorded (.new interval limit) [] where
  upheld := .new interval limit
  generation := by
    intro index slot found
    simp [Heap.new, Heap.slot?] at found
  unused := fun _ _ => List.not_mem_nil
  named := fun _ _ _ _ returned => absurd returned not_returned_nil
  held := fun _ _ _ _ returned => absurd returned not_returned_nil
  traced := by
    intro index object found
    simp [Heap.new, object?, Heap.slot?] at found

theorem Recorded.mark (recorded : Recorded heap past) (roots : List Word) :
    Recorded (heap.mark roots) past := by
  have same := heap.mark_changes_marks roots
  have objects := same.object?
  refine ⟨recorded.upheld.mark roots, ?_, ?_, recorded.named, ?_, ?_⟩
  · intro index slot found
    obtain ⟨original, originalFound, generation, _⟩ := same.slot found
    rw [← generation]
    exact recorded.generation index original originalFound
  · rw [same.size]
    exact recorded.unused
  · rw [objects]
    exact recorded.held
  · rw [objects]
    exact recorded.traced

theorem Recorded.edit {after : Heap} {index : UInt32} (recorded : Recorded heap past)
    (upheld : Upheld after) (edited : Edited heap after index) :
    Recorded after (.edited index :: past) where
  upheld := upheld
  generation := by
    intro other slot found
    have generations := edited.generation other
    rw [found] at generations
    obtain ⟨original, originalFound, same⟩ := Option.map_eq_some_iff.1 generations.symm
    rw [← same, List.count_cons_of_ne (by simp)]
    exact recorded.generation other original originalFound
  unused := by
    intro other outside
    rw [edited.size] at outside
    simpa using recorded.unused other outside
  named := by
    intro word payload later earlier returned
    rcases returned_cons.1 returned with ⟨_, other, _⟩ | ⟨since, _, before⟩
    · cases other
    · exact recorded.named word payload since earlier before
  held := by
    intro word payload later earlier returned unreleased
    rcases returned_cons.1 returned with ⟨_, other, _⟩ | ⟨since, rfl, before⟩
    · cases other
    · obtain ⟨object, found, kind, own⟩ := recorded.held word payload since earlier before
        (fun member => unreleased (List.mem_cons_of_mem _ member))
      by_cases same : word.toHandle.index = index
      · subst same
        have kinds := edited.kind
        rw [found] at kinds
        obtain ⟨changed, changedFound, changedKind⟩ := Option.map_eq_some_iff.1 kinds
        refine ⟨changed, changedFound, changedKind.trans kind, ?_⟩
        intro unedited
        exact absurd List.mem_cons_self unedited
      · refine ⟨object, ?_, kind, ?_⟩
        · rw [edited.others _ same]
          exact found
        · intro unedited
          exact own fun member => unedited (List.mem_cons_of_mem _ member)
  traced := by
    intro other object found
    have present : ∃ original, heap.object? other = some original := by
      by_cases same : other = index
      · subst same
        have kinds := edited.kind
        rw [found] at kinds
        obtain ⟨original, originalFound, _⟩ := Option.map_eq_some_iff.1 kinds.symm
        exact ⟨original, originalFound⟩
      · rw [edited.others other same] at found
        exact ⟨object, found⟩
    obtain ⟨original, originalFound⟩ := present
    obtain ⟨word, payload, later, earlier, returned, slot, unreleased⟩ :=
      recorded.traced other original originalFound
    exact ⟨word, payload, _, earlier, returned.after, slot, by simpa using unreleased⟩

theorem Recorded.allocate (recorded : Recorded heap past) (room : heap.slots.size + 1 < 2 ^ 32)
    (payload : Payload) :
    Recorded (heap.allocate payload).2 (.made (heap.allocate payload).1 payload :: past) := by
  obtain ⟨index, generation, placed⟩ := exists_placed recorded.upheld.layout room payload
  have upheld := recorded.upheld.allocate room payload
  generalize (heap.allocate payload).2 = after at placed upheld ⊢
  generalize (heap.allocate payload).1 = made at placed ⊢
  obtain ⟨next, filled⟩ := placed.filled
  have objects : ∀ other, other ≠ index → after.object? other = heap.object? other := by
    intro other different
    unfold object?
    rw [placed.slot other different]
  have first : after.object? index = some ⟨headerSize + payload.size, payload⟩ := by
    unfold object?
    rw [filled]
    rfl
  have counted : generation.toNat = past.count (.released index) % 2 ^ 31 := by
    cases known : heap.slot? index with
    | none =>
      obtain ⟨outside, zero⟩ := placed.new known
      rw [zero, List.count_eq_zero_of_not_mem (recorded.unused index outside)]
      rfl
    | some slot =>
      rw [← placed.used slot known]
      exact recorded.generation index slot known
  refine ⟨upheld, ?_, ?_, ?_, ?_, ?_⟩
  · intro other slot found
    rw [List.count_cons_of_ne (by simp)]
    by_cases same : other = index
    · subst same
      rw [filled] at found
      cases found
      exact counted
    · rw [placed.slot other same] at found
      exact recorded.generation other slot found
  · intro other outside
    have before := recorded.unused other (Nat.lt_of_le_of_lt placed.size outside)
    simpa using before
  · intro word other later earlier returned
    rcases returned_cons.1 returned with ⟨_, same, rfl⟩ | ⟨since, _, before⟩
    · cases same
      rw [placed.inSlot, placed.inGeneration]
      exact ⟨placed.isRef, counted⟩
    · exact recorded.named word other since earlier before
  · intro word other later earlier returned unreleased
    rcases returned_cons.1 returned with ⟨_, same, rfl⟩ | ⟨since, rfl, before⟩
    · cases same
      rw [placed.inSlot]
      exact ⟨_, first, rfl, fun _ => rfl⟩
    · obtain ⟨object, found, kind, own⟩ := recorded.held word other since earlier before
        (fun member => unreleased (List.mem_cons_of_mem _ member))
      have different : word.toHandle.index ≠ index := by
        intro same
        rw [same, placed.unused] at found
        cases found
      refine ⟨object, ?_, kind, ?_⟩
      · rw [objects _ different]
        exact found
      · intro unedited
        exact own fun member => unedited (List.mem_cons_of_mem _ member)
  · intro other object found
    by_cases same : other = index
    · subst same
      exact ⟨made, payload, [], past, rfl, placed.inSlot, List.not_mem_nil⟩
    · rw [objects other same] at found
      obtain ⟨word, payload, later, earlier, returned, slot, unreleased⟩ :=
        recorded.traced other object found
      exact ⟨word, payload, _, earlier, returned.after, slot, by simpa using unreleased⟩

theorem Swept.events {kept dropped : List UInt32} (swept : Swept heap kept dropped)
    (layout : Layout heap heap.live) : heap.events .sweep = dropped.map .released := by
  have indexes := congrArg (List.map Event.released) (swept.freed_indexes layout)
  rw [List.map_map] at indexes
  change (heap.sweep.2.map (Event.released ∘ Freed.index)).reverse = _
  rw [indexes, List.map_reverse, List.reverse_reverse]

theorem Recorded.sweep (recorded : Recorded heap past) :
    Recorded heap.sweep.1 (heap.events .sweep ++ past) := by
  have layout := recorded.upheld.layout
  obtain ⟨kept, dropped, swept⟩ := exists_swept layout
  have nodup : dropped.Nodup := (List.nodup_append.1 swept.nodup).2.1
  have released : ∀ index, .released index ∈ dropped.map Event.released ↔ index ∈ dropped := by
    intro index
    simp
  rw [swept.events layout]
  refine ⟨recorded.upheld.sweep, ?_, ?_, ?_, ?_, ?_⟩
  · intro index slot found
    rw [List.count_append, count_released nodup]
    obtain ⟨before, beforeFound, change⟩ := swept.shape? (shape?_eq_some.2 ⟨slot, found, rfl⟩)
    obtain ⟨original, originalFound, rfl⟩ := shape?_eq_some.1 beforeFound
    have counted := recorded.generation index original originalFound
    rcases change with ⟨member, same, _⟩ | ⟨member, next, _⟩ | ⟨_, notDropped, same⟩
    · have generation : slot.generation = original.generation := same
      rw [if_neg (swept.notDropped member), Nat.zero_add, generation]
      exact counted
    · have generation : slot.generation =
        (original.generation + 1) &&& Handle.generationMask := next
      rw [if_pos member, generation, toNat_release, counted]
      omega
    · have generation : slot.generation = original.generation := congrArg Shape.generation same
      rw [if_neg notDropped, Nat.zero_add, generation]
      exact counted
  · intro index outside
    rw [swept.sizes] at outside
    rw [List.mem_append, released, not_or]
    refine ⟨?_, recorded.unused index outside⟩
    intro member
    obtain ⟨slot, found, _⟩ := swept.done.droppedSlots index member
    obtain ⟨inside, _⟩ := slotIn_lt_size found
    omega
  · intro word payload later earlier returned
    obtain ⟨since, _, before⟩ := returned_released.1 returned
    exact recorded.named word payload since earlier before
  · intro word payload later earlier returned unreleased
    obtain ⟨since, rfl, before⟩ := returned_released.1 returned
    rw [List.mem_append, released, not_or] at unreleased
    obtain ⟨object, found, kind, own⟩ :=
      recorded.held word payload since earlier before unreleased.2
    have inUse := (swept.mem_live _).1 ((layout.object?_isSome _).2 ⟨object, found⟩)
    have member := inUse.resolve_right unreleased.1
    refine ⟨object, ?_, kind, ?_⟩
    · rw [swept.object?_kept member]
      exact found
    · intro unedited
      exact own fun edited => unedited (List.mem_append_right _ edited)
  · intro index object found
    have member : index ∈ kept := ((swept.layout layout).object?_isSome index).2 ⟨object, found⟩
    rw [swept.object?_kept member] at found
    obtain ⟨word, payload, later, earlier, returned, slot, unreleased⟩ :=
      recorded.traced index object found
    refine ⟨word, payload, _, earlier, returned_released.2 ⟨later, rfl, returned⟩, slot, ?_⟩
    rw [List.mem_append, released, not_or]
    exact ⟨swept.notDropped member, unreleased⟩

theorem Recorded.operate (recorded : Recorded heap past) (room : heap.slots.size + 1 < 2 ^ 32)
    (operation : Operation) :
    Recorded (heap.operate operation) (heap.events operation ++ past) := by
  have upheld := recorded.upheld.operate room operation
  cases operation with
  | allocate payload =>
    simp only [Heap.operate, events, allocate?]
    split
    · exact recorded.allocate room payload
    · exact recorded
  | trim word count => exact recorded.edit upheld (edited_trim heap word count)
  | fill word text => exact recorded.edit upheld (edited_fill heap word text)
  | flatten word => exact recorded.edit upheld (edited_flatten heap word)
  | complete word outcome => exact recorded.edit upheld (edited_complete heap word outcome)
  | force word value => exact recorded.edit upheld (edited_force heap word value)
  | move word stream => exact recorded.edit upheld (edited_move heap word stream)
  | mark roots => exact recorded.mark roots
  | sweep => exact recorded.sweep

theorem Recorded.operateAll {after : Heap} {operations : List Operation}
    (recorded : Recorded heap past) (runs : heap.operateAll operations = some after) :
    Recorded after (heap.history operations past) := by
  induction operations generalizing heap past with
  | nil =>
    cases runs
    exact recorded
  | cons operation operations ih =>
    unfold Heap.operateAll at runs
    rw [List.foldlM_cons] at runs
    obtain ⟨next, stepped, rest⟩ := Option.bind_eq_some_iff.1 runs
    rw [Option.ite_none_right_eq_some, Option.some.injEq] at stepped
    obtain ⟨room, rfl⟩ := stepped
    exact ih (recorded.operate room operation) rest

/-! ## Handles -/

theorem Recorded.generation_since {later earlier : List Event} {slot : Slot}
    (recorded : Recorded heap past) (returned : Returned past word payload later earlier)
    (found : heap.slot? word.toHandle.index = some slot) :
    slot.generation.toNat =
      (word.toHandle.generation.toNat + later.count (.released word.toHandle.index)) % 2 ^ 31 := by
  have counted := recorded.generation _ slot found
  have split : past = later ++ .made word payload :: earlier := returned
  rw [split, List.count_append, List.count_cons_of_ne (by simp)] at counted
  rw [counted, (recorded.named word payload later earlier returned).2]
  omega

/-- A word that was returned leads to an object as long as its slot has one in its generation. -/
theorem Recorded.deref_since {later earlier : List Event} (recorded : Recorded heap past)
    (returned : Returned past word payload later earlier) :
    heap.deref word = .ok object ↔
      heap.object? word.toHandle.index = some object ∧
        later.count (.released word.toHandle.index) % 2 ^ 31 = 0 := by
  have isRef := (recorded.named word payload later earlier returned).1
  have below : word.toHandle.generation.toNat < 2 ^ 31 := by
    rw [(recorded.named word payload later earlier returned).2]
    omega
  rw [deref_eq_ok, lookup?_eq_some, object?_eq_some]
  constructor
  · rintro ⟨_, slot, found, current, held⟩
    have since := recorded.generation_since returned found
    rw [current] at since
    exact ⟨⟨slot, found, held⟩, by omega⟩
  · rintro ⟨⟨slot, found, held⟩, repeats⟩
    have since := recorded.generation_since returned found
    have current : slot.generation = word.toHandle.generation := by
      apply UInt32.toNat_inj.1
      omega
    exact ⟨isRef, slot, found, current, held⟩

theorem nodup_handles (layout : Layout heap heap.live) : heap.handles.Nodup := by
  have indexes : heap.handles.map Handle.index = heap.live := by
    unfold handles
    rw [List.map_map]
    conv_rhs => rw [← List.map_id heap.live]
    apply List.map_congr_left
    intro index _
    simp
  apply List.Nodup.of_map Handle.index
  rw [indexes]
  exact layout.nodup

theorem exists_handle (layout : Layout heap heap.live) {index : UInt32}
    (found : heap.object? index = some object) :
    ∃ handle ∈ heap.handles, handle.index = index ∧ heap.lookup? handle = some object := by
  obtain ⟨slot, slotFound, held⟩ := object?_eq_some.1 found
  have masked := layout.generation index (shapeOf slot) (shape?_eq_some.2 ⟨slot, slotFound, rfl⟩)
  refine ⟨.make index slot.generation, ?_, Handle.index_make _ _, ?_⟩
  · apply List.mem_map.2
    refine ⟨index, (layout.object?_isSome index).2 ⟨object, found⟩, ?_⟩
    simp only [slotFound]
  · apply lookup?_eq_some.2
    refine ⟨slot, ?_, ?_, held⟩
    · rw [Handle.index_make]
      exact slotFound
    · rw [Handle.generation_make]
      exact masked.symm

/-- After any operations on a heap that has had numbers for its slots, the objects have different
handles. A word that an allocation returned leads to its own object until the slot is released. From
then on it is found to be stale, whatever is made in the slot, until the slot was released so often
that its generations repeat. No other word leads to an object. -/
theorem stale_handles_detected {interval limit : Int} {operations : List Operation} {heap : Heap}
    (runs : (Heap.new interval limit).operateAll operations = some heap) :
    (heap.handles.Nodup ∧
      ∀ index object, heap.object? index = some object →
        ∃ handle ∈ heap.handles, handle.index = index ∧ heap.lookup? handle = some object) ∧
    (∀ word payload later earlier,
      Returned ((Heap.new interval limit).history operations []) word payload later earlier →
        (.released word.toHandle.index ∉ later →
          ∃ object, heap.deref word = .ok object ∧ object.payload.kind = payload.kind ∧
            (.edited word.toHandle.index ∉ later →
              object = ⟨headerSize + payload.size, payload⟩)) ∧
        (0 < later.count (.released word.toHandle.index) →
          later.count (.released word.toHandle.index) < 2 ^ 31 →
            heap.deref word =
              .error (.invalidRef word.toHandle.index word.toHandle.generation))) ∧
    ∀ word object, heap.deref word = .ok object →
      ∃ payload later earlier,
        Returned ((Heap.new interval limit).history operations []) word payload later earlier ∧
          .released word.toHandle.index ∉ later := by
  have recorded := (Recorded.new interval limit).operateAll runs
  have layout := recorded.upheld.layout
  refine ⟨⟨nodup_handles layout, fun index object found => exists_handle layout found⟩, ?_, ?_⟩
  · intro word payload later earlier returned
    constructor
    · intro unreleased
      obtain ⟨object, found, kind, own⟩ :=
        recorded.held word payload later earlier returned unreleased
      refine ⟨object, (recorded.deref_since returned).2 ⟨found, ?_⟩, kind, own⟩
      rw [List.count_eq_zero_of_not_mem unreleased]
      rfl
    · intro released few
      have isRef := (recorded.named word payload later earlier returned).1
      cases outcome : heap.deref word with
      | ok object =>
        have repeats := ((recorded.deref_since returned).1 outcome).2
        omega
      | error fault =>
        unfold deref at outcome
        rw [if_pos isRef] at outcome
        split at outcome
        · cases outcome
        · cases outcome
          rfl
  · intro word object leads
    obtain ⟨isRef, found⟩ := deref_eq_ok.1 leads
    obtain ⟨slot, slotFound, current, _⟩ := lookup?_eq_some.1 found
    obtain ⟨other, payload, later, earlier, returned, index, unreleased⟩ :=
      recorded.traced _ object (object?_of_lookup? found)
    obtain ⟨otherRef, named⟩ := recorded.named other payload later earlier returned
    have below : other.toHandle.generation.toNat < 2 ^ 31 := by omega
    have sameGeneration : other.toHandle.generation = word.toHandle.generation := by
      have since := recorded.generation_since returned (by rw [index]; exact slotFound)
      rw [current, index, List.count_eq_zero_of_not_mem unreleased] at since
      apply UInt32.toNat_inj.1
      omega
    have same : other = word := Word.eq_of_toHandle otherRef isRef index sameGeneration
    subst same
    exact ⟨payload, later, earlier, returned, unreleased⟩

/-- A slot is used again, and the word for its first object is found to be stale. -/
theorem stale_handles_detected_reused :
    let operations : List Operation :=
      [.allocate (.blank 4), .mark [], .sweep, .allocate (.long 7)]
    ∃ heap, (Heap.new 0 0).operateAll operations = some heap ∧
      heap.deref (.ofHandle (.make 1 0)) = .error (.invalidRef 1 0) ∧
      heap.deref (.ofHandle (.make 1 1)) = .ok ⟨40, .long 7⟩ := by
  intro operations
  have past : (Heap.new 0 0).history operations [] =
      [.made (.ofHandle (.make 1 1)) (.long 7), .released 1,
        .made (.ofHandle (.make 1 0)) (.blank 4)] := by
    decide
  have total : ((Heap.new 0 0).operateAll operations).isSome = true := by decide
  obtain ⟨heap, runs⟩ := Option.isSome_iff_exists.1 total
  obtain ⟨_, words, _⟩ := stale_handles_detected runs
  rw [past] at words
  obtain ⟨_, stale⟩ := words (.ofHandle (.make 1 0)) (.blank 4) _ [] (by rfl : _ = [_, _] ++ _)
  obtain ⟨fresh, _⟩ := words (.ofHandle (.make 1 1)) (.long 7) [] _ rfl
  obtain ⟨object, leads, _, own⟩ := fresh List.not_mem_nil
  rw [own List.not_mem_nil] at leads
  exact ⟨heap, runs, stale (by decide) (by decide), leads⟩

end Heap

end WordMachine
