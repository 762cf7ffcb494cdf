import WordMachine.Proofs.References

/-!
How a heap represents its objects, after any sequence of operations: the slots in use form one list
from the head to the end, all other slots wait to be used again, every object is accounted by its
contents, and the counters agree with the objects. Marking and sweeping need not alternate here.
-/

namespace WordMachine

/-- The accounted size of an object follows from its contents. A lazy call is accounted with the
arguments it was made with, also when it has its value and no longer needs them. -/
def Object.IsSized (object : Object) : Prop :=
  match object.payload with
  | .string text => object.size = 32 + text.size
  | .blank length => object.size = 32 + length
  | .link _ _ _ => object.size = 32 + 8
  | .struct fields => object.size = 32 + 8 * fields.size
  | .long _ => object.size = 32 + 8
  | .future _ => object.size = 32 + 64
  | .lazy (.pending _ arguments) => object.size = 32 + (64 + 8 * arguments.size)
  | .lazy (.forced _) => ∃ captured : Nat, object.size = 32 + (64 + 8 * captured)
  | .stream _ => object.size = 32 + 64

namespace Heap

variable {heap after : Heap} {word : Word} {object : Object}

/-! ## Operations -/

/-- An operation on a heap. One that cannot be carried out changes nothing. -/
inductive Operation where
  | allocate (payload : Payload)
  | trim (word : Word) (count : Nat)
  /-- A read fills a string and drops the rest of it. -/
  | fill (word : Word) (text : Bytes)
  /-- A text is asked for; a link keeps it. -/
  | flatten (word : Word)
  | complete (word : Word) (outcome : Word × ExecState)
  | force (word value : Word)
  | move (word : Word) (stream : Stream)
  | mark (roots : List Word)
  | sweep

def operate (heap : Heap) : Operation → Heap
  | .allocate payload => (heap.allocate? payload).elim heap (·.2)
  | .trim word count => (heap.trim word count).toOption.getD heap
  | .fill word text =>
    match heap.text word with
    | .ok current =>
      if text.size ≤ current.size then (heap.fill word text).toOption.getD heap else heap
    | .error _ => heap
  | .flatten word =>
    match heap.text word with
    | .ok text => heap.remember word text
    | .error _ => heap
  | .complete word outcome =>
    match heap.outcome word with
    | .ok _ => heap.setPayload word (.future (some outcome))
    | .error _ => heap
  | .force word value => ((heap.force word value).toOption.map (·.2)).getD heap
  | .move word stream =>
    match heap.stream word with
    | .ok _ => heap.setPayload word (.stream stream)
    | .error _ => heap
  | .mark roots => heap.mark roots
  | .sweep => heap.sweep.1

/-- Carries out operations one after another while there are numbers for slots; nothing if there
are none left. -/
def operateAll (heap : Heap) (operations : List Operation) : Option Heap :=
  operations.foldlM
    (fun heap operation =>
      if heap.slots.size + 1 < 2 ^ 32 then some (heap.operate operation) else none)
    heap

/-! ## What is kept -/

structure IsRepresented (heap : Heap) : Prop where
  /-- From the head on, the slots in use follow each other to the end of the list. -/
  chain : Chain heap.shape? heap.head heap.live 0
  once : heap.live.Nodup
  inUse : ∀ index, index ∈ heap.live ↔ ∃ object, heap.object? index = some object
  freeOnce : heap.free.Nodup
  free : ∀ index,
    index ∈ heap.free ↔
      index ≠ 0 ∧ index.toNat ≤ heap.slots.size ∧ heap.object? index = none
  count : heap.count = heap.live.length
  sized : ∀ index object, heap.object? index = some object → object.IsSized
  bytes : heap.bytes = ((heap.live.map heap.sizeAt).sum : Nat)

/-- What every operation keeps: the layout of the slots, the counters, and the sizes of objects. -/
structure Upheld (heap : Heap) : Prop where
  layout : Layout heap heap.live
  accounted : Accounted heap heap.live
  sized : ∀ index object, heap.object? index = some object → object.IsSized

theorem Upheld.of_live {live : List UInt32} (layout : Layout heap live)
    (accounted : Accounted heap live)
    (sized : ∀ index object, heap.object? index = some object → object.IsSized) : Upheld heap := by
  refine ⟨?_, ?_, sized⟩
  · rw [layout.live_eq]
    exact layout
  · rw [layout.live_eq]
    exact accounted

/-- A slot that is not in use is one of those made so far, and holds nothing. -/
theorem shape?_unused {index : UInt32} :
    (∃ shape, heap.shape? index = some shape ∧ shape.used = false) ↔
      index ≠ 0 ∧ index.toNat ≤ heap.slots.size ∧ heap.object? index = none := by
  constructor
  · rintro ⟨shape, found, unused⟩
    obtain ⟨slot, slotFound, rfl⟩ := shape?_eq_some.1 found
    obtain ⟨inside, positive⟩ := slotIn_lt_size slotFound
    refine ⟨positive, by omega, ?_⟩
    have vacant : slot.object = none := by simpa [shapeOf] using unused
    simp [object?, slotFound, vacant]
  · rintro ⟨positive, inside, vacant⟩
    have above : index.toNat ≠ 0 := fun zero => positive (UInt32.toNat_inj.1 zero)
    have found : heap.slot? index = some heap.slots[index.toNat - 1] := by
      rw [slot?_eq_slotIn, slotIn_of_ne_zero _ positive]
      exact Array.getElem?_eq_getElem (by omega)
    refine ⟨_, shape?_eq_some.2 ⟨_, found, rfl⟩, ?_⟩
    simpa [object?, found, shapeOf] using vacant

theorem Upheld.isRepresented (upheld : Upheld heap) : heap.IsRepresented where
  chain := upheld.layout.chain
  once := upheld.layout.nodup
  inUse := upheld.layout.object?_isSome
  freeOnce := upheld.layout.freeNodup
  free := fun index => (upheld.layout.notInUse index).trans shape?_unused
  count := upheld.accounted.count
  sized := upheld.sized
  bytes := upheld.accounted.bytes

/-! ## Single operations -/

theorem Upheld.new (interval limit : Int) : Upheld (.new interval limit) := by
  have sound := Sound.new interval limit
  refine ⟨sound.wellFormed.layout, sound.accounted, ?_⟩
  intro index object found
  have nothing : (Heap.new interval limit).slot? index = none := by simp [Heap.new, Heap.slot?]
  rw [object?, nothing] at found
  cases found

theorem isSized_of_new (payload : Payload) :
    Object.IsSized ⟨headerSize + payload.size, payload⟩ := by
  cases payload with
  | lazy call =>
    cases call with
    | pending target arguments => rfl
    | forced value => exact ⟨0, rfl⟩
  | _ => rfl

theorem Upheld.allocate (upheld : Upheld heap) (room : heap.slots.size + 1 < 2 ^ 32)
    (payload : Payload) : Upheld (heap.allocate payload).2 := by
  refine Upheld.of_live (upheld.layout.allocate room payload)
    (upheld.accounted.allocate upheld.layout room payload) ?_
  intro index object found
  rw [allocate_object? upheld.layout room] at found
  split at found
  · cases found
    exact isSized_of_new payload
  · exact upheld.sized index object found

theorem Upheld.modify {heap changed : Heap} (upheld : Upheld heap) {word : Word} {object : Object}
    {change : Object → Object} (freed : Nat)
    (found : heap.lookup? word.toHandle = some object)
    (slots : changed.slots = heap.slots.modify (word.toHandle.index.toNat - 1) fun slot =>
      { slot with object := slot.object.map change })
    (rest : { changed with slots := heap.slots, bytes := heap.bytes } = heap)
    (bytes : changed.bytes = heap.bytes - freed)
    (size : (change object).size + freed = object.size)
    (sized : (change object).IsSized) :
    Upheld changed := by
  have objectFound := object?_of_lookup? found
  have keepsShape : ∀ slot : Slot,
      shapeOf { slot with object := slot.object.map change } = shapeOf slot := by
    intro slot
    cases slot with
    | mk generation object next marked => cases object <;> rfl
  have head := congrArg Heap.head rest
  have free := congrArg Heap.free rest
  have count := congrArg Heap.count rest
  have layout := upheld.layout.of_shape?_eq (shape?_modify slots keepsShape) head free
    (by rw [slots, Array.size_modify])
  have strings : (change object).payload.kind = .string →
      (change object).size = headerSize + (change object).payload.size := by
    intro isString
    unfold Object.IsSized at sized
    cases payload : (change object).payload with
    | string text =>
      rw [payload] at sized
      exact sized
    | blank length =>
      rw [payload] at sized
      exact sized
    | _ =>
      rw [payload] at isString
      cases isString
  refine Upheld.of_live layout
    (upheld.accounted.of_modify freed upheld.layout objectFound slots count bytes size strings) ?_
  intro other otherObject otherFound
  rw [object?_modify (lookup?_index_ne_zero found) slots] at otherFound
  split at otherFound
  · next same =>
    subst same
    rw [objectFound] at otherFound
    cases otherFound
    exact sized
  · exact upheld.sized other otherObject otherFound

/-- New contents of the same accounted size. -/
theorem Upheld.setPayload (upheld : Upheld heap) (found : heap.lookup? word.toHandle = some object)
    {payload : Payload} (sized : Object.IsSized { object with payload }) :
    Upheld (heap.setPayload word payload) :=
  upheld.modify 0 found (setPayload_slots heap word payload) rfl (Int.sub_zero _).symm rfl sized

theorem Upheld.setText (upheld : Upheld heap) (found : heap.lookup? word.toHandle = some object)
    (isString : object.payload.kind = .string) (text : Bytes)
    (shorter : text.size ≤ object.payload.size) :
    Upheld (heap.setText word text (object.payload.size - text.size)) := by
  have size := upheld.accounted.strings _ object (object?_of_lookup? found) isString
  refine upheld.modify (object.payload.size - text.size) found (setText_slots heap word text _) rfl
    rfl ?_ ?_
  · change object.size - (object.payload.size - text.size) + _ = object.size
    omega
  · change object.size - (object.payload.size - text.size) = 32 + text.size
    have header : headerSize = 32 := rfl
    omega

theorem Upheld.remember (upheld : Upheld heap) (found : heap.lookup? word.toHandle = some object)
    (text : Bytes) : Upheld (heap.remember word text) := by
  have sized := upheld.sized _ object (object?_of_lookup? found)
  refine upheld.modify 0 found (remember_slots heap word text) rfl (Int.sub_zero _).symm ?_ ?_
  · split <;> rfl
  · split
    · next payload =>
      unfold Object.IsSized at sized ⊢
      rw [payload] at sized
      exact sized
    · exact sized

theorem Upheld.trim (upheld : Upheld heap) {count : Nat}
    (trimmed : heap.trim word count = .ok after) : Upheld after := by
  rcases trim_eq_ok trimmed with rfl | ⟨object, text, found, isString, shorter, rfl⟩
  · exact upheld
  · exact upheld.setText found isString text shorter

theorem Upheld.fill (upheld : Upheld heap) {text current : Bytes}
    (read : heap.text word = .ok current) (shorter : text.size ≤ current.size)
    (filled : heap.fill word text = .ok after) : Upheld after := by
  obtain ⟨object, found, isString, size, rfl⟩ := fill_eq_ok read filled
  exact upheld.setText found isString text (by rw [size]; exact shorter)

theorem Upheld.complete (upheld : Upheld heap) {before : Option (Word × ExecState)}
    (seen : heap.outcome word = .ok before) (outcome : Word × ExecState) :
    Upheld (heap.setPayload word (.future (some outcome))) := by
  obtain ⟨object, found, selected⟩ := view_eq_ok seen
  have sized := upheld.sized _ object (object?_of_lookup? found)
  refine upheld.setPayload found ?_
  unfold Object.IsSized at sized
  cases payload : object.payload with
  | future outcome =>
    rw [payload] at sized
    exact sized
  | _ => simp [payload] at selected

theorem Upheld.move (upheld : Upheld heap) {before : Stream} (seen : heap.stream word = .ok before)
    (stream : Stream) : Upheld (heap.setPayload word (.stream stream)) := by
  obtain ⟨object, found, selected⟩ := view_eq_ok seen
  have sized := upheld.sized _ object (object?_of_lookup? found)
  refine upheld.setPayload found ?_
  unfold Object.IsSized at sized
  cases payload : object.payload with
  | stream stream =>
    rw [payload] at sized
    exact sized
  | _ => simp [payload] at selected

theorem Upheld.force (upheld : Upheld heap) {value stored : Word}
    (forced : heap.force word value = .ok (stored, after)) : Upheld after := by
  unfold Heap.force at forced
  split at forced
  · cases forced
  · cases forced
    exact upheld
  · next target arguments seen =>
    cases forced
    obtain ⟨object, found, selected⟩ := view_eq_ok seen
    have sized := upheld.sized _ object (object?_of_lookup? found)
    refine upheld.setPayload found ?_
    unfold Object.IsSized at sized
    cases payload : object.payload with
    | lazy call =>
      rw [payload] at selected
      cases selected
      rw [payload] at sized
      exact ⟨arguments.size, sized⟩
    | _ => simp [payload] at selected

theorem Upheld.mark (upheld : Upheld heap) (roots : List Word) : Upheld (heap.mark roots) := by
  have same := heap.mark_changes_marks roots
  have count := congrArg Heap.count same.rest
  have bytes := congrArg Heap.bytes same.rest
  have sizes : (heap.mark roots).sizeAt = heap.sizeAt := by
    funext index
    unfold sizeAt
    rw [same.object?]
  refine Upheld.of_live (same.layout upheld.layout)
    ⟨Eq.trans count upheld.accounted.count, ?_, ?_⟩ ?_
  · rw [sizes]
    exact Eq.trans bytes upheld.accounted.bytes
  · rw [same.object?]
    exact upheld.accounted.strings
  · rw [same.object?]
    exact upheld.sized

theorem Upheld.sweep (upheld : Upheld heap) : Upheld heap.sweep.1 := by
  obtain ⟨kept, dropped, swept⟩ := exists_swept upheld.layout
  have layout := swept.layout upheld.layout
  refine Upheld.of_live layout (swept.accounted upheld.layout upheld.accounted) ?_
  intro index object found
  rw [swept.object?_kept ((layout.object?_isSome index).2 ⟨object, found⟩)] at found
  exact upheld.sized index object found

/-! ## Sequences of operations -/

theorem Upheld.operate (upheld : Upheld heap) (room : heap.slots.size + 1 < 2 ^ 32)
    (operation : Operation) : Upheld (heap.operate operation) := by
  cases operation with
  | allocate payload =>
    simp only [Heap.operate, allocate?]
    split
    · exact upheld.allocate room payload
    · exact upheld
  | trim word count =>
    simp only [Heap.operate]
    cases trimmed : heap.trim word count with
    | error fault => exact upheld
    | ok after => exact upheld.trim trimmed
  | fill word text =>
    simp only [Heap.operate]
    cases read : heap.text word with
    | error fault => exact upheld
    | ok current =>
      dsimp only
      split
      · next shorter =>
        cases filled : heap.fill word text with
        | error fault => exact upheld
        | ok after => exact upheld.fill read shorter filled
      · exact upheld
  | flatten word =>
    simp only [Heap.operate]
    cases read : heap.text word with
    | error fault => exact upheld
    | ok text =>
      obtain ⟨object, found, _⟩ := text_eq_ok read
      exact upheld.remember found text
  | complete word outcome =>
    simp only [Heap.operate]
    cases seen : heap.outcome word with
    | error fault => exact upheld
    | ok before => exact upheld.complete seen outcome
  | force word value =>
    simp only [Heap.operate]
    cases forced : heap.force word value with
    | error fault => exact upheld
    | ok result =>
      obtain ⟨stored, after⟩ := result
      exact upheld.force forced
  | move word stream =>
    simp only [Heap.operate]
    cases seen : heap.stream word with
    | error fault => exact upheld
    | ok before => exact upheld.move seen stream
  | mark roots => exact upheld.mark roots
  | sweep => exact upheld.sweep

theorem Upheld.operateAll {operations : List Operation} (upheld : Upheld heap)
    (runs : heap.operateAll operations = some after) : Upheld after := by
  induction operations generalizing heap with
  | nil =>
    cases runs
    exact upheld
  | cons operation operations ih =>
    unfold Heap.operateAll at runs
    rw [List.foldlM_cons] at runs
    obtain ⟨next, stepped, rest⟩ := Option.bind_eq_some_iff.1 runs
    rw [Option.ite_none_right_eq_some, Option.some.injEq] at stepped
    obtain ⟨room, rfl⟩ := stepped
    exact ih (upheld.operate room operation) rest

theorem hasRoom_eq_false {size : Nat} :
    heap.hasRoom size = false ↔ 0 < heap.limit ∧ heap.limit < heap.bytes + size := by
  unfold hasRoom
  rw [Bool.or_eq_false_iff, decide_eq_false_iff_not, decide_eq_false_iff_not]
  omega

/-- A heap that any sequence of operations leads to represents its objects: the list from the head
on, the slots that wait to be used again, the sizes and the counters agree. An allocation is refused
exactly if its size would exceed the limit, and then nothing changes; one that succeeds gives a
reference to a slot that is not slot zero and held nothing. -/
theorem representation_kept {interval limit : Int} {operations : List Operation} {heap : Heap}
    (runs : (Heap.new interval limit).operateAll operations = some heap) :
    heap.IsRepresented ∧
      ∀ payload,
        (heap.allocate? payload = none ↔
          0 < heap.limit ∧ heap.limit < heap.bytes + (headerSize + payload.size : Nat)) ∧
        (heap.allocate? payload = none →
          heap.operate (.allocate payload) = heap ∧
            ∀ session : Session, session.shared.heap = heap →
              Exec.allocate? payload session = .ok none session) ∧
        ∀ word after, heap.allocate? payload = some (word, after) →
          heap.slots.size + 1 < 2 ^ 32 →
          word.isRef = true ∧ word.isNull = false ∧ word.toHandle.index ≠ 0 ∧
            heap.object? word.toHandle.index = none ∧
            after.lookup? word.toHandle = some ⟨headerSize + payload.size, payload⟩ := by
  have upheld := (Upheld.new interval limit).operateAll runs
  refine ⟨upheld.isRepresented, fun payload => ⟨?_, ?_, ?_⟩⟩
  · rw [← hasRoom_eq_false]
    unfold allocate?
    split
    · next room => simp [room]
    · next full => simp [full]
  · intro refused
    refine ⟨by rw [operate, refused]; rfl, ?_⟩
    rintro session rfl
    have full : ¬ session.shared.heap.hasRoom (headerSize + payload.size) = true := by
      intro room
      simp [allocate?, room] at refused
    unfold Exec.allocate?
    simp [full]
  · intro word after given room
    unfold allocate? at given
    rw [Option.ite_none_right_eq_some, Option.some.injEq] at given
    have layout := upheld.layout.charged (headerSize + payload.size)
    rw [← charged_slots heap (headerSize + payload.size)] at room
    have allocated := place_allocated layout room ⟨headerSize + payload.size, payload⟩
    rw [← allocate_eq, given.2] at allocated
    obtain ⟨index, generation, vacancy, made, _⟩ :=
      place_spec layout room ⟨headerSize + payload.size, payload⟩
    rw [← allocate_eq, given.2] at made
    have unused : heap.object? word.toHandle.index = none := by
      have vacant := vacancy.unused
      unfold object? at vacant ⊢
      rw [charged_slot?] at vacant
      rw [show word = _ from made]
      simpa using vacant
    exact ⟨allocated.isRef, allocated.notNull, lookup?_index_ne_zero allocated.found, unused,
      allocated.found⟩

/-- A slot is used again between marking and sweeping, a string is cut, and the limit is met. -/
theorem representation_kept_reused :
    let text : Word := .ofHandle (.make 1 0)
    let operations : List Operation :=
      [.allocate (.blank 10), .allocate (.long (-1)), .mark [text], .sweep,
        .allocate (.link text 33 none), .trim text 4, .mark [], .allocate (.struct #[text, text]),
        .flatten (.ofHandle (.make 2 1))]
    ∃ heap, (Heap.new 0 140).operateAll operations = some heap ∧
      heap.live = [3, 2, 1] ∧ heap.bytes = 124 ∧ heap.IsRepresented ∧
      heap.allocate? (.string ByteArray.empty) = none ∧
      heap.operate (.allocate (.string ByteArray.empty)) = heap := by
  intro text operations
  have summary :
      ((Heap.new 0 140).operateAll operations).map (fun heap => (heap.live, heap.bytes)) =
        some ([3, 2, 1], 124) := by
    decide
  obtain ⟨heap, runs, figures⟩ := Option.map_eq_some_iff.1 summary
  obtain ⟨live, bytes⟩ := Prod.mk.inj figures
  obtain ⟨represented, allocations⟩ := representation_kept runs
  obtain ⟨refusal, unchanged, _⟩ := allocations (.string ByteArray.empty)
  have limit : heap.limit = 140 := by
    have limits : ((Heap.new 0 140).operateAll operations).map Heap.limit = some 140 := by
      decide
    rw [runs] at limits
    exact Option.some.inj limits
  have refused : heap.allocate? (.string ByteArray.empty) = none := by
    refine refusal.2 ?_
    rw [limit, bytes]
    decide
  exact ⟨heap, runs, live, bytes, represented, refused, (unchanged refused).1⟩

end Heap

end WordMachine
