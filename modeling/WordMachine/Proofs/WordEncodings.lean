import WordMachine.Proofs.Operands
import WordMachine.Proofs.StaleHandles

/-!
Values and their words. Whatever a word was made of can be read back from it, references are told
from other words, and a long that needs an object is read back for as long as the object is there.
-/

namespace WordMachine

/-! ## Handles -/

namespace Handle

theorem make_zero : make 0 0 = ⟨0⟩ := rfl

theorem generation_make_of_lt {generation : UInt32} (small : generation.toNat < 2 ^ 31)
    (index : UInt32) : (make index generation).generation = generation := by
  rw [generation_make]
  apply UInt32.toNat_inj.1
  rw [Heap.toNat_generationMask, Nat.mod_eq_of_lt small]

theorem eq_of_ofHandle {index other generation otherGeneration : UInt32}
    (small : generation.toNat < 2 ^ 31) (otherSmall : otherGeneration.toNat < 2 ^ 31)
    (same : Word.ofHandle (make index generation) = .ofHandle (make other otherGeneration)) :
    index = other ∧ generation = otherGeneration := by
  have handles := congrArg Word.toHandle same
  rw [Word.toHandle_ofHandle, Word.toHandle_ofHandle] at handles
  constructor
  · have indexes := congrArg Handle.index handles
    rwa [index_make, index_make] at indexes
  · have generations := congrArg Handle.generation handles
    rwa [generation_make_of_lt small, generation_make_of_lt otherSmall] at generations

end Handle

namespace Heap

variable {heap : Heap} {value : Int64} {word : Word} {index : UInt32}

/-! ## Longs -/

/-- The word of a long. Only a negative one needs an object. -/
def makeLong? (heap : Heap) (value : Int64) : Option (Word × Heap) :=
  if 0 ≤ value then some (.ofInlineLong value, heap) else heap.allocate? (.long value)

def longObject (value : Int64) : Object :=
  ⟨headerSize + (Payload.long value).size, .long value⟩

/-- An operation on the object in a slot does not reach a long elsewhere. -/
theorem Edited.long {after : Heap} {edited : UInt32} (editing : Edited heap after edited)
    (found : heap.object? index = some (longObject value))
    (own : index = edited → after.object? index = heap.object? index) :
    after.object? index = some (longObject value) := by
  by_cases same : index = edited
  · rw [own same, found]
  · rw [editing.others index same, found]

theorem view_long {α : Type} {kind : RefKind} {select : Payload → Option α} {seen : α}
    (found : heap.object? word.toHandle.index = some (longObject value))
    (none : select (.long value) = none) : heap.view kind select word ≠ .ok seen := by
  intro viewed
  obtain ⟨object, leads, selected⟩ := view_eq_ok viewed
  rw [object?_of_lookup? leads] at found
  cases found
  rw [show (longObject value).payload = .long value from rfl, none] at selected
  cases selected

theorem not_string_of_long {object : Object}
    (found : heap.object? word.toHandle.index = some (longObject value))
    (leads : heap.lookup? word.toHandle = some object) : object.payload.kind ≠ .string := by
  rw [object?_of_lookup? leads] at found
  cases found
  nofun

section

variable {heap : Heap} {word : Word} {value : Int64}

theorem trim_long (found : heap.object? word.toHandle.index = some (longObject value))
    (count : Nat) : heap.operate (.trim word count) = heap := by
  simp only [operate]
  cases trimmed : heap.trim word count with
  | error fault => rfl
  | ok after =>
    rcases trim_eq_ok trimmed with rfl | ⟨object, text, leads, isString, _⟩
    · rfl
    · exact absurd isString (not_string_of_long found leads)

theorem fill_long (found : heap.object? word.toHandle.index = some (longObject value))
    (text : Bytes) : heap.operate (.fill word text) = heap := by
  simp only [operate]
  cases read : heap.text word with
  | error fault => rfl
  | ok current =>
    dsimp only
    split
    · cases filled : heap.fill word text with
      | error fault => rfl
      | ok after =>
        obtain ⟨object, leads, isString, _⟩ := fill_eq_ok read filled
        exact absurd isString (not_string_of_long found leads)
    · rfl

theorem flatten_long (found : heap.object? word.toHandle.index = some (longObject value)) :
    (heap.operate (.flatten word)).object? word.toHandle.index =
      heap.object? word.toHandle.index := by
  simp only [operate]
  cases read : heap.text word with
  | error fault => rfl
  | ok text =>
    obtain ⟨object, leads, _⟩ := text_eq_ok read
    dsimp only
    rw [object?_modify (lookup?_index_ne_zero leads) (remember_slots heap word text), if_pos rfl,
      found]
    rfl

theorem complete_long (found : heap.object? word.toHandle.index = some (longObject value))
    (outcome : Word × ExecState) : heap.operate (.complete word outcome) = heap := by
  simp only [operate]
  cases seen : heap.outcome word with
  | error fault => rfl
  | ok before => exact absurd seen (view_long found rfl)

theorem force_long (found : heap.object? word.toHandle.index = some (longObject value))
    (result : Word) : heap.operate (.force word result) = heap := by
  simp only [operate, Heap.force]
  cases seen : heap.delayed word with
  | error fault => rfl
  | ok call => exact absurd seen (view_long found rfl)

theorem move_long (found : heap.object? word.toHandle.index = some (longObject value))
    (stream : Stream) : heap.operate (.move word stream) = heap := by
  simp only [operate]
  cases seen : heap.stream word with
  | error fault => rfl
  | ok before => exact absurd seen (view_long found rfl)

end

theorem long_operate (upheld : Upheld heap) (room : heap.slots.size + 1 < 2 ^ 32)
    (found : heap.object? index = some (longObject value)) (operation : Operation)
    (unreleased : .released index ∉ heap.events operation) :
    (heap.operate operation).object? index = some (longObject value) := by
  cases operation with
  | allocate payload =>
    simp only [operate, allocate?]
    split
    · obtain ⟨place, generation, placed⟩ := exists_placed upheld.layout room payload
      have different : index ≠ place := by
        rintro rfl
        rw [placed.unused] at found
        cases found
      have slots := placed.slot index different
      change (heap.allocate payload).2.object? index = _
      unfold object? at found ⊢
      rw [slots, found]
    · exact found
  | trim word count =>
    refine (edited_trim heap word count).long found fun same => ?_
    rw [trim_long (same ▸ found)]
  | fill word text =>
    refine (edited_fill heap word text).long found fun same => ?_
    rw [fill_long (same ▸ found)]
  | flatten word =>
    refine (edited_flatten heap word).long found fun same => ?_
    subst same
    exact flatten_long found
  | complete word outcome =>
    refine (edited_complete heap word outcome).long found fun same => ?_
    rw [complete_long (same ▸ found)]
  | force word result =>
    refine (edited_force heap word result).long found fun same => ?_
    rw [force_long (same ▸ found)]
  | move word stream =>
    refine (edited_move heap word stream).long found fun same => ?_
    rw [move_long (same ▸ found)]
  | mark roots =>
    rw [operate, (heap.mark_changes_marks roots).object?]
    exact found
  | sweep =>
    obtain ⟨kept, dropped, swept⟩ := exists_swept upheld.layout
    rw [swept.events upheld.layout] at unreleased
    have inUse := (swept.mem_live index).1 ((upheld.layout.object?_isSome index).2 ⟨_, found⟩)
    have notDropped : index ∉ dropped := fun member =>
      unreleased (List.mem_map.2 ⟨index, member, rfl⟩)
    rw [operate, swept.object?_kept (inUse.resolve_right notDropped)]
    exact found

theorem history_eq (heap : Heap) (operations : List Operation) (past : List Event) :
    heap.history operations past = heap.history operations [] ++ past := by
  induction operations generalizing heap past with
  | nil => rfl
  | cons operation operations ih =>
    rw [history, history, ih,
      ih _ (heap.events operation ++ []),
      List.append_nil, List.append_assoc]

theorem long_operateAll {last : Heap} {operations : List Operation} (upheld : Upheld heap)
    (found : heap.object? index = some (longObject value))
    (runs : heap.operateAll operations = some last)
    (unreleased : .released index ∉ heap.history operations []) :
    last.object? index = some (longObject value) := by
  induction operations generalizing heap with
  | nil =>
    cases runs
    exact found
  | cons operation operations ih =>
    unfold operateAll at runs
    rw [List.foldlM_cons] at runs
    obtain ⟨next, stepped, rest⟩ := Option.bind_eq_some_iff.1 runs
    rw [Option.ite_none_right_eq_some, Option.some.injEq] at stepped
    obtain ⟨room, rfl⟩ := stepped
    rw [history, history_eq, List.append_nil, List.mem_append, not_or] at unreleased
    exact ih (upheld.operate room operation)
      (long_operate upheld room found operation unreleased.2) rest unreleased.1

theorem allocate_of_allocate? {after : Heap} {payload : Payload}
    (made : heap.allocate? payload = some (word, after)) :
    heap.allocate payload = (word, after) := by
  unfold allocate? at made
  rw [Option.ite_none_right_eq_some, Option.some.injEq] at made
  exact made.2

theorem allocations_allocate (heap : Heap) (payload : Payload) :
    (heap.allocate payload).2.allocations = heap.allocations + 1 := by
  unfold allocate
  unfold place pace
  dsimp only
  repeat' split
  all_goals rfl

/-- A long that has an object is read back from its word until the slot is released. -/
theorem long_allocated {made last : Heap} {past : List Event} {operations : List Operation}
    (recorded : Recorded heap past) (room : heap.slots.size + 1 < 2 ^ 32)
    (allocated : heap.allocate? (.long value) = some (word, made))
    (runs : made.operateAll operations = some last)
    (unreleased : .released word.toHandle.index ∉ made.history operations []) :
    last.long word = .ok value := by
  have done := allocate_of_allocate? allocated
  obtain ⟨index, generation, placed⟩ := exists_placed recorded.upheld.layout room (.long value)
  have first := recorded.allocate room (.long value)
  rw [done] at placed first
  have found : made.object? word.toHandle.index = some (longObject value) := by
    obtain ⟨next, filled⟩ := placed.filled
    rw [object?, placed.inSlot, filled]
    rfl
  have kept := long_operateAll first.upheld found runs unreleased
  have after := first.operateAll runs
  rw [history_eq] at after
  have leads : last.deref word = .ok (longObject value) := by
    refine (after.deref_since rfl).2 ⟨kept, ?_⟩
    rw [List.count_eq_zero_of_not_mem unreleased, Nat.zero_mod]
  rw [long, if_pos placed.isRef, leads]
  rfl

/-- The word of a long is read back, also in later states of the heap while its slot is not
released. Only a negative long takes an object. -/
theorem makeLong?_spec {made : Heap} {past : List Event} (recorded : Recorded heap past)
    (room : heap.slots.size + 1 < 2 ^ 32) (makes : heap.makeLong? value = some (word, made)) :
    (word.isRef = true ↔ value < 0) ∧
      made.allocations = heap.allocations + (if value < 0 then 1 else 0) ∧
      ∀ operations last, made.operateAll operations = some last →
        (word.isRef = true → .released word.toHandle.index ∉ made.history operations []) →
          last.long word = .ok value := by
  unfold makeLong? at makes
  by_cases positive : 0 ≤ value
  · rw [if_pos positive] at makes
    cases makes
    have inline : (Word.ofInlineLong value).isRef = false := Word.isRef_ofInlineLong value
    have notNegative : ¬ value < 0 := Int64.not_lt.2 positive
    refine ⟨by simp [notNegative], by rw [if_neg notNegative]; rfl, fun _ last _ _ => ?_⟩
    rw [long, inline, if_neg Bool.false_ne_true, Word.toInlineLong_ofInlineLong positive]
  · rw [if_neg positive] at makes
    have negative : value < 0 := Int64.not_le.1 positive
    have done := allocate_of_allocate? makes
    have isRef : word.isRef = true := by
      obtain ⟨_, _, placed⟩ := exists_placed recorded.upheld.layout room (.long value)
      rw [done] at placed
      exact placed.isRef
    refine ⟨by simp [isRef, negative], ?_, fun operations last runs unreleased => ?_⟩
    · have counted := allocations_allocate heap (.long value)
      rw [done] at counted
      rw [counted, if_pos negative]
    · exact long_allocated recorded room makes runs (unreleased isRef)

end Heap

def Executor.withOperands (executor : Executor) (words : List Word) : Executor :=
  { executor with
    eval := ⟨executor.eval.capacity, words.foldl Array.push executor.eval.items⟩ }

namespace Exec

variable {session : Session}

theorem push_eq {executor : Executor} (stack : executor.eval.items.size < executor.eval.capacity)
    (word : Word) : executor.push word = executor.withOperands [word] := by
  rw [Executor.push, if_pos stack]
  rfl

theorem pushNew_eq {payload : Payload} {made : Heap} {word : Word}
    (makes : session.shared.heap.allocate? payload = some (word, made)) :
    ∃ after, pushNew payload session = .ok () after ∧ after.shared.heap = made ∧
      after.executor = session.executor.push word := by
  obtain ⟨executor, shared⟩ := session
  unfold Heap.allocate? at makes
  rw [Option.ite_none_right_eq_some, Option.some.injEq] at makes
  obtain ⟨room, allocated⟩ := makes
  have done : allocate? payload ⟨executor, shared⟩ =
      .ok (some (shared.allocate payload).1) ⟨executor, (shared.allocate payload).2⟩ := by
    unfold allocate?
    simp only [room, if_true]
  have words : (shared.allocate payload).1 = word := congrArg Prod.fst allocated
  have heaps : (shared.allocate payload).2.heap = made :=
    (Shared.log_heap _ _).trans (congrArg Prod.snd allocated)
  unfold pushNew
  rw [Evaluation.exec_bind done, words]
  exact ⟨_, rfl, heaps, rfl⟩

/-- Without room for the object execution ends, and nothing is pushed. -/
theorem pushNew_eq_fail {payload : Payload} (full : session.shared.heap.allocate? payload = none) :
    pushNew payload session =
      .ok () { session with executor := session.executor.fail .allocFailed } := by
  have space : ¬ session.shared.heap.hasRoom (Heap.headerSize + payload.size) = true := by
    intro room
    rw [Heap.allocate?, if_pos room] at full
    cases full
  have none : allocate? payload session = .ok none session := by
    unfold allocate?
    simp only [space]
    rfl
  unfold pushNew
  rw [Evaluation.exec_bind none]
  rfl

theorem pushLong_eq {made : Heap} {word : Word} {value : Int64}
    (makes : session.shared.heap.makeLong? value = some (word, made)) :
    ∃ after, pushLong value session = .ok () after ∧ after.shared.heap = made ∧
      after.executor = session.executor.push word := by
  unfold Heap.makeLong? at makes
  unfold pushLong
  by_cases positive : 0 ≤ value
  · rw [if_pos positive] at makes ⊢
    cases makes
    exact ⟨_, rfl, rfl, rfl⟩
  · rw [if_neg positive] at makes ⊢
    exact pushNew_eq makes

end Exec

namespace Word

theorem isNull_ofHandle_make {index generation : UInt32} (small : generation.toNat < 2 ^ 31) :
    (ofHandle (.make index generation)).isNull = true ↔ index = 0 ∧ generation = 0 := by
  rw [isNull, beq_iff_eq, null, ← Handle.make_zero]
  constructor
  · exact Handle.eq_of_ofHandle small (by decide)
  · rintro ⟨rfl, rfl⟩
    rfl

/--
Words are faithful. Ints, the bits of floats and handles are read back from their words. No word of
an int, a float, a truth value or an inline long is a reference, different handles have different
words, and only that of handle zero is null. In every heap that operations lead to, a long is read
back from the word it is given, also after further operations that do not release its slot; only a
negative long takes an object, and pushing a long pushes its word.
-/
theorem word_encodings_faithful {index other generation otherGeneration : UInt32}
    {interval limit : Int} {operations : List Heap.Operation} {heap : Heap} {value : Int64}
    (small : generation.toNat < 2 ^ 31) (otherSmall : otherGeneration.toNat < 2 ^ 31)
    (runs : (Heap.new interval limit).operateAll operations = some heap)
    (room : heap.slots.size + 1 < 2 ^ 32) (int : Int32) (float : UInt32) (truth : Bool) :
    ((ofInt int).toInt = int ∧ (ofFloat float).bits32 = float ∧
      (ofHandle (.make index generation)).toHandle.index = index ∧
      (ofHandle (.make index generation)).toHandle.generation = generation) ∧
    ((ofInt int).isRef = false ∧ (ofFloat float).isRef = false ∧ (ofBool truth).isRef = false ∧
      (ofInlineLong value).isRef = false ∧ (ofHandle (.make index generation)).isRef = true) ∧
    (ofHandle (.make index generation) = ofHandle (.make other otherGeneration) →
      index = other ∧ generation = otherGeneration) ∧
    ((ofHandle (.make index generation)).isNull = true ↔ index = 0 ∧ generation = 0) ∧
    (0 ≤ value → heap.makeLong? value = some (ofInlineLong value, heap)) ∧
    ∀ word made, heap.makeLong? value = some (word, made) →
      (word.isRef = true ↔ value < 0) ∧
      made.allocations = heap.allocations + (if value < 0 then 1 else 0) ∧
      (∀ later last, made.operateAll later = some last →
        (word.isRef = true → .released word.toHandle.index ∉ made.history later []) →
          last.long word = .ok value) ∧
      ∀ session : Session, session.shared.heap = heap →
        ∃ after, Exec.pushLong value session = .ok () after ∧ after.shared.heap = made ∧
          after.executor = session.executor.push word := by
  have recorded := (Heap.Recorded.new interval limit).operateAll runs
  refine ⟨⟨toInt_ofInt int, bits32_ofBits32 float, ?_, ?_⟩,
    ⟨isRef_ofInt int, isRef_ofFloat float, isRef_ofBool truth, isRef_ofInlineLong value,
      isRef_ofHandle _⟩,
    Handle.eq_of_ofHandle small otherSmall, isNull_ofHandle_make small, ?_, ?_⟩
  · rw [toHandle_ofHandle, Handle.index_make]
  · rw [toHandle_ofHandle, Handle.generation_make_of_lt small]
  · intro positive
    rw [Heap.makeLong?, if_pos positive]
  · intro word made makes
    obtain ⟨isRef, allocations, reads⟩ := Heap.makeLong?_spec recorded room makes
    refine ⟨isRef, allocations, reads, ?_⟩
    rintro session rfl
    exact Exec.pushLong_eq makes

/-- The least long has an object in a slot that was used before, and it is read back after a
collection that keeps it. -/
theorem word_encodings_faithful_least :
    ∃ heap made last,
      (Heap.new 0 0).operateAll [.allocate (.blank 4), .mark [], .sweep] = some heap ∧
      heap.makeLong? Int64.minValue = some (ofHandle (.make 1 1), made) ∧
      made.operateAll [.mark [ofHandle (.make 1 1)], .sweep] = some last ∧
      last.long (ofHandle (.make 1 1)) = .ok Int64.minValue := by
  let past : List Heap.Operation := [.allocate (.blank 4), .mark [], .sweep]
  let heap := ((Heap.new 0 0).operateAll past).getD default
  let made := (heap.allocate (.long Int64.minValue)).2
  have some_of_isSome {left : Option Heap} (isSome : left.isSome = true) :
      left = some (left.getD default) := by
    rw [← Option.some_get isSome, Option.getD_some]
  have runs : (Heap.new 0 0).operateAll past = some heap := some_of_isSome (by decide)
  have makes : heap.makeLong? Int64.minValue = some (ofHandle (.make 1 1), made) := by
    have word : (heap.allocate (.long Int64.minValue)).1 = ofHandle (.make 1 1) := by decide
    rw [Heap.makeLong?, if_neg (by decide), Heap.allocate?, if_pos (by decide), ← word]
  have collected := some_of_isSome
    (show (made.operateAll [.mark [ofHandle (.make 1 1)], .sweep]).isSome = true by decide)
  have longs := (@word_encodings_faithful 1 1 1 1 0 0 _ heap Int64.minValue (by decide) (by decide)
    runs (by decide) 0 0 true).2.2.2.2.2 _ made makes
  exact ⟨heap, made, _, runs, makes, collected, longs.2.2.1 _ _ collected fun _ => by decide⟩

end Word

end WordMachine
