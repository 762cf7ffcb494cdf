import WordMachine.Proofs.HeapOperations
import WordMachine.Proofs.ListUpdates

/-!
Marking finds exactly the objects that the roots reach. The loop keeps every reached word either
pending or settled, marks nothing that is not reached, and ends because each object hands out its
references once.
-/

namespace WordMachine

/-! ## Reachability -/

/-- The words through which an object keeps others alive. -/
inductive Payload.Refers : Payload → Word → Prop
  | previous {word : Word} {byte : UInt8} {flat : Option Bytes} :
      Refers (.link word byte flat) word
  | field {fields : Array Word} {word : Word} :
      word ∈ fields →
      Refers (.struct fields) word
  | outcome {word : Word} :
      Refers (.future (some (word, .success))) word
  | argument {target : UInt32} {arguments : Array Word} {word : Word} :
      word ∈ arguments →
      Refers (.lazy (.pending target arguments)) word
  | value {word : Word} :
      Refers (.lazy (.forced word)) word

theorem Payload.mem_references {payload : Payload} {word : Word} :
    word ∈ payload.references ↔ payload.Refers word := by
  constructor
  · intro member
    unfold Payload.references at member
    split at member
    · rw [List.mem_singleton.1 member]
      exact Refers.previous
    · exact Refers.field (Array.mem_toList_iff.1 member)
    · rw [List.mem_singleton.1 member]
      exact Refers.outcome
    · exact Refers.argument (Array.mem_toList_iff.1 member)
    · rw [List.mem_singleton.1 member]
      exact Refers.value
    · cases member
  · intro refers
    cases refers with
    | previous => exact List.mem_singleton_self _
    | field member => exact Array.mem_toList_iff.2 member
    | outcome => exact List.mem_singleton_self _
    | argument member => exact Array.mem_toList_iff.2 member
    | value => exact List.mem_singleton_self _

namespace Heap

variable {heap marked : Heap} {word : Word} {roots : List Word} {index : UInt32} {object : Object}
variable {marking : Marking}

inductive Reached (heap : Heap) (roots : List Word) : Word → Prop
  | root {word : Word} :
      word ∈ roots →
      Reached heap roots word
  | follow {word next : Word} {object : Object} :
      Reached heap roots word →
      word.isRef = true →
      heap.lookup? word.toHandle = some object →
      object.payload.Refers next →
      Reached heap roots next

/-- Whether the roots lead to the object of a handle. -/
def Reaches (heap : Heap) (roots : List Word) (handle : Handle) : Prop :=
  ∃ word, Reached heap roots word ∧ word.isRef = true ∧
    word.toHandle.index = handle.index ∧ word.toHandle.generation = handle.generation

theorem not_reached_nil : ¬ Reached heap [] word := by
  intro reached
  induction reached with
  | root member => cases member
  | follow _ _ _ _ ih => exact ih

theorem lookup?_congr (heap : Heap) {left right : Handle} (index : left.index = right.index)
    (generation : left.generation = right.generation) : heap.lookup? left = heap.lookup? right := by
  unfold lookup?
  rw [index, generation]

/-! ## Marks -/

def clear (slot : Slot) : Slot :=
  { slot with marked := false }

/-- Two heaps that differ in their marks only. -/
structure OnlyMarks (heap marked : Heap) : Prop where
  rest : { marked with slots := heap.slots } = heap
  size : marked.slots.size = heap.slots.size
  slots : ∀ index, (marked.slot? index).map clear = (heap.slot? index).map clear

theorem OnlyMarks.refl (heap : Heap) : OnlyMarks heap heap :=
  ⟨rfl, rfl, fun _ => rfl⟩

theorem OnlyMarks.slot (same : OnlyMarks heap marked) {slot : Slot}
    (found : marked.slot? index = some slot) :
    ∃ original, heap.slot? index = some original ∧
      original.generation = slot.generation ∧ original.object = slot.object ∧
      original.next = slot.next := by
  have equal := same.slots index
  rw [found] at equal
  obtain ⟨original, originalFound, cleared⟩ := Option.map_eq_some_iff.1 equal.symm
  simp only [clear, Slot.mk.injEq] at cleared
  exact ⟨original, originalFound, cleared.1, cleared.2.1, cleared.2.2.1⟩

theorem OnlyMarks.lookup? (same : OnlyMarks heap marked) (handle : Handle) :
    marked.lookup? handle = heap.lookup? handle := by
  have equal := same.slots handle.index
  unfold Heap.lookup?
  cases found : marked.slot? handle.index with
  | none =>
    rw [found] at equal
    rw [Option.map_eq_none_iff.1 equal.symm]
  | some slot =>
    obtain ⟨original, originalFound, generation, object, _⟩ := same.slot found
    rw [originalFound]
    simp only [generation, object]

theorem OnlyMarks.setMark (same : OnlyMarks heap marked) (positive : index ≠ 0) :
    OnlyMarks heap (marked.setMark index) := by
  refine ⟨same.rest, ?_, ?_⟩
  · exact (Array.size_modify).trans same.size
  · intro other
    change (slotIn (marked.slots.modify _ _) other).map clear = _
    rw [slotIn_modify _ positive, ← same.slots other, slot?_eq_slotIn]
    split
    · rw [Option.map_map]
      rfl
    · rfl

/-- Whether the slot with a number is marked. -/
def Marked (heap : Heap) (index : UInt32) : Prop :=
  ∃ slot, heap.slot? index = some slot ∧ slot.marked = true

theorem marked_setMark {other : UInt32} {slot : Slot} (found : heap.slot? index = some slot) :
    Marked (heap.setMark index) other ↔ other = index ∨ Marked heap other := by
  have positive := ne_zero_of_slotIn found
  unfold Marked
  change (∃ marked, slotIn (heap.slots.modify _ _) other = some marked ∧ _) ↔ _
  rw [slotIn_modify _ positive]
  by_cases same : other = index
  · subst same
    rw [slot?_eq_slotIn] at found
    simp [found]
  · simp [same, slot?_eq_slotIn]

/-! ## The loop -/

theorem reached?_eq_some {slot : Slot} :
    heap.reached? word = some (slot, object) ↔
      word.isRef = true ∧ heap.slot? word.toHandle.index = some slot ∧
        slot.generation = word.toHandle.generation ∧ slot.object = some object := by
  unfold reached?
  by_cases isRef : word.isRef = true
  · by_cases isNull : word.isNull = true
    · have nowhere : heap.slot? word.toHandle.index = none := by
        rw [Word.index_of_isNull isNull]
        rfl
      simp [isNull, nowhere]
    · cases found : heap.slot? word.toHandle.index with
      | none => simp [isRef]
      | some current =>
        by_cases generation : current.generation = word.toHandle.generation
        · simp only [isRef, isNull, Bool.not_true, Bool.false_or, Bool.false_eq_true, if_false,
            generation, beq_self_eq_true, if_true, Option.map_eq_some_iff, Prod.mk.injEq,
            true_and, Option.some.injEq]
          constructor
          · rintro ⟨_, objectFound, rfl, rfl⟩
            exact ⟨rfl, generation, objectFound⟩
          · rintro ⟨rfl, _, objectFound⟩
            exact ⟨object, objectFound, rfl, rfl⟩
        · simp only [isRef, isNull, Bool.not_true, Bool.false_or, Bool.false_eq_true, if_false,
            beq_iff_eq, generation, reduceCtorEq, Option.some.injEq, true_and, false_iff]
          rintro ⟨rfl, equal, _⟩
          exact generation equal
  · simp [isRef]

/-- A word from which nothing is left to be marked. -/
def Settled (heap : Heap) (word : Word) : Prop :=
  word.isRef = true → ∀ object, heap.lookup? word.toHandle = some object →
    Marked heap word.toHandle.index

def Marking.Covers (marking : Marking) (word : Word) : Prop :=
  word ∈ marking.pending ∨ Settled marking.heap word

/-- What marking has done at any point. -/
structure Marking.Invariant (heap : Heap) (roots : List Word) (marking : Marking) : Prop where
  same : OnlyMarks heap marking.heap
  sound : ∀ index, Marked marking.heap index →
    ∃ word object, Reached heap roots word ∧ word.isRef = true ∧
      word.toHandle.index = index ∧ heap.lookup? word.toHandle = some object
  pendingSound : ∀ word ∈ marking.pending, Reached heap roots word
  rootsCovered : ∀ word ∈ roots, marking.Covers word
  closed : ∀ index slot object,
    marking.heap.slot? index = some slot → slot.marked = true → slot.object = some object →
    ∀ next, object.payload.Refers next → marking.Covers next

theorem Marking.invariant_start (unmarked : Unmarked heap) (roots : List Word) :
    Invariant heap roots ⟨heap, roots⟩ where
  same := OnlyMarks.refl heap
  sound := by
    rintro index ⟨slot, found, marked⟩
    rw [unmarked index slot found] at marked
    cases marked
  pendingSound := fun _ member => Reached.root member
  rootsCovered := fun _ member => Or.inl member
  closed := by
    intro index slot object found marked
    rw [unmarked index slot found] at marked
    cases marked

theorem settled_of_reached?
    (done : ∀ slot object, heap.reached? word = some (slot, object) → slot.marked = true) :
    Settled heap word := by
  intro isRef object found
  obtain ⟨slot, slotFound, generation, objectFound⟩ := lookup?_eq_some.1 found
  exact ⟨slot, slotFound,
    done slot object (reached?_eq_some.2 ⟨isRef, slotFound, generation, objectFound⟩)⟩

theorem Marking.Invariant.drop {current : Heap} {rest : List Word}
    (invariant : Invariant heap roots ⟨current, word :: rest⟩) (settled : Settled current word) :
    Invariant heap roots ⟨current, rest⟩ := by
  have covers : ∀ other, Covers ⟨current, word :: rest⟩ other → Covers ⟨current, rest⟩ other := by
    rintro other (member | otherSettled)
    · rcases List.mem_cons.1 member with rfl | inRest
      · exact Or.inr settled
      · exact Or.inl inRest
    · exact Or.inr otherSettled
  exact ⟨invariant.same, invariant.sound,
    fun other member => invariant.pendingSound other (List.mem_cons_of_mem word member),
    fun other member => covers other (invariant.rootsCovered other member),
    fun index slot object found marked objectFound next refers =>
      covers next (invariant.closed index slot object found marked objectFound next refers)⟩

theorem Marking.Invariant.visit {current : Heap} {rest : List Word} {slot : Slot}
    (invariant : Invariant heap roots ⟨current, word :: rest⟩)
    (reached : current.reached? word = some (slot, object)) :
    Invariant heap roots
      ⟨current.setMark word.toHandle.index, object.payload.references ++ rest⟩ := by
  obtain ⟨isRef, slotFound, generation, objectFound⟩ := reached?_eq_some.1 reached
  have positive := ne_zero_of_slotIn slotFound
  have lookups : ∀ handle,
      (current.setMark word.toHandle.index).lookup? handle = current.lookup? handle := by
    intro handle
    rw [(invariant.same.setMark positive).lookup?, invariant.same.lookup?]
  have wordReached := invariant.pendingSound word List.mem_cons_self
  have wordFound : heap.lookup? word.toHandle = some object := by
    rw [← invariant.same.lookup?]
    exact lookup?_eq_some.2 ⟨slot, slotFound, generation, objectFound⟩
  have covers : ∀ other, Covers ⟨current, word :: rest⟩ other →
      Covers ⟨current.setMark word.toHandle.index, object.payload.references ++ rest⟩ other := by
    rintro other (member | settled)
    · rcases List.mem_cons.1 member with rfl | inRest
      · exact Or.inr fun _ _ _ => (marked_setMark slotFound).2 (Or.inl rfl)
      · exact Or.inl (List.mem_append_right _ inRest)
    · refine Or.inr fun otherRef otherObject otherFound => ?_
      rw [lookups] at otherFound
      exact (marked_setMark slotFound).2 (Or.inr (settled otherRef otherObject otherFound))
  constructor
  case same => exact invariant.same.setMark positive
  case sound =>
    intro index marked
    rcases (marked_setMark slotFound).1 marked with rfl | before
    · exact ⟨word, object, wordReached, isRef, rfl, wordFound⟩
    · exact invariant.sound index before
  case pendingSound =>
    intro other member
    rcases List.mem_append.1 member with inReferences | inRest
    · exact Reached.follow wordReached isRef wordFound (Payload.mem_references.1 inReferences)
    · exact invariant.pendingSound other (List.mem_cons_of_mem word inRest)
  case rootsCovered =>
    intro other member
    exact covers other (invariant.rootsCovered other member)
  case closed =>
    intro index marked visited found isMarked visitedFound next refers
    -- The object just marked has handed out its references; the others did so before.
    change slotIn (current.slots.modify _ _) index = some marked at found
    rw [slotIn_modify _ positive] at found
    by_cases same : index = word.toHandle.index
    · subst same
      rw [if_pos rfl, ← slot?_eq_slotIn, slotFound] at found
      cases found
      rw [objectFound] at visitedFound
      cases visitedFound
      exact Or.inl (List.mem_append_left _ (Payload.mem_references.2 refers))
    · rw [if_neg same, ← slot?_eq_slotIn] at found
      exact covers next
        (invariant.closed index marked visited found isMarked visitedFound next refers)

theorem Marking.Invariant.step (invariant : Invariant heap roots marking) :
    Invariant heap roots marking.step := by
  obtain ⟨current, pending⟩ := marking
  cases pending with
  | nil => exact invariant
  | cons word rest =>
    simp only [Marking.step]
    cases reached : current.reached? word with
    | none =>
      refine invariant.drop (settled_of_reached? ?_)
      intro slot object found
      rw [reached] at found
      cases found
    | some target =>
      obtain ⟨slot, object⟩ := target
      by_cases marked : slot.marked = true
      · simp only [marked, if_true]
        refine invariant.drop (settled_of_reached? ?_)
        intro other otherObject found
        rw [reached] at found
        cases found
        exact marked
      · simp only [marked, Bool.false_eq_true, if_false]
        exact invariant.visit reached

theorem Marking.Invariant.run (invariant : Invariant heap roots marking) (count : Nat) :
    Invariant heap roots (marking.run count) := by
  induction count generalizing marking with
  | zero => exact invariant
  | succ count ih =>
    obtain ⟨current, pending⟩ := marking
    cases pending with
    | nil => exact invariant
    | cons word rest => exact ih invariant.step

/-! ## Termination -/

/-- The references that a slot has yet to hand out. -/
def owed (slot : Slot) : Nat :=
  if slot.marked then 0 else slot.object.elim 0 fun object => object.payload.references.length

/-- The words that marking has yet to follow. -/
def Marking.work (marking : Marking) : Nat :=
  marking.pending.length + (marking.heap.slots.toList.map owed).sum

theorem sum_owed_setMark {slot : Slot} (found : heap.slot? index = some slot)
    (unmarked : slot.marked = false) (objectFound : slot.object = some object) :
    ((heap.setMark index).slots.toList.map owed).sum + object.payload.references.length =
      (heap.slots.toList.map owed).sum := by
  have positive := ne_zero_of_slotIn found
  rw [slot?_eq_slotIn, slotIn_of_ne_zero _ positive, ← Array.getElem?_toList] at found
  have sums := sum_map_modify owed (fun slot => { slot with marked := true }) found
  have before : owed slot = object.payload.references.length := by
    simp [owed, unmarked, objectFound]
  have after : owed { slot with marked := true } = 0 := by
    simp [owed]
  simp only [setMark, Array.toList_modify]
  omega

theorem Marking.work_step (heap : Heap) (word : Word) (rest : List Word) :
    (Marking.step ⟨heap, word :: rest⟩).work < Marking.work ⟨heap, word :: rest⟩ := by
  simp only [Marking.step]
  cases reached : heap.reached? word with
  | none => simp [work]
  | some target =>
    obtain ⟨slot, object⟩ := target
    obtain ⟨_, slotFound, _, objectFound⟩ := reached?_eq_some.1 reached
    by_cases marked : slot.marked = true
    · simp [marked, work]
    · have sums := sum_owed_setMark slotFound (Bool.eq_false_iff.2 marked) objectFound
      simp only [marked, Bool.false_eq_true, if_false, work, List.length_append,
        List.length_cons]
      omega

/-- Marking that may take as many steps as there is work leaves nothing pending. -/
theorem Marking.pending_run {count : Nat} (enough : marking.work ≤ count) :
    (marking.run count).pending = [] := by
  induction count generalizing marking with
  | zero =>
    have nothing : marking.pending.length = 0 := by
      unfold work at enough
      omega
    exact List.length_eq_zero_iff.1 nothing
  | succ count ih =>
    obtain ⟨current, pending⟩ := marking
    cases pending with
    | nil => rfl
    | cons word rest =>
      refine ih ?_
      have less := work_step current word rest
      omega

theorem referenceCount_eq (unmarked : ∀ slot ∈ heap.slots, slot.marked = false) :
    heap.referenceCount = (heap.slots.toList.map owed).sum := by
  have counted : heap.referenceCount = heap.slots.toList.foldl
      (fun count slot => slot.object.elim count fun object =>
        count + object.payload.references.length)
      0 := by
    unfold referenceCount
    rw [← Array.foldl_toList]
    congr 1
    funext count slot
    cases slot.object <;> rfl
  rw [counted]
  have general : ∀ (slots : List Slot) (start : Nat),
      (∀ slot ∈ slots, slot.marked = false) →
      slots.foldl
        (fun count slot => slot.object.elim count fun object =>
          count + object.payload.references.length)
        start = start + (slots.map owed).sum := by
    intro slots
    induction slots with
    | nil => simp
    | cons slot slots ih =>
      intro start clean
      have first : slot.marked = false := clean slot List.mem_cons_self
      rw [List.foldl_cons,
        ih _ fun other member => clean other (List.mem_cons_of_mem slot member)]
      cases object : slot.object with
      | none => simp [owed, first, object]
      | some found =>
        simp only [List.map_cons, List.sum_cons, owed, first, object, Option.elim_some,
          Bool.false_eq_true, if_false]
        omega
  have clean : ∀ slot ∈ heap.slots.toList, slot.marked = false :=
    fun slot member => unmarked slot (Array.mem_toList_iff.1 member)
  exact (general heap.slots.toList 0 clean).trans (Nat.zero_add _)

theorem Unmarked.mem (unmarked : Unmarked heap) (small : heap.slots.size < 2 ^ 32) :
    ∀ slot ∈ heap.slots, slot.marked = false := by
  intro slot member
  obtain ⟨position, bound, rfl⟩ := Array.mem_iff_getElem.1 member
  have inRange : position + 1 < 2 ^ 32 := by omega
  have number : (UInt32.ofNat (position + 1)).toNat = position + 1 :=
    UInt32.toNat_ofNat_of_lt inRange
  refine unmarked (UInt32.ofNat (position + 1)) _ ?_
  rw [slot?_eq_slotIn, slotIn_of_ne_zero]
  · rw [number, Nat.add_sub_cancel]
    exact Array.getElem?_eq_getElem bound
  · intro zero
    rw [zero] at number
    simp at number

/-- Marking ends with nothing left to follow. -/
theorem pending_marking (wellFormed : WellFormed heap) (roots : List Word) :
    (heap.marking roots).pending = [] := by
  refine Marking.pending_run ?_
  rw [referenceCount_eq (wellFormed.unmarked.mem wellFormed.layout.small)]
  exact Nat.le_refl _

/-! ## The result -/

theorem Marking.run_onlyMarks (count : Nat) (same : OnlyMarks heap marking.heap) :
    OnlyMarks heap (Marking.run count marking).heap := by
  induction count generalizing marking with
  | zero => exact same
  | succ count ih =>
    obtain ⟨current, pending⟩ := marking
    cases pending with
    | nil => exact same
    | cons word rest =>
      refine ih ?_
      simp only [Marking.step]
      cases reached : current.reached? word with
      | none => exact same
      | some target =>
        obtain ⟨slot, object⟩ := target
        by_cases marked : slot.marked = true
        · simp only [marked, if_true]
          exact same
        · simp only [marked, Bool.false_eq_true, if_false]
          exact same.setMark (ne_zero_of_slotIn (reached?_eq_some.1 reached).2.1)

theorem mark_changes_marks (heap : Heap) (roots : List Word) :
    OnlyMarks heap (heap.mark roots) := by
  have start : OnlyMarks heap (⟨heap, roots⟩ : Marking).heap := OnlyMarks.refl heap
  exact Marking.run_onlyMarks (roots.length + heap.referenceCount) start

theorem mark_onlyMarks (wellFormed : WellFormed heap) (roots : List Word) :
    OnlyMarks heap (heap.mark roots) :=
  ((Marking.invariant_start wellFormed.unmarked roots).run _).same

theorem settled_of_reached (wellFormed : WellFormed heap) (reached : Reached heap roots word) :
    Settled (heap.mark roots) word := by
  have invariant := (Marking.invariant_start wellFormed.unmarked roots).run
    (roots.length + heap.referenceCount)
  have nothingPending := pending_marking wellFormed roots
  have settled : ∀ other, (heap.marking roots).Covers other → Settled (heap.mark roots) other := by
    rintro other (member | done)
    · rw [nothingPending] at member
      cases member
    · exact done
  induction reached with
  | root member => exact settled _ (invariant.rootsCovered _ member)
  | @follow before next object _ isRef found refers ih =>
    rw [← (mark_onlyMarks wellFormed roots).lookup?] at found
    obtain ⟨slot, slotFound, marked⟩ := ih isRef object found
    obtain ⟨same, sameFound, _, objectFound⟩ := lookup?_eq_some.1 found
    rw [slotFound] at sameFound
    cases sameFound
    exact settled next (invariant.closed _ slot object slotFound marked objectFound next refers)

theorem marked_mark_iff (wellFormed : WellFormed heap) (roots : List Word) {handle : Handle}
    (found : heap.lookup? handle = some object) :
    Marked (heap.mark roots) handle.index ↔ Reaches heap roots handle := by
  obtain ⟨slot, slotFound, generation, _⟩ := lookup?_eq_some.1 found
  constructor
  · intro marked
    have invariant := (Marking.invariant_start wellFormed.unmarked roots).run
      (roots.length + heap.referenceCount)
    obtain ⟨word, other, reached, isRef, index, wordFound⟩ := invariant.sound _ marked
    obtain ⟨same, sameFound, wordGeneration, _⟩ := lookup?_eq_some.1 wordFound
    rw [index, slotFound] at sameFound
    cases sameFound
    exact ⟨word, reached, isRef, index, wordGeneration.symm.trans generation⟩
  · rintro ⟨word, reached, isRef, index, wordGeneration⟩
    have settled := settled_of_reached wellFormed reached
    rw [← lookup?_congr heap index wordGeneration,
      ← (mark_onlyMarks wellFormed roots).lookup?] at found
    rw [← index]
    exact settled isRef object found

end Heap

end WordMachine
