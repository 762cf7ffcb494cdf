import WordMachine.Proofs.Marking

/-!
Sweeping takes the unmarked slots out of the list and keeps the others. The loop splits the list
into the slots kept, those taken out and those still ahead.
-/

namespace WordMachine.Heap

variable {heap : Heap} {index start stop : UInt32} {rest kept dropped live : List UInt32}
variable {sweeping : Sweeping}

/-! ## Parts of the list -/

theorem Chain.eq_of_nil {shape? : UInt32 → Option Shape} (chain : Chain shape? start [] stop) :
    start = stop := by
  cases chain
  rfl

theorem Chain.of_cons {shape? : UInt32 → Option Shape}
    (chain : Chain shape? start (index :: rest) stop) :
    start = index ∧ ∃ shape, shape? index = some shape ∧ Chain shape? shape.next rest stop := by
  cases chain with
  | cons found tail => exact ⟨rfl, _, found, tail⟩

theorem Chain.append {shape? : UInt32 → Option Shape} {middle : UInt32} {first second : List UInt32}
    (before : Chain shape? start first middle) (after : Chain shape? middle second stop) :
    Chain shape? start (first ++ second) stop := by
  induction before with
  | nil => exact after
  | cons found _ ih => exact Chain.cons found (ih after)

theorem Chain.split {shape? : UInt32 → Option Shape} {first second : List UInt32}
    (chain : Chain shape? start (first ++ second) stop) :
    ∃ middle, Chain shape? start first middle ∧ Chain shape? middle second stop := by
  induction first generalizing start with
  | nil => exact ⟨start, Chain.nil, chain⟩
  | cons index first ih =>
    obtain ⟨rfl, shape, found, tail⟩ := chain.of_cons
    obtain ⟨middle, before, after⟩ := ih tail
    exact ⟨middle, Chain.cons found before, after⟩

/-- A list is extended by the slot it stops at. -/
theorem Chain.snoc {shape? : UInt32 → Option Shape} {shape : Shape}
    (chain : Chain shape? start live index) (found : shape? index = some shape) :
    Chain shape? start (live ++ [index]) shape.next :=
  chain.append (Chain.cons found Chain.nil)

def lastSlot (live : List UInt32) : UInt32 :=
  live.getLastD 0

theorem link_slot? (heap : Heap) (index next other : UInt32) :
    (heap.link index next).slot? other =
      if index ≠ 0 ∧ other = index then (heap.slot? other).map fun slot => { slot with next }
      else heap.slot? other := by
  by_cases zero : index = 0
  · simp only [link, zero, beq_self_eq_true, if_true, ne_eq, not_true_eq_false, false_and,
      if_false]
    rfl
  · simp only [link, beq_iff_eq, zero, if_false, ne_eq, not_false_eq_true, true_and]
    exact slotIn_modify heap.slots zero _ other

theorem link_size (heap : Heap) (index next : UInt32) :
    (heap.link index next).slots.size = heap.slots.size := by
  unfold link
  split
  · rfl
  · exact Array.size_modify

theorem link_free (heap : Heap) (index next : UInt32) :
    (heap.link index next).free = heap.free := by
  unfold link
  split <;> rfl

theorem link_figures (heap : Heap) (index next : UInt32)
    (slots : Array Slot) (head : UInt32) (free : List UInt32) :
    { heap.link index next with slots, head, free } = { heap with slots, head, free } := by
  unfold link
  split <;> rfl

theorem Chain.link (chain : Chain heap.shape? heap.head live stop) (nodup : live.Nodup)
    (next : UInt32) :
    Chain (heap.link (lastSlot live) next).shape? (heap.link (lastSlot live) next).head live
      next := by
  rcases List.eq_nil_or_concat live with rfl | ⟨front, last, rfl⟩
  · exact Chain.nil
  · rw [List.concat_eq_append] at chain nodup ⊢
    obtain ⟨middle, before, after⟩ := chain.split
    obtain ⟨rfl, shape, found, _⟩ := after.of_cons
    obtain ⟨slot, slotFound, rfl⟩ := shape?_eq_some.1 found
    have positive := ne_zero_of_slotIn slotFound
    have isLast : lastSlot (front ++ [middle]) = middle := by simp [lastSlot]
    have notInFront : middle ∉ front := by
      intro member
      exact (List.disjoint_of_nodup_append nodup) member List.mem_cons_self
    have head : (heap.link middle next).head = heap.head := by
      simp [Heap.link, positive]
    rw [isLast, head]
    have relinked : (heap.link middle next).shape? middle = some (shapeOf { slot with next }) := by
      simp [shape?, link_slot?, positive, slotFound]
    refine Chain.snoc (before.congr ?_) relinked
    intro other member
    have different : other ≠ middle := by
      rintro rfl
      exact notInFront member
    simp [shape?, link_slot?, different]

/-! ## The loop -/

/-- What sweeping has done when it has kept some slots, taken out others, last one first, and has
the rest of the list ahead. -/
structure Sweeping.Invariant (heap : Heap) (kept dropped rest : List UInt32)
    (sweeping : Sweeping) : Prop where
  behind : Chain sweeping.heap.shape? sweeping.heap.head kept sweeping.index
  ahead : Chain heap.shape? sweeping.index rest 0
  previous : sweeping.previous = lastSlot kept
  distinct : (kept ++ dropped ++ rest).Nodup
  size : sweeping.heap.slots.size = heap.slots.size
  figures :
    { sweeping.heap with slots := heap.slots, head := heap.head, free := heap.free } = heap
  free : sweeping.heap.free = dropped ++ heap.free
  freed : sweeping.freed = dropped.filterMap fun index => (heap.object? index).map (Freed.mk index)
  untouched : ∀ index, index ∉ kept → index ∉ dropped →
    sweeping.heap.slot? index = heap.slot? index
  keptSlots : ∀ index ∈ kept, ∃ slot next,
    heap.slot? index = some slot ∧ slot.marked = true ∧
      sweeping.heap.slot? index = some { slot with marked := false, next }
  droppedSlots : ∀ index ∈ dropped, ∃ slot,
    heap.slot? index = some slot ∧ slot.marked = false ∧
      sweeping.heap.slot? index = some (release slot)

theorem Sweeping.invariant_start (layout : Layout heap live) :
    Invariant heap [] [] live ⟨heap, 0, heap.head, []⟩ where
  behind := Chain.nil
  ahead := layout.chain
  previous := rfl
  distinct := layout.nodup
  size := rfl
  figures := rfl
  free := rfl
  freed := rfl
  untouched := fun _ _ _ => rfl
  keptSlots := by
    intro index member
    cases member
  droppedSlots := by
    intro index member
    cases member

/-- The slot that is looked at next was not looked at before. -/
theorem Sweeping.Invariant.fresh
    (invariant : Invariant heap kept dropped (index :: rest) sweeping) :
    index ∉ kept ∧ index ∉ dropped := by
  have distinct := List.disjoint_of_nodup_append invariant.distinct
  constructor
  · intro member
    exact distinct (List.mem_append_left _ member) List.mem_cons_self
  · intro member
    exact distinct (List.mem_append_right _ member) List.mem_cons_self

theorem Sweeping.Invariant.keep {current : Heap} {previous : UInt32} {freed : List Freed}
    {slot : Slot}
    (invariant : Invariant heap kept dropped (index :: rest) ⟨current, previous, index, freed⟩)
    (found : heap.slot? index = some slot) (marked : slot.marked = true) :
    Invariant heap (kept ++ [index]) dropped rest
      ⟨{ current with
          slots := current.slots.modify (index.toNat - 1) fun slot =>
            { slot with marked := false } },
        index, slot.next, freed⟩ := by
  have positive := ne_zero_of_slotIn found
  obtain ⟨notKept, notDropped⟩ := invariant.fresh
  have currentFound : current.slot? index = some slot :=
    (invariant.untouched index notKept notDropped).trans found
  obtain ⟨_, shape, shapeFound, ahead⟩ := invariant.ahead.of_cons
  have shapeEq : shape = shapeOf slot := by
    simp only [shape?, found, Option.map_some, Option.some.injEq] at shapeFound
    exact shapeFound.symm
  let after : Heap :=
    { current with
      slots := current.slots.modify (index.toNat - 1) fun slot => { slot with marked := false } }
  have slots : ∀ other, after.slot? other =
      if other = index then (current.slot? other).map fun slot => { slot with marked := false }
      else current.slot? other :=
    slotIn_modify current.slots positive _
  have shapes : after.shape? = current.shape? := by
    have changed : after.slots = current.slots.modify (index.toNat - 1) fun slot =>
        { slot with marked := false } := rfl
    exact shape?_modify changed fun _ => rfl
  constructor
  case behind =>
    have extended := invariant.behind.snoc
      (show current.shape? index = some (shapeOf slot) by simp [shape?, currentFound])
    change Chain after.shape? current.head (kept ++ [index]) slot.next
    rw [shapes]
    exact extended
  case ahead =>
    rw [shapeEq] at ahead
    exact ahead
  case previous => simp [lastSlot]
  case distinct =>
    refine (List.Perm.nodup_iff ?_).1 invariant.distinct
    simp only [List.append_assoc, List.singleton_append]
    exact List.Perm.append_left kept List.perm_middle
  case size => exact (Array.size_modify).trans invariant.size
  case figures => exact invariant.figures
  case free => exact invariant.free
  case freed => exact invariant.freed
  case untouched =>
    intro other otherKept otherDropped
    have different : other ≠ index := by
      rintro rfl
      exact otherKept (List.mem_append_right _ List.mem_cons_self)
    have inFront : other ∉ kept := fun member => otherKept (List.mem_append_left _ member)
    exact ((slots other).trans (if_neg different)).trans
      (invariant.untouched other inFront otherDropped)
  case keptSlots =>
    intro other member
    rcases List.mem_append.1 member with before | last
    · have different : other ≠ index := by
        rintro rfl
        exact notKept before
      obtain ⟨original, next, originalFound, isMarked, now⟩ := invariant.keptSlots other before
      exact ⟨original, next, originalFound, isMarked,
        ((slots other).trans (if_neg different)).trans now⟩
    · obtain rfl := List.mem_singleton.1 last
      refine ⟨slot, slot.next, found, marked, ?_⟩
      refine (slots other).trans ?_
      simp [currentFound]
  case droppedSlots =>
    intro other member
    have different : other ≠ index := by
      rintro rfl
      exact notDropped member
    obtain ⟨original, originalFound, isUnmarked, now⟩ := invariant.droppedSlots other member
    exact ⟨original, originalFound, isUnmarked,
      ((slots other).trans (if_neg different)).trans now⟩

theorem Sweeping.Invariant.drop {current : Heap} {previous : UInt32} {freed : List Freed}
    {slot : Slot}
    (invariant : Invariant heap kept dropped (index :: rest) ⟨current, previous, index, freed⟩)
    (found : heap.slot? index = some slot) (unmarked : slot.marked = false) :
    Invariant heap kept (index :: dropped) rest
      ⟨{ current.link previous slot.next with
          slots := (current.link previous slot.next).slots.modify (index.toNat - 1) release
          free := index :: (current.link previous slot.next).free },
        previous, slot.next, (slot.object.map (Freed.mk index)).toList ++ freed⟩ := by
  have positive := ne_zero_of_slotIn found
  obtain ⟨notKept, notDropped⟩ := invariant.fresh
  obtain ⟨_, shape, shapeFound, ahead⟩ := invariant.ahead.of_cons
  have shapeEq : shape = shapeOf slot := by
    simp only [shape?, found, Option.map_some, Option.some.injEq] at shapeFound
    exact shapeFound.symm
  let linked := current.link previous slot.next
  have slots : ∀ other, slotIn (linked.slots.modify (index.toNat - 1) release) other =
      if other = index then (linked.slot? other).map release else linked.slot? other :=
    slotIn_modify linked.slots positive release
  have outside : ∀ other, other ∉ kept → linked.slot? other = current.slot? other := by
    intro other otherKept
    refine (link_slot? current previous slot.next other).trans (if_neg ?_)
    rintro ⟨notZero, rfl⟩
    rw [show other = lastSlot kept from invariant.previous] at otherKept notZero
    rcases List.eq_nil_or_concat kept with rfl | ⟨front, last, rfl⟩
    · exact notZero rfl
    · exact otherKept (by simp [lastSlot])
  constructor
  case behind =>
    have nodup : kept.Nodup := (List.nodup_append.1 (List.nodup_append.1 invariant.distinct).1).1
    have skipped : Chain linked.shape? linked.head kept slot.next := by
      have chain := invariant.behind.link nodup slot.next
      rw [← show previous = lastSlot kept from invariant.previous] at chain
      exact chain
    refine skipped.congr ?_
    intro other member
    have different : other ≠ index := by
      rintro rfl
      exact notKept member
    exact congrArg (Option.map shapeOf) ((slots other).trans (if_neg different))
  case ahead =>
    rw [shapeEq] at ahead
    exact ahead
  case previous => exact invariant.previous
  case distinct =>
    refine (List.Perm.nodup_iff ?_).1 invariant.distinct
    simp only [List.append_assoc, List.cons_append]
    exact List.Perm.append_left kept List.perm_middle
  case size =>
    exact (Array.size_modify).trans ((link_size current previous slot.next).trans invariant.size)
  case figures =>
    exact (link_figures current previous slot.next heap.slots heap.head heap.free).trans
      invariant.figures
  case free =>
    exact congrArg (index :: ·) ((link_free current previous slot.next).trans invariant.free)
  case freed =>
    have before : freed = dropped.filterMap _ := invariant.freed
    simp only [before, List.filterMap_cons, object?, found, Option.bind_some]
    cases slot.object with
    | none => rfl
    | some object => rfl
  case untouched =>
    intro other otherKept otherDropped
    have different : other ≠ index := by
      rintro rfl
      exact otherDropped List.mem_cons_self
    have notBefore : other ∉ dropped :=
      fun member => otherDropped (List.mem_cons_of_mem index member)
    exact ((slots other).trans (if_neg different)).trans
      ((outside other otherKept).trans (invariant.untouched other otherKept notBefore))
  case keptSlots =>
    intro other member
    have different : other ≠ index := by
      rintro rfl
      exact notKept member
    obtain ⟨original, next, originalFound, isMarked, now⟩ := invariant.keptSlots other member
    have linkedSlot := link_slot? current previous slot.next other
    by_cases last : previous ≠ 0 ∧ other = previous
    · refine ⟨original, slot.next, originalFound, isMarked, ?_⟩
      refine ((slots other).trans (if_neg different)).trans (linkedSlot.trans ?_)
      rw [if_pos last, now]
      rfl
    · refine ⟨original, next, originalFound, isMarked, ?_⟩
      refine ((slots other).trans (if_neg different)).trans (linkedSlot.trans ?_)
      rw [if_neg last, now]
  case droppedSlots =>
    intro other member
    rcases List.mem_cons.1 member with rfl | before
    · refine ⟨slot, found, unmarked, ?_⟩
      refine (slots other).trans ?_
      rw [if_pos rfl, outside other notKept, invariant.untouched other notKept notDropped, found]
      rfl
    · have different : other ≠ index := by
        rintro rfl
        exact notDropped before
      have otherKept : other ∉ kept := by
        intro inKept
        have distinct := List.nodup_append.1 (List.nodup_append.1 invariant.distinct).1
        exact distinct.2.2 other inKept other before rfl
      obtain ⟨original, originalFound, isUnmarked, now⟩ := invariant.droppedSlots other before
      exact ⟨original, originalFound, isUnmarked,
        ((slots other).trans (if_neg different)).trans ((outside other otherKept).trans now)⟩

/-- Looking at a slot moves it from the list ahead to the slots kept or to those taken out. -/
theorem Sweeping.Invariant.step (invariant : Invariant heap kept dropped (index :: rest) sweeping) :
    ∃ nowKept nowDropped,
      Invariant heap nowKept nowDropped rest sweeping.step ∧
        (nowKept ++ nowDropped).Perm (kept ++ dropped ++ [index]) := by
  obtain ⟨current, previous, start, freed⟩ := sweeping
  obtain ⟨atIndex, shape, shapeFound, _⟩ := invariant.ahead.of_cons
  have startsHere : start = index := atIndex
  subst startsHere
  obtain ⟨slot, found, _⟩ := shape?_eq_some.1 shapeFound
  obtain ⟨notKept, notDropped⟩ := invariant.fresh
  have currentFound : current.slot? start = some slot :=
    (invariant.untouched start notKept notDropped).trans found
  simp only [Sweeping.step, currentFound]
  by_cases marked : slot.marked = true
  · rw [if_pos marked]
    refine ⟨_, _, invariant.keep found marked, ?_⟩
    simp only [List.append_assoc]
    exact List.Perm.append_left kept List.perm_append_comm
  · rw [if_neg marked]
    refine ⟨_, _, invariant.drop found (Bool.eq_false_iff.2 marked), ?_⟩
    simp only [List.append_assoc]
    exact List.Perm.append_left kept (List.perm_append_singleton start dropped).symm

/-- Sweeping that may look at as many slots as are ahead leaves none. -/
theorem Sweeping.Invariant.run (invariant : Invariant heap kept dropped rest sweeping) {count : Nat}
    (enough : rest.length ≤ count) :
    ∃ nowKept nowDropped,
      Invariant heap nowKept nowDropped [] (sweeping.run count) ∧
        (nowKept ++ nowDropped).Perm (kept ++ dropped ++ rest) := by
  induction rest generalizing kept dropped sweeping count with
  | nil =>
    have atEnd : sweeping.index = 0 := invariant.ahead.eq_of_nil
    have stays : sweeping.run count = sweeping := by
      cases count with
      | zero => rfl
      | succ count => simp [Sweeping.run, atEnd]
    rw [stays]
    exact ⟨kept, dropped, invariant, by simp⟩
  | cons index rest ih =>
    cases count with
    | zero => simp at enough
    | succ count =>
      obtain ⟨startsHere, shape, found, _⟩ := invariant.ahead.of_cons
      obtain ⟨slot, slotFound, _⟩ := shape?_eq_some.1 found
      have notAtEnd : ¬ (sweeping.index == 0) = true := by
        rw [startsHere, beq_iff_eq]
        exact ne_zero_of_slotIn slotFound
      have shorter : rest.length ≤ count := by simpa using enough
      obtain ⟨nextKept, nextDropped, next, moved⟩ := invariant.step
      obtain ⟨nowKept, nowDropped, done, all⟩ := ih next shorter
      rw [Sweeping.run, if_neg notAtEnd]
      refine ⟨nowKept, nowDropped, done, all.trans ?_⟩
      simpa using List.Perm.append_right rest moved

/-! ## The result -/

/-- How sweeping divides the slots in use, and what it leaves of them. -/
structure Swept (heap : Heap) (kept dropped : List UInt32) : Prop where
  done : Sweeping.Invariant heap kept dropped [] heap.sweeping
  all : (kept ++ dropped).Perm heap.live

theorem exists_swept (layout : Layout heap live) : ∃ kept dropped, Swept heap kept dropped := by
  obtain ⟨kept, dropped, done, all⟩ := (Sweeping.invariant_start layout).run layout.length_le
  refine ⟨kept, dropped, done, ?_⟩
  rw [layout.live_eq]
  simpa using all

theorem Swept.atEnd (swept : Swept heap kept dropped) : heap.sweeping.index = 0 :=
  swept.done.ahead.eq_of_nil

theorem sweep_slot? (heap : Heap) (index : UInt32) :
    heap.sweep.1.slot? index = heap.sweeping.heap.slot? index := rfl

theorem sweep_freed (heap : Heap) : heap.sweep.2 = heap.sweeping.freed.reverse := rfl

section Result

variable {heap : Heap} {kept dropped : List UInt32}
variable {index : UInt32}

theorem Swept.mem_live (swept : Swept heap kept dropped) (index : UInt32) :
    index ∈ heap.live ↔ index ∈ kept ∨ index ∈ dropped := by
  rw [← swept.all.mem_iff, List.mem_append]

theorem Swept.nodup (swept : Swept heap kept dropped) : (kept ++ dropped).Nodup := by
  simpa using swept.done.distinct

theorem Swept.notDropped (swept : Swept heap kept dropped) (member : index ∈ kept) :
    index ∉ dropped :=
  fun other => (List.nodup_append.1 swept.nodup).2.2 index member index other rfl

theorem Swept.mem_kept (swept : Swept heap kept dropped) (inUse : index ∈ heap.live) :
    index ∈ kept ↔ Marked heap index := by
  constructor
  · intro member
    obtain ⟨slot, _, found, marked, _⟩ := swept.done.keptSlots index member
    exact ⟨slot, found, marked⟩
  · rintro ⟨slot, found, marked⟩
    rcases (swept.mem_live index).1 inUse with member | member
    · exact member
    · obtain ⟨other, otherFound, unmarked, _⟩ := swept.done.droppedSlots index member
      rw [found] at otherFound
      cases otherFound
      rw [marked] at unmarked
      cases unmarked

theorem Swept.shape? (swept : Swept heap kept dropped) {shape : Shape}
    (found : heap.sweep.1.shape? index = some shape) :
    ∃ before, heap.shape? index = some before ∧
      (index ∈ kept ∧ shape.generation = before.generation ∧ shape.used = before.used ∨
        index ∈ dropped ∧
          shape.generation = (before.generation + 1) &&& Handle.generationMask ∧
          shape.used = false ∨
        index ∉ kept ∧ index ∉ dropped ∧ shape = before) := by
  obtain ⟨slot, slotFound, rfl⟩ := shape?_eq_some.1 found
  rw [sweep_slot?] at slotFound
  by_cases inKept : index ∈ kept
  · obtain ⟨original, next, originalFound, _, now⟩ := swept.done.keptSlots index inKept
    rw [slotFound] at now
    cases now
    exact ⟨shapeOf original, shape?_eq_some.2 ⟨original, originalFound, rfl⟩,
      Or.inl ⟨inKept, rfl, rfl⟩⟩
  · by_cases inDropped : index ∈ dropped
    · obtain ⟨original, originalFound, _, now⟩ := swept.done.droppedSlots index inDropped
      rw [slotFound] at now
      cases now
      exact ⟨shapeOf original, shape?_eq_some.2 ⟨original, originalFound, rfl⟩,
        Or.inr (Or.inl ⟨inDropped, rfl, rfl⟩)⟩
    · rw [swept.done.untouched index inKept inDropped] at slotFound
      exact ⟨shapeOf slot, shape?_eq_some.2 ⟨slot, slotFound, rfl⟩,
        Or.inr (Or.inr ⟨inKept, inDropped, rfl⟩)⟩

theorem Swept.sizes (swept : Swept heap kept dropped) : heap.sweep.1.slots.size = heap.slots.size :=
  swept.done.size

theorem Swept.layout (swept : Swept heap kept dropped) (layout : Layout heap heap.live) :
    Layout heap.sweep.1 kept where
  chain := by
    have chain := swept.done.behind
    rw [swept.atEnd] at chain
    exact chain
  nodup := (List.nodup_append.1 swept.nodup).1
  inUse := by
    intro index
    constructor
    · intro member
      obtain ⟨slot, next, found, _, now⟩ := swept.done.keptSlots index member
      obtain ⟨shape, shapeFound, used⟩ :=
        (layout.inUse index).1 ((swept.mem_live index).2 (Or.inl member))
      simp only [Heap.shape?, found, Option.map_some, Option.some.injEq] at shapeFound
      subst shapeFound
      exact ⟨_, shape?_eq_some.2 ⟨_, now, rfl⟩, used⟩
    · rintro ⟨shape, found, used⟩
      obtain ⟨before, beforeFound, cases⟩ := swept.shape? found
      rcases cases with ⟨member, _⟩ | ⟨_, _, unused⟩ | ⟨notKept, notDropped, rfl⟩
      · exact member
      · rw [unused] at used
        cases used
      · have inUse := (layout.inUse index).2 ⟨shape, beforeFound, used⟩
        rcases (swept.mem_live index).1 inUse with member | member
        · exact member
        · exact absurd member notDropped
  freeNodup := by
    change heap.sweeping.heap.free.Nodup
    rw [swept.done.free, List.nodup_append]
    refine ⟨(List.nodup_append.1 swept.nodup).2.1, layout.freeNodup, ?_⟩
    rintro index member _ free rfl
    obtain ⟨shape, found, used⟩ :=
      (layout.inUse index).1 ((swept.mem_live index).2 (Or.inr member))
    obtain ⟨other, otherFound, unused⟩ := (layout.notInUse index).1 free
    rw [found] at otherFound
    cases otherFound
    rw [used] at unused
    cases unused
  notInUse := by
    intro index
    change index ∈ heap.sweeping.heap.free ↔ _
    rw [swept.done.free, List.mem_append]
    constructor
    · rintro (member | free)
      · obtain ⟨slot, _, _, now⟩ := swept.done.droppedSlots index member
        exact ⟨_, shape?_eq_some.2 ⟨_, now, rfl⟩, rfl⟩
      · obtain ⟨shape, found, unused⟩ := (layout.notInUse index).1 free
        have notLive : index ∉ heap.live := by
          intro member
          obtain ⟨other, otherFound, used⟩ := (layout.inUse index).1 member
          rw [found] at otherFound
          cases otherFound
          rw [used] at unused
          cases unused
        rw [swept.mem_live, not_or] at notLive
        obtain ⟨slot, slotFound, rfl⟩ := shape?_eq_some.1 found
        have now := (swept.done.untouched index notLive.1 notLive.2).trans slotFound
        exact ⟨_, shape?_eq_some.2 ⟨slot, now, rfl⟩, unused⟩
    · rintro ⟨shape, found, unused⟩
      obtain ⟨before, beforeFound, cases⟩ := swept.shape? found
      rcases cases with ⟨member, _, sameUse⟩ | ⟨member, _⟩ | ⟨_, _, rfl⟩
      · obtain ⟨other, otherFound, used⟩ :=
          (layout.inUse index).1 ((swept.mem_live index).2 (Or.inl member))
        rw [beforeFound] at otherFound
        cases otherFound
        rw [sameUse, used] at unused
        cases unused
      · exact Or.inl member
      · exact Or.inr ((layout.notInUse index).2 ⟨shape, beforeFound, unused⟩)
  generation := by
    intro index shape found
    obtain ⟨before, beforeFound, cases⟩ := swept.shape? found
    rcases cases with ⟨_, same, _⟩ | ⟨_, increased, _⟩ | ⟨_, _, rfl⟩
    · rw [same]
      exact layout.generation index before beforeFound
    · rw [increased, UInt32.and_assoc, UInt32.and_self]
    · exact layout.generation index shape beforeFound
  small := by
    rw [swept.sizes]
    exact layout.small

/-- Sweeping leaves no mark, unless on a slot that was not in use. -/
theorem Swept.unmarked (swept : Swept heap kept dropped)
    (onlyUsed : ∀ index, Marked heap index → index ∈ heap.live) : Unmarked heap.sweep.1 := by
  intro index slot found
  rw [sweep_slot?] at found
  by_cases inKept : index ∈ kept
  · obtain ⟨_, _, _, _, now⟩ := swept.done.keptSlots index inKept
    rw [found] at now
    cases now
    rfl
  · by_cases inDropped : index ∈ dropped
    · obtain ⟨_, _, _, now⟩ := swept.done.droppedSlots index inDropped
      rw [found] at now
      cases now
      rfl
    · rw [swept.done.untouched index inKept inDropped] at found
      refine Bool.eq_false_iff.2 fun marked => ?_
      rcases (swept.mem_live index).1 (onlyUsed index ⟨slot, found, marked⟩) with member | member
      · exact inKept member
      · exact inDropped member

/-- Sweeping keeps the objects of the slots it keeps, and no other. -/
theorem Swept.lookup? (swept : Swept heap kept dropped) (layout : Layout heap heap.live)
    (handle : Handle) (object : Object) :
    heap.sweep.1.lookup? handle = some object ↔
      heap.lookup? handle = some object ∧ Marked heap handle.index := by
  simp only [lookup?_eq_some]
  constructor
  · rintro ⟨slot, found, generation, objectFound⟩
    have inUse : handle.index ∈ kept := by
      refine ((swept.layout layout).inUse _).2 ⟨_, shape?_eq_some.2 ⟨slot, found, rfl⟩, ?_⟩
      simp [shapeOf, objectFound]
    obtain ⟨original, next, originalFound, marked, now⟩ :=
      swept.done.keptSlots handle.index inUse
    rw [sweep_slot?, now] at found
    cases found
    exact ⟨⟨original, originalFound, generation, objectFound⟩, original, originalFound, marked⟩
  · rintro ⟨⟨slot, found, generation, objectFound⟩, marked⟩
    have inUse : handle.index ∈ heap.live := by
      refine (layout.inUse _).2 ⟨_, shape?_eq_some.2 ⟨slot, found, rfl⟩, ?_⟩
      simp [shapeOf, objectFound]
    obtain ⟨original, next, originalFound, _, now⟩ :=
      swept.done.keptSlots handle.index ((swept.mem_kept inUse).2 marked)
    rw [found] at originalFound
    cases originalFound
    exact ⟨_, now, generation, objectFound⟩

end Result

end WordMachine.Heap
