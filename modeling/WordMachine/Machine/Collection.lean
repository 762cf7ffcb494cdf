import WordMachine.Machine.Heap

/-!
Collection: objects that no root reaches are freed. Marking follows the references of every object
it reaches; sweeping walks the list of slots in use, newest object first, and takes out the slots
that were not marked.
-/

namespace WordMachine.Heap

/-! ## Marking -/

def reached? (heap : Heap) (word : Word) : Option (Slot × Object) :=
  if !word.isRef || word.isNull then none
  else
    match heap.slot? word.toHandle.index with
    | some slot =>
      if slot.generation == word.toHandle.generation then
        slot.object.map fun object => (slot, object)
      else none
    | none => none

def setMark (heap : Heap) (index : UInt32) : Heap :=
  { heap with
    slots := heap.slots.modify (index.toNat - 1) fun slot => { slot with marked := true } }

/-- A heap with the marks made so far and the words still to be followed. -/
structure Marking where
  heap : Heap
  pending : List Word

namespace Marking

def step : Marking → Marking
  | ⟨heap, []⟩ => ⟨heap, []⟩
  | ⟨heap, word :: rest⟩ =>
    match heap.reached? word with
    | none => ⟨heap, rest⟩
    | some (slot, object) =>
      if slot.marked then ⟨heap, rest⟩
      else ⟨heap.setMark word.toHandle.index, object.payload.references ++ rest⟩

/-- Follows words until none is left, at most as many as given. -/
def run : Nat → Marking → Marking
  | 0, marking => marking
  | _ + 1, ⟨heap, []⟩ => ⟨heap, []⟩
  | count + 1, ⟨heap, word :: rest⟩ => run count (step ⟨heap, word :: rest⟩)

end Marking

def referenceCount (heap : Heap) : Nat :=
  heap.slots.foldl
    (fun count slot => match slot.object with
      | some object => count + object.payload.references.length
      | none => count)
    0

/-- Follows everything the roots reach. The references of an object are followed once, when it is
marked, so there are no more words to follow than roots and references. -/
def marking (heap : Heap) (roots : List Word) : Marking :=
  Marking.run (roots.length + heap.referenceCount) ⟨heap, roots⟩

def mark (heap : Heap) (roots : List Word) : Heap :=
  (heap.marking roots).heap

/-! ## Sweeping -/

structure Freed where
  index : UInt32
  object : Object

def release (slot : Slot) : Slot where
  generation := (slot.generation + 1) &&& Handle.generationMask
  object := none

/-- Makes a slot the successor of another in the list; slot zero stands for the list's start. -/
def link (heap : Heap) (index next : UInt32) : Heap :=
  if index == 0 then { heap with head := next }
  else
    { heap with
      slots := heap.slots.modify (index.toNat - 1) fun slot => { slot with next } }

/-- A heap swept up to a slot. -/
structure Sweeping where
  heap : Heap
  /-- The last slot kept; zero if there is none. -/
  previous : UInt32
  /-- The slot to look at next; zero at the end of the list. -/
  index : UInt32
  /-- The objects freed so far, last one first. -/
  freed : List Freed

namespace Sweeping

/-- Looks at one slot: clears its mark, or takes it out of the list. -/
def step : Sweeping → Sweeping
  | ⟨heap, previous, index, freed⟩ =>
    match heap.slot? index with
    | none => ⟨heap, previous, index, freed⟩
    | some slot =>
      if slot.marked then
        ⟨{ heap with
            slots := heap.slots.modify (index.toNat - 1) fun slot =>
              { slot with marked := false } },
          index, slot.next, freed⟩
      else
        let heap := heap.link previous slot.next
        ⟨{ heap with
            slots := heap.slots.modify (index.toNat - 1) release
            free := index :: heap.free },
          previous, slot.next, (slot.object.map (Freed.mk index)).toList ++ freed⟩

/-- Looks at slots until the end of the list, at most at as many as given. -/
def run : Nat → Sweeping → Sweeping
  | 0, sweeping => sweeping
  | count + 1, sweeping =>
    if sweeping.index == 0 then sweeping else run count sweeping.step

end Sweeping

/-- Walks the list of slots in use. No slot is in it twice. -/
def sweeping (heap : Heap) : Sweeping :=
  Sweeping.run heap.slots.size ⟨heap, 0, heap.head, []⟩

/-- Frees the objects that are not marked and clears the other marks. -/
def sweep (heap : Heap) : Heap × List Freed :=
  let done := heap.sweeping
  let freed := done.freed.reverse
  ({ done.heap with
      count := done.heap.count - freed.length
      bytes := freed.foldl (fun bytes entry => bytes - entry.object.size) done.heap.bytes },
    freed)

/-- Frees every object the roots do not reach and starts a new interval. -/
def collect (heap : Heap) (roots : List Word) : Heap × List Freed :=
  let (heap, freed) := (heap.mark roots).sweep
  ({ heap with left := heap.interval }, freed)

def freedStreams (freed : List Freed) : List Stream :=
  freed.filterMap fun entry =>
    match entry.object.payload with
    | .stream stream => some stream
    | _ => none

end WordMachine.Heap
