import WordMachine.Proofs.Words
import WordMachine.Machine.Collection
import Mathlib

/-!
The layout of a heap: the slots in use form one list without repetitions, the other slots wait to
be used again, and the counts agree with the objects. Every operation of the heap keeps it.
-/

namespace WordMachine

/-! ## Slots by number -/

def slotIn (slots : Array Slot) (index : UInt32) : Option Slot :=
  if index == 0 then none else slots[index.toNat - 1]?

namespace Heap

variable {heap : Heap} {index : UInt32} {live : List UInt32} {slots : Array Slot}

theorem slot?_eq_slotIn (heap : Heap) (index : UInt32) :
    heap.slot? index = slotIn heap.slots index := rfl

theorem position_inj {left right : UInt32} (leftPositive : left ≠ 0) (rightPositive : right ≠ 0) :
    left.toNat - 1 = right.toNat - 1 ↔ left = right := by
  have leftPos : left.toNat ≠ 0 := fun zero => leftPositive (UInt32.toNat_inj.1 zero)
  have rightPos : right.toNat ≠ 0 := fun zero => rightPositive (UInt32.toNat_inj.1 zero)
  constructor
  · intro equality
    exact UInt32.toNat_inj.1 (by omega)
  · rintro rfl
    rfl

theorem slotIn_of_ne_zero (slots : Array Slot) (positive : index ≠ 0) :
    slotIn slots index = slots[index.toNat - 1]? := by
  simp [slotIn, positive]

theorem ne_zero_of_slotIn {slot : Slot} (found : slotIn slots index = some slot) : index ≠ 0 := by
  rintro rfl
  simp [slotIn] at found

theorem slotIn_modify (slots : Array Slot) (positive : index ≠ 0) (change : Slot → Slot)
    (other : UInt32) :
    slotIn (slots.modify (index.toNat - 1) change) other =
      if other = index then (slotIn slots other).map change else slotIn slots other := by
  by_cases zero : other = 0
  · subst zero
    simp [slotIn]
  · rw [slotIn_of_ne_zero _ zero, slotIn_of_ne_zero _ zero, Array.getElem?_modify]
    by_cases equal : other = index
    · simp [equal]
    · have different : ¬ index.toNat - 1 = other.toNat - 1 :=
        fun same => equal ((position_inj positive zero).1 same).symm
      simp [equal, different]

theorem slotIn_setIfInBounds (slots : Array Slot) (positive : index ≠ 0) (slot : Slot)
    (other : UInt32) :
    slotIn (slots.setIfInBounds (index.toNat - 1) slot) other =
      if other = index then (slotIn slots other).map fun _ => slot else slotIn slots other := by
  by_cases zero : other = 0
  · subst zero
    simp [slotIn]
  · rw [slotIn_of_ne_zero _ zero, slotIn_of_ne_zero _ zero, Array.getElem?_setIfInBounds]
    by_cases equal : other = index
    · subst equal
      by_cases bound : other.toNat - 1 < slots.size
      · simp [bound]
      · simp [bound]
    · have different : ¬ index.toNat - 1 = other.toNat - 1 :=
        fun same => equal ((position_inj positive zero).1 same).symm
      simp [equal, different]

theorem slotIn_push (slots : Array Slot) (small : slots.size + 1 < 2 ^ 32) (slot : Slot)
    (other : UInt32) :
    slotIn (slots.push slot) other =
      if other = UInt32.ofNat (slots.size + 1) then some slot else slotIn slots other := by
  have number : (UInt32.ofNat (slots.size + 1)).toNat = slots.size + 1 :=
    UInt32.toNat_ofNat_of_lt small
  by_cases zero : other = 0
  · subst zero
    have different : ¬ (0 : UInt32) = UInt32.ofNat (slots.size + 1) := by
      intro same
      have sameNumber := congrArg UInt32.toNat same
      rw [number] at sameNumber
      simp at sameNumber
    rw [if_neg different]
    rfl
  · have positive : other.toNat ≠ 0 := fun same => zero (UInt32.toNat_inj.1 same)
    rw [slotIn_of_ne_zero _ zero, slotIn_of_ne_zero _ zero, Array.getElem?_push]
    by_cases equal : other = UInt32.ofNat (slots.size + 1)
    · have last : other.toNat - 1 = slots.size := by
        rw [equal, number]
        omega
      rw [if_pos equal, if_pos last]
    · have different : ¬ other.toNat - 1 = slots.size := by
        intro same
        apply equal
        apply UInt32.toNat_inj.1
        rw [number]
        omega
      rw [if_neg equal, if_neg different]

theorem slotIn_size (small : slots.size < 2 ^ 32) :
    slotIn slots (UInt32.ofNat (slots.size + 1)) = none := by
  by_cases zero : UInt32.ofNat (slots.size + 1) = 0
  · rw [zero]
    rfl
  · rw [slotIn_of_ne_zero _ zero]
    have number : (UInt32.ofNat (slots.size + 1)).toNat = (slots.size + 1) % 2 ^ 32 := by simp
    have positive : (UInt32.ofNat (slots.size + 1)).toNat ≠ 0 :=
      fun same => zero (UInt32.toNat_inj.1 same)
    apply Array.getElem?_eq_none
    omega

theorem slotIn_lt_size {slot : Slot} (found : slotIn slots index = some slot) :
    index.toNat - 1 < slots.size ∧ index ≠ 0 := by
  have positive := ne_zero_of_slotIn found
  rw [slotIn_of_ne_zero _ positive] at found
  exact ⟨(Array.getElem?_eq_some_iff.1 found).1, positive⟩

/-! ## Looking up -/

def object? (heap : Heap) (index : UInt32) : Option Object :=
  (heap.slot? index).bind Slot.object

theorem lookup?_eq_some {handle : Handle} {object : Object} :
    heap.lookup? handle = some object ↔
      ∃ slot, heap.slot? handle.index = some slot ∧
        slot.generation = handle.generation ∧ slot.object = some object := by
  unfold lookup?
  cases heap.slot? handle.index with
  | none => simp
  | some slot => simp

/-! ## The list of slots in use -/

/-- What the layout of a heap depends on in a slot. -/
structure Shape where
  generation : UInt32
  next : UInt32
  used : Bool

def shapeOf (slot : Slot) : Shape :=
  ⟨slot.generation, slot.next, slot.object.isSome⟩

def shape? (heap : Heap) (index : UInt32) : Option Shape :=
  (heap.slot? index).map shapeOf

/-- The slots met when following successors from a slot up to another. -/
inductive Chain (shape? : UInt32 → Option Shape) : UInt32 → List UInt32 → UInt32 → Prop
  | nil {stop : UInt32} : Chain shape? stop [] stop
  | cons {index stop : UInt32} {shape : Shape} {rest : List UInt32} :
      shape? index = some shape →
      Chain shape? shape.next rest stop →
      Chain shape? index (index :: rest) stop

/-- The slots in use form a list, and all others wait to be used again. -/
structure Layout (heap : Heap) (live : List UInt32) : Prop where
  chain : Chain heap.shape? heap.head live 0
  nodup : live.Nodup
  inUse : ∀ index,
    index ∈ live ↔ ∃ shape, heap.shape? index = some shape ∧ shape.used = true
  freeNodup : heap.free.Nodup
  notInUse : ∀ index,
    index ∈ heap.free ↔ ∃ shape, heap.shape? index = some shape ∧ shape.used = false
  generation : ∀ index shape,
    heap.shape? index = some shape →
    shape.generation &&& Handle.generationMask = shape.generation
  small : heap.slots.size < 2 ^ 32

theorem Layout.of_shape?_eq {changed : Heap} (layout : Layout heap live)
    (shapes : changed.shape? = heap.shape?) (head : changed.head = heap.head)
    (free : changed.free = heap.free) (size : changed.slots.size = heap.slots.size) :
    Layout changed live where
  chain := by
    rw [shapes, head]
    exact layout.chain
  nodup := layout.nodup
  inUse := by
    rw [shapes]
    exact layout.inUse
  freeNodup := by
    rw [free]
    exact layout.freeNodup
  notInUse := by
    rw [shapes, free]
    exact layout.notInUse
  generation := by
    rw [shapes]
    exact layout.generation
  small := by
    rw [size]
    exact layout.small

/-- Following the list does not depend on the slots outside it. -/
theorem Chain.congr {before after : UInt32 → Option Shape} {start stop : UInt32}
    (chain : Chain before start live stop) (same : ∀ index ∈ live, after index = before index) :
    Chain after start live stop := by
  induction chain with
  | nil => exact Chain.nil
  | @cons index stop shape rest found _ ih =>
    refine Chain.cons ((same index List.mem_cons_self).trans found) ?_
    exact ih fun other member =>
      same other (List.mem_cons_of_mem index member)

theorem shape?_eq_some {shape : Shape} :
    heap.shape? index = some shape ↔
      ∃ slot, heap.slot? index = some slot ∧ shapeOf slot = shape := by
  simp [shape?]

theorem Chain.chain_eq {start stop : UInt32} (chain : Chain heap.shape? start live stop)
    (atEnd : stop = 0) {fuel : Nat} (enough : live.length ≤ fuel) :
    heap.chain fuel start = live := by
  induction chain generalizing fuel with
  | nil =>
    subst atEnd
    cases fuel with
    | zero => rfl
    | succ fuel => rfl
  | @cons index stop shape rest found _ ih =>
    cases fuel with
    | zero => simp at enough
    | succ fuel =>
      obtain ⟨slot, slotFound, rfl⟩ := shape?_eq_some.1 found
      have shorter : rest.length ≤ fuel := by simpa using enough
      have tail := ih atEnd shorter
      simp only [Heap.chain, slotFound]
      exact congrArg (index :: ·) tail

theorem Layout.length_le (layout : Layout heap live) : live.length ≤ heap.slots.size := by
  have positions : (live.map fun index => index.toNat - 1).Nodup := by
    refine List.Nodup.map_on ?_ layout.nodup
    intro left leftMember right rightMember same
    obtain ⟨leftShape, leftFound, _⟩ := (layout.inUse left).1 leftMember
    obtain ⟨rightShape, rightFound, _⟩ := (layout.inUse right).1 rightMember
    obtain ⟨_, leftSlot, _⟩ := shape?_eq_some.1 leftFound
    obtain ⟨_, rightSlot, _⟩ := shape?_eq_some.1 rightFound
    exact (position_inj (ne_zero_of_slotIn leftSlot) (ne_zero_of_slotIn rightSlot)).1 same
  have bounded : (live.map fun index => index.toNat - 1) ⊆ List.range heap.slots.size := by
    intro position member
    obtain ⟨index, indexMember, rfl⟩ := List.mem_map.1 member
    obtain ⟨shape, found, _⟩ := (layout.inUse index).1 indexMember
    obtain ⟨_, slot, _⟩ := shape?_eq_some.1 found
    exact List.mem_range.2 (slotIn_lt_size slot).1
  simpa using (positions.subperm bounded).length_le

/-- The list found by following the successors is the list of the layout. -/
theorem Layout.live_eq (layout : Layout heap live) : heap.live = live :=
  layout.chain.chain_eq rfl layout.length_le

/-! ## Accounting -/

/-- The accounted size of the object in a slot. -/
def sizeAt (heap : Heap) (index : UInt32) : Nat :=
  (heap.object? index).elim 0 Object.size

structure Accounted (heap : Heap) (live : List UInt32) : Prop where
  count : heap.count = live.length
  bytes : heap.bytes = ((live.map heap.sizeAt).sum : Nat)
  strings : ∀ index object,
    heap.object? index = some object →
    object.payload.kind = .string →
    object.size = headerSize + object.payload.size

def Unmarked (heap : Heap) : Prop :=
  ∀ index slot, heap.slot? index = some slot → slot.marked = false

/-- A heap between two collections. -/
structure WellFormed (heap : Heap) : Prop where
  layout : Layout heap heap.live
  unmarked : Unmarked heap

theorem WellFormed.of_layout (layout : Layout heap live) (unmarked : Unmarked heap) :
    WellFormed heap := by
  refine ⟨?_, unmarked⟩
  rw [layout.live_eq]
  exact layout

end Heap

end WordMachine
