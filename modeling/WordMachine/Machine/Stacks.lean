import WordMachine.Machine.State

/-!
The three stacks of an executor: operands, constants and frames. All are bounded; a full stack
refuses, and reaching below the bottom is a fault.
-/

namespace WordMachine

/-! ## Operands -/

/-- The operand stack, bottom first. -/
structure EvalStack where
  capacity : Nat
  items : Array Word := #[]
  deriving Inhabited

namespace EvalStack

def toList (stack : EvalStack) : List Word :=
  stack.items.toList

def size (stack : EvalStack) : Nat :=
  stack.items.size

/-- Adds a value on top unless the stack is full. -/
@[inline]
def push? (stack : EvalStack) (word : Word) : Option EvalStack :=
  if stack.items.size < stack.capacity then some ⟨stack.capacity, stack.items.push word⟩ else none

/-- Takes the top value off. -/
@[inline]
def pop (stack : EvalStack) : Except Fault (Word × EvalStack) :=
  if bound : 0 < stack.items.size then
    let word := stack.items[stack.items.size - 1]
    .ok (word, ⟨stack.capacity, stack.items.pop⟩)
  else .error .popEmpty

/-- The value `depth` places below the top. -/
@[inline]
def peekBehind (stack : EvalStack) (depth : Nat) : Except Fault Word :=
  if bound : depth < stack.items.size then .ok stack.items[stack.items.size - 1 - depth]
  else .error (.peekBehind depth stack.items.size)

/-- Takes out the value `depth` places below the top, keeping the order of the others. -/
@[inline]
def popAt (stack : EvalStack) (depth : Nat) : Except Fault (Word × EvalStack) :=
  if bound : depth < stack.items.size then
    let position := stack.items.size - 1 - depth
    .ok (stack.items[position], ⟨stack.capacity, stack.items.eraseIdx position⟩)
  else .error (.popBehind depth stack.items.size)

/-- Takes the top `count` values off and returns them bottom first. -/
@[inline]
def popMany (stack : EvalStack) (count : Nat) : Except Fault (Array Word × EvalStack) :=
  if count ≤ stack.items.size then
    let rest := stack.items.size - count
    .ok (stack.items.extract rest stack.items.size, ⟨stack.capacity, stack.items.shrink rest⟩)
  else .error (.popMany count stack.items.size)

end EvalStack

/-! ## Constants -/

/-- The constants of all active frames. The current frame's window starts at `base` and reaches to
the end. -/
structure ConstStack where
  capacity : Nat
  base : Nat := 0
  slots : Array Word := #[]
  deriving Inhabited

namespace ConstStack

/-- One past the last slot of the current frame. -/
def top (stack : ConstStack) : Nat :=
  stack.slots.size

/-- Adds zeros up to a given size. -/
def grow (slots : Array Word) : Nat → Array Word
  | 0 => slots
  | count + 1 => grow (slots.push 0) count

/-- Gives the current frame `count` zeroed slots. -/
def reserve (stack : ConstStack) (count : Nat) : ConstStack :=
  { stack with slots := grow (stack.slots.shrink stack.base) count }

/-- Gives the current frame `count` zeroed slots unless there is no room. -/
def reserve? (stack : ConstStack) (count : Nat) : Option ConstStack :=
  if stack.base + count ≤ stack.capacity then some (stack.reserve count) else none

/-- Drops the slots of the current frame. -/
def release (stack : ConstStack) : ConstStack :=
  { stack with slots := stack.slots.shrink stack.base }

@[inline]
def store (stack : ConstStack) (slot : UInt8) (word : Word) : Except Fault ConstStack :=
  let position := stack.base + slot.toNat
  if position < stack.slots.size then
    .ok { stack with slots := stack.slots.setIfInBounds position word }
  else .error (.slotOutOfRange slot (stack.slots.size - stack.base))

@[inline]
def load (stack : ConstStack) (slot : UInt8) : Except Fault Word :=
  let position := stack.base + slot.toNat
  match stack.slots[position]? with
  | some word => .ok word
  | none => .error (.slotOutOfRange slot (stack.slots.size - stack.base))

/-- Opens the window of a new frame above the current one. -/
def enter (stack : ConstStack) : ConstStack :=
  { stack with base := stack.slots.size }

def leave (stack : ConstStack) (base top : Nat) : ConstStack :=
  { stack with base, slots := stack.slots.shrink top }

end ConstStack

/-! ## Frames -/

/-- A call in progress: where it returns to and the caller's window of constants. -/
structure Frame where
  returnTo : UInt32
  base : Nat
  top : Nat
  /-- Whether the call computes a lazy value, whose reference lies below the result. -/
  lazy : Bool := false
  deriving DecidableEq, Inhabited

/-- The frames of the calls in progress, outermost first. -/
structure CallStack where
  limit : Nat
  frames : Array Frame := #[]
  deriving Inhabited

namespace CallStack

def push? (stack : CallStack) (frame : Frame) : Option CallStack :=
  if stack.frames.size < stack.limit then
    some { stack with frames := stack.frames.push frame }
  else none

def pop? (stack : CallStack) : Option (Frame × CallStack) :=
  match stack.frames.back? with
  | some frame => some (frame, { stack with frames := stack.frames.pop })
  | none => none

end CallStack

end WordMachine
