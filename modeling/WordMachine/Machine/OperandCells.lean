import WordMachine.Machine.Stacks

/-!
Where operands are kept. An operand stack has all its places from the beginning and counts those in
use. A place out of use may still hold a word that was there: values that are taken off together
are shown in their places, until others are put there.
-/

namespace WordMachine

/-- An operand stack in its places, bottom first. -/
structure OperandCells (capacity : Nat) where
  cells : Vector Word capacity
  /-- How many places are in use, and the next one to be used. -/
  size : Nat
  size_le : size ≤ capacity

/-- Places next to each other. -/
structure CellRange where
  first : Nat
  count : Nat
  deriving DecidableEq

namespace OperandCells

variable {capacity : Nat}

def new (capacity : Nat) : OperandCells capacity :=
  ⟨.replicate capacity 0, 0, Nat.zero_le capacity⟩

def live (stack : OperandCells capacity) : List Word :=
  stack.cells.toList.take stack.size

/-- What some places hold now, in use or not. -/
def shown (stack : OperandCells capacity) (range : CellRange) : List Word :=
  (stack.cells.toList.drop range.first).take range.count

/-- Adds a value on top unless the stack is full. -/
def push? (stack : OperandCells capacity) (word : Word) : Option (OperandCells capacity) :=
  if full : stack.size = capacity then none
  else
    have room : stack.size < capacity := Nat.lt_of_le_of_ne stack.size_le full
    some ⟨stack.cells.set stack.size word, stack.size + 1, room⟩

/-- Takes the top value off and clears its place. -/
def pop (stack : OperandCells capacity) : Except Fault (Word × OperandCells capacity) :=
  if empty : stack.size = 0 then .error .popEmpty
  else
    have inside : stack.size - 1 < capacity := by have := stack.size_le; omega
    .ok (stack.cells[stack.size - 1],
      ⟨stack.cells.set (stack.size - 1) 0, stack.size - 1, Nat.le_of_lt inside⟩)

/-- The value `depth` places below the top. -/
def peekBehind (stack : OperandCells capacity) (depth : Nat) : Except Fault Word :=
  if past : stack.size ≤ depth then .error (.peekBehind depth stack.size)
  else
    have inside : stack.size - 1 - depth < capacity := by have := stack.size_le; omega
    .ok stack.cells[stack.size - 1 - depth]

/-- Each of `count` places takes over what the next place holds, the first one first. -/
def shiftDown (cells : Vector Word capacity) (first : Nat) :
    (count : Nat) → first + count < capacity → Vector Word capacity
  | 0, _ => cells
  | count + 1, inside =>
    shiftDown (cells.set first cells[first + 1]) (first + 1) count (by omega)

/-- Takes out the value `depth` places below the top, moves the ones above it down and clears the
place of the last one. -/
def popAt (stack : OperandCells capacity) (depth : Nat) :
    Except Fault (Word × OperandCells capacity) :=
  if past : stack.size ≤ depth then .error (.popBehind depth stack.size)
  else
    have last : stack.size - 1 < capacity := by have := stack.size_le; omega
    have inside : stack.size - 1 - depth + depth < capacity := by omega
    .ok (stack.cells[stack.size - 1 - depth],
      ⟨(shiftDown stack.cells (stack.size - 1 - depth) depth inside).set (stack.size - 1) 0,
        stack.size - 1, Nat.le_of_lt last⟩)

/-- Takes the top `count` values off and leaves them where they are. -/
def popMany (stack : OperandCells capacity) (count : Nat) :
    Except Fault (CellRange × OperandCells capacity) :=
  if stack.size < count then .error (.popMany count stack.size)
  else
    .ok (⟨stack.size - count, count⟩,
      ⟨stack.cells, stack.size - count, Nat.le_trans (Nat.sub_le _ _) stack.size_le⟩)

end OperandCells

/-! ## Requests to a stack of operands -/

inductive OperandRequest where
  | push (word : Word)
  | pop
  | peekBehind (depth : Nat)
  | popAt (depth : Nat)
  | popMany (count : Nat)
  deriving DecidableEq

inductive OperandAnswer where
  | pushed
  | refused
  | word (word : Word)
  | words (words : List Word)
  | fault (fault : Fault)
  deriving DecidableEq

/-- What can be done with a stack of operands, however it is kept. -/
structure OperandOperations (σ : Type) where
  push? : σ → Word → Option σ
  pop : σ → Except Fault (Word × σ)
  peekBehind : σ → Nat → Except Fault Word
  popAt : σ → Nat → Except Fault (Word × σ)
  popMany : σ → Nat → Except Fault (List Word × σ)
  /-- The values on the stack, bottom first. -/
  live : σ → List Word

def EvalStack.operations : OperandOperations EvalStack where
  push? := push?
  pop := pop
  peekBehind := peekBehind
  popAt := popAt
  popMany stack count := (stack.popMany count).map fun taken => (taken.1.toList, taken.2)
  live := toList

def OperandCells.operations (capacity : Nat) : OperandOperations (OperandCells capacity) where
  push? := push?
  pop := pop
  peekBehind := peekBehind
  popAt := popAt
  popMany stack count := (stack.popMany count).map fun taken => (taken.2.shown taken.1, taken.2)
  live := live

namespace OperandOperations

variable {σ : Type} (operations : OperandOperations σ)

def serve (stack : σ) : OperandRequest → OperandAnswer × σ
  | .push word =>
    match operations.push? stack word with
    | some next => (.pushed, next)
    | none => (.refused, stack)
  | .pop =>
    match operations.pop stack with
    | .ok (word, next) => (.word word, next)
    | .error fault => (.fault fault, stack)
  | .peekBehind depth =>
    match operations.peekBehind stack depth with
    | .ok word => (.word word, stack)
    | .error fault => (.fault fault, stack)
  | .popAt depth =>
    match operations.popAt stack depth with
    | .ok (word, next) => (.word word, next)
    | .error fault => (.fault fault, stack)
  | .popMany count =>
    match operations.popMany stack count with
    | .ok (words, next) => (.words words, next)
    | .error fault => (.fault fault, stack)

def record (stack : σ) : List OperandRequest → List (OperandAnswer × List Word)
  | [] => []
  | request :: rest =>
    let (answer, next) := operations.serve stack request
    (answer, operations.live next) :: record next rest

end OperandOperations

end WordMachine
