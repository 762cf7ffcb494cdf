import WordMachine.Machine.Collection

/-!
Allocations of executors that run side by side. An allocation first looks whether there is room,
then takes a slot while it holds the heap, and only then counts its bytes; between these steps
others may look, take slots and count. Collections wait until no allocation is under way.
-/

namespace WordMachine

/-- How far an allocation is. -/
inductive Admission where
  /-- There was room for it; it has yet to take a slot. -/
  | admitted (payload : Payload)
  /-- It has its slot; its bytes have yet to be counted. -/
  | placed (size : Nat)
  deriving DecidableEq

def Admission.size : Admission → Nat
  | .admitted payload => Heap.headerSize + payload.size
  | .placed size => size

/-- A heap with the allocations that are under way, one for each executor that makes one. -/
structure Arena where
  heap : Heap
  admissions : List Admission := []

namespace Arena

inductive Move where
  /-- An executor looks whether there is room, and makes nothing if there is none. -/
  | ask (payload : Payload)
  /-- The allocation at a position takes a slot. -/
  | place (position : Nat)
  | count (position : Nat)
  | trim (word : Word) (count : Nat)
  | collect (roots : List Word)

/-- Makes a move; nothing if it cannot be made. -/
def step (arena : Arena) : Move → Option Arena
  | .ask payload =>
    if arena.heap.hasRoom (Heap.headerSize + payload.size) then
      some { arena with admissions := arena.admissions ++ [.admitted payload] }
    else some arena
  | .place position =>
    match arena.admissions[position]? with
    | some (.admitted payload) =>
      let size := Heap.headerSize + payload.size
      some
        { heap := (arena.heap.place ⟨size, payload⟩).2
          admissions := arena.admissions.set position (.placed size) }
    | _ => none
  | .count position =>
    match arena.admissions[position]? with
    | some (.placed size) =>
      let heap := { arena.heap with
        bytes := arena.heap.bytes + size
        allocations := arena.heap.allocations + 1 }
      some { heap := heap.pace size, admissions := arena.admissions.eraseIdx position }
    | _ => none
  | .trim word count =>
    match arena.heap.trim word count with
    | .ok heap => some { arena with heap }
    | .error _ => none
  | .collect roots =>
    if arena.admissions = [] then some { arena with heap := (arena.heap.collect roots).1 }
    else none

/-- Makes moves one after another; nothing if one of them cannot be made. -/
def run (arena : Arena) (moves : List Move) : Option Arena :=
  moves.foldlM step arena

/-- Makes a move that leaves at most so many allocations under way, each of at most so many
bytes. -/
def stepWithin (overlap size : Nat) (arena : Arena) (move : Move) : Option Arena :=
  (arena.step move).filter fun after =>
    after.admissions.length ≤ overlap && after.admissions.all (·.size ≤ size)

def runWithin (overlap size : Nat) (arena : Arena) (moves : List Move) : Option Arena :=
  moves.foldlM (stepWithin overlap size) arena

end Arena

end WordMachine
