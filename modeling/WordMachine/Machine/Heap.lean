import WordMachine.Machine.Stream
import WordMachine.Machine.State

/-!
The heap: slots that hold objects. A freed slot is used again under a new generation, so that a
handle to the old object is recognised as stale. Every object has an accounted size, which paces
collections and counts against the limit.
-/

namespace WordMachine

/-- A call that is made when its value is first asked for. -/
inductive Delayed where
  | pending (target : UInt32) (arguments : Array Word)
  | forced (value : Word)
  deriving DecidableEq, Inhabited

/-- The contents of a heap object. -/
inductive Payload where
  | string (text : Bytes)
  /-- A string of zero bytes that a read will fill. -/
  | blank (length : Nat)
  /-- A string and one more byte, with the text once it was asked for. -/
  | link (previous : Word) (byte : UInt8) (flat : Option Bytes)
  | struct (fields : Array Word)
  | long (value : Int64)
  /-- The result and final state of a forked call, once it has ended. -/
  | future (outcome : Option (Word × ExecState))
  | lazy (call : Delayed)
  | stream (stream : Stream)
  deriving DecidableEq, Inhabited

namespace Payload

def kind : Payload → RefKind
  | .string _ => .string
  | .blank _ => .string
  | .link _ _ _ => .stringLink
  | .struct _ => .struct
  | .long _ => .long
  | .future _ => .future
  | .lazy _ => .lazy
  | .stream _ => .stream

/-- The accounted size of the contents when the object is made. -/
def size : Payload → Nat
  | .string text => text.size
  | .blank length => length
  | .link _ _ _ => 8
  | .struct fields => 8 * fields.size
  | .long _ => 8
  | .future _ => 64
  | .lazy (.pending _ arguments) => 64 + 8 * arguments.size
  | .lazy (.forced _) => 64
  | .stream _ => 64

/-- The words through which an object keeps others alive. -/
def references : Payload → List Word
  | .link previous _ _ => [previous]
  | .struct fields => fields.toList
  | .future (some (value, .success)) => [value]
  | .lazy (.pending _ arguments) => arguments.toList
  | .lazy (.forced value) => [value]
  | _ => []

end Payload

/-- A heap object with its accounted size. -/
structure Object where
  size : Nat
  payload : Payload
  deriving DecidableEq, Inhabited

/-- A place for an object. The slots in use form a list, newest object first. -/
structure Slot where
  generation : UInt32 := 0
  object : Option Object := none
  /-- The next slot in use; zero ends the list. -/
  next : UInt32 := 0
  /-- Set while a collection finds the object reachable. -/
  marked : Bool := false
  deriving DecidableEq, Inhabited

structure Heap where
  slots : Array Slot := #[]
  /-- Slots to use again, next one first. -/
  free : List UInt32 := []
  /-- The first slot in use; zero if there is none. -/
  head : UInt32 := 0
  count : Nat := 0
  bytes : Int := 0
  allocations : Nat := 0
  /-- Cap on `bytes`; unlimited unless positive. -/
  limit : Int := 0
  /-- Bytes allocated between two requests for a collection; none are made unless positive. -/
  interval : Int := 0
  /-- Bytes left until the next request. -/
  left : Int := 0
  requested : Bool := false
  deriving Inhabited

namespace Heap

/-- The accounted size of an object beside its contents. -/
def headerSize : Nat := 32

def new (interval limit : Int) : Heap :=
  { interval, limit, left := interval }

@[inline]
def slot? (heap : Heap) (index : UInt32) : Option Slot :=
  if index == 0 then none else heap.slots[index.toNat - 1]?

@[inline]
def lookup? (heap : Heap) (handle : Handle) : Option Object :=
  match heap.slot? handle.index with
  | some slot => if slot.generation == handle.generation then slot.object else none
  | none => none

@[inline]
def deref (heap : Heap) (word : Word) : Except Fault Object :=
  if word.isRef then
    match heap.lookup? word.toHandle with
    | some object => .ok object
    | none => .error (.invalidRef word.toHandle.index word.toHandle.generation)
  else .error (.notRef word)

/-- Replaces the contents of the object a word refers to. -/
@[inline]
def setPayload (heap : Heap) (word : Word) (payload : Payload) : Heap :=
  { heap with
    slots := heap.slots.modify (word.toHandle.index.toNat - 1) fun slot =>
      { slot with object := slot.object.map fun object => { object with payload } } }

/-! ## Allocation -/

/-- Counts an allocation against the interval. The allocation that uses it up requests a
collection. -/
def pace (heap : Heap) (size : Nat) : Heap :=
  if 0 < heap.interval then
    let left := heap.left - size
    { heap with left, requested := heap.requested || (left ≤ 0 && 0 < left + size) }
  else heap

/-- Puts an object into a free slot, or into a new one, at the front of the list. -/
def place (heap : Heap) (object : Object) : Word × Heap :=
  let count := heap.count + 1
  let next := heap.head
  match heap.free with
  | index :: rest =>
    let generation := match heap.slot? index with
      | some slot => slot.generation
      | none => 0
    (.ofHandle (.make index generation),
      { heap with
        count
        free := rest
        head := index
        slots := heap.slots.setIfInBounds (index.toNat - 1)
          { generation, object := some object, next } })
  | [] =>
    let index := UInt32.ofNat (heap.slots.size + 1)
    (.ofHandle (.make index 0),
      { heap with
        count
        head := index
        slots := heap.slots.push { object := some object, next } })

/-- Whether an object of the given accounted size may be made. -/
def hasRoom (heap : Heap) (size : Nat) : Bool :=
  heap.limit ≤ 0 || heap.bytes + size ≤ heap.limit

/-- Makes an object, whether or not there is room. -/
def allocate (heap : Heap) (payload : Payload) : Word × Heap :=
  let size := headerSize + payload.size
  let heap := { heap with bytes := heap.bytes + size, allocations := heap.allocations + 1 }
  (heap.pace size).place ⟨size, payload⟩

def allocate? (heap : Heap) (payload : Payload) : Option (Word × Heap) :=
  if heap.hasRoom (headerSize + payload.size) then some (heap.allocate payload) else none

/-! ## Strings -/

def chainText (heap : Heap) : Nat → Word → List UInt8 → Except Fault (Bytes × List UInt8)
  | 0, _, _ => .error (.notRef 0)
  | fuel + 1, word, tail =>
    match heap.deref word with
    | .error fault => .error fault
    | .ok object =>
      match object.payload with
      | .string text => .ok (text, tail)
      | .blank length => .ok (Bytes.replicate length 0, tail)
      | .link _ _ (some text) => .ok (text, tail)
      | .link previous byte none => chainText heap fuel previous (byte :: tail)
      -- Anything else breaks the chain.
      | _ => .error (.notRef 0)

def text (heap : Heap) (word : Word) : Except Fault Bytes :=
  match heap.deref word with
  | .error fault => .error fault
  | .ok object =>
    match object.payload with
    | .string text => .ok text
    | .blank length => .ok (Bytes.replicate length 0)
    | .link _ _ (some text) => .ok text
    | .link previous byte none =>
      match heap.chainText (heap.slots.size + 1) previous [byte] with
      | .error fault => .error fault
      | .ok (base, tail) => .ok (tail.foldl ByteArray.push base)
    | other => .error (.wrongKind .string other.kind)

def remember (heap : Heap) (word : Word) (text : Bytes) : Heap :=
  { heap with
    slots := heap.slots.modify (word.toHandle.index.toNat - 1) fun slot =>
      { slot with
        object := slot.object.map fun object =>
          match object.payload with
          | .link previous byte _ => { object with payload := .link previous byte (some text) }
          | _ => object } }

/-- Gives a string object a text that is no longer than its present one, and gives back the bytes
it no longer uses. -/
def setText (heap : Heap) (word : Word) (text : Bytes) (freed : Nat) : Heap :=
  { heap with
    bytes := heap.bytes - freed
    slots := heap.slots.modify (word.toHandle.index.toNat - 1) fun slot =>
      { slot with
        object := slot.object.map fun object => ⟨object.size - freed, .string text⟩ } }

/-- Cuts a string to its first `count` bytes. -/
def trim (heap : Heap) (word : Word) (count : Nat) : Except Fault Heap :=
  match heap.deref word with
  | .error fault => .error fault
  | .ok object =>
    match object.payload with
    | .string text =>
      .ok (if count < text.size then
        heap.setText word (Bytes.take text count) (text.size - count) else heap)
    | .blank length =>
      .ok (if count < length then
        heap.setText word (Bytes.replicate count 0) (length - count) else heap)
    | other => .error (.wrongKind .string other.kind)

/-- Fills a blank string with the bytes read into it and drops the rest. -/
def fill (heap : Heap) (word : Word) (text : Bytes) : Except Fault Heap :=
  match heap.deref word with
  | .error fault => .error fault
  | .ok object =>
    match object.payload with
    | .string current => .ok (heap.setText word text (current.size - text.size))
    | .blank length => .ok (heap.setText word text (length - text.size))
    | other => .error (.wrongKind .string other.kind)

/-! ## Other objects -/

@[inline]
def view {α : Type} (heap : Heap) (kind : RefKind) (select : Payload → Option α) (word : Word) :
    Except Fault α :=
  match heap.deref word with
  | .error fault => .error fault
  | .ok object =>
    match select object.payload with
    | some value => .ok value
    | none => .error (.wrongKind kind object.payload.kind)

@[inline]
def fields (heap : Heap) (word : Word) : Except Fault (Array Word) :=
  heap.view .struct
    (fun payload => match payload with
      | .struct fields => some fields
      | _ => none)
    word

@[inline]
def long (heap : Heap) (word : Word) : Except Fault Int64 :=
  if word.isRef then
    match heap.deref word with
    | .error fault => .error fault
    | .ok object =>
      match object.payload with
      | .long value => .ok value
      | other => .error (.wrongKind .long other.kind)
  else .ok word.toInlineLong

def outcome (heap : Heap) (word : Word) : Except Fault (Option (Word × ExecState)) :=
  heap.view .future
    (fun payload => match payload with
      | .future outcome => some outcome
      | _ => none)
    word

def delayed (heap : Heap) (word : Word) : Except Fault Delayed :=
  heap.view .lazy
    (fun payload => match payload with
      | .lazy call => some call
      | _ => none)
    word

/-- Stores the value of a delayed call, unless it has one, and returns the stored one. -/
def force (heap : Heap) (word value : Word) : Except Fault (Word × Heap) :=
  match heap.delayed word with
  | .error fault => .error fault
  | .ok (.forced first) => .ok (first, heap)
  | .ok (.pending _ _) => .ok (value, heap.setPayload word (.lazy (.forced value)))

def stream (heap : Heap) (word : Word) : Except Fault Stream :=
  heap.view .stream
    (fun payload => match payload with
      | .stream stream => some stream
      | _ => none)
    word

/-! ## Occupancy -/

/-- The slots in use from a slot on, at most as many as given. -/
def chain (heap : Heap) : Nat → UInt32 → List UInt32
  | 0, _ => []
  | fuel + 1, index =>
    match heap.slot? index with
    | some slot => index :: chain heap fuel slot.next
    | none => []

/-- Slots in use, newest object first. -/
def live (heap : Heap) : List UInt32 :=
  heap.chain heap.slots.size heap.head

def handles (heap : Heap) : List Handle :=
  heap.live.map fun index =>
    .make index (match heap.slot? index with
      | some slot => slot.generation
      | none => 0)

/-- References to the stream objects, newest first. -/
def streams (heap : Heap) : List Word :=
  heap.handles.filterMap fun handle =>
    match heap.lookup? handle with
    | some object =>
      match object.payload with
      | .stream _ => some (.ofHandle handle)
      | _ => none
    | none => none

end Heap

end WordMachine
