import WordMachine.Machine.Step

/-!
Where the bytes of texts are. Texts are spans of buffers, and one buffer can be seen through several
spans: a slice shows a part of the string that it was cut from. Bytes are written to a buffer while
a text is put together in it; a heap with its texts in buffers does on strings what the heap does.
-/

namespace WordMachine

/-- A part of a buffer. Up to its capacity, bytes can be added to it in place. -/
structure Span where
  buffer : Nat
  start : Nat
  length : Nat
  capacity : Nat
  deriving Repr, DecidableEq, Inhabited

/-- The bytes between two places of a span, with no capacity for more. -/
def Span.cut (span : Span) (first last : Nat) : Span :=
  ⟨span.buffer, span.start + first, last - first, last - first⟩

/-- All buffers that have been made. -/
structure Storage where
  buffers : Array Bytes := #[]
  deriving DecidableEq, Inhabited

namespace Storage

def bytes (storage : Storage) (span : Span) : Bytes :=
  (storage.buffers[span.buffer]?.getD ByteArray.empty).extract span.start (span.start + span.length)

/-- A new buffer of zeros, seen up to a length. -/
def make (storage : Storage) (length capacity : Nat) : Span × Storage :=
  (⟨storage.buffers.size, 0, length, capacity⟩,
    ⟨storage.buffers.push (Bytes.replicate capacity 0)⟩)

def write (storage : Storage) (buffer place : Nat) (text : Bytes) : Storage :=
  ⟨storage.buffers.modify buffer fun held =>
    held.extract 0 place ++ text ++ held.extract (place + text.size) held.size⟩

def append (storage : Storage) (span : Span) (text : Bytes) : Span × Storage :=
  let length := span.length + text.size
  if length ≤ span.capacity then
    ({ span with length }, storage.write span.buffer (span.start + span.length) text)
  else
    let (copy, grown) := storage.make length length
    (copy,
      (grown.write copy.buffer 0 (storage.bytes span)).write copy.buffer span.length text)

def appendEach (storage : Storage) (span : Span) : List UInt8 → Span × Storage
  | [] => (span, storage)
  | byte :: rest =>
    let longer := storage.append span (Bytes.singleton byte)
    appendEach longer.2 longer.1 rest

def hold (storage : Storage) (text : Bytes) : Span × Storage :=
  let (span, made) := storage.make text.size text.size
  (span, made.write span.buffer 0 text)

/-- A new buffer with what a span shows and the bytes of the links that lead to it. -/
def flatten (storage : Storage) (base : Span) (tail : List UInt8) : Span × Storage :=
  let (span, made) := storage.make base.length (base.length + tail.length)
  (made.write span.buffer 0 (made.bytes base)).appendEach span tail

/-- A new buffer with what two spans show. -/
def join (storage : Storage) (left right : Span) : Span × Storage :=
  let made := storage.make 0 (left.length + right.length)
  let half := made.2.append made.1 (made.2.bytes left)
  half.2.append half.1 (half.2.bytes right)

end Storage

/-- A heap with the buffers of its texts. -/
structure Backing where
  heap : Heap
  storage : Storage := {}
  spans : UInt32 → Option Span := fun _ => none

/-- A computation on a heap and its buffers. -/
abbrev Backed :=
  EStateM Fault Backing

namespace Backing

def new (interval limit : Int) : Backing where
  heap := .new interval limit

/-- Gives the object in a slot the span of its text, if it has one. -/
def setSpan (backing : Backing) (index : UInt32) (span? : Option Span) : Backing :=
  { backing with spans := fun other => if other = index then span? else backing.spans other }

/-- The span at the end of a chain of links, with the bytes of the links passed on the way. -/
def base (backing : Backing) : Nat → Word → List UInt8 → Except Fault (Span × List UInt8)
  | 0, _, _ => .error (.notRef 0)
  | fuel + 1, word, tail =>
    match backing.heap.deref word with
    | .error fault => .error fault
    | .ok object =>
      match object.payload, backing.spans word.toHandle.index with
      | .string _, some span => .ok (span, tail)
      | .link _ _ (some _), some span => .ok (span, tail)
      | .link previous byte none, _ => base backing fuel previous (byte :: tail)
      | _, _ => .error (.notRef 0)

/-- Removes the objects that the roots do not lead to. Their texts stay in the buffers. -/
def collect (backing : Backing) (roots : List Word) : Backing :=
  { backing with heap := (backing.heap.collect roots).1 }

end Backing

namespace Backed

/-- The heap and buffers in which a computation ends, also if it ends with a fault. -/
def ending {α : Type} : EStateM.Result Fault Backing α → Backing
  | .ok _ after => after
  | .error _ after => after

/-- The span of a string's text. A link keeps the span of its text. -/
def read (word : Word) : Backed Span :=
  fun backing =>
    match backing.heap.deref word with
    | .error fault => .error fault backing
    | .ok object =>
      match object.payload, backing.spans word.toHandle.index with
      | .string _, some span => .ok span backing
      | .link _ _ (some _), some span => .ok span backing
      | .link previous byte none, _ =>
        match backing.base (backing.heap.slots.size + 1) previous [byte] with
        | .error fault => .error fault backing
        | .ok (base, tail) =>
          let (span, storage) := backing.storage.flatten base tail
          let heap := backing.heap.remember word (storage.bytes span)
          .ok span (({ backing with heap, storage }).setSpan word.toHandle.index (some span))
      | other, _ => .error (.wrongKind .string other.kind) backing

/-- Makes an object with the span of its text; nothing if the heap has no room. -/
def allocate? (payload : Payload) (span? : Option Span) : Backed (Option Word) :=
  fun backing =>
    if backing.heap.hasRoom (Heap.headerSize + payload.size) then
      let (word, heap) := backing.heap.allocate payload
      .ok (some word) (({ backing with heap }).setSpan word.toHandle.index span?)
    else .ok none backing

def string? (span : Span) : Backed (Option Word) :=
  fun backing => allocate? (.string (backing.storage.bytes span)) (some span) backing

def store (put : Storage → Span × Storage) : Backed Span :=
  fun backing =>
    let (span, storage) := put backing.storage
    .ok span { backing with storage }

end Backed

/-- What can be done with strings. -/
inductive TextWork where
  | string (text : Bytes)
  | link (previous : Word) (byte : UInt8)
  | slice (word : Word) (first last : Int32)
  | concat (left right : Word)
  | read (word : Word)
  deriving DecidableEq

namespace TextWork

def run : TextWork → Backed (Option Word)
  | .string text => do Backed.string? (← Backed.store (·.hold text))
  | .link previous byte => Backed.allocate? (.link previous byte none) none
  | .slice word first last => do
    let whole ← Backed.read word
    let (first, last) := clampRange whole.length first last
    if first = 0 ∧ last = whole.length then return some word
    else Backed.string? (whole.cut first last)
  | .concat left right => do
    let right ← Backed.read right
    let left ← Backed.read left
    Backed.string? (← Backed.store (·.join left right))
  | .read word => do
    let _ ← Backed.read word
    return some word

/-- The heap and buffers after a work, also if the work fails. -/
def after (work : TextWork) (backing : Backing) : Backing :=
  Backed.ending (work.run backing)

def strings : TextWork → List Word
  | .string _ => []
  | .link previous _ => [previous]
  | .slice word _ _ => [word]
  | .concat left right => [left, right]
  | .read word => [word]

def operands : TextWork → List Word
  | .string _ => []
  | .link previous byte => [previous, .ofInt byte.toUInt32.toInt32]
  | .slice word first last => [word, .ofInt first, .ofInt last]
  | .concat left right => [left, right]
  | .read word => [word]

def computation : TextWork → Exec Unit
  | .string text => Exec.pushString text
  | .link _ _ => Exec.perform default .appendChar 0
  | .slice _ _ _ => Exec.perform default .slice 0
  | .concat _ _ => Exec.perform default .concat 0
  | .read _ => do let _ ← Exec.popText

end TextWork

end WordMachine
