import WordMachine.Assembly.Basic
import WordMachine.Number.Single
import WordMachine.Machine.Settings
import WordMachine.Machine.Stacks
import WordMachine.Machine.Collection

/-!
Executors and what they share. An instruction is a computation on a session: one executor with the
state all executors share. A fault ends it and keeps the session as it was at that point.
-/

namespace WordMachine

/-- What a paused executor waits for. Its operands stay on its stack until it goes on. -/
inductive Wait where
  | sleep (wake : Nat)
  | future
  | futureUntil (deadline : Nat)
  | consoleChar
  | consoleLine
  /-- Bytes from the stream below the string on top of the stack. -/
  | readString (limit : Nat)
  /-- A byte from the stream on top of the stack. -/
  | readChar
  /-- The reader of the stream below the top of the stack, with whether it has the offer. -/
  | write (data : Bytes) (offered : Bool)
  /-- The stream on top of the stack to be flushed. -/
  | flush
  /-- A connection to the listening stream on top of the stack. -/
  | accept
  /-- A listener for the host name on top of the stack. -/
  | dial (host : Bytes) (port : Nat) (deadline : Nat)
  | connect (listener : Nat) (host : Bytes) (port : Nat) (deadline : Nat)
  /-- The address of the host name on top of the stack. -/
  | address (host : Bytes)
  deriving DecidableEq

def Wait.deadline? : Wait → Option Nat
  | .sleep wake => some wake
  | .futureUntil deadline => some deadline
  | .connect _ _ _ deadline => some deadline
  | _ => none

/-- One thread of execution: an entry point or a forked call. -/
structure Executor where
  id : Nat := 0
  /-- Where the next instruction starts. -/
  ip : UInt32
  current : UInt32 := 0
  eval : EvalStack
  consts : ConstStack
  calls : CallStack
  state : ExecState := .running
  faulted : Bool := false
  wait : Option Wait := none
  promise : Option Word := none
  result : Word := 0
  deriving Inhabited

namespace Executor

def start (settings : Settings) (ip : UInt32) : Executor where
  ip
  eval := { capacity := settings.evalStack.toNat }
  consts := { capacity := settings.constStack.toNat }
  calls := { limit := settings.callStack.toNat }

/-- The words through which an executor keeps objects alive. -/
def roots (executor : Executor) : List Word :=
  executor.eval.items.toList ++ executor.consts.slots.toList ++
    match executor.promise with
    | some promise => [promise, executor.result]
    | none => []

/-- Ends execution in a state; the first such state stays. -/
@[inline]
def fail (executor : Executor) (state : ExecState) : Executor :=
  match executor.state with
  | .running => { executor with state }
  | _ => executor

/-- Pushes an operand; a full stack ends execution. -/
@[inline]
def push (executor : Executor) (word : Word) : Executor :=
  if executor.eval.items.size < executor.eval.capacity then
    { executor with
      eval := ⟨executor.eval.capacity, executor.eval.items.push word⟩ }
  else executor.fail .stackOverflow

end Executor

/-- Where the lines of an instruction log go. -/
inductive Journal where
  | off
  | kept (text : Bytes)
  /-- To the console's error output. -/
  | console
  deriving Inhabited

/-- A point in a run that is worth reporting. -/
inductive Milestone where
  | entryBegan
  | entryEnded (index : Nat) (state : ExecState)
  | forkBegan (executor : Nat)
  | forkEnded (executor : Nat) (state : ExecState)
  | collected (freed live : Nat) (bytes : Int)
  deriving DecidableEq

/-- The state that all executors share. -/
structure Shared where
  assembly : Assembly
  settings : Settings
  heap : Heap
  platform : Platform
  journal : Journal := .off
  /-- Set when every executor, present or future, is to stop. -/
  aborting : Bool := false
  fault : Option Report := none
  started : Nat := 0
  /-- Forked executors that have not yet been scheduled, newest first. -/
  spawned : List Executor := []
  /-- Points of the run so far, each with the length of the error output at that time. -/
  milestones : Array (Milestone × Nat) := #[]
  deriving Inhabited

namespace Shared

def log (shared : Shared) (line : Unit → Bytes) : Shared :=
  match shared with
  | { journal := .off, .. } => shared
  | { journal := .kept text, .. } =>
    { shared with journal := .kept (text ++ line () ++ "\n") }
  | { journal := .console, .. } =>
    { shared with platform := shared.platform.writeErrors (line () ++ "\n") }

def report (shared : Shared) (milestone : Milestone) : Shared :=
  { shared with milestones := shared.milestones.push (milestone, shared.platform.errors.size) }

def allocate (shared : Shared) (payload : Payload) : Word × Shared :=
  let kind := payload.kind
  let heap := shared.heap
  -- With no second reference to the heap it is updated in place.
  let shared := { shared with heap := {} }
  let (word, heap) := heap.allocate payload
  (word, { shared with heap }.log fun _ =>
    "[heap] alloc " ++ kind.name.toUTF8 ++ "#" ++ Bytes.ofNat word.toHandle.index.toNat)

def closeStream (shared : Shared) (stream : Stream) : Shared :=
  { shared with platform := (stream.close shared.platform).2 }

structure CollectionReport where
  freed : Nat
  freedBytes : Nat
  live : Nat
  liveBytes : Int

/-- Collects with the given roots and closes the streams of freed objects. -/
def collect (shared : Shared) (roots : List Word) : CollectionReport × Shared :=
  let (heap, freed) := shared.heap.collect roots
  let shared := { shared with heap }
  let shared := freed.foldl
    (fun shared entry => shared.log fun _ =>
      "[heap] free " ++ entry.object.payload.kind.name.toUTF8 ++ "#" ++
        Bytes.ofNat entry.index.toNat)
    shared
  let shared := (Heap.freedStreams freed).foldl closeStream shared
  let report : CollectionReport := {
    freed := freed.length
    freedBytes := freed.foldl (fun total entry => total + entry.object.size) 0
    live := shared.heap.count
    liveBytes := shared.heap.bytes }
  let shared := shared.log fun _ =>
    "[gc] freed " ++ Bytes.ofNat report.freed ++ " live " ++ Bytes.ofNat report.live
  (report, shared.report (.collected report.freed report.live report.liveBytes))

end Shared

structure Session where
  executor : Executor
  shared : Shared
  deriving Inhabited

abbrev Exec := EStateM Fault Session

namespace Exec

@[inline]
def modifyExecutor (change : Executor → Executor) : Exec Unit :=
  fun ⟨executor, shared⟩ => .ok () ⟨change executor, shared⟩

@[inline]
def modifyShared (change : Shared → Shared) : Exec Unit :=
  fun ⟨executor, shared⟩ => .ok () ⟨executor, change shared⟩

/-- Ends execution in a state; the first such state stays. -/
@[inline]
def fail (state : ExecState) : Exec Unit :=
  modifyExecutor (·.fail state)

@[inline]
def isRunning : Exec Bool :=
  fun session => .ok (session.executor.state == .running) session

/-! ## Operands -/

@[inline]
def push (word : Word) : Exec Unit :=
  modifyExecutor (·.push word)

/-- Carries an operation of the operand stack over to sessions. -/
@[inline]
def onEval {α : Type} (operation : EvalStack → Except Fault (α × EvalStack)) : Exec α :=
  fun ⟨executor, shared⟩ =>
    match operation executor.eval with
    | .ok (value, eval) => .ok value ⟨{ executor with eval }, shared⟩
    | .error fault => .error fault ⟨executor, shared⟩

@[inline]
def pop : Exec Word :=
  onEval EvalStack.pop

/-- The operand `depth` places below the top. -/
@[inline]
def peekBehind (depth : Nat) : Exec Word :=
  fun session =>
    match session.executor.eval.peekBehind depth with
    | .ok word => .ok word session
    | .error fault => .error fault session

@[inline]
def peek : Exec Word :=
  peekBehind 0

def popAt (depth : Nat) : Exec Word :=
  onEval (·.popAt depth)

def popMany (count : Nat) : Exec (Array Word) :=
  onEval (·.popMany count)

@[inline]
def pushInt (value : Int32) : Exec Unit :=
  push (.ofInt value)

@[inline]
def pushBool (value : Bool) : Exec Unit :=
  push (.ofBool value)

@[inline]
def pushFloat (bits : Number.Single) : Exec Unit :=
  push (.ofFloat bits)

@[inline]
def popInt : Exec Int32 := do
  return (← pop).toInt

@[inline]
def popFloat : Exec Number.Single := do
  return (← pop).bits32

/-! ## The heap -/

@[inline]
def look {α : Type} (view : Heap → Except Fault α) : Exec α :=
  fun session =>
    match view session.shared.heap with
    | .ok value => .ok value session
    | .error fault => .error fault session

@[inline]
def modifyHeap (change : Heap → Heap) : Exec Unit :=
  modifyShared fun shared => { shared with heap := change shared.heap }

/-- Makes an object; nothing if the heap has no room. -/
def allocate? (payload : Payload) : Exec (Option Word) :=
  fun ⟨executor, shared⟩ =>
    if shared.heap.hasRoom (Heap.headerSize + payload.size) then
      let (word, shared) := shared.allocate payload
      .ok (some word) ⟨executor, shared⟩
    else .ok none ⟨executor, shared⟩

/-- Pushes a reference to a new object, or ends execution if the heap has no room. -/
def pushNew (payload : Payload) : Exec Unit := do
  match ← allocate? payload with
  | some word => push word
  | none => fail .allocFailed

def pushString (text : Bytes) : Exec Unit :=
  pushNew (.string text)

@[inline]
def pushLong (value : Int64) : Exec Unit :=
  if 0 ≤ value then push (.ofInlineLong value) else pushNew (.long value)

/-- The text of a string value. A link remembers its text. -/
def text (word : Word) : Exec Bytes := do
  let object ← look (·.deref word)
  match object.payload with
  | .string text => return text
  | .link _ _ none =>
    let text ← look (·.text word)
    modifyHeap (·.remember word text)
    return text
  | _ => look (·.text word)

@[inline]
def popText : Exec Bytes := do
  text (← pop)

@[inline]
def long (word : Word) : Exec Int64 :=
  look (·.long word)

@[inline]
def popLong : Exec Int64 := do
  long (← pop)

/-! ## Streams -/

def peekStream (depth : Nat) : Exec Stream := do
  let word ← peekBehind depth
  look (·.stream word)

def popStream : Exec Stream := do
  let word ← pop
  look (·.stream word)

def setStream (word : Word) (stream : Stream) : Exec Unit :=
  modifyHeap (·.setPayload word (.stream stream))

/-- Pushes a reference to a new stream object; a stream for which there is no room is closed. -/
def pushStream (stream : Stream) : Exec Unit := do
  match ← allocate? (.stream stream) with
  | some word => push word
  | none =>
    modifyShared (·.closeStream stream)
    fail .allocFailed

/-! ## The platform -/

@[inline]
def platform : Exec Platform :=
  fun session => .ok session.shared.platform session

@[inline]
def modifyPlatform (change : Platform → Platform) : Exec Unit :=
  modifyShared fun shared => { shared with platform := change shared.platform }

@[inline]
def setPlatform (platform : Platform) : Exec Unit :=
  modifyShared fun shared => { shared with platform }

end Exec

end WordMachine
