import WordMachine.Text.Bytes
import WordMachine.Machine.Word

/-!
States of an executor, kinds of heap objects, and faults: violations of the machine's contract
that no generated program commits.
-/

namespace WordMachine

/-- The state of an executor. `running` and `paused` are the only states that are left again. -/
inductive ExecState where
  | running | paused | success | stackOverflow | allocFailed | divByZero | assertFailed
  | invalidAssembly | aborted
  deriving DecidableEq, Repr, Inhabited

namespace ExecState

def name : ExecState → String
  | .running => "running"
  | .paused => "paused"
  | .success => "success"
  | .stackOverflow => "stack-overflow"
  | .allocFailed => "alloc-failed"
  | .divByZero => "div-by-zero"
  | .assertFailed => "assert-failed"
  | .invalidAssembly => "invalid-assembly"
  | .aborted => "aborted"

def all : List ExecState :=
  [.running, .paused, .success, .stackOverflow, .allocFailed, .divByZero, .assertFailed,
    .invalidAssembly, .aborted]

def ofCode? (code : Nat) : Option ExecState :=
  all[code]?

def nameOf (code : Nat) : Bytes :=
  match ofCode? code with
  | some state => state.name
  | none => "state(" ++ Bytes.ofNat code ++ ")"

/-- Whether an executor in this state has stopped for good. -/
def isTerminal : ExecState → Bool
  | .running => false
  | .paused => false
  | _ => true

end ExecState

/-- The kind of a heap object. -/
inductive RefKind where
  | string | stringLink | struct | long | future | lazy | stream
  deriving DecidableEq, Repr

namespace RefKind

def name : RefKind → String
  | .string => "string"
  | .stringLink => "string-link"
  | .struct => "struct"
  | .long => "long"
  | .future => "future"
  | .lazy => "lazy"
  | .stream => "stream"

/-- The name of any kind number; all others mean an unused slot. -/
def nameOf (code : Nat) : String :=
  match code with
  | 1 => "string"
  | 2 => "string-link"
  | 3 => "struct"
  | 4 => "long"
  | 5 => "future"
  | 6 => "lazy"
  | 7 => "stream"
  | _ => "free"

end RefKind

/-- A violation of the machine's contract. -/
inductive Fault where
  | notRef (word : Word)
  | invalidRef (index generation : UInt32)
  | valuesLeft (count : Nat)
  | popEmpty
  | peekBehind (depth size : Nat)
  | popBehind (depth size : Nat)
  | popMany (count size : Nat)
  | wrongKind (expected got : RefKind)
  | slotOutOfRange (slot : UInt8) (reserved : Nat)
  deriving DecidableEq

namespace Fault

/-- The stable number of a fault's class. -/
def code : Fault → Nat
  | .notRef _ => 1001
  | .invalidRef _ _ => 1001
  | .valuesLeft _ => 1002
  | .popEmpty => 1003
  | .peekBehind _ _ => 1003
  | .popBehind _ _ => 1003
  | .popMany _ _ => 1003
  | .wrongKind _ _ => 1004
  | .slotOutOfRange _ _ => 1005

def codeName (code : Nat) : Bytes :=
  "VM" ++ Bytes.ofNat code

def message : Fault → Bytes
  | .notRef word => "value 0x" ++ Bytes.hex 1 word.toNat ++ " is not a ref"
  | .invalidRef index generation =>
    "invalid ref index " ++ Bytes.ofNat index.toNat ++ " gen " ++ Bytes.ofNat generation.toNat
  | .valuesLeft count => Bytes.ofNat count ++ " values left on the eval stack"
  | .popEmpty => "pop from empty eval stack"
  | .peekBehind depth size =>
    "peek " ++ Bytes.ofNat depth ++ " behind with " ++ Bytes.ofNat size ++ " values"
  | .popBehind depth size =>
    "pop " ++ Bytes.ofNat depth ++ " behind with " ++ Bytes.ofNat size ++ " values"
  | .popMany count size =>
    "pop " ++ Bytes.ofNat count ++ " values with " ++ Bytes.ofNat size ++ " on the stack"
  | .wrongKind expected got =>
    "expected " ++ expected.name.toUTF8 ++ " ref, got " ++ got.name.toUTF8
  | .slotOutOfRange slot reserved =>
    "const slot " ++ Bytes.ofNat slot.toNat ++ " outside the " ++ Bytes.ofNat reserved ++
      " reserved"

/-- The full text of a fault, without the place where it happened. -/
def text (fault : Fault) : Bytes :=
  "panic " ++ codeName fault.code ++ ": " ++ fault.message

end Fault

/-- A fault with the executor and instruction that raised it. -/
structure Report where
  fault : Fault
  executor : Nat
  ip : UInt32
  deriving DecidableEq

def Report.text (report : Report) : Bytes :=
  report.fault.text ++ " (exec#" ++ Bytes.ofNat report.executor ++ " at 0x" ++
    Bytes.hex 4 report.ip.toNat ++ ")"

end WordMachine
