import WordMachine.Assembly.Fragment
import WordMachine.Program.Basic

/-!
What can go wrong when a program is turned into code, and the state in which code is produced.
-/

namespace WordMachine.Lowering

/-- Why an expression has no code. -/
inductive Cause where
  | missingExpression
  | emptyGroup
  | branchCount (conditions branches : Nat)
  | tooManySlots (count : Nat)
  | slotTooLarge (slot : SlotId)
  | tooManyArguments (count : Nat)
  | fieldTooLarge (position : Int)
  | tooManyFields (count : Nat)
  | selfOutside
  | selfResult (result declared : Bytes)
  | selfCount (given taken : Nat)
  | selfArgument (position : Nat) (given expected : Bytes)
  | fieldOfNonStruct (type : Bytes)
  | fieldOfEmpty (type : Bytes)
  | fieldOutOfRange (position : Int) (type : Bytes)
  | notUnion (type : Bytes)
  | notMember (member union : Bytes)
  | undeclaredFunction (func : FuncId)
  | unequalOperands
  | unsupportedKind (kind : UInt8) (name : Bytes)
  | unionArguments (count : Nat)
  | noEquality (type : Bytes)
  /-- An operand has no type, because it or a part of it is missing. -/
  | untyped
  /-- A type is declared a struct or union but has no definition. -/
  | undefinedType (type : TypeId)
  deriving DecidableEq

namespace Cause

def message : Cause → Bytes
  | .missingExpression => "missing expression"
  | .emptyGroup => "empty group expression"
  | .branchCount conditions branches =>
    "switch with " ++ Bytes.ofNat conditions ++ " conditions needs " ++
      Bytes.ofNat (conditions + 1) ++ " branches, got " ++ Bytes.ofNat branches
  | .tooManySlots count => Bytes.ofNat count ++ " consts exceed the 255 slot limit"
  | .slotTooLarge slot =>
    "const slot " ++ Bytes.ofNat slot.toNat ++ " exceeds the 255 slot limit"
  | .tooManyArguments count => Bytes.ofNat count ++ " arguments exceed the 255 argument limit"
  | .fieldTooLarge position =>
    "field index " ++ Bytes.ofInt position ++ " exceeds the 255 field limit"
  | .tooManyFields count =>
    "struct with " ++ Bytes.ofNat count ++ " fields exceeds the 255 field limit"
  | .selfOutside => "self call outside of a function"
  | .selfResult result declared =>
    "self call result " ++ result ++ " does not match " ++ declared
  | .selfCount given taken =>
    "self call with " ++ Bytes.ofNat given ++ " arguments, function takes " ++ Bytes.ofNat taken
  | .selfArgument position given expected =>
    "self call argument " ++ Bytes.ofNat position ++ " has type " ++ given ++ ", expected " ++
      expected
  | .fieldOfNonStruct type => "field access on non-struct type " ++ type
  | .fieldOfEmpty type => "field access on struct " ++ type ++ " without fields"
  | .fieldOutOfRange position type =>
    "field " ++ Bytes.ofInt position ++ " out of range for struct " ++ type
  | .notUnion type => "type " ++ type ++ " is not a union"
  | .notMember member union => "type " ++ member ++ " is not a member of union " ++ union
  | .undeclaredFunction func => "call to undeclared function #" ++ Bytes.ofNat func.toNat
  | .unequalOperands => "user type equality needs two arguments of the same type"
  | .unsupportedKind kind name =>
    "unsupported function kind " ++ Bytes.ofNat kind.toNat ++ " (" ++ name ++ ")"
  | .unionArguments count =>
    "union construction takes one argument, got " ++ Bytes.ofNat count
  | .noEquality type => "equality is not defined for type " ++ type
  | .untyped => "operand without a type"
  | .undefinedType type => "type " ++ Bytes.ofNat type.toNat ++ " has no definition"

/-- Whether the program's tables contradict each other, which no program made by declarations
does. -/
def isInconsistent : Cause → Bool
  | .untyped => true
  | .undefinedType _ => true
  | _ => false

end Cause

/-- A piece of code: labels, entry points and instructions in order. -/
abbrev Code := List Fragment.Command

/-- Producing code: the state counts generated labels. -/
abbrev Lower := StateT Nat (Except Cause)

def fresh (scope : Bytes) : Lower Label := fun count =>
  .ok (Fragment.generatedLabel scope (count + 1), count + 1)

def freshFor {α : Type} (scope : Bytes) : List α → Lower (List Label)
  | [] => return []
  | _ :: items => do
    let label ← fresh scope
    let labels ← freshFor scope items
    return label :: labels

/-! ## Single instructions -/

def emit (instruction : Instruction) : Code :=
  [.emit instruction]

def plain (op : Opcode) : Code :=
  [.emit (.plain op)]

def bind (label : Label) : Code :=
  [.bind label]

def callTo (label : Label) (arguments : UInt8) (mode : CallMode) : Code :=
  emit (.call label arguments mode.code)

/-! ## Labels of functions -/

def funcLabel (id : FuncId) : Label :=
  "fn" ++ Bytes.ofNat id.toNat

def equalityLabel (type : TypeId) : Label :=
  "eq" ++ Bytes.ofNat type.toNat

def statementLabel (number : Nat) : Label :=
  "exec" ++ Bytes.ofNat number

/-! ## Operands that must fit in a byte -/

def slotByte (slot : SlotId) : Except Cause UInt8 :=
  if slot.toNat < 256 then .ok slot.toUInt8 else .error (.slotTooLarge slot)

def argumentByte (count : Nat) : Except Cause UInt8 :=
  if count < 256 then .ok count.toUInt8 else .error (.tooManyArguments count)

def sizeByte (count : Nat) : Except Cause UInt8 :=
  if count < 256 then .ok count.toUInt8 else .error (.tooManyFields count)

def fieldByte (position : Int) : Except Cause UInt8 :=
  if 0 ≤ position ∧ position < 256 then .ok position.toNat.toUInt8
  else .error (.fieldTooLarge position)

end WordMachine.Lowering
