import WordMachine.Machine.Step
import WordMachine.Program.Basic

/-!
Direct evaluation of expressions: what a typed expression means, with no code in between. Values are
trees; only lazy calls have an identity, since their value is computed once. Calls of user functions
use up fuel, so that an evaluation always ends. It ends the program by a division by zero, a failed
assertion or a failure that the program asks for, and in no other way.
-/

namespace WordMachine.Evaluation

open Number

/-! ## Values -/

/-- What operators work on. Bools, chars and entries of enums are ints. -/
inductive Scalar where
  | int | long | float | string
  deriving DecidableEq, Repr

@[reducible]
def Scalar.Carrier : Scalar → Type
  | .int => Int32
  | .long => Int64
  | .float => Single
  | .string => Bytes

inductive Value where
  | int (value : Int32)
  | long (value : Int64)
  | float (bits : Single)
  | string (text : Bytes)
  | struct (fields : List Value)
  | union (member : TypeId) (value : Value)
  /-- A function with the arguments already given to it, which follow the others. -/
  | function (func : FuncId) (bound : List Value)
  | lazy (cell : Nat)
  deriving Inhabited

namespace Value

def ofScalar : (scalar : Scalar) → scalar.Carrier → Value
  | .int, value => .int value
  | .long, value => .long value
  | .float, bits => .float bits
  | .string, text => .string text

def toScalar? : (scalar : Scalar) → Value → Option scalar.Carrier
  | .int, .int value => some value
  | .long, .long value => some value
  | .float, .float bits => some bits
  | .string, .string text => some text
  | _, _ => none

mutual

/-- Structural equality. Floats are compared as numbers; functions and lazy calls are never
compared. -/
def equal : Value → Value → Bool
  | .int left, .int right => left == right
  | .long left, .long right => left == right
  | .float left, .float right => Single.eq left right
  | .string left, .string right => left == right
  | .struct left, .struct right => equalAll left right
  | .union leftMember left, .union rightMember right =>
    leftMember == rightMember && equal left right
  | _, _ => false

def equalAll : List Value → List Value → Bool
  | [], [] => true
  | left :: lefts, right :: rights => equal left right && equalAll lefts rights
  | _, _ => false

end

end Value

/-! ## Outcomes -/

/-- Why an evaluation has no value. -/
inductive Stop where
  | ended (state : ExecState)
  | unset (slot : SlotId)
  | illTyped
  | outOfFuel
  deriving DecidableEq

/-- A lazy call. -/
inductive Cell where
  | pending (func : FuncId) (arguments : List Value)
  | forced (value : Value)
  deriving Inhabited

/-- What an evaluation leaves behind. -/
structure Effects where
  output : Bytes := ByteArray.empty
  errors : Bytes := ByteArray.empty
  cells : Array Cell := #[]

/-- A computation outside of any function's constants. -/
abbrev Action := EStateM Stop Effects

/-- How a user function is called. -/
abbrev Invoke := FuncId → List Value → Action Value

/-! ## Built-in operators -/

/-- An operator: the scalars it takes and gives and the function it computes. A division has no
result for a divisor of zero. -/
inductive Operation where
  | constant (output : Scalar) (value : output.Carrier)
  | unary (input output : Scalar) (apply : input.Carrier → output.Carrier)
  | binary (left right output : Scalar) (apply : left.Carrier → right.Carrier → output.Carrier)
  | division (scalar : Scalar) (isZero : scalar.Carrier → Bool)
      (apply : scalar.Carrier → scalar.Carrier → scalar.Carrier)
  /-- The part of a text between two positions. -/
  | slicing

/-- The part of a text between two positions that are bounded to it. -/
def sliceText (text : Bytes) (first last : Int32) : Bytes :=
  let range := clampRange text.size first last
  text.extract range.1 range.2

namespace Operation

def inputs : Operation → List Scalar
  | .constant _ _ => []
  | .unary input _ _ => [input]
  | .binary left right _ _ => [left, right]
  | .division scalar _ _ => [scalar, scalar]
  | .slicing => [.string, .int, .int]

def output : Operation → Scalar
  | .constant output _ => output
  | .unary _ output _ => output
  | .binary _ _ output _ => output
  | .division scalar _ _ => scalar
  | .slicing => .string

def apply (operation : Operation) (values : List Value) : Except Stop Value :=
  match operation, values with
  | .constant output value, [] => .ok (.ofScalar output value)
  | .unary input output apply, [value] =>
    match value.toScalar? input with
    | some value => .ok (.ofScalar output (apply value))
    | none => .error .illTyped
  | .binary leftScalar rightScalar output apply, [left, right] =>
    match left.toScalar? leftScalar, right.toScalar? rightScalar with
    | some left, some right => .ok (.ofScalar output (apply left right))
    | _, _ => .error .illTyped
  | .division scalar isZero apply, [left, right] =>
    match left.toScalar? scalar, right.toScalar? scalar with
    | some left, some right =>
      if isZero right then .error (.ended .divByZero)
      else .ok (.ofScalar scalar (apply left right))
    | _, _ => .error .illTyped
  | .slicing, [.string text, .int first, .int last] => .ok (.string (sliceText text first last))
  | _, _ => .error .illTyped

end Operation

def flag (value : Bool) : Int32 :=
  if value then 1 else 0

def charOf (byte : UInt8) : Int32 :=
  Int32.ofNat byte.toNat

def intBinary (apply : Int32 → Int32 → Int32) : Operation :=
  .binary .int .int .int apply

def intTest (test : Int32 → Int32 → Bool) : Operation :=
  .binary .int .int .int fun left right => flag (test left right)

def longBinary (apply : Int64 → Int64 → Int64) : Operation :=
  .binary .long .long .long apply

def longTest (test : Int64 → Int64 → Bool) : Operation :=
  .binary .long .long .int fun left right => flag (test left right)

def floatUnary (apply : Single → Single) : Operation :=
  .unary .float .float apply

def floatBinary (apply : Single → Single → Single) : Operation :=
  .binary .float .float .float apply

def floatTest (test : Single → Single → Bool) : Operation :=
  .binary .float .float .int fun left right => flag (test left right)

def stringTest (test : Bytes → Bytes → Bool) : Operation :=
  .binary .string .string .int fun left right => flag (test left right)

/-- The operator a kind of function stands for. A float is at most another if it is not greater,
also when one of them is no number. -/
def operation? : FuncKind → Option Operation
  | .addInt => some (intBinary (· + ·))
  | .subInt => some (intBinary (· - ·))
  | .mulInt => some (intBinary (· * ·))
  | .divInt => some (.division .int (· == 0) fun (left right : Int32) => left / right)
  | .remInt => some (.division .int (· == 0) fun (left right : Int32) => left % right)
  | .negInt => some (.unary .int .int fun (value : Int32) => -value)
  | .incrementInt => some (.unary .int .int fun (value : Int32) => value + 1)
  | .decrementInt => some (.unary .int .int fun (value : Int32) => value - 1)
  | .shiftLeft => some (intBinary (· <<< ·))
  | .shiftRight => some (intBinary (· >>> ·))
  | .andInt => some (intBinary (· &&& ·))
  | .orInt => some (intBinary (· ||| ·))
  | .xorInt => some (intBinary (· ^^^ ·))
  | .complement => some (.unary .int .int fun (value : Int32) => ~~~value)
  | .eqInt => some (intTest fun left right => left == right)
  | .neInt => some (intTest fun left right => left != right)
  | .ltInt => some (intTest fun left right => left < right)
  | .leInt => some (intTest fun left right => left ≤ right)
  | .gtInt => some (intTest fun left right => right < left)
  | .geInt => some (intTest fun left right => right ≤ left)
  | .addLong => some (longBinary (· + ·))
  | .subLong => some (longBinary (· - ·))
  | .mulLong => some (longBinary (· * ·))
  | .divLong => some (.division .long (· == 0) fun (left right : Int64) => left / right)
  | .remLong => some (.division .long (· == 0) fun (left right : Int64) => left % right)
  | .negLong => some (.unary .long .long fun (value : Int64) => -value)
  | .incrementLong => some (.unary .long .long fun (value : Int64) => value + 1)
  | .decrementLong => some (.unary .long .long fun (value : Int64) => value - 1)
  | .eqLong => some (longTest fun left right => left == right)
  | .neLong => some (longTest fun left right => left != right)
  | .ltLong => some (longTest fun left right => left < right)
  | .leLong => some (longTest fun left right => left ≤ right)
  | .gtLong => some (longTest fun left right => right < left)
  | .geLong => some (longTest fun left right => right ≤ left)
  | .addFloat => some (floatBinary Single.add)
  | .subFloat => some (floatBinary Single.sub)
  | .mulFloat => some (floatBinary Single.mul)
  | .divFloat => some (.division .float Single.isZero Single.div)
  | .modFloat => some (.division .float Single.isZero Single.rem)
  | .powFloat => some (floatBinary Single.pow)
  | .sqrtFloat => some (floatUnary Single.sqrt)
  | .sinFloat => some (floatUnary Single.sin)
  | .cosFloat => some (floatUnary Single.cos)
  | .tanFloat => some (floatUnary Single.tan)
  | .asinFloat => some (floatUnary Single.asin)
  | .acosFloat => some (floatUnary Single.acos)
  | .atanFloat => some (floatUnary Single.atan)
  | .atan2Float => some (floatBinary Single.atan2)
  | .negFloat => some (floatUnary Single.neg)
  | .incrementFloat => some (floatUnary fun value => Single.add value Single.one)
  | .decrementFloat => some (floatUnary fun value => Single.sub value Single.one)
  | .eqFloat => some (floatTest Single.eq)
  | .neFloat => some (floatTest fun left right => !Single.eq left right)
  | .ltFloat => some (floatTest Single.lt)
  | .leFloat => some (floatTest fun left right => !Single.gt left right)
  | .gtFloat => some (floatTest Single.gt)
  | .geFloat => some (floatTest fun left right => !Single.lt left right)
  | .notBool => some (.unary .int .int fun (value : Int32) => flag (value == 0))
  | .eqBool => some (intTest fun left right => left == right)
  | .neBool => some (intTest fun left right => left != right)
  | .concat => some (.binary .string .string .string fun (left right : Bytes) => left ++ right)
  | .length => some (.unary .string .int fun (text : Bytes) => Int32.ofNat text.size)
  | .index => some (.binary .string .int .int fun text position => charOf (textIndex text position))
  | .slice => some .slicing
  | .eqString => some (stringTest fun left right => left == right)
  | .neString => some (stringTest fun left right => left != right)
  | .combineChars => some (.binary .int .int .string fun left right =>
    Bytes.ofList [Exec.byteOf left, Exec.byteOf right])
  | .appendChar => some (.binary .string .int .string fun (text : Bytes) char =>
    text.push (Exec.byteOf char))
  | .incrementChar => some (.unary .int .int fun (value : Int32) =>
    charOf (Exec.byteOf (value + 1)))
  | .decrementChar => some (.unary .int .int fun (value : Int32) =>
    charOf (Exec.byteOf (value - 1)))
  | .intToLong => some (.unary .int .long Int32.toInt64)
  | .intToFloat => some (.unary .int .float Single.ofInt)
  | .longToInt => some (.unary .long .int Int64.toInt32)
  | .floatToInt => some (.unary .float .int Single.toInt)
  | .intToString => some (.unary .int .string fun (value : Int32) => Bytes.ofInt value.toInt)
  | .longToString => some (.unary .long .string fun (value : Int64) => Bytes.ofInt value.toInt)
  | .floatToString => some (.unary .float .string displayText)
  | .boolToString => some (.unary .int .string fun (value : Int32) =>
    (if value != 0 then "true" else "false").toUTF8)
  | .charToString => some (.unary .int .string fun value => Bytes.singleton (Exec.byteOf value))
  | .intToChar => some (.unary .int .int fun value => charOf (Exec.byteOf value))
  | .floatToChar => some (.unary .float .int fun value => charOf (Exec.byteOf (Single.toInt value)))
  | .defaultInt => some (.constant .int 0)
  | .defaultBool => some (.constant .int 0)
  | .defaultLong => some (.constant .long 0)
  | .defaultFloat => some (.constant .float 0)
  | .defaultString => some (.constant .string ByteArray.empty)
  | _ => none

/-! ## Built-in functions -/

def writeOutput (text : Bytes) : Action Unit :=
  modify fun effects => { effects with output := effects.output ++ text }

def writeErrors (text : Bytes) : Action Unit :=
  modify fun effects => { effects with errors := effects.errors ++ text }

/-- Records a call that is made when its value is first asked for. -/
def delay (func : FuncId) (arguments : List Value) : Action Value := do
  let cell := (← get).cells.size
  modify fun effects => { effects with cells := effects.cells.push (.pending func arguments) }
  return .lazy cell

/-- The value of a lazy call. The first request makes the call and keeps its value. -/
def force (invoke : Invoke) (cell : Nat) : Action Value := do
  match (← get).cells[cell]? with
  | none => throw .illTyped
  | some (.forced value) => return value
  | some (.pending func arguments) =>
    let value ← invoke func arguments
    match (← get).cells[cell]? with
    | some (.forced first) => return first
    | _ =>
      modify fun effects =>
        { effects with cells := effects.cells.setIfInBounds cell (.forced value) }
      return value

/-- What is written is also the result. -/
def act (call : PlatformCall) (values : List Value) : Action Value := do
  match call, values with
  | .writeChar, [.int char] =>
    writeOutput (Bytes.singleton (Exec.byteOf char))
    return .int char
  | .writeString, [.string text] =>
    writeOutput text
    return .string text
  | .writeLine, [.string text] =>
    writeOutput (text.push 10)
    return .string text
  | .assert, [.int condition, .string message] =>
    if condition == 0 then
      writeErrors ("Assertion failed: " ++ message ++ "\n")
      throw (.ended .assertFailed)
    return .int condition
  | _, _ => throw .illTyped

/-- The result of a built-in function other than the construction of a union. -/
def builtin (invoke : Invoke) (kind : FuncKind) (values : List Value) : Action Value := do
  match operation? kind with
  | some operation =>
    match operation.apply values with
    | .ok value => return value
    | .error stop => throw stop
  | none =>
    match kind, values with
    | .noOp, [] => return .int 0
    | .noOp, first :: _ => return first
    | .makeStruct, fields => return .struct fields
    | .force, [.lazy cell] => force invoke cell
    | .eqUserType, [left, right] => return .int (flag (left.equal right))
    | .neUserType, [left, right] => return .int (flag (!left.equal right))
    | .action call, values => act call values
    | _, _ => throw .illTyped

/-! ## Expressions -/

/-- What an expression is evaluated in. -/
structure Scope where
  program : Program
  slots : SlotTable
  /-- The enclosing function; statements have none. -/
  func : Option FuncDecl

/-- The constants of a function or statement that have a value, and the effects so far. -/
structure State where
  locals : SlotId → Option Value
  effects : Effects

abbrev Eval := EStateM Stop State

def perform {α : Type} (action : Action α) : Eval α :=
  fun state =>
    match action state.effects with
    | .ok value effects => .ok value { state with effects }
    | .error stop effects => .error stop { state with effects }

def setLocal (slot : SlotId) (value : Option Value) : Eval Unit :=
  modify fun state =>
    { state with locals := fun other => if other = slot then value else state.locals other }

def getLocal (slot : SlotId) : Eval Value := do
  match (← get).locals slot with
  | some value => return value
  | none => throw (.unset slot)

def getLocals : List SlotId → Eval (List Value)
  | [] => return []
  | slot :: slots => do
    let value ← getLocal slot
    let values ← getLocals slots
    return value :: values

/-- Calls a declared function. Only a call of a user function can be delayed; a union is made of
the type of its operand. -/
def callDeclared (invoke : Invoke) (decl : FuncDecl) (arguments : List Expr) (mode : UInt8)
    (values : List Value) : Action Value :=
  match FuncKind.ofCode? decl.kind with
  | some .user =>
    match Activation.ofCode mode with
    | .normal => invoke decl.id values
    | .lazy => delay decl.id values
    | .fork => throw .illTyped
  | some .makeUnion =>
    match arguments.map Expr.type?, values with
    | [some member], [value] => return .union member value
    | _, _ => throw .illTyped
  | some kind => builtin invoke kind values
  | none => throw .illTyped

mutual

def evaluate (scope : Scope) (invoke : Invoke) : Expr → Eval Value
  | .missing => throw .illTyped
  | .assign slot value => do
    let result ← evaluate scope invoke value
    setLocal slot (some result)
    return result
  | .choose conditions branches => do
    let position ← countUntilHolds scope invoke conditions
    evaluateAt scope invoke branches position
  | .call func arguments mode _ => do
    match scope.program.func? func with
    | none => throw .illTyped
    | some decl =>
      let values ← evaluateAll scope invoke arguments
      perform (callDeclared invoke decl arguments mode values)
  | .callDynamic target arguments _ _ => do
    let values ← evaluateAll scope invoke arguments
    match ← evaluate scope invoke target with
    | .function func bound => perform (invoke func (values ++ bound))
    | _ => throw .illTyped
  | .callSelf arguments _ => do
    match scope.func with
    | none => throw .illTyped
    | some func =>
      let values ← evaluateAll scope invoke arguments
      let bound ← getLocals (SlotTable.boundInputs scope.slots)
      perform (invoke func.id (values ++ bound))
  | .closure func bound _ => do
    let values ← evaluateAll scope invoke bound
    return .function func values
  | .slot slot _ => getLocal slot
  | .field operand position _ => do
    match ← evaluate scope invoke operand with
    | .struct fields =>
      match fields[position.toInt.toNat]? with
      | some value => return value
      | none => throw .illTyped
    | _ => throw .illTyped
  | .group items => evaluateGroup scope invoke items
  | .unionCheck operand target => do
    match ← evaluate scope invoke operand with
    | .union member _ => return .int (flag (member == target))
    | _ => throw .illTyped
  | .unionGet operand target slot => do
    match ← evaluate scope invoke operand with
    | .union member value =>
      setLocal slot (if member == target then some value else none)
      return .int (flag (member == target))
    | _ => throw .illTyped
  | .fail _ => throw (.ended .invalidAssembly)
  | .bool value => return .int (flag value)
  | .float bits => return .float bits
  | .int value => return .int value
  | .long value => return .long value
  | .string text => return .string text
  | .char byte => return .int (charOf byte)
  | .function func _ => return .function func []
  | .enumeration _ value => return .int value

def evaluateAll (scope : Scope) (invoke : Invoke) : List Expr → Eval (List Value)
  | [] => return []
  | item :: items => do
    let value ← evaluate scope invoke item
    let values ← evaluateAll scope invoke items
    return value :: values

def evaluateGroup (scope : Scope) (invoke : Invoke) : List Expr → Eval Value
  | [] => throw .illTyped
  | [last] => evaluate scope invoke last
  | item :: items => do
    let _ ← evaluate scope invoke item
    evaluateGroup scope invoke items

/-- How many conditions come before the first that holds. -/
def countUntilHolds (scope : Scope) (invoke : Invoke) : List Expr → Eval Nat
  | [] => return 0
  | condition :: conditions => do
    match ← evaluate scope invoke condition with
    | .int holds =>
      if holds != 0 then return 0
      return (← countUntilHolds scope invoke conditions) + 1
    | _ => throw .illTyped

def evaluateAt (scope : Scope) (invoke : Invoke) : List Expr → Nat → Eval Value
  | [], _ => throw .illTyped
  | item :: _, 0 => evaluate scope invoke item
  | _ :: items, position + 1 => evaluateAt scope invoke items position

end

/-! ## Functions and statements -/

def evaluateBody (scope : Scope) (invoke : Invoke) (body : Expr)
    (locals : SlotId → Option Value) : Action Value :=
  fun effects =>
    match evaluate scope invoke body ⟨locals, effects⟩ with
    | .ok value state => .ok value state.effects
    | .error stop state => .error stop state.effects

def bindInputs (slots : SlotTable) (arguments : List Value) : SlotId → Option Value :=
  fun slot => ((SlotTable.inputs slots).zip arguments).lookup slot

/-- Calls a user function; calls may be nested as deep as there is fuel. -/
def invoke (program : Program) : Nat → Invoke
  | 0 => fun _ _ => throw .outOfFuel
  | fuel + 1 => fun func arguments =>
    match program.func? func, program.def? func with
    | some decl, some definition =>
      evaluateBody { program, slots := definition.slots, func := some decl }
        (invoke program fuel) definition.body (bindInputs definition.slots arguments)
    | _, _ => throw .illTyped

/-- Evaluates a statement, whose constants have no values at first. -/
def run (program : Program) (fuel : Nat) (statement : Statement) : Action Value :=
  evaluateBody { program, slots := statement.slots, func := none } (invoke program fuel)
    statement.expr fun _ => none

/-! ## Endings -/

/-- Whether a state is one of a program that failed. -/
def IsFailure (state : ExecState) : Prop :=
  state = .divByZero ∨ state = .assertFailed ∨ state = .invalidAssembly

theorem IsFailure.isTerminal {state : ExecState} (failure : IsFailure state) :
    state.isTerminal = true := by
  rcases failure with rfl | rfl | rfl <;> rfl

/-- Whether a computation can only end a program in a failure. -/
def Fails {state value : Type} (action : EStateM Stop state value) : Prop :=
  ∀ start ending after, action start = .error (.ended ending) after → IsFailure ending

section

variable {state value result : Type}

theorem fails_pure (given : value) : Fails (pure given : EStateM Stop state value) :=
  nofun

theorem fails_throw {stop : Stop} (fails : ∀ ending, stop = .ended ending → IsFailure ending) :
    Fails (throw stop : EStateM Stop state value) := by
  rintro start ending after ⟨⟩
  exact fails ending rfl

theorem fails_illTyped : Fails (throw .illTyped : EStateM Stop state value) :=
  fails_throw nofun

theorem Fails.bind {first : EStateM Stop state value} {next : value → EStateM Stop state result}
    (fails : Fails first) (rest : ∀ given, Fails (next given)) : Fails (first >>= next) := by
  intro start ending after ended
  change EStateM.bind first next start = _ at ended
  unfold EStateM.bind at ended
  split at ended
  · next given middle _ => exact rest given middle ending after ended
  · next stop middle failed =>
    cases ended
    exact fails start ending after failed

theorem fails_get : Fails (get : EStateM Stop state state) :=
  nofun

theorem fails_modify (change : state → state) : Fails (modify change : EStateM Stop state Unit) :=
  nofun

end

/-! ### Built-in functions -/

theorem Operation.apply_fails {operation : Operation} {values : List Value} {ending : ExecState}
    (failed : operation.apply values = .error (.ended ending)) : IsFailure ending := by
  unfold Operation.apply at failed
  split at failed
  · cases failed
  · split at failed <;> cases failed
  · split at failed <;> cases failed
  · split at failed
    · split at failed
      · cases failed
        exact Or.inl rfl
      · cases failed
    · cases failed
  · cases failed
  · cases failed

theorem fails_act (call : PlatformCall) (values : List Value) : Fails (act call values) := by
  unfold act
  split
  · exact (fails_modify _).bind fun _ => fails_pure _
  · exact (fails_modify _).bind fun _ => fails_pure _
  · exact (fails_modify _).bind fun _ => fails_pure _
  · split
    · refine (fails_modify _).bind fun _ => fails_throw ?_
      rintro ending ⟨⟩
      exact Or.inr (Or.inl rfl)
    · exact fails_pure _
  · exact fails_illTyped

section

variable {call : Invoke}

theorem fails_force (calls : ∀ func values, Fails (call func values)) (cell : Nat) :
    Fails (force call cell) := by
  unfold force
  refine fails_get.bind fun effects => ?_
  split
  · exact fails_illTyped
  · exact fails_pure _
  · refine (calls _ _).bind fun value => fails_get.bind fun later => ?_
    split
    · exact fails_pure _
    · exact (fails_modify _).bind fun _ => fails_pure _

theorem fails_builtin (calls : ∀ func values, Fails (call func values)) (kind : FuncKind)
    (values : List Value) : Fails (builtin call kind values) := by
  unfold builtin
  split
  · split
    · exact fails_pure _
    · next stop failed =>
      refine fails_throw ?_
      rintro ending rfl
      exact Operation.apply_fails failed
  · split
    · exact fails_pure _
    · exact fails_pure _
    · exact fails_pure _
    · exact fails_force calls _
    · exact fails_pure _
    · exact fails_pure _
    · exact fails_act _ _
    · exact fails_illTyped

theorem fails_callDeclared (calls : ∀ func values, Fails (call func values)) (decl : FuncDecl)
    (arguments : List Expr) (mode : UInt8) (values : List Value) :
    Fails (callDeclared call decl arguments mode values) := by
  unfold callDeclared
  split
  · split
    · exact calls _ _
    · exact fails_get.bind fun _ => (fails_modify _).bind fun _ => fails_pure _
    · exact fails_illTyped
  · split
    · exact fails_pure _
    · exact fails_illTyped
  · exact fails_builtin calls _ _
  · exact fails_illTyped

/-! ### Expressions -/

theorem Fails.perform {value : Type} {action : Action value} (fails : Fails action) :
    Fails (perform action) := by
  intro start ending after ended
  unfold Evaluation.perform at ended
  split at ended
  · cases ended
  · next stop effects failed =>
    cases ended
    exact fails _ _ _ failed

theorem fails_getLocal (slot : SlotId) : Fails (getLocal slot) := by
  unfold getLocal
  refine fails_get.bind fun state => ?_
  split
  · exact fails_pure _
  · exact fails_throw nofun

theorem fails_getLocals (slots : List SlotId) : Fails (getLocals slots) := by
  induction slots with
  | nil => exact fails_pure _
  | cons slot slots ih =>
    exact (fails_getLocal slot).bind fun _ => ih.bind fun _ => fails_pure _

attribute [local simp] evaluate evaluateAll evaluateGroup countUntilHolds evaluateAt

mutual

theorem fails_evaluate (scope : Scope) (calls : ∀ func values, Fails (call func values)) :
    ∀ expr : Expr, Fails (evaluate scope call expr)
  | .missing => by
    rw [evaluate]
    exact fails_illTyped
  | .assign slot value => by
    rw [evaluate]
    exact (fails_evaluate scope calls value).bind fun _ =>
      (fails_modify _).bind fun _ => fails_pure _
  | .choose conditions branches => by
    rw [evaluate]
    exact (fails_countUntilHolds scope calls conditions).bind
      (fails_evaluateAt scope calls branches)
  | .call func arguments mode result => by
    rw [evaluate]
    split
    · exact fails_illTyped
    · exact (fails_evaluateAll scope calls arguments).bind fun _ =>
        (fails_callDeclared calls _ _ _ _).perform
  | .callDynamic target arguments fork result => by
    rw [evaluate]
    refine (fails_evaluateAll scope calls arguments).bind fun _ =>
      (fails_evaluate scope calls target).bind fun value => ?_
    split
    · exact (calls _ _).perform
    · exact fails_illTyped
  | .callSelf arguments result => by
    rw [evaluate]
    split
    · exact fails_illTyped
    · exact (fails_evaluateAll scope calls arguments).bind fun _ =>
        (fails_getLocals _).bind fun _ => (calls _ _).perform
  | .closure func bound delegate => by
    rw [evaluate]
    exact (fails_evaluateAll scope calls bound).bind fun _ => fails_pure _
  | .slot slot type => by
    rw [evaluate]
    exact fails_getLocal slot
  | .field operand position type => by
    rw [evaluate]
    refine (fails_evaluate scope calls operand).bind fun value => ?_
    split
    · split
      · exact fails_pure _
      · exact fails_illTyped
    · exact fails_illTyped
  | .group items => by
    rw [evaluate]
    exact fails_evaluateGroup scope calls items
  | .unionCheck operand target => by
    rw [evaluate]
    refine (fails_evaluate scope calls operand).bind fun value => ?_
    split
    · exact fails_pure _
    · exact fails_illTyped
  | .unionGet operand target slot => by
    rw [evaluate]
    refine (fails_evaluate scope calls operand).bind fun value => ?_
    split
    · exact (fails_modify _).bind fun _ => fails_pure _
    · exact fails_illTyped
  | .fail _ => by
    rw [evaluate]
    refine fails_throw ?_
    rintro ending ⟨⟩
    exact Or.inr (Or.inr rfl)
  | .bool _ | .float _ | .int _ | .long _ | .string _ | .char _ | .function _ _
  | .enumeration _ _ => by
    rw [evaluate]
    exact fails_pure _

theorem fails_evaluateAll (scope : Scope) (calls : ∀ func values, Fails (call func values)) :
    ∀ items : List Expr, Fails (evaluateAll scope call items)
  | [] => by
    rw [evaluateAll]
    exact fails_pure _
  | item :: items => by
    rw [evaluateAll]
    exact (fails_evaluate scope calls item).bind fun _ =>
      (fails_evaluateAll scope calls items).bind fun _ => fails_pure _

theorem fails_evaluateGroup (scope : Scope) (calls : ∀ func values, Fails (call func values)) :
    ∀ items : List Expr, Fails (evaluateGroup scope call items)
  | [] => by
    rw [evaluateGroup]
    exact fails_illTyped
  | [last] => by
    rw [evaluateGroup]
    exact fails_evaluate scope calls last
  | item :: second :: items => by
    rw [evaluateGroup.eq_3 _ _ _ _ (by simp)]
    exact (fails_evaluate scope calls item).bind fun _ =>
      fails_evaluateGroup scope calls (second :: items)

theorem fails_countUntilHolds (scope : Scope) (calls : ∀ func values, Fails (call func values)) :
    ∀ conditions : List Expr, Fails (countUntilHolds scope call conditions)
  | [] => by
    rw [countUntilHolds]
    exact fails_pure _
  | condition :: conditions => by
    rw [countUntilHolds]
    refine (fails_evaluate scope calls condition).bind fun value => ?_
    split
    · split
      · exact fails_pure _
      · exact (fails_countUntilHolds scope calls conditions).bind fun _ => fails_pure _
    · exact fails_illTyped

theorem fails_evaluateAt (scope : Scope) (calls : ∀ func values, Fails (call func values)) :
    ∀ (items : List Expr) (position : Nat), Fails (evaluateAt scope call items position)
  | [], _ => by
    rw [evaluateAt]
    exact fails_illTyped
  | item :: _, 0 => by
    rw [evaluateAt]
    exact fails_evaluate scope calls item
  | _ :: items, position + 1 => by
    rw [evaluateAt]
    exact fails_evaluateAt scope calls items position

end

end

/-! ### Functions and statements -/

theorem fails_evaluateBody {scope : Scope} {call : Invoke}
    (calls : ∀ func values, Fails (call func values)) (body : Expr)
    (locals : SlotId → Option Value) : Fails (evaluateBody scope call body locals) := by
  intro start ending after ended
  unfold evaluateBody at ended
  split at ended
  · cases ended
  · next stop state failed =>
    cases ended
    exact fails_evaluate scope calls body _ _ _ failed

theorem fails_invoke (program : Program) (fuel : Nat) (func : FuncId) (values : List Value) :
    Fails (invoke program fuel func values) := by
  induction fuel generalizing func values with
  | zero => exact fails_throw nofun
  | succ fuel ih =>
    simp only [invoke]
    split
    · exact fails_evaluateBody ih _ _
    · exact fails_illTyped

theorem fails_run (program : Program) (fuel : Nat) (statement : Statement) :
    Fails (run program fuel statement) :=
  fails_evaluateBody (fails_invoke program fuel) _ _

end WordMachine.Evaluation
