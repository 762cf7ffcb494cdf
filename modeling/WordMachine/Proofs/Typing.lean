import WordMachine.Proofs.Evaluation

/-!
Well-typed programs: every expression fits the tables of its program, and is built from the
expressions and functions that direct evaluation covers. Which user functions may be used is a
parameter, so that functions a statement never reaches need not fit.
-/

namespace WordMachine.Evaluation

/-! ## Shapes of types -/

/-- What the values of a type look like. -/
inductive TypeShape where
  | scalar (scalar : Scalar)
  | struct (fields : List TypeId)
  | union (members : List TypeId)
  | delegate (input : List TypeId) (output : TypeId)
  | lazy (result : TypeId)
  deriving DecidableEq

/-- The shape of a type; futures and streams have none. -/
def shape? (program : Program) (type : TypeId) : Option TypeShape :=
  match program.kind? type with
  | some .int | some .bool | some .char | some .enumeration => some (.scalar .int)
  | some .long => some (.scalar .long)
  | some .float => some (.scalar .float)
  | some .string => some (.scalar .string)
  | some .struct =>
    (program.struct? type).map fun definition =>
      .struct ((definition.fields.getD []).map FieldDecl.type)
  | some .union =>
    (program.union? type).map fun definition => .union (definition.members.getD [])
  | some .delegate =>
    (Program.lookup DelegateDef.id program.delegates type).map fun definition =>
      .delegate (definition.input.getD []) definition.output
  | some .lazy =>
    (Program.lookup LazyDef.id program.lazies type).map fun definition =>
      .lazy definition.result
  | _ => none

def hasScalar (program : Program) (type : TypeId) (scalar : Scalar) : Bool :=
  shape? program type == some (.scalar scalar)

def haveScalars (program : Program) : List TypeId → List Scalar → Bool
  | [], [] => true
  | type :: types, scalar :: scalars =>
    hasScalar program type scalar && haveScalars program types scalars
  | _, _ => false

/-! ## Calls -/

/-- Whether an action on the platform has the given signature. -/
def actionFits (program : Program) (call : PlatformCall) (input : List TypeId)
    (output : TypeId) : Bool :=
  match call with
  | .writeChar => haveScalars program input [.int] && hasScalar program output .int
  | .writeString | .writeLine =>
    haveScalars program input [.string] && hasScalar program output .string
  | .assert => haveScalars program input [.int, .string] && hasScalar program output .int
  | _ => false

/-- Whether a built-in function has the given signature. -/
def kindFits (program : Program) (kind : FuncKind) (input : List TypeId) (output : TypeId) :
    Bool :=
  match operation? kind with
  | some operation =>
    haveScalars program input operation.inputs && hasScalar program output operation.output
  | none =>
    match kind, input with
    | .noOp, [] => hasScalar program output .int
    | .noOp, first :: _ =>
      first == output || (hasScalar program first .int && hasScalar program output .int)
    | .makeStruct, fields => shape? program output == some (.struct fields)
    | .makeUnion, [member] =>
      match shape? program output with
      | some (.union members) => members.contains member
      | _ => false
    | .force, [type] => shape? program type == some (.lazy output)
    | .eqUserType, [left, right] => left == right && hasScalar program output .int
    | .neUserType, [left, right] => left == right && hasScalar program output .int
    | .action call, input => actionFits program call input output
    | _, _ => false

/-- Whether a function is a user function with a body that may be used. -/
def isUsable (program : Program) (usable : FuncId → Bool) (decl : FuncDecl) : Bool :=
  FuncKind.ofCode? decl.kind == some .user && (program.def? decl.id).isSome && usable decl.id

/-- Whether a call with arguments of the given types has a result type. What a built-in function
takes is known from its kind. -/
def callFits (program : Program) (usable : FuncId → Bool) (decl : FuncDecl)
    (arguments : List TypeId) (mode : UInt8) (result : TypeId) : Bool :=
  match FuncKind.ofCode? decl.kind with
  | none => false
  | some .user =>
    isUsable program usable decl && arguments == decl.input.getD [] &&
      match Activation.ofCode mode with
      | .normal => result == decl.output
      | .lazy => shape? program result == some (.lazy decl.output)
      | .fork => false
  | some kind => kindFits program kind arguments result

/-- Whether a function with some last arguments given has a delegate type. -/
def delegateFits (program : Program) (usable : FuncId → Bool) (func : FuncId)
    (bound : List TypeId) (delegate : TypeId) : Bool :=
  match program.func? func, shape? program delegate with
  | some decl, some (.delegate input output) =>
    isUsable program usable decl && decl.input.getD [] == input ++ bound && decl.output == output
  | _, _ => false

/-! ## Expressions -/

namespace Scope

variable (scope : Scope)

def slotType? (slot : SlotId) : Option TypeId :=
  (SlotTable.decl? scope.slots slot).map SlotDecl.type

def slotTypes (slots : List SlotId) : List TypeId :=
  slots.filterMap scope.slotType?

end Scope

def typesOf (items : List Expr) : List TypeId :=
  items.filterMap Expr.type?

mutual

/-- Whether an expression fits the tables. -/
def isTyped (scope : Scope) (usable : FuncId → Bool) : Expr → Bool
  | .missing => false
  | .assign slot value =>
    isTyped scope usable value && value.type? == scope.slotType? slot
  | .choose conditions branches =>
    areTyped scope usable conditions && areTyped scope usable branches &&
      branches.length == conditions.length + 1 &&
      (typesOf conditions).all (hasScalar scope.program · .int) &&
      branches.all fun branch => branch.type? == (branches.head?.bind Expr.type?)
  | .call func arguments mode result =>
    areTyped scope usable arguments &&
      match scope.program.func? func with
      | some decl => callFits scope.program usable decl (typesOf arguments) mode result
      | none => false
  | .callDynamic target arguments fork result =>
    areTyped scope usable arguments && isTyped scope usable target && !fork &&
      target.type?.bind (shape? scope.program) == some (.delegate (typesOf arguments) result)
  | .callSelf arguments result =>
    areTyped scope usable arguments &&
      match scope.func with
      | some decl =>
        isUsable scope.program usable decl && decl.output == result &&
          typesOf arguments == scope.slotTypes (SlotTable.freeInputs scope.slots)
      | none => false
  | .closure func bound delegate =>
    areTyped scope usable bound &&
      delegateFits scope.program usable func (typesOf bound) delegate
  | .slot slot type => scope.slotType? slot == some type
  | .field operand position type =>
    isTyped scope usable operand &&
      match operand.type?.bind (shape? scope.program) with
      | some (.struct fields) =>
        0 ≤ position.toInt && fields[position.toInt.toNat]? == some type
      | _ => false
  | .group items => areTyped scope usable items && !items.isEmpty
  | .unionCheck operand target =>
    isTyped scope usable operand &&
      match operand.type?.bind (shape? scope.program) with
      | some (.union members) => members.contains target
      | _ => false
  | .unionGet operand target slot =>
    isTyped scope usable operand && scope.slotType? slot == some target &&
      match operand.type?.bind (shape? scope.program) with
      | some (.union members) => members.contains target
      | _ => false
  | .function func delegate => delegateFits scope.program usable func [] delegate
  | .enumeration type _ => scope.program.kind? type == some .enumeration
  | .fail _ => true
  | .bool _ => true
  | .float _ => true
  | .int _ => true
  | .long _ => true
  | .string _ => true
  | .char _ => true

def areTyped (scope : Scope) (usable : FuncId → Bool) : List Expr → Bool
  | [] => true
  | item :: items => isTyped scope usable item && areTyped scope usable items

end

/-! ## Programs -/

/-- Whether every constant carries its position as its number. -/
def isNumbered (slots : SlotTable) : Bool :=
  slots.zipIdx.all fun (slot, position) => slot.id.toNat == position

/-- Whether the built-in types have their numbers, declarations carry their positions as theirs,
and definitions are those of types of their kind. Member numbers have 32 bits. -/
def tablesFit (program : Program) : Bool :=
  program.kind? TypeId.int == some .int && program.kind? TypeId.long == some .long &&
    program.kind? TypeId.float == some .float && program.kind? TypeId.bool == some .bool &&
    program.kind? TypeId.char == some .char && program.kind? TypeId.string == some .string &&
    program.funcs.toList.zipIdx.all (fun (decl, position) => decl.id.toNat == position) &&
    program.structs.all (fun definition => program.kind? definition.id == some .struct) &&
    program.unions.all (fun definition => program.kind? definition.id == some .union &&
      (definition.members.getD []).length ≤ 4294967296)

/-- Whether a function's body fits its signature. Inputs that a closure gives come last. -/
def functionFits (program : Program) (usable : FuncId → Bool) (decl : FuncDecl)
    (definition : FuncDef) : Bool :=
  let scope : Scope := { program, slots := definition.slots, func := some decl }
  isNumbered definition.slots &&
    SlotTable.inputs definition.slots ==
      SlotTable.freeInputs definition.slots ++ SlotTable.boundInputs definition.slots &&
    scope.slotTypes (SlotTable.inputs definition.slots) == decl.input.getD [] &&
    isTyped scope usable definition.body && definition.body.type? == some decl.output

def statementFits (program : Program) (usable : FuncId → Bool) (statement : Statement) : Bool :=
  isNumbered statement.slots &&
    isTyped { program, slots := statement.slots, func := none } usable statement.expr

def programFits (program : Program) (usable : FuncId → Bool) : Bool :=
  tablesFit program &&
    program.funcs.toList.all fun decl =>
      match program.def? decl.id with
      | some definition =>
        !isUsable program usable decl || functionFits program usable decl definition
      | none => true

end WordMachine.Evaluation
