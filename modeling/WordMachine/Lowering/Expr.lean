import WordMachine.Lowering.Layout

/-!
Code for expressions. The code of an expression leaves its value on top of the stack; in tail
position a call replaces the current frame.
-/

namespace WordMachine.Lowering

/-- What an expression is lowered in. -/
structure Context where
  program : Program
  /-- Start of the labels generated here. -/
  scope : Bytes
  slots : SlotTable
  /-- The enclosing function; statements have none. -/
  func : Option FuncDecl

def typeOf (expr : Expr) : Except Cause TypeId :=
  match expr.type? with
  | some type => .ok type
  | none => .error .untyped

def positionMode (tail : Bool) : CallMode :=
  if tail then .tail else .normal

/-- What follows the argument code of a call to a built-in function, or of a user function. -/
def afterArguments (decl : FuncDecl) (arguments : List Expr) (mode : UInt8) (tail : Bool) :
    Except Cause Code := do
  match FuncKind.ofCode? decl.kind with
  | none => throw (.unsupportedKind decl.kind decl.name)
  | some kind =>
    if let some operations := kind.operations? then
      return operations.flatMap plain
    match kind with
    | .action call => return emit (.platformCall call.code)
    | .noOp =>
      if arguments.isEmpty then return emit (.loadInt 0)
      return (List.replicate (arguments.length - 1) (plain .pop)).flatten
    | .user =>
      let mode := match Activation.ofCode mode with
        | .fork => CallMode.forked
        | .lazy => CallMode.lazy
        | .normal => positionMode tail
      return callTo (funcLabel decl.id) (← argumentByte (decl.input.getD []).length) mode
    | .incrementInt => return emit (.loadInt 1) ++ plain .addInt
    | .decrementInt => return emit (.loadInt 1) ++ plain .subInt
    | .incrementLong => return emit (.loadLong 1) ++ plain .addLong
    | .decrementLong => return emit (.loadLong 1) ++ plain .subLong
    | .incrementFloat => return emit (.loadFloat 0x3f800000) ++ plain .addFloat
    | .decrementFloat => return emit (.loadFloat 0x3f800000) ++ plain .subFloat
    | .incrementChar => return emit (.loadInt 1) ++ plain .addInt ++ plain .intToChar
    | .decrementChar => return emit (.loadInt 1) ++ plain .subInt ++ plain .intToChar
    | .defaultInt => return emit (.loadInt 0)
    | .defaultBool => return emit (.loadInt 0)
    | .defaultLong => return emit (.loadLong 0)
    | .defaultFloat => return emit (.loadFloat 0)
    | .defaultString => return emit (.loadString ByteArray.empty)
    | .makeStruct =>
      match arguments with
      | [] => return emit (.loadInt 0)
      | [_] => return []
      | _ => return emit (.makeStruct (← sizeByte arguments.length))
    | .eqUserType => return callTo (equalityLabel (← operandType)) 2 (positionMode tail)
    | .neUserType => return callTo (equalityLabel (← operandType)) 2 .normal ++ plain .notInt
    | _ => throw (.unsupportedKind decl.kind decl.name)
where
  operandType : Except Cause TypeId := do
    match arguments with
    | [left, right] =>
      let type ← typeOf left
      if type == (← typeOf right) then return type
      throw .unequalOperands
    | _ => throw .unequalOperands

/-- What follows the operand's code of a field access. A struct with one field is its field. -/
def selectField (context : Context) (type : TypeId) (position : Int) : Except Cause Code := do
  let name := context.program.typeName type
  if context.program.kind? type != some .struct then
    throw (.fieldOfNonStruct name)
  match context.program.fieldCount? type with
  | some 0 => throw (.fieldOfEmpty name)
  | some 1 => return []
  | some count =>
    if position < 0 ∨ (count : Int) ≤ position then
      throw (.fieldOutOfRange position name)
    return emit (.loadField (← fieldByte position))
  | none => throw (.fieldOutOfRange position name)

def checkMember (context : Context) (union target : TypeId) : Except Cause Code := do
  match nullable? context.program union with
  | some nullable =>
    return plain .isNull ++ if target == nullable.structType then plain .notInt else []
  | none =>
    return emit (.loadField 0) ++
      emit (.loadInt (← memberNumber context.program union target)) ++ plain .eqInt

/-- What follows the operand's code of a union access: a bool, and on success the member's value in
the slot. -/
def getMember (context : Context) (union target : TypeId) (slot : UInt8) : Lower Code := do
  match nullable? context.program union with
  | some nullable =>
    return plain .dup ++ emit (.storeConst slot) ++ plain .isNull ++
      if target == nullable.structType then plain .notInt else []
  | none =>
    let same ← fresh context.scope
    let done ← fresh context.scope
    let number ← memberNumber context.program union target
    return plain .dup ++ emit (.loadField 0) ++ emit (.loadInt number) ++ plain .eqInt ++
      emit (.jumpIf same) ++
      plain .pop ++ emit (.loadInt 0) ++ emit (.jump done) ++
      bind same ++ emit (.loadField 1) ++ emit (.storeConst slot) ++ emit (.loadInt 1) ++
      bind done

/-- Whether a self call gives the enclosing function what it takes. -/
def checkSelf (context : Context) (arguments : List Expr) (result : TypeId) :
    Except Cause FuncDecl := do
  let name := context.program.typeName
  match context.func with
  | none => throw .selfOutside
  | some func =>
    if func.output != result then
      throw (.selfResult (name result) (name func.output))
    let free := SlotTable.freeInputs context.slots
    if arguments.length != free.length then
      throw (.selfCount arguments.length free.length)
    ((arguments.zip free).zipIdx).forM fun ((argument, slot), position) => do
      let given ← typeOf argument
      let expected := (SlotTable.decl? context.slots slot).elim 0 SlotDecl.type
      if given != expected then
        throw (.selfArgument position (name given) (name expected))
    return func

mutual

def lower (context : Context) : Expr → Bool → Lower Code
  | .missing, _ => throw .missingExpression
  | .assign slot value, _ => do
    let code ← lower context value false
    return code ++ plain .dup ++ emit (.storeConst (← slotByte slot))
  | .choose conditions branches, tail => do
    if branches.length != conditions.length + 1 then
      throw (.branchCount conditions.length branches.length)
    let labels ← freshFor context.scope conditions
    let done ← fresh context.scope
    let tests ← lowerConditions context conditions labels
    let otherwise ← lowerLast context branches tail
    let chosen ← lowerBranches context branches labels done tail
    return tests ++ otherwise ++ emit (.jump done) ++ chosen ++ bind done
  | .call func arguments mode result, tail => do
    match context.program.func? func with
    | none => throw (.undeclaredFunction func)
    | some decl =>
      if FuncKind.ofCode? decl.kind == some .makeUnion then
        match arguments with
        | [argument] =>
          let member ← typeOf argument
          match nullable? context.program result with
          | some nullable =>
            let code ← lower context argument false
            return code ++
              if member == nullable.nullType then plain .pop ++ plain .makeNull else []
          | none =>
            let number ← memberNumber context.program result member
            let code ← lower context argument false
            return emit (.loadInt number) ++ code ++ emit (.makeStruct 2)
        | _ => throw (.unionArguments arguments.length)
      else
        let code ← lowerAll context arguments
        return code ++ (← afterArguments decl arguments mode tail)
  | .callDynamic target arguments fork _, tail => do
    let argumentCode ← lowerAll context arguments
    let targetCode ← lower context target false
    let mode := if fork then CallMode.forked else positionMode tail
    return argumentCode ++ targetCode ++
      emit (.callDynamic (← argumentByte arguments.length) mode.code)
  | .callSelf arguments result, tail => do
    let func ← checkSelf context arguments result
    let code ← lowerAll context arguments
    let bound ← (SlotTable.boundInputs context.slots).mapM fun slot =>
      return Fragment.Command.emit (.loadConst (← slotByte slot))
    let count ← argumentByte (func.input.getD []).length
    return code ++ bound ++ callTo (funcLabel func.id) count (positionMode tail)
  | .closure func bound _, _ => do
    let code ← lowerAll context bound
    return code ++ emit (.loadAddress (funcLabel func)) ++
      emit (.makeStruct (← sizeByte (bound.length + 1)))
  | .slot slot _, _ => return emit (.loadConst (← slotByte slot))
  | .field operand position _, _ => do
    let code ← lower context operand false
    return code ++ (← selectField context (← typeOf operand) position.toInt)
  | .group items, tail => do
    if items.isEmpty then
      throw .emptyGroup
    lowerGroup context items tail
  | .unionCheck operand target, _ => do
    let code ← lower context operand false
    return code ++ (← checkMember context (← typeOf operand) target)
  | .unionGet operand target slot, _ => do
    let code ← lower context operand false
    let union ← typeOf operand
    let slot ← slotByte slot
    return code ++ (← getMember context union target slot)
  | .fail _, _ => return plain .fail
  | .bool value, _ => return emit (.loadInt (if value then 1 else 0))
  | .float bits, _ => return emit (.loadFloat bits)
  | .int value, _ => return emit (.loadInt value)
  | .long value, _ => return emit (.loadLong value)
  | .string value, _ => return emit (.loadString value)
  | .char value, _ => return emit (.loadInt value.toUInt32.toInt32)
  | .function func _, _ => return emit (.loadAddress (funcLabel func))
  | .enumeration _ value, _ => return emit (.loadInt value)

/-- Code that leaves the values of all expressions on the stack. -/
def lowerAll (context : Context) : List Expr → Lower Code
  | [] => return []
  | item :: items => do
    let code ← lower context item false
    let rest ← lowerAll context items
    return code ++ rest

def lowerGroup (context : Context) : List Expr → Bool → Lower Code
  | [], _ => return []
  | [last], tail => lower context last tail
  | item :: items, tail => do
    let code ← lower context item false
    let rest ← lowerGroup context items tail
    return code ++ plain .pop ++ rest

/-- Tests the conditions in order, jumping to the label of the first true one. -/
def lowerConditions (context : Context) : List Expr → List Label → Lower Code
  | condition :: conditions, label :: labels => do
    let code ← lower context condition false
    let rest ← lowerConditions context conditions labels
    return code ++ emit (.jumpIf label) ++ rest
  | _, _ => return []

def lowerLast (context : Context) : List Expr → Bool → Lower Code
  | [], _ => return []
  | [last], tail => lower context last tail
  | _ :: items, tail => lowerLast context items tail

/-- The labelled branches; all but the last of them jump to the end. -/
def lowerBranches (context : Context) : List Expr → List Label → Label → Bool → Lower Code
  | branch :: branches, label :: labels, done, tail => do
    let code ← lower context branch tail
    let rest ← lowerBranches context branches labels done tail
    return bind label ++ code ++ (if labels.isEmpty then [] else emit (.jump done)) ++ rest
  | _, _, _, _ => return []

end

end WordMachine.Lowering
