import WordMachine.Lowering.Layout

/-!
Equality of structs and unions. Each such type that a program compares has a function of two
arguments that returns a bool.
-/

namespace WordMachine.Lowering

def compareValues (program : Program) (type : TypeId) : Except Cause Code :=
  match program.kind? type with
  | some .int | some .bool | some .char | some .enumeration => .ok (plain .eqInt)
  | some .long => .ok (plain .eqLong)
  | some .float => .ok (plain .eqFloat)
  | some .string => .ok (plain .eqString)
  | some .struct | some .union => .ok (callTo (equalityLabel type) 2 .normal)
  | _ => .error (.noEquality (program.typeName type))

def loadBoth (position : UInt8) : Code :=
  emit (.loadConst 0) ++ emit (.loadField position) ++ emit (.loadConst 1) ++
    emit (.loadField position)

/-- Returns a constant from an equality function. -/
def answer (value : Int32) : Code :=
  emit (.loadInt value) ++ plain .ret

def compareFields (program : Program) (scope : Bytes) : Nat → List FieldDecl → Lower Code
  | _, [] => return []
  | position, field :: fields => do
    let next ← fresh scope
    let load := loadBoth (← fieldByte position)
    let compare ← compareValues program field.type
    let rest ← compareFields program scope (position + 1) fields
    return load ++ compare ++ emit (.jumpIf next) ++ answer 0 ++ bind next ++ rest

def structEquality (program : Program) (scope : Bytes) (fields : List FieldDecl) : Lower Code := do
  match fields with
  | [] => return answer 1
  | [field] =>
    return emit (.loadConst 0) ++ emit (.loadConst 1) ++ (← compareValues program field.type) ++
      plain .ret
  | _ => return (← compareFields program scope 0 fields) ++ answer 1

def selectMember (scope : Bytes) : Nat → List TypeId → Lower (Code × List Label)
  | _, [] => return ([], [])
  | number, _ :: members => do
    let label ← fresh scope
    let (rest, labels) ← selectMember scope (number + 1) members
    return (emit (.loadConst 0) ++ emit (.loadField 0) ++ emit (.loadInt (Int32.ofNat number)) ++
      plain .eqInt ++ emit (.jumpIf label) ++ rest, label :: labels)

def compareMembers (program : Program) (equal : Label) : List (TypeId × Label) → Except Cause Code
  | [] => return []
  | (member, label) :: members => do
    let compare ← compareValues program member
    let rest ← compareMembers program equal members
    return bind label ++ loadBoth 1 ++ compare ++ emit (.jumpIf equal) ++ answer 0 ++ rest

def unionEquality (program : Program) (scope : Bytes) (members : List TypeId) : Lower Code := do
  let sameMember ← fresh scope
  let equal ← fresh scope
  let (select, labels) ← selectMember scope 0 members
  let compare ← compareMembers program equal (members.zip labels)
  return loadBoth 0 ++ plain .eqInt ++ emit (.jumpIf sameMember) ++ answer 0 ++
    bind sameMember ++ select ++ plain .fail ++ compare ++ bind equal ++ answer 1

def nullableEquality (scope : Bytes) (nullable : Nullable) : Lower Code := do
  let leftNull ← fresh scope
  let rightNull ← fresh scope
  return emit (.loadConst 0) ++ plain .isNull ++ emit (.jumpIf leftNull) ++
    emit (.loadConst 1) ++ plain .isNull ++ emit (.jumpIf rightNull) ++
    emit (.loadConst 0) ++ emit (.loadConst 1) ++
    callTo (equalityLabel nullable.structType) 2 .tail ++
    bind leftNull ++ emit (.loadConst 1) ++ plain .isNull ++ plain .ret ++
    bind rightNull ++ answer 0

def equalityFunction (program : Program) (type : TypeId) : Lower Code := do
  let scope := equalityLabel type
  let body ← match program.kind? type with
    | some .struct =>
      match program.struct? type with
      | some definition => structEquality program scope (definition.fields.getD [])
      | none => throw (.undefinedType type)
    | some .union =>
      match nullable? program type, program.union? type with
      | some nullable, _ => nullableEquality scope nullable
      | none, some definition => unionEquality program scope (definition.members.getD [])
      | none, none => throw (.undefinedType type)
    | _ => throw (.noEquality (program.typeName type))
  return bind (equalityLabel type) ++ emit (.reserveConsts 2) ++ emit (.storeConst 1) ++
    emit (.storeConst 0) ++ body ++ plain .fail

/-! ## Which types are compared -/

def comparedParts (program : Program) (type : TypeId) : Except Cause (List TypeId) :=
  match program.kind? type with
  | some .struct =>
    match program.struct? type with
    | some definition =>
      .ok (((definition.fields.getD []).map FieldDecl.type).filter (isUserType program))
    | none => .error (.undefinedType type)
  | some .union =>
    match program.union? type with
    | some definition => .ok ((definition.members.getD []).filter (isUserType program))
    | none => .error (.undefinedType type)
  | _ => .error (.noEquality (program.typeName type))

def reachTypes (program : Program) : Nat → List TypeId → List TypeId → Except Cause (List TypeId)
  | 0, _, found => .ok found
  | _ + 1, [], found => .ok found
  | fuel + 1, type :: pending, found => do
    if found.contains type then
      reachTypes program fuel pending found
    else
      let parts ← comparedParts program type
      reachTypes program fuel (parts ++ pending) (type :: found)

/-- An upper bound on the steps of `reachTypes`: every type is expanded once. -/
def reachBound (program : Program) : Nat :=
  let fields := program.structs.foldl (fun count type => count + (type.fields.getD []).length) 2
  program.unions.foldl (fun count type => count + (type.members.getD []).length) fields

def comparedOperand? (program : Program) : Expr → Option Expr
  | .call func [left, _] _ _ =>
    match (program.func? func).bind fun decl => FuncKind.ofCode? decl.kind with
    | some .eqUserType => some left
    | some .neUserType => some left
    | _ => none
  | _ => none

/-- Every type that needs an equality function, in increasing order. -/
def equalityTypes (program : Program) : Except Cause (List TypeId) := do
  let bodies := program.userFuncs.filterMap fun id => (program.def? id).map FuncDef.body
  let statements := program.statements.toList.map Statement.expr
  let operands := (bodies ++ statements).flatMap fun expr =>
    (expr.walk fun _ => true).filterMap (comparedOperand? program)
  let found ← operands.foldlM
    (fun found operand => do
      match operand.type? with
      | none => throw .untyped
      | some type => reachTypes program (reachBound program) [type] found)
    []
  return found.mergeSort (· ≤ ·)

end WordMachine.Lowering
