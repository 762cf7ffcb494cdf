import WordMachine.Lowering.Equality
import WordMachine.Lowering.Expr

/-!
Code for whole programs: equality functions, user functions, then one entry point for each
statement. Every unit becomes a fragment of its own, and fragments are joined in that order.
-/

namespace WordMachine.Lowering

/-- A part of a program that becomes one fragment. -/
inductive CodeUnit where
  | equality (type : TypeId)
  | function (id : FuncId)
  | statement (number : Nat) (body : Statement)

namespace CodeUnit

/-- The signature of a function; an undeclared number has the empty one. -/
def signature (program : Program) (id : FuncId) : FuncDecl :=
  (program.func? id).getD {}

def name (program : Program) : CodeUnit → Bytes
  | .equality type => "eq:" ++ program.typeName type
  | .function id => "fn:" ++ (signature program id).name
  | .statement number _ => "exec:" ++ Bytes.ofNat number

def scope : CodeUnit → Bytes
  | .equality type => equalityLabel type
  | .function id => funcLabel id
  | .statement number _ => statementLabel number

def reserve (slots : SlotTable) : Except Cause Code :=
  if slots.isEmpty then .ok []
  else if slots.length < 256 then .ok (emit (.reserveConsts slots.length.toUInt8))
  else .error (.tooManySlots slots.length)

/-- Stores the arguments; the last one is on top of the stack. -/
def storeInputs (slots : SlotTable) : Except Cause Code :=
  (SlotTable.inputs slots).reverse.mapM fun slot =>
    return Fragment.Command.emit (.storeConst (← slotByte slot))

def code (program : Program) (unit : CodeUnit) : Lower Code := do
  match unit with
  | .equality type => equalityFunction program type
  | .function id =>
    let decl := signature program id
    match program.def? id with
    | none => throw .untyped
    | some definition =>
      let room ← reserve definition.slots
      let inputs ← storeInputs definition.slots
      let context : Context :=
        { program, scope := unit.scope, slots := definition.slots, func := some decl }
      let body ← lower context definition.body true
      return bind (funcLabel decl.id) ++ room ++ inputs ++ body ++ plain .ret ++ plain .fail
  | .statement number body =>
    let room ← reserve body.slots
    let context : Context := { program, scope := unit.scope, slots := body.slots, func := none }
    let body ← lower context body.expr false
    return bind (statementLabel number) ++ [.entry (statementLabel number)] ++ room ++ body ++
      plain .pop ++ plain .ret ++ plain .fail

def fragment (program : Program) (unit : CodeUnit) : Except Cause Fragment :=
  match (unit.code program).run 0 with
  | .ok (code, _) => .ok (code.foldl Fragment.apply (Fragment.empty unit.scope))
  | .error cause => .error cause

end CodeUnit

/-- Why a program has no assembly. -/
inductive Error where
  /-- A unit cannot be lowered; the unit has no name when the fault lies between units. -/
  | unit (name : Bytes) (cause : Cause)
  | labels (error : AssembleError)
  deriving DecidableEq

/-- Whether a lowering dies of an error and does not answer with it. -/
def Error.isFatal : Error → Bool
  | .unit _ cause => cause.isInconsistent
  | .labels _ => false

def Error.message : Error → Bytes
  | .unit name cause =>
    (if name.isEmpty then Bytes.concat ["codegen: "] else "codegen " ++ name ++ ": ") ++
      cause.message
  | .labels error => "codegen: " ++ error.message

def units (program : Program) : Except Error (List CodeUnit) :=
  match equalityTypes program with
  | .error cause => .error (.unit ByteArray.empty cause)
  | .ok types => .ok (types.map CodeUnit.equality ++ program.userFuncs.map CodeUnit.function ++
      program.statements.toList.zipIdx.map fun (body, number) => CodeUnit.statement number body)

/-- A unit whose code was produced: its name and the size of its code; none after a failure. -/
structure UnitReport where
  name : Bytes
  size : Option Nat

/-- Fragments of the units up to the first that cannot be lowered. -/
def fragments (program : Program) :
    List CodeUnit → List UnitReport × Except Error (List Fragment)
  | [] => ([], .ok [])
  | unit :: rest =>
    let name := unit.name program
    match unit.fragment program with
    | .error cause => ([⟨name, none⟩], .error (.unit name cause))
    | .ok fragment =>
      let (reports, result) := fragments program rest
      (⟨name, some fragment.code.size⟩ :: reports, result.map (fragment :: ·))

def link (parts : List Fragment) : Except Error Assembly :=
  match (parts.foldl Fragment.append (Fragment.empty ByteArray.empty)).close with
  | .ok assembly => .ok assembly
  | .error error => .error (.labels error)

/-- The outcome of lowering a program: what happened to each unit, and the assembly. -/
structure Outcome where
  /-- How many units there are; none when they could not be found. -/
  unitCount : Option Nat
  units : List UnitReport
  result : Except Error Assembly

def outcome (program : Program) : Outcome :=
  match units program with
  | .error error => ⟨none, [], .error error⟩
  | .ok all =>
    let (reports, parts) := fragments program all
    ⟨some all.length, reports, parts.bind link⟩

def generate (program : Program) : Except Error Assembly :=
  (outcome program).result

end WordMachine.Lowering
