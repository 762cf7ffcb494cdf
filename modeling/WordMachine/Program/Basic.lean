import WordMachine.Program.Expr
import WordMachine.Program.FuncKind

/-!
Programs: type and function tables, the bodies of user functions, and the statements that a run
carries out.
-/

namespace WordMachine

/-- A constant's role in its table. -/
inductive SlotKind where
  | input | boundInput | localValue
  deriving DecidableEq

def SlotKind.ofCode? (code : UInt8) : Option SlotKind :=
  match code with
  | 1 => some .input
  | 2 => some .boundInput
  | 3 => some .localValue
  | _ => none

/-- One constant of a function or statement. -/
structure SlotDecl where
  id : SlotId := 0
  name : Bytes := ByteArray.empty
  type : TypeId := 0
  kind : UInt8 := 0
  deriving DecidableEq

/-- The constants of one function in slot order: inputs, bound inputs, then locals. -/
abbrev SlotTable := List SlotDecl

namespace SlotTable

/-- A table of constants given by name, type and kind, numbered in order. -/
def ofList (slots : List (Bytes × TypeId × UInt8)) : SlotTable :=
  slots.zipIdx.map fun ((name, type, kind), number) =>
    { id := UInt32.ofNat number, name, type, kind }

def decl? (table : SlotTable) (slot : SlotId) : Option SlotDecl :=
  table[slot.toNat]?

/-- Constants of the given roles, in order. -/
def withKind (table : SlotTable) (keep : SlotKind → Bool) : List SlotId :=
  table.filterMap fun slot =>
    match SlotKind.ofCode? slot.kind with
    | some kind => if keep kind then some slot.id else none
    | none => none

def inputs (table : SlotTable) : List SlotId :=
  table.withKind (· != .localValue)

def freeInputs (table : SlotTable) : List SlotId :=
  table.withKind (· == .input)

def boundInputs (table : SlotTable) : List SlotId :=
  table.withKind (· == .boundInput)

end SlotTable

/-- The signature of a function. -/
structure FuncDecl where
  id : FuncId := 0
  name : Bytes := ByteArray.empty
  kind : UInt8 := 0
  input : Option (List TypeId) := none
  output : TypeId := 0
  deriving DecidableEq

/-- The body of a user function. -/
structure FuncDef where
  id : FuncId
  slots : SlotTable
  body : Expr

/-- A statement; each becomes one entry point. -/
structure Statement where
  slots : SlotTable
  expr : Expr

/-- A typed program. Definitions are found by the number they carry. -/
structure Program where
  types : Array TypeDecl := #[]
  structs : List StructDef := []
  unions : List UnionDef := []
  enums : List EnumDef := []
  delegates : List DelegateDef := []
  futures : List FutureDef := []
  lazies : List LazyDef := []
  funcs : Array FuncDecl := #[]
  defs : List FuncDef := []
  statements : Array Statement := #[]

namespace Program

/-- Adds an entry to a table, in place of one with the same number. -/
def put {α : Type} (id : α → UInt32) (table : List α) (entry : α) : List α :=
  if table.any (fun other => id other == id entry) then
    table.map fun other => if id other == id entry then entry else other
  else table ++ [entry]

def lookup {α : Type} (id : α → UInt32) (table : List α) (number : UInt32) : Option α :=
  table.find? fun entry => id entry == number

/-! ## Building -/

def declareType (program : Program) (kind : TypeKind) (name : Bytes) : TypeId × Program :=
  let id := UInt32.ofNat program.types.size
  (id, { program with types := program.types.push { id, kind := kind.code, name } })

def empty : Program :=
  TypeKind.builtin.foldl (fun program kind => (program.declareType kind kind.name).2) {}

/-- What a new type is made of. -/
inductive TypeBody where
  | struct (fields : Option (List FieldDecl))
  | union (members : Option (List TypeId))
  | enumeration (entries : Option (List EnumEntry))
  | delegate (input : Option (List TypeId)) (output : TypeId)
  | future (result : TypeId)
  | lazy (result : TypeId)

def declare (program : Program) (name : Bytes) (body : TypeBody) : Program :=
  match body with
  | .struct fields =>
    let (id, program) := program.declareType .struct name
    { program with structs := put StructDef.id program.structs { id, fields } }
  | .union members =>
    let (id, program) := program.declareType .union name
    { program with unions := put UnionDef.id program.unions { id, members } }
  | .enumeration entries =>
    let (id, program) := program.declareType .enumeration name
    { program with enums := put EnumDef.id program.enums { id, entries } }
  | .delegate input output =>
    let (id, program) := program.declareType .delegate name
    { program with delegates := put DelegateDef.id program.delegates { id, input, output } }
  | .future result =>
    let (id, program) := program.declareType .future name
    { program with futures := put FutureDef.id program.futures { id, result } }
  | .lazy result =>
    let (id, program) := program.declareType .lazy name
    { program with lazies := put LazyDef.id program.lazies { id, result } }

def declareFunc (program : Program) (name : Bytes) (kind : UInt8) (input : Option (List TypeId))
    (output : TypeId) : Program :=
  let id := UInt32.ofNat program.funcs.size
  { program with funcs := program.funcs.push { id, name, kind, input, output } }

def defineFunc (program : Program) (id : FuncId) (slots : SlotTable) (body : Expr) : Program :=
  { program with defs := put FuncDef.id program.defs { id, slots, body } }

def addStatement (program : Program) (slots : SlotTable) (expr : Expr) : Program :=
  { program with statements := program.statements.push { slots, expr } }

/-! ## Looking up -/

def type? (program : Program) (id : TypeId) : Option TypeDecl :=
  program.types[id.toNat]?

def kindCode (program : Program) (id : TypeId) : UInt8 :=
  (program.type? id).elim 0 TypeDecl.kind

def kind? (program : Program) (id : TypeId) : Option TypeKind :=
  TypeKind.ofCode? (program.kindCode id)

def typeName (program : Program) (id : TypeId) : Bytes :=
  match program.type? id with
  | some decl => decl.name
  | none => "type#" ++ Bytes.ofNat id.toNat

def func? (program : Program) (id : FuncId) : Option FuncDecl :=
  program.funcs[id.toNat]?

def struct? (program : Program) (id : TypeId) : Option StructDef :=
  lookup StructDef.id program.structs id

def union? (program : Program) (id : TypeId) : Option UnionDef :=
  lookup UnionDef.id program.unions id

def def? (program : Program) (id : FuncId) : Option FuncDef :=
  lookup FuncDef.id program.defs id

def fieldCount? (program : Program) (id : TypeId) : Option Nat :=
  (program.struct? id).map fun struct => (struct.fields.getD []).length

/-- Numbers of the user functions that have a body, in the order of their declarations. -/
def userFuncs (program : Program) : List FuncId :=
  program.funcs.toList.filterMap fun func =>
    if FuncKind.ofCode? func.kind == some .user && (program.def? func.id).isSome then some func.id
    else none

/-- A call of a declared function with its declared result type. -/
def call? (program : Program) (func : FuncId) (arguments : List Expr) : Option Expr :=
  (program.func? func).map fun decl => .call func arguments 0 decl.output

end Program

end WordMachine
