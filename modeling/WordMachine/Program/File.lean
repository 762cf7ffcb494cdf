import WordMachine.MessagePack.Record
import WordMachine.Program.Basic
import WordMachine.Text.Quoted

/-!
Program files: one MessagePack record with a signature, a version and the tables of a program.
Expressions are stored as a flat node with optional parts, so a file may hold nodes that no
expression has; those are refused.
-/

namespace WordMachine.Program

open MessagePack

/-- The stored form of an expression. Parts that a form does not use are zero and left out. -/
structure Node where
  form : UInt8 := 0
  type : UInt32 := 0
  func : UInt32 := 0
  slot : UInt32 := 0
  number : Int64 := 0
  float : UInt32 := 0
  text : Bytes := ByteArray.empty
  kids : List Node := []
  alternatives : List Node := []
  deriving Inhabited

/-- What is wrong with a stored or missing expression. -/
inductive NodeError where
  | missing
  | operandCount (form : UInt8) (count : Nat)
  | branchCount (conditions branches : Nat)
  | emptyGroup
  | unknownForm (form : UInt8)
  deriving DecidableEq

def NodeError.message : NodeError → Bytes
  | .missing => "nil expression"
  | .operandCount form count =>
    "expression kind " ++ Bytes.ofNat form.toNat ++ ": expected 1 operand, got " ++
      Bytes.ofNat count
  | .branchCount conditions branches =>
    "switch: " ++ Bytes.ofNat conditions ++ " conditions, " ++ Bytes.ofNat branches ++
      " branches"
  | .emptyGroup => "empty group"
  | .unknownForm form => "unknown expression kind " ++ Bytes.ofNat form.toNat

mutual

def Node.ofExpr : Expr → Except NodeError Node
  | .missing => .error .missing
  | .assign slot value => do
    return { form := 1, slot, kids := [← Node.ofExpr value] }
  | .choose conditions branches => do
    let kids ← Node.ofExprs conditions
    let alternatives ← Node.ofExprs branches
    return { form := 2, kids, alternatives }
  | .call func arguments mode result => do
    return { form := 3, func, type := result, number := mode.toUInt64.toInt64
             kids := ← Node.ofExprs arguments }
  | .callDynamic target arguments fork result => do
    let target ← Node.ofExpr target
    let alternatives ← Node.ofExprs arguments
    return { form := 4, type := result, number := if fork then 1 else 0, kids := [target]
             alternatives }
  | .callSelf arguments result => do
    return { form := 5, type := result, kids := ← Node.ofExprs arguments }
  | .closure func bound delegate => do
    return { form := 6, func, type := delegate, kids := ← Node.ofExprs bound }
  | .slot slot type => .ok { form := 7, slot, type }
  | .field operand position type => do
    return { form := 8, type, number := position, kids := [← Node.ofExpr operand] }
  | .group items => do
    return { form := 9, kids := ← Node.ofExprs items }
  | .unionCheck operand target => do
    return { form := 10, type := target, kids := [← Node.ofExpr operand] }
  | .unionGet operand target slot => do
    return { form := 11, type := target, slot, kids := [← Node.ofExpr operand] }
  | .fail type => .ok { form := 12, type }
  | .bool value => .ok { form := 13, number := if value then 1 else 0 }
  | .float bits => .ok { form := 14, float := bits }
  | .int value => .ok { form := 15, number := value.toInt64 }
  | .long value => .ok { form := 16, number := value }
  | .string value => .ok { form := 17, text := value }
  | .char value => .ok { form := 18, number := value.toUInt64.toInt64 }
  | .function func delegate => .ok { form := 19, func, type := delegate }
  | .enumeration type value => .ok { form := 20, type, number := value.toInt64 }

def Node.ofExprs : List Expr → Except NodeError (List Node)
  | [] => .ok []
  | item :: items => do
    let item ← Node.ofExpr item
    let items ← Node.ofExprs items
    return item :: items

end

def oneOperand (form : UInt8) : List Expr → Except NodeError Expr
  | [operand] => .ok operand
  | operands => .error (.operandCount form operands.length)

mutual

def Node.toExpr : Node → Except NodeError Expr
  | { form, type, func, slot, number, float, text, kids, alternatives } => do
    let kids ← Node.toExprs kids
    match form with
    | 1 => return .assign slot (← oneOperand form kids)
    | 2 =>
      let branches ← Node.toExprs alternatives
      if branches.length != kids.length + 1 then
        throw (.branchCount kids.length branches.length)
      return .choose kids branches
    | 3 => return .call func kids number.toUInt64.toUInt8 type
    | 4 =>
      let target ← oneOperand form kids
      let arguments ← Node.toExprs alternatives
      return .callDynamic target arguments (number != 0) type
    | 5 => return .callSelf kids type
    | 6 => return .closure func kids type
    | 7 => return .slot slot type
    | 8 => return .field (← oneOperand form kids) number type
    | 9 => if kids.isEmpty then throw .emptyGroup else return .group kids
    | 10 => return .unionCheck (← oneOperand form kids) type
    | 11 => return .unionGet (← oneOperand form kids) type slot
    | 12 => return .fail type
    | 13 => return .bool (number != 0)
    | 14 => return .float float
    | 15 => return .int number.toInt32
    | 16 => return .long number
    | 17 => return .string text
    | 18 => return .char number.toUInt64.toUInt8
    | 19 => return .function func type
    | 20 => return .enumeration type number.toInt32
    | _ => throw (.unknownForm form)

def Node.toExprs : List Node → Except NodeError (List Expr)
  | [] => .ok []
  | node :: nodes => do
    let item ← node.toExpr
    let items ← Node.toExprs nodes
    return item :: items

end

/-! ## Nodes as values -/

/-- Whether a float part is left out: both zeros are. -/
def isZeroSingle (bits : UInt32) : Bool :=
  bits &&& 0x7fffffff == 0

def partIf (present : Bool) (name : String) (value : Value) : List (String × Value) :=
  if present then [(name, value)] else []

mutual

def Node.toValue : Node → Value
  | { form, type, func, slot, number, float, text, kids, alternatives } =>
    record (
      [("k", .u8 form)] ++ partIf (type != 0) "t" (.u32 type) ++
      partIf (func != 0) "f" (.u32 func) ++ partIf (slot != 0) "c" (.u32 slot) ++
      partIf (number != 0) "i" (.i64 number) ++
      partIf (!isZeroSingle float) "x" (.f32 (quietSingle float)) ++
      partIf (!text.isEmpty) "s" (.str text) ++
      partIf (!kids.isEmpty) "a" (.array (Node.toValues kids)) ++
      partIf (!alternatives.isEmpty) "b" (.array (Node.toValues alternatives)))

def Node.toValues : List Node → List Value
  | [] => []
  | node :: nodes => node.toValue :: Node.toValues nodes

end

def presentList {α : Type} (read : Meaning α) : Meaning (List α) := fun values =>
  (Meaning.list read values).map fun items => items.getD []

def Node.read : Nat → Meaning Node
  | 0 => fun _ => none
  | depth + 1 => readRecord ["k", "t", "f", "c", "i", "x", "s", "a", "b"] fun field => do
    let form ← Meaning.u8 (field "k")
    let type ← Meaning.u32 (field "t")
    let func ← Meaning.u32 (field "f")
    let slot ← Meaning.u32 (field "c")
    let number ← Meaning.i64 (field "i")
    let float ← Meaning.single (field "x")
    let text ← Meaning.text (field "s")
    let kids ← presentList (Node.read depth) (field "a")
    let alternatives ← presentList (Node.read depth) (field "b")
    return { form, type, func, slot, number, float, text, kids, alternatives }

/-! ## The parts of a program -/

def TypeDecl.read : Meaning TypeDecl := readRecord ["id", "kind", "name"] fun field => do
  let id ← Meaning.u32 (field "id")
  let kind ← Meaning.u8 (field "kind")
  let name ← Meaning.text (field "name")
  return { id, kind, name }

def TypeDecl.toValue (decl : TypeDecl) : Value :=
  record [("id", .u32 decl.id), ("kind", .u8 decl.kind), ("name", .str decl.name)]

def FieldDecl.read : Meaning FieldDecl := readRecord ["name", "type"] fun field => do
  let name ← Meaning.text (field "name")
  let type ← Meaning.u32 (field "type")
  return { name, type }

def FieldDecl.toValue (decl : FieldDecl) : Value :=
  record [("name", .str decl.name), ("type", .u32 decl.type)]

def StructDef.read : Meaning StructDef := readRecord ["id", "fields"] fun field => do
  let id ← Meaning.u32 (field "id")
  let fields ← Meaning.list FieldDecl.read (field "fields")
  return { id, fields }

def StructDef.toValue (decl : StructDef) : Value :=
  record [("id", .u32 decl.id), ("fields", list FieldDecl.toValue decl.fields)]

def UnionDef.read : Meaning UnionDef := readRecord ["id", "types"] fun field => do
  let id ← Meaning.u32 (field "id")
  let members ← Meaning.list Meaning.u32 (field "types")
  return { id, members }

def UnionDef.toValue (decl : UnionDef) : Value :=
  record [("id", .u32 decl.id), ("types", list Value.u32 decl.members)]

def EnumEntry.read : Meaning EnumEntry := readRecord ["name", "value"] fun field => do
  let name ← Meaning.text (field "name")
  let value ← Meaning.i32 (field "value")
  return { name, value }

def EnumEntry.toValue (decl : EnumEntry) : Value :=
  record [("name", .str decl.name), ("value", .i32 decl.value)]

def EnumDef.read : Meaning EnumDef := readRecord ["id", "entries"] fun field => do
  let id ← Meaning.u32 (field "id")
  let entries ← Meaning.list EnumEntry.read (field "entries")
  return { id, entries }

def EnumDef.toValue (decl : EnumDef) : Value :=
  record [("id", .u32 decl.id), ("entries", list EnumEntry.toValue decl.entries)]

def DelegateDef.read : Meaning DelegateDef := readRecord ["id", "input", "output"] fun field => do
  let id ← Meaning.u32 (field "id")
  let input ← Meaning.list Meaning.u32 (field "input")
  let output ← Meaning.u32 (field "output")
  return { id, input, output }

def DelegateDef.toValue (decl : DelegateDef) : Value :=
  record [("id", .u32 decl.id), ("input", list Value.u32 decl.input), ("output", .u32 decl.output)]

def FutureDef.read : Meaning FutureDef := readRecord ["id", "result"] fun field => do
  let id ← Meaning.u32 (field "id")
  let result ← Meaning.u32 (field "result")
  return { id, result }

def FutureDef.toValue (decl : FutureDef) : Value :=
  record [("id", .u32 decl.id), ("result", .u32 decl.result)]

def LazyDef.read : Meaning LazyDef := readRecord ["id", "result"] fun field => do
  let id ← Meaning.u32 (field "id")
  let result ← Meaning.u32 (field "result")
  return { id, result }

def LazyDef.toValue (decl : LazyDef) : Value :=
  record [("id", .u32 decl.id), ("result", .u32 decl.result)]

def FuncDecl.read : Meaning FuncDecl :=
  readRecord ["id", "name", "kind", "input", "output"] fun field => do
  let id ← Meaning.u32 (field "id")
  let name ← Meaning.text (field "name")
  let kind ← Meaning.u8 (field "kind")
  let input ← Meaning.list Meaning.u32 (field "input")
  let output ← Meaning.u32 (field "output")
  return { id, name, kind, input, output }

def FuncDecl.toValue (decl : FuncDecl) : Value :=
  record [("id", .u32 decl.id), ("name", .str decl.name), ("kind", .u8 decl.kind),
    ("input", list Value.u32 decl.input), ("output", .u32 decl.output)]

def SlotDecl.read : Meaning SlotDecl := readRecord ["id", "name", "type", "kind"] fun field => do
  let id ← Meaning.u32 (field "id")
  let name ← Meaning.text (field "name")
  let type ← Meaning.u32 (field "type")
  let kind ← Meaning.u8 (field "kind")
  return { id, name, type, kind }

def SlotDecl.toValue (decl : SlotDecl) : Value :=
  record [("id", .u32 decl.id), ("name", .str decl.name), ("type", .u32 decl.type),
    ("kind", .u8 decl.kind)]

def listIfAny {α : Type} (write : α → Value) (items : List α) : Value :=
  list write (if items.isEmpty then none else some items)

def SlotTable.toValue (table : SlotTable) : Value :=
  record [("decls", listIfAny SlotDecl.toValue table)]

def SlotTable.read : Meaning SlotTable := readRecord ["decls"] fun field =>
  presentList SlotDecl.read (field "decls")

/-- A function body or statement with its constants. -/
structure StoredBody where
  id : UInt32 := 0
  slots : SlotTable := []
  node : Node := {}

/-! ## Files -/

/-- What a program file holds. -/
structure Contents where
  magic : Bytes := ByteArray.empty
  schema : UInt16 := 0
  types : Option (List TypeDecl) := none
  structs : Option (List StructDef) := none
  unions : Option (List UnionDef) := none
  enums : Option (List EnumDef) := none
  delegates : Option (List DelegateDef) := none
  futures : Option (List FutureDef) := none
  lazies : Option (List LazyDef) := none
  funcs : Option (List FuncDecl) := none
  defs : Option (List StoredBody) := none
  statements : Option (List StoredBody) := none

def StoredBody.readDef (depth : Nat) : Meaning StoredBody :=
  readRecord ["id", "consts", "body"] fun field => do
    let id ← Meaning.u32 (field "id")
    let slots ← SlotTable.read (field "consts")
    let node ← Node.read depth (field "body")
    return { id, slots, node }

def StoredBody.readStatement (depth : Nat) : Meaning StoredBody :=
  readRecord ["consts", "expr"] fun field => do
    let slots ← SlotTable.read (field "consts")
    let node ← Node.read depth (field "expr")
    return { slots, node }

/-- The fields of a file, in the order they are written. -/
def Contents.names : List String :=
  ["magic", "schema", "types", "structs", "unions", "enums", "delegates", "futures", "lazies",
    "funcs", "defs", "execs"]

/-- Reads the contents of a file whose expressions are at most `depth` levels deep. -/
def Contents.read (depth : Nat) : Meaning Contents := readRecord Contents.names fun field => do
  let magic ← Meaning.text (field "magic")
  let schema ← Meaning.u16 (field "schema")
  let types ← Meaning.list TypeDecl.read (field "types")
  let structs ← Meaning.list StructDef.read (field "structs")
  let unions ← Meaning.list UnionDef.read (field "unions")
  let enums ← Meaning.list EnumDef.read (field "enums")
  let delegates ← Meaning.list DelegateDef.read (field "delegates")
  let futures ← Meaning.list FutureDef.read (field "futures")
  let lazies ← Meaning.list LazyDef.read (field "lazies")
  let funcs ← Meaning.list FuncDecl.read (field "funcs")
  let defs ← Meaning.list (StoredBody.readDef depth) (field "defs")
  let statements ← Meaning.list (StoredBody.readStatement depth) (field "execs")
  return {
    magic, schema, types, structs, unions, enums, delegates, futures, lazies, funcs, defs
    statements }

def Contents.toValue (file : Contents) : Value :=
  record
    [("magic", .str file.magic), ("schema", .u16 file.schema),
      ("types", list TypeDecl.toValue file.types),
      ("structs", list StructDef.toValue file.structs),
      ("unions", list UnionDef.toValue file.unions),
      ("enums", list EnumDef.toValue file.enums),
      ("delegates", list DelegateDef.toValue file.delegates),
      ("futures", list FutureDef.toValue file.futures),
      ("lazies", list LazyDef.toValue file.lazies),
      ("funcs", list FuncDecl.toValue file.funcs),
      ("defs", list (fun body => record
        [("id", .u32 body.id), ("consts", SlotTable.toValue body.slots),
          ("body", body.node.toValue)]) file.defs),
      ("execs", list (fun body => record
        [("consts", SlotTable.toValue body.slots), ("expr", body.node.toValue)]) file.statements)]

/-- Why a program cannot be saved, or bytes are not a program file. -/
inductive FileError where
  | malformed (reason : Bytes)
  | wrongMagic (magic : Bytes)
  | wrongSchema (schema : UInt16)
  | unsavedBody (name : Bytes) (error : NodeError)
  | badBody (id : FuncId) (error : NodeError)
  | badStatement (number : Nat) (error : NodeError)
  deriving DecidableEq

def schemaVersion : UInt16 := 1

def magic : Bytes := "novus-prog"

def FileError.message : FileError → Bytes
  | .malformed reason => "decode program: " ++ reason
  | .wrongMagic magic => "not a program file (magic " ++ Text.quote magic ++ ")"
  | .wrongSchema schema =>
    "program schema mismatch: file has " ++ Bytes.ofNat schema.toNat ++ ", expected " ++
      Bytes.ofNat schemaVersion.toNat
  | .unsavedBody name error => "func " ++ name ++ ": " ++ error.message
  | .badBody id error => "func #" ++ Bytes.ofNat id.toNat ++ ": " ++ error.message
  | .badStatement number error => "exec " ++ Bytes.ofNat number ++ ": " ++ error.message

def someIfAny {α : Type} (items : List α) : Option (List α) :=
  if items.isEmpty then none else some items

def definitionsOf {α : Type} (program : Program) (kind : TypeKind) (id : α → UInt32)
    (table : List α) : Option (List α) :=
  someIfAny (program.types.toList.filterMap fun decl =>
    if decl.kind == kind.code then lookup id table decl.id else none)

def storeDef (program : Program) (func : FuncDecl) : Except FileError (Option StoredBody) :=
  match program.def? func.id with
  | none => .ok none
  | some body =>
    match Node.ofExpr body.body with
    | .ok node => .ok (some { id := body.id, slots := body.slots, node })
    | .error error => .error (.unsavedBody func.name error)

def storeStatement (entry : Statement × Nat) : Except FileError StoredBody :=
  match Node.ofExpr entry.1.expr with
  | .ok node => .ok { slots := entry.1.slots, node }
  | .error error => .error (.badStatement entry.2 error)

def contents (program : Program) : Except FileError Contents := do
  let defs ← program.funcs.toList.mapM program.storeDef
  let statements ← program.statements.toList.zipIdx.mapM storeStatement
  return {
    magic
    schema := schemaVersion
    types := someIfAny program.types.toList
    structs := program.definitionsOf .struct StructDef.id program.structs
    unions := program.definitionsOf .union UnionDef.id program.unions
    enums := program.definitionsOf .enumeration EnumDef.id program.enums
    delegates := program.definitionsOf .delegate DelegateDef.id program.delegates
    futures := program.definitionsOf .future FutureDef.id program.futures
    lazies := program.definitionsOf .lazy LazyDef.id program.lazies
    funcs := someIfAny program.funcs.toList
    defs := someIfAny (defs.filterMap fun body => body)
    statements := someIfAny statements }

def save (program : Program) : Except FileError Bytes :=
  program.contents.map fun file => file.toValue.toBytes

def addDef (program : Program) (body : StoredBody) : Except FileError Program :=
  match body.node.toExpr with
  | .ok expr => .ok (program.defineFunc body.id body.slots expr)
  | .error error => .error (.badBody body.id error)

def addStored (program : Program) (entry : StoredBody × Nat) : Except FileError Program :=
  match entry.1.node.toExpr with
  | .ok expr => .ok (program.addStatement entry.1.slots expr)
  | .error error => .error (.badStatement entry.2 error)

def ofContents (file : Contents) : Except FileError Program := do
  let table {α : Type} (id : α → UInt32) (items : Option (List α)) : List α :=
    (items.getD []).foldl (put id) []
  let program : Program := {
    types := (file.types.getD []).toArray
    funcs := (file.funcs.getD []).toArray
    structs := table StructDef.id file.structs
    unions := table UnionDef.id file.unions
    enums := table EnumDef.id file.enums
    delegates := table DelegateDef.id file.delegates
    futures := table FutureDef.id file.futures
    lazies := table LazyDef.id file.lazies }
  let program ← (file.defs.getD []).foldlM addDef program
  (file.statements.getD []).zipIdx.foldlM addStored program

/-- Reads a saved program; bytes after the record do not matter. -/
def load (data : Bytes) : Except FileError Program :=
  match (Value.ofBytes? data).bind (fun value => Contents.read (data.size + 1) [value]) with
  | none => .error (.malformed (complaint data))
  | some file =>
    if file.magic != magic then .error (.wrongMagic file.magic)
    else if file.schema != schemaVersion then .error (.wrongSchema file.schema)
    else ofContents file

end WordMachine.Program
