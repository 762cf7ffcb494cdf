import WordMachine.Program.Basic
import WordMachine.Text.Outline

/-!
Programs as outlines. An expression is a list of the name of its form and its parts; a program is
a record of its tables.
-/

namespace WordMachine.Expr

/-- Activations by name; any other number stands for itself. -/
def modeOutline (mode : UInt8) : Outline :=
  match mode with
  | 0 => .ofName "normal"
  | 1 => .ofName "fork"
  | 2 => .ofName "lazy"
  | other => .number other.toNat

def modeOfOutline (item : Outline) : UInt8 :=
  match item with
  | .number code => UInt8.ofInt code
  | _ =>
    match item.name with
    | "fork" => 1
    | "lazy" => 2
    | _ => 0

def form : Expr → String
  | missing => "nil"
  | assign _ _ => "assign"
  | choose _ _ => "switch"
  | call _ _ _ _ => "call"
  | callDynamic _ _ _ _ => "calldyn"
  | callSelf _ _ => "self"
  | closure _ _ _ => "closure"
  | slot _ _ => "const"
  | field _ _ _ => "field"
  | group _ => "group"
  | unionCheck _ _ => "ucheck"
  | unionGet _ _ _ => "uget"
  | fail _ => "fail"
  | bool _ => "bool"
  | float _ => "float"
  | int _ => "int"
  | long _ => "long"
  | string _ => "str"
  | char _ => "char"
  | function _ _ => "fn"
  | enumeration _ _ => "enum"

mutual

def outline (expr : Expr) : Outline :=
  .list <| .ofName expr.form ::
    match expr with
    | missing => []
    | assign target value => [.ofU32 target, outline value]
    | choose conditions branches => [.list (outlines conditions), .list (outlines branches)]
    | call func arguments mode result =>
      [.ofU32 func, .list (outlines arguments), modeOutline mode, .ofU32 result]
    | callDynamic target arguments fork result =>
      [outline target, .list (outlines arguments), .flag fork, .ofU32 result]
    | callSelf arguments result => [.list (outlines arguments), .ofU32 result]
    | closure func bound delegate => [.ofU32 func, .list (outlines bound), .ofU32 delegate]
    | slot number type => [.ofU32 number, .ofU32 type]
    | field operand position type => [outline operand, .ofLong position.toInt, .ofU32 type]
    | group items => [.list (outlines items)]
    | unionCheck operand target => [outline operand, .ofU32 target]
    | unionGet operand target number => [outline operand, .ofU32 target, .ofU32 number]
    | fail type => [.ofU32 type]
    | bool value => [.flag value]
    | float bits => [.ofU32 bits]
    | int value => [.number value.toInt]
    | long value => [.ofLong value.toInt]
    | string value => [.text value]
    | char value => [.number value.toNat]
    | function func delegate => [.ofU32 func, .ofU32 delegate]
    | enumeration type value => [.ofU32 type, .number value.toInt]

def outlines : List Expr → List Outline
  | [] => []
  | expr :: rest => outline expr :: outlines rest

end

mutual

def ofOutline : Outline → Expr
  | .list [form, a] =>
    match form.name with
    | "group" => .group (ofItems a)
    | "fail" => .fail a.toU32
    | "bool" => .bool a.toBool
    | "float" => .float a.toU32
    | "int" => .int (Int32.ofInt a.toInt)
    | "long" => .long (Int64.ofInt a.toInt)
    | "str" => .string a.toBytes
    | "char" => .char a.toU8
    | _ => .missing
  | .list [form, a, b] =>
    match form.name with
    | "assign" => .assign a.toU32 (ofOutline b)
    | "switch" => .choose (ofItems a) (ofItems b)
    | "self" => .callSelf (ofItems a) b.toU32
    | "const" => .slot a.toU32 b.toU32
    | "ucheck" => .unionCheck (ofOutline a) b.toU32
    | "fn" => .function a.toU32 b.toU32
    | "enum" => .enumeration a.toU32 (Int32.ofInt b.toInt)
    | _ => .missing
  | .list [form, a, b, c] =>
    match form.name with
    | "closure" => .closure a.toU32 (ofItems b) c.toU32
    | "field" => .field (ofOutline a) (Int64.ofInt b.toInt) c.toU32
    | "uget" => .unionGet (ofOutline a) b.toU32 c.toU32
    | _ => .missing
  | .list [form, a, b, c, d] =>
    match form.name with
    | "call" => .call a.toU32 (ofItems b) (modeOfOutline c) d.toU32
    | "calldyn" => .callDynamic (ofOutline a) (ofItems b) c.toBool d.toU32
    | _ => .missing
  | _ => .missing

def ofItems : Outline → List Expr
  | .list items => ofOutlines items
  | _ => []

def ofOutlines : List Outline → List Expr
  | [] => []
  | item :: rest => ofOutline item :: ofOutlines rest

end

end WordMachine.Expr

namespace WordMachine.SlotTable

/-- The table of a list of names, types and kinds. -/
def ofOutline (source : Outline) : SlotTable :=
  SlotTable.ofList (source.items.map fun slot =>
    ((slot.item 0).toBytes, (slot.item 1).toU32, (slot.item 2).toU8))

end WordMachine.SlotTable

namespace WordMachine.SlotDecl

def outline (slot : SlotDecl) : Outline :=
  .list [.ofU32 slot.id, .text slot.name, .ofU32 slot.type, .number slot.kind.toNat]

end WordMachine.SlotDecl

namespace WordMachine.Program

/-- The numbers of a list; absent for anything else. -/
def idsOf (source : Outline) : Option (List UInt32) :=
  source.items?.map fun items => items.map Outline.toU32

def typeBodyOf (source : Outline) : TypeBody :=
  match (source.member "k").name with
  | "struct" =>
    .struct ((source.member "fields").items?.map fun fields =>
      fields.map fun field => ⟨(field.item 0).toBytes, (field.item 1).toU32⟩)
  | "union" => .union (idsOf (source.member "types"))
  | "enum" =>
    .enumeration ((source.member "entries").items?.map fun entries =>
      entries.map fun entry => ⟨(entry.item 0).toBytes, Int32.ofInt (entry.item 1).toInt⟩)
  | "delegate" => .delegate (idsOf (source.member "input")) (source.member "output").toU32
  | "future" => .future (source.member "result").toU32
  | _ => .lazy (source.member "result").toU32

/-- The program of a record with types, functions, bodies and statements. -/
def ofOutline (source : Outline) : Program :=
  let addType (program : Program) (type : Outline) : Program :=
    program.declare (type.member "name").toBytes (typeBodyOf type)
  let addFunc (program : Program) (func : Outline) : Program :=
    program.declareFunc (func.member "name").toBytes (func.member "kind").toU8
      (idsOf (func.member "input")) (func.member "output").toU32
  let addBody (program : Program) (body : Outline) : Program :=
    program.defineFunc (body.member "id").toU32 (.ofOutline (body.member "consts"))
      (.ofOutline (body.member "body"))
  let addStatement (program : Program) (statement : Outline) : Program :=
    program.addStatement (.ofOutline (statement.member "consts"))
      (.ofOutline (statement.member "expr"))
  let program := (source.member "types").items.foldl addType empty
  let program := (source.member "funcs").items.foldl addFunc program
  let program := (source.member "defs").items.foldl addBody program
  (source.member "execs").items.foldl addStatement program

def idsOutline : Option (List UInt32) → Outline
  | some ids => .list (ids.map .ofU32)
  | none => .none

def fieldsOutline (fields : Option (List FieldDecl)) : Outline :=
  .list ((fields.getD []).map fun field => .list [.text field.name, .ofU32 field.type])

def slotsOutline (slots : SlotTable) : Outline :=
  .list (slots.map SlotDecl.outline)

def sortedRows {α : Type} (id : α → UInt32) (row : α → List Outline) (table : List α) : Outline :=
  .list ((table.mergeSort fun left right => id left ≤ id right).map fun entry =>
    .list (.ofU32 (id entry) :: row entry))

def outline (program : Program) : Outline :=
  .ofMembers
    [("types", .list (program.types.toList.map fun type =>
        .list [.ofU32 type.id, .number type.kind.toNat, .text type.name])),
      ("funcs", .list (program.funcs.toList.map fun func =>
        .list [.ofU32 func.id, .text func.name, .number func.kind.toNat, idsOutline func.input,
          .ofU32 func.output])),
      ("structs",
        sortedRows StructDef.id (fun type => [fieldsOutline type.fields]) program.structs),
      ("unions", sortedRows UnionDef.id (fun type => [idsOutline type.members]) program.unions),
      ("enums", sortedRows EnumDef.id
        (fun type => [.list ((type.entries.getD []).map fun entry =>
          .list [.text entry.name, .number entry.value.toInt])]) program.enums),
      ("delegates", sortedRows DelegateDef.id
        (fun type => [idsOutline type.input, .ofU32 type.output]) program.delegates),
      ("futures", sortedRows FutureDef.id (fun type => [.ofU32 type.result]) program.futures),
      ("lazies", sortedRows LazyDef.id (fun type => [.ofU32 type.result]) program.lazies),
      ("defs", .list ((program.defs.mergeSort fun left right => left.id ≤ right.id).map fun body =>
        .ofMembers [("id", .ofU32 body.id), ("consts", slotsOutline body.slots),
          ("body", body.body.outline)])),
      ("execs", .list (program.statements.toList.map fun statement =>
        .ofMembers [("consts", slotsOutline statement.slots), ("expr", statement.expr.outline)]))]

end WordMachine.Program
