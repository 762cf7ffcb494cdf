import WordMachine.Text.Bytes

/-!
The types of a program: built-in ones, structs, unions, enums, delegates, futures and lazies.
A declaration keeps its kind as a number, since a program file may hold any.
-/

namespace WordMachine

abbrev TypeId := UInt32

abbrev FuncId := UInt32

/-- A constant of a function or statement. -/
abbrev SlotId := UInt32

inductive TypeKind where
  | int | long | float | bool | char | string | stream
  | struct | union | enumeration | delegate | future | lazy
  deriving DecidableEq, Repr

namespace TypeKind

def code : TypeKind → UInt8
  | .int => 1
  | .long => 2
  | .float => 3
  | .bool => 4
  | .char => 5
  | .string => 6
  | .stream => 7
  | .struct => 8
  | .union => 9
  | .enumeration => 10
  | .delegate => 11
  | .future => 12
  | .lazy => 13

def ofCode? (code : UInt8) : Option TypeKind :=
  match code with
  | 1 => some .int
  | 2 => some .long
  | 3 => some .float
  | 4 => some .bool
  | 5 => some .char
  | 6 => some .string
  | 7 => some .stream
  | 8 => some .struct
  | 9 => some .union
  | 10 => some .enumeration
  | 11 => some .delegate
  | 12 => some .future
  | 13 => some .lazy
  | _ => none

def name : TypeKind → String
  | .int => "int"
  | .long => "long"
  | .float => "float"
  | .bool => "bool"
  | .char => "char"
  | .string => "string"
  | .stream => "stream"
  | .struct => "struct"
  | .union => "union"
  | .enumeration => "enum"
  | .delegate => "delegate"
  | .future => "future"
  | .lazy => "lazy"

def nameOf (code : UInt8) : Bytes :=
  match ofCode? code with
  | some kind => kind.name
  | none => "kind(" ++ Bytes.ofNat code.toNat ++ ")"

def builtin : List TypeKind :=
  [.int, .long, .float, .bool, .char, .string, .stream]

end TypeKind

/-! ## Numbers of the built-in types -/

namespace TypeId

def int : TypeId := 0

def long : TypeId := 1

def float : TypeId := 2

def bool : TypeId := 3

def char : TypeId := 4

def string : TypeId := 5

end TypeId

/-! ## Declarations

An absent list and an empty one mean the same but are kept apart in program files. -/

structure TypeDecl where
  id : TypeId := 0
  kind : UInt8 := 0
  name : Bytes := ByteArray.empty
  deriving DecidableEq

structure FieldDecl where
  name : Bytes := ByteArray.empty
  type : TypeId := 0
  deriving DecidableEq

structure StructDef where
  id : TypeId := 0
  fields : Option (List FieldDecl) := none
  deriving DecidableEq

/-- A union; the position of a member is its number at run time. -/
structure UnionDef where
  id : TypeId := 0
  members : Option (List TypeId) := none
  deriving DecidableEq

structure EnumEntry where
  name : Bytes := ByteArray.empty
  value : Int32 := 0
  deriving DecidableEq

structure EnumDef where
  id : TypeId := 0
  entries : Option (List EnumEntry) := none
  deriving DecidableEq

/-- The type of function values. -/
structure DelegateDef where
  id : TypeId := 0
  input : Option (List TypeId) := none
  output : TypeId := 0
  deriving DecidableEq

/-- The type of a forked call's result. -/
structure FutureDef where
  id : TypeId := 0
  result : TypeId := 0
  deriving DecidableEq

/-- The type of a lazy call's result. -/
structure LazyDef where
  id : TypeId := 0
  result : TypeId := 0
  deriving DecidableEq

def UnionDef.memberIndex? (union : UnionDef) (member : TypeId) : Option Nat :=
  (union.members.getD []).findIdx? (· == member)

end WordMachine
