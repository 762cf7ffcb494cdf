import WordMachine.Program.Types

/-!
Typed expressions. The tree is taken as given: types are attached where they cannot be derived,
and nothing is checked again.
-/

namespace WordMachine

/-- How a user function is activated by a call. -/
inductive Activation where
  | normal | fork | lazy
  deriving DecidableEq, Repr

namespace Activation

/-- Any other number activates the function like a normal call. -/
def ofCode (code : UInt8) : Activation :=
  match code with
  | 1 => .fork
  | 2 => .lazy
  | _ => .normal

end Activation

/-- An expression. `missing` stands where no expression was given. -/
inductive Expr where
  | missing
  /-- Stores a value into a slot and yields it. -/
  | assign (slot : SlotId) (value : Expr)
  /-- The branch of the first true condition, else the last branch. -/
  | choose (conditions branches : List Expr)
  | call (func : FuncId) (arguments : List Expr) (mode : UInt8) (result : TypeId)
  | callDynamic (target : Expr) (arguments : List Expr) (fork : Bool) (result : TypeId)
  /-- Calls the enclosing function again, with its bound inputs unchanged. -/
  | callSelf (arguments : List Expr) (result : TypeId)
  /-- A function value with some arguments already given. -/
  | closure (func : FuncId) (bound : List Expr) (delegate : TypeId)
  | slot (slot : SlotId) (type : TypeId)
  | field (operand : Expr) (position : Int64) (type : TypeId)
  | group (items : List Expr)
  | unionCheck (operand : Expr) (target : TypeId)
  /-- Like `unionCheck`, and on success stores the member's value into a slot. -/
  | unionGet (operand : Expr) (target : TypeId) (slot : SlotId)
  | fail (type : TypeId)
  | bool (value : Bool)
  | float (bits : UInt32)
  | int (value : Int32)
  | long (value : Int64)
  | string (value : Bytes)
  | char (value : UInt8)
  | function (func : FuncId) (delegate : TypeId)
  | enumeration (type : TypeId) (value : Int32)
  deriving Inhabited

namespace Expr

/-- The type of an expression. A missing operand, an empty group and a choice without branches
have none. -/
def type? : Expr → Option TypeId
  | missing => none
  | assign _ value => value.type?
  | choose _ branches =>
    match branches with
    | [] => none
    | first :: _ => first.type?
  | call _ _ _ result => some result
  | callDynamic _ _ _ result => some result
  | callSelf _ result => some result
  | closure _ _ delegate => some delegate
  | slot _ type => some type
  | field _ _ type => some type
  | group items => lastType? items
  | unionCheck _ _ => some TypeId.bool
  | unionGet _ _ _ => some TypeId.bool
  | fail type => some type
  | bool _ => some TypeId.bool
  | float _ => some TypeId.float
  | int _ => some TypeId.int
  | long _ => some TypeId.long
  | string _ => some TypeId.string
  | char _ => some TypeId.char
  | function _ delegate => some delegate
  | enumeration type _ => some type
where
  lastType? : List Expr → Option TypeId
    | [] => none
    | [last] => last.type?
    | _ :: rest => lastType? rest

/-- Direct subexpressions in the order of evaluation. -/
def children : Expr → List Expr
  | assign _ value => [value]
  | choose conditions branches => conditions ++ branches
  | call _ arguments _ _ => arguments
  | callDynamic target arguments _ _ => arguments ++ [target]
  | callSelf arguments _ => arguments
  | closure _ bound _ => bound
  | field operand _ _ => [operand]
  | group items => items
  | unionCheck operand _ => [operand]
  | unionGet operand _ _ => [operand]
  | _ => []

mutual

/-- All nodes in the order of evaluation, parents first. Nodes refused by `enter` are listed but
not entered; missing expressions are not listed. -/
def walk (enter : Expr → Bool) : Expr → List Expr
  | missing => []
  | assign into value => visit enter (assign into value) (walk enter value)
  | choose conditions branches =>
    visit enter (choose conditions branches) (walkAll enter conditions ++ walkAll enter branches)
  | call func arguments mode result =>
    visit enter (call func arguments mode result) (walkAll enter arguments)
  | callDynamic target arguments fork result =>
    visit enter (callDynamic target arguments fork result)
      (walkAll enter arguments ++ walk enter target)
  | callSelf arguments result => visit enter (callSelf arguments result) (walkAll enter arguments)
  | closure func bound delegate => visit enter (closure func bound delegate) (walkAll enter bound)
  | field operand position type => visit enter (field operand position type) (walk enter operand)
  | group items => visit enter (group items) (walkAll enter items)
  | unionCheck operand target => visit enter (unionCheck operand target) (walk enter operand)
  | unionGet operand target into => visit enter (unionGet operand target into) (walk enter operand)
  | slot id type => [slot id type]
  | fail type => [fail type]
  | bool value => [bool value]
  | float bits => [float bits]
  | int value => [int value]
  | long value => [long value]
  | string value => [string value]
  | char value => [char value]
  | function func delegate => [function func delegate]
  | enumeration type value => [enumeration type value]

def walkAll (enter : Expr → Bool) : List Expr → List Expr
  | [] => []
  | item :: items => walk enter item ++ walkAll enter items

def visit (enter : Expr → Bool) (node : Expr) (below : List Expr) : List Expr :=
  if enter node then node :: below else [node]

end

end Expr

end WordMachine
