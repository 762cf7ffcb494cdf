import WordMachine.Lowering.Cause

/-!
How structs and unions are represented. A struct without fields is the int zero, a struct with
one field is that field, and a union of an empty struct and a struct of two or more fields is the
latter or the null struct. Other unions are pairs of member number and value.
-/

namespace WordMachine.Lowering

/-- A union stored without a member number. -/
structure Nullable where
  /-- The empty member, stored as the null struct. -/
  nullType : TypeId
  structType : TypeId
  deriving DecidableEq

def isEmptyStruct (program : Program) (type : TypeId) : Bool :=
  program.fieldCount? type == some 0

def isWideStruct (program : Program) (type : TypeId) : Bool :=
  match program.fieldCount? type with
  | some count => 2 ≤ count
  | none => false

def nullable? (program : Program) (union : TypeId) : Option Nullable :=
  match (program.union? union).bind UnionDef.members with
  | some [first, second] =>
    if isEmptyStruct program first && isWideStruct program second then some ⟨first, second⟩
    else if isEmptyStruct program second && isWideStruct program first then some ⟨second, first⟩
    else none
  | _ => none

def memberNumber (program : Program) (union member : TypeId) : Except Cause Int32 :=
  match program.union? union with
  | none => .error (.notUnion (program.typeName union))
  | some definition =>
    match definition.memberIndex? member with
    | some position => .ok (Int32.ofNat position)
    | none => .error (.notMember (program.typeName member) (program.typeName union))

/-- Whether a type is compared by a function of its own. -/
def isUserType (program : Program) (type : TypeId) : Bool :=
  program.kind? type == some .struct || program.kind? type == some .union

end WordMachine.Lowering
