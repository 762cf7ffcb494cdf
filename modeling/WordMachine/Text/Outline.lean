import WordMachine.Text.Bytes

/-!
Outlines: atoms in nested lists and records. They are the common form in which tools exchange
programs and assembly source. Reading an outline at another type gives that type's zero.
-/

namespace WordMachine

inductive Outline where
  | none
  | flag (value : Bool)
  | number (value : Int)
  | text (value : Bytes)
  | list (items : List Outline)
  | record (members : List (Bytes × Outline))
  deriving Inhabited

namespace Outline

def decimalNat (digits : List UInt8) : Nat :=
  digits.foldl (fun value digit => value * 10 + (digit.toNat - 48)) 0

def decimal (digits : List UInt8) : Int :=
  match digits with
  | 45 :: rest => -(decimalNat rest : Int)
  | _ => decimalNat digits

def toInt : Outline → Int
  | number value => value
  | text value => decimal value.toList
  | _ => 0

def toU8 (item : Outline) : UInt8 :=
  UInt8.ofInt item.toInt

def toU32 (item : Outline) : UInt32 :=
  UInt32.ofInt item.toInt

def toBytes : Outline → Bytes
  | text value => value
  | _ => ByteArray.empty

def toBool : Outline → Bool
  | flag value => value
  | _ => false

def name : Outline → String
  | text value => (Bytes.toString? value).getD ""
  | _ => ""

def items? : Outline → Option (List Outline)
  | list items => some items
  | _ => Option.none

def items (item : Outline) : List Outline :=
  item.items?.getD []

def item (source : Outline) (position : Nat) : Outline :=
  source.items[position]?.getD none

def member (source : Outline) (name : String) : Outline :=
  match source with
  | record members =>
    ((members.find? fun (found, _) => found == name.toUTF8).map (·.2)).getD none
  | _ => none

def ofMembers (members : List (String × Outline)) : Outline :=
  record (members.map fun (name, value) => (name.toUTF8, value))

/-- A number of more than 32 bits, as decimal text. -/
def ofLong (value : Int) : Outline :=
  text (Bytes.ofInt value)

def ofU32 (value : UInt32) : Outline :=
  number value.toNat

def ofName (value : String) : Outline :=
  text value

end Outline

end WordMachine
