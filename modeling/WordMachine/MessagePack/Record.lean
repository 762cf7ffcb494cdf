import WordMachine.MessagePack.Value

/-!
Records as MessagePack values. Writing gives a map in field order; reading is lenient: numbers
of any width, text as string or binary, `nil` for an absent value, maps in any order with unknown
keys, or an array with one item per field.

A key may come more than once, so a place can be given several values. Reading takes them all, in
their order: a later number or text replaces the earlier ones, while a record is completed by
later maps and an item of a list by the items at its place in later arrays, until `nil` clears the
place.
-/

namespace WordMachine.MessagePack

namespace Value

def toBits? : Value → Option UInt64
  | .nil => some 0
  | .fixint value => some value.toInt64.toUInt64
  | .u8 value => some value.toUInt64
  | .u16 value => some value.toUInt64
  | .u32 value => some value.toUInt64
  | .u64 value => some value
  | .i8 value => some value.toInt64.toUInt64
  | .i16 value => some value.toInt64.toUInt64
  | .i32 value => some value.toInt64.toUInt64
  | .i64 value => some value.toUInt64
  | _ => none

def toText? : Value → Option Bytes
  | .nil => some ByteArray.empty
  | .str text => some text
  | .bin data => some data
  | _ => none

def toData? : Value → Option (Option Bytes)
  | .nil => some none
  | value => value.toText?.map some

end Value

/-- Nearest single-precision pattern of a signed integer, a half to the even neighbour. -/
def singleOfInt (number : Int64) : UInt32 :=
  number.toFloat32.toBits

/-- A signalling NaN becomes the quiet one with the same payload. -/
def quietSingle (bits : UInt32) : UInt32 :=
  if bits &&& 0x7f800000 == 0x7f800000 && bits &&& 0x7fffff != 0 then bits ||| 0x400000 else bits

namespace Value

/-- A single-precision pattern, from a float or any integer. -/
def toSingle? : Value → Option UInt32
  | .f32 bits => some (quietSingle bits)
  | value => value.toBits?.map fun bits => singleOfInt bits.toInt64

end Value

/-- What the values mean that a place is given, in their order. No values mean zero. -/
abbrev Meaning (α : Type) := List Value → Option α

namespace Meaning

def last {α : Type} (read : Value → Option α) (zero : α) : Meaning α := fun values => do
  let found ← values.mapM read
  return found.getLast?.getD zero

def u8 : Meaning UInt8 := last (fun value => value.toBits?.map UInt64.toUInt8) 0

def u16 : Meaning UInt16 := last (fun value => value.toBits?.map UInt64.toUInt16) 0

def u32 : Meaning UInt32 := last (fun value => value.toBits?.map UInt64.toUInt32) 0

def i32 : Meaning Int32 := last (fun value => value.toBits?.map fun bits => bits.toUInt32.toInt32) 0

def i64 : Meaning Int64 := last (fun value => value.toBits?.map UInt64.toInt64) 0

def single : Meaning UInt32 := last Value.toSingle? 0

def text : Meaning Bytes := last Value.toText? ByteArray.empty

def data : Meaning (Option Bytes) := last Value.toData? none

def texts : Meaning (Option (List Bytes)) := fun values =>
  values.foldlM (fun old value =>
    match value with
    | .nil => some old
    | .array items => (items.mapM Value.toText?).map some
    | _ => none) none

end Meaning

/-! ## Lists -/

/-- Puts something in front of the first of several groups. -/
def intoFirst {α : Type} (front : List α) : List (List α) → List (List α)
  | [] => [front]
  | first :: others => (front ++ first) :: others

def arrayGroups : List Value → Option (List (List (List Value)))
  | [] => some [[]]
  | value :: rest => do
    let later ← arrayGroups rest
    match value with
    | .nil => return [] :: later
    | .array items => return intoFirst [items] later
    | _ => none

/-- The items of several arrays by their places, up to a number of them. -/
def places : Nat → List (List Value) → List (List Value)
  | 0, _ => []
  | count + 1, arrays => arrays.filterMap List.head? :: places count (arrays.map List.tail)

/-- Reads arrays that a place is given one after another. The list is as long as the last one. -/
def readArrays {α : Type} (read : Meaning α) (arrays : List (List Value)) :
    Option (Option (List α)) :=
  match arrays.getLast? with
  | none => some none
  | some items => do
    let longest := (arrays.map List.length).foldl max 0
    let found ← (places longest arrays).mapM read
    return some (found.take items.length)

def Meaning.list {α : Type} (read : Meaning α) : Meaning (Option (List α)) := fun values => do
  let found ← (← arrayGroups values).mapM (readArrays read)
  found.getLast?

/-! ## Records -/

/-- A field and a value that it is given. -/
abbrev Entry := Bytes × Value

def mapEntries (entries : List (Value × Value)) : Option (List Entry) :=
  entries.mapM fun (key, value) => key.toText?.map (·, value)

/-- The entries that a record is given, in groups that `nil` and the empty array divide. An array
has exactly one item per field. -/
def entryGroups (names : List String) : List Value → Option (List (List Entry))
  | [] => some [[]]
  | value :: rest => do
    let later ← entryGroups names rest
    match value with
    | .nil => return [] :: later
    | .array [] => return [] :: later
    | .array items =>
      if items.length = names.length then
        return intoFirst ((names.map String.toUTF8).zip items) later
      else none
    | .map entries => return intoFirst (← mapEntries entries) later
    | _ => none

def fieldValues (entries : List Entry) (name : String) : List Value :=
  entries.filterMap fun (found, value) => if found == name.toUTF8 then some value else none

/-- Reads a record with the given fields, whose values `build` reads; other fields are passed
over. -/
def readRecord {α : Type} (names : List String) (build : (String → List Value) → Option α) :
    Meaning α := fun values => do
  let found ← (← entryGroups names values).mapM fun entries => build (fieldValues entries)
  found.getLast?

/-! ## Complaints -/

/-- Whether a record can start with a code: a map, an array or `nil`. -/
def startsRecord (code : UInt8) : Bool :=
  (0x80 ≤ code && code < 0xa0) || code == 0xc0 || (0xdc ≤ code && code ≤ 0xdf)

def complaint (data : Bytes) : Bytes :=
  match data[0]? with
  | none => "EOF"
  | some code =>
    if !startsRecord code then
      "msgpack: unexpected code=" ++ Bytes.hex 1 code.toNat ++ " decoding map length"
    else if (Value.ofBytes? data).isNone then "unexpected EOF"
    else "msgpack: unexpected value"

/-! ## Writing -/

/-- A map with text keys, in order. -/
def record (fields : List (String × Value)) : Value :=
  .map (fields.map fun (name, value) => (.str name.toUTF8, value))

def binary : Option Bytes → Value
  | none => .nil
  | some data => .bin data

def list {α : Type} (write : α → Value) : Option (List α) → Value
  | none => .nil
  | some items => .array (items.map write)

end WordMachine.MessagePack
