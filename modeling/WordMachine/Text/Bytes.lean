/-!
Byte strings. Program text, names, paths and messages are sequences of bytes that need not be
valid UTF-8, so every text of the library is a `Bytes`.
-/

namespace WordMachine

/-- A byte string: any sequence of bytes, with no encoding implied. -/
abbrev Bytes := ByteArray

instance : DecidableEq Bytes :=
  ByteArray.instDecidableEq

instance : Coe String Bytes :=
  ⟨String.toUTF8⟩

instance : HAppend Bytes String Bytes :=
  ⟨fun left right => left ++ right.toUTF8⟩

instance : HAppend String Bytes Bytes :=
  ⟨fun left right => left.toUTF8 ++ right⟩

namespace Bytes

/-- The byte string that holds the given bytes in order. -/
def ofList (bytes : List UInt8) : Bytes :=
  ⟨bytes.toArray⟩

def toList (text : Bytes) : List UInt8 :=
  text.data.toList

@[simp]
theorem toList_ofList (bytes : List UInt8) : toList (ofList bytes) = bytes := rfl

@[simp]
theorem ofList_toList (text : Bytes) : ofList (toList text) = text := rfl

def singleton (byte : UInt8) : Bytes :=
  ofList [byte]

def take (text : Bytes) (count : Nat) : Bytes :=
  text.extract 0 count

def drop (text : Bytes) (count : Nat) : Bytes :=
  text.extract count text.size

def concat (parts : List Bytes) : Bytes :=
  parts.foldl (· ++ ·) ByteArray.empty

def join (separator : Bytes) : List Bytes → Bytes
  | [] => ByteArray.empty
  | first :: rest => rest.foldl (fun text part => text ++ separator ++ part) first

def replicate (count : Nat) (byte : UInt8) : Bytes :=
  ⟨Array.replicate count byte⟩

/-! ## Order and search -/

def listLt : List UInt8 → List UInt8 → Bool
  | [], [] => false
  | [], _ :: _ => true
  | _ :: _, [] => false
  | left :: lefts, right :: rights =>
    left < right || (left == right && listLt lefts rights)

def lt (left right : Bytes) : Bool :=
  listLt left.toList right.toList

/-- The parts in increasing order; equal ones keep their order. -/
def sort (parts : List Bytes) : List Bytes :=
  parts.mergeSort fun left right => !lt right left

def startsWith (text start : Bytes) : Bool :=
  take text start.size == start

def endsWith (text ending : Bytes) : Bool :=
  ending.size ≤ text.size && drop text (text.size - ending.size) == ending

def indexOf? (text : Bytes) (byte : UInt8) (start : Nat) : Option Nat :=
  let rec go : Nat → Nat → Option Nat
    | 0, _ => none
    | fuel + 1, position =>
      match text[position]? with
      | none => none
      | some found => if found == byte then some position else go fuel (position + 1)
  go (text.size - start) start

def lastIndexOf? (text : Bytes) (byte : UInt8) : Option Nat :=
  let rec go : Nat → Option Nat
    | 0 => none
    | position + 1 => if text[position]? == some byte then some position else go position
  go text.size

def splitList (byte : UInt8) : List UInt8 → List UInt8 → List (List UInt8)
  | current, [] => [current.reverse]
  | current, head :: tail =>
    if head == byte then current.reverse :: splitList byte [] tail
    else splitList byte (head :: current) tail

/-- The pieces between occurrences of `byte`; one more than there are occurrences. -/
def split (text : Bytes) (byte : UInt8) : List Bytes :=
  (splitList byte [] text.toList).map ofList

def contains (text pattern : Bytes) : Bool :=
  (List.range (text.size + 1 - pattern.size)).any fun start =>
    pattern.size ≤ text.size && text.extract start (start + pattern.size) == pattern

/-! ## Numbers as text -/

def ofNat (number : Nat) : Bytes :=
  (Nat.repr number).toUTF8

/-- Decimal text of an integer, with a minus sign when negative. -/
def ofInt (number : Int) : Bytes :=
  if number < 0 then "-" ++ ofNat number.natAbs else ofNat number.natAbs

def padLeft (text : Bytes) (width : Nat) (fill : UInt8) : Bytes :=
  replicate (width - text.size) fill ++ text

def padRight (text : Bytes) (width : Nat) (fill : UInt8) : Bytes :=
  text ++ replicate (width - text.size) fill

/-- Lower-case hexadecimal digits, at least `width` of them. -/
def hex (width number : Nat) : Bytes :=
  padLeft (String.ofList (Nat.toDigits 16 number)).toUTF8 width '0'.toUInt8

/-- Two lower-case hexadecimal digits for each byte. -/
def hexDump (text : Bytes) : Bytes :=
  let digit (value : UInt8) : UInt8 := if value < 10 then 48 + value else 87 + value
  text.foldl (fun out byte => (out.push (digit (byte >>> 4))).push (digit (byte &&& 15)))
    ByteArray.empty

def toString? (text : Bytes) : Option String :=
  String.fromUTF8? text

/-! ## ASCII letter case -/

def toLowerByte (byte : UInt8) : UInt8 :=
  if 65 ≤ byte && byte ≤ 90 then byte + 32 else byte

def isDigit (byte : UInt8) : Bool :=
  48 ≤ byte && byte ≤ 57

end Bytes

end WordMachine
