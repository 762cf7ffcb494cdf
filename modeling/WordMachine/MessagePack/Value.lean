import WordMachine.Text.Bytes

/-!
MessagePack values, their bytes, and reading bytes back. Writing keeps the width of every
number; reading accepts every encoding of a value and leaves the bytes after it alone.
-/

namespace WordMachine.MessagePack

/-- A MessagePack value. Numbers remember their encoded width. -/
inductive Value where
  | nil
  | bool (value : Bool)
  | fixint (value : Int8)
  | u8 (value : UInt8)
  | u16 (value : UInt16)
  | u32 (value : UInt32)
  | u64 (value : UInt64)
  | i8 (value : Int8)
  | i16 (value : Int16)
  | i32 (value : Int32)
  | i64 (value : Int64)
  | f32 (bits : UInt32)
  | f64 (bits : UInt64)
  | str (text : Bytes)
  | bin (data : Bytes)
  | array (items : List Value)
  | map (entries : List (Value × Value))
  | ext (kind : UInt8) (data : Bytes)

/-! ## Big-endian numbers -/

/-- The lowest `count` bytes of a number, most significant first. -/
def bigEndian : Nat → Nat → List UInt8
  | 0, _ => []
  | count + 1, value => (value / Nat.pow 256 count).toUInt8 :: bigEndian count value

/-- The number that bytes stand for, most significant first. -/
def ofBigEndian (bytes : List UInt8) : Nat :=
  bytes.foldl (fun value byte => value * 256 + byte.toNat) 0

/-! ## Writing -/

def strHeader (size : Nat) : List UInt8 :=
  if size < 32 then [(0xa0 + size).toUInt8]
  else if size < 0x100 then 0xd9 :: bigEndian 1 size
  else if size < 0x10000 then 0xda :: bigEndian 2 size
  else 0xdb :: bigEndian 4 size

def binHeader (size : Nat) : List UInt8 :=
  if size < 0x100 then 0xc4 :: bigEndian 1 size
  else if size < 0x10000 then 0xc5 :: bigEndian 2 size
  else 0xc6 :: bigEndian 4 size

def arrayHeader (size : Nat) : List UInt8 :=
  if size < 16 then [(0x90 + size).toUInt8]
  else if size < 0x10000 then 0xdc :: bigEndian 2 size
  else 0xdd :: bigEndian 4 size

def mapHeader (size : Nat) : List UInt8 :=
  if size < 16 then [(0x80 + size).toUInt8]
  else if size < 0x10000 then 0xde :: bigEndian 2 size
  else 0xdf :: bigEndian 4 size

def extHeader (size : Nat) : List UInt8 :=
  if size < 0x100 then 0xc7 :: bigEndian 1 size
  else if size < 0x10000 then 0xc8 :: bigEndian 2 size
  else 0xc9 :: bigEndian 4 size

mutual

def Value.render : Value → List UInt8
  | .nil => [0xc0]
  | .bool value => [if value then 0xc3 else 0xc2]
  | .fixint value => [value.toUInt8]
  | .u8 value => 0xcc :: bigEndian 1 value.toNat
  | .u16 value => 0xcd :: bigEndian 2 value.toNat
  | .u32 value => 0xce :: bigEndian 4 value.toNat
  | .u64 value => 0xcf :: bigEndian 8 value.toNat
  | .i8 value => 0xd0 :: bigEndian 1 value.toUInt8.toNat
  | .i16 value => 0xd1 :: bigEndian 2 value.toUInt16.toNat
  | .i32 value => 0xd2 :: bigEndian 4 value.toUInt32.toNat
  | .i64 value => 0xd3 :: bigEndian 8 value.toUInt64.toNat
  | .f32 bits => 0xca :: bigEndian 4 bits.toNat
  | .f64 bits => 0xcb :: bigEndian 8 bits.toNat
  | .str text => strHeader text.size ++ Bytes.toList text
  | .bin data => binHeader data.size ++ Bytes.toList data
  | .array items => arrayHeader items.length ++ renderItems items
  | .map entries => mapHeader entries.length ++ renderEntries entries
  | .ext kind data => extHeader data.size ++ kind :: Bytes.toList data

def Value.renderItems : List Value → List UInt8
  | [] => []
  | item :: items => item.render ++ renderItems items

def Value.renderEntries : List (Value × Value) → List UInt8
  | [] => []
  | (key, value) :: entries => key.render ++ (value.render ++ renderEntries entries)

end

/-! ## Reading -/

/-- A reader takes a value off the front of the bytes, or refuses. -/
abbrev Reader (α : Type) := List UInt8 → Option (α × List UInt8)

def takeBytes (count : Nat) : Reader (List UInt8) := fun bytes =>
  let (front, rest) := bytes.splitAt count
  if front.length = count then some (front, rest) else none

def takeNumber (count : Nat) : Reader Nat := fun bytes =>
  (takeBytes count bytes).map fun (front, rest) => (ofBigEndian front, rest)

def takeText (count : Nat) : Reader Bytes := fun bytes =>
  (takeBytes count bytes).map fun (front, rest) => (Bytes.ofList front, rest)

def takeSized (width : Nat) : Reader Bytes := fun bytes => do
  let (count, rest) ← takeNumber width bytes
  takeText count rest

def takeMany {α : Type} (step : Reader α) : Nat → Reader (List α)
  | 0, bytes => some ([], bytes)
  | count + 1, bytes => do
    let (item, rest) ← step bytes
    let (items, rest) ← takeMany step count rest
    return (item :: items, rest)

def takePair {α : Type} (step : Reader α) : Reader (α × α) := fun bytes => do
  let (key, rest) ← step bytes
  let (value, rest) ← step rest
  return ((key, value), rest)

def Reader.map {α β : Type} (read : Reader α) (f : α → β) : Reader β := fun bytes =>
  (read bytes).map fun (value, rest) => (f value, rest)

/-- Extension data: its kind and `count` bytes. -/
def takeExt (count : Nat) : Reader Value := fun bytes =>
  match bytes with
  | [] => none
  | kind :: rest => (takeText count).map (.ext kind) rest

/-- Reads one value, at most `depth` levels deep. -/
def parse : Nat → Reader Value
  | 0, _ => none
  | _ + 1, [] => none
  | depth + 1, code :: rest =>
    if code < 0x80 || 0xe0 ≤ code then some (.fixint code.toInt8, rest)
    else if code < 0x90 then
      (takeMany (takePair (parse depth)) (code &&& 0x0f).toNat).map .map rest
    else if code < 0xa0 then (takeMany (parse depth) (code &&& 0x0f).toNat).map .array rest
    else if code < 0xc0 then (takeText (code &&& 0x1f).toNat).map .str rest
    else
      match code with
      | 0xc0 => some (.nil, rest)
      | 0xc2 => some (.bool false, rest)
      | 0xc3 => some (.bool true, rest)
      | 0xc4 => (takeSized 1).map .bin rest
      | 0xc5 => (takeSized 2).map .bin rest
      | 0xc6 => (takeSized 4).map .bin rest
      | 0xc7 => (takeNumber 1 rest).bind fun (count, rest) => takeExt count rest
      | 0xc8 => (takeNumber 2 rest).bind fun (count, rest) => takeExt count rest
      | 0xc9 => (takeNumber 4 rest).bind fun (count, rest) => takeExt count rest
      | 0xca => (takeNumber 4).map (fun bits => .f32 bits.toUInt32) rest
      | 0xcb => (takeNumber 8).map (fun bits => .f64 bits.toUInt64) rest
      | 0xcc => (takeNumber 1).map (fun number => .u8 number.toUInt8) rest
      | 0xcd => (takeNumber 2).map (fun number => .u16 number.toUInt16) rest
      | 0xce => (takeNumber 4).map (fun number => .u32 number.toUInt32) rest
      | 0xcf => (takeNumber 8).map (fun number => .u64 number.toUInt64) rest
      | 0xd0 => (takeNumber 1).map (fun number => .i8 number.toUInt8.toInt8) rest
      | 0xd1 => (takeNumber 2).map (fun number => .i16 number.toUInt16.toInt16) rest
      | 0xd2 => (takeNumber 4).map (fun number => .i32 number.toUInt32.toInt32) rest
      | 0xd3 => (takeNumber 8).map (fun number => .i64 number.toUInt64.toInt64) rest
      | 0xd4 => takeExt 1 rest
      | 0xd5 => takeExt 2 rest
      | 0xd6 => takeExt 4 rest
      | 0xd7 => takeExt 8 rest
      | 0xd8 => takeExt 16 rest
      | 0xd9 => (takeSized 1).map .str rest
      | 0xda => (takeSized 2).map .str rest
      | 0xdb => (takeSized 4).map .str rest
      | 0xdc =>
        (takeNumber 2 rest).bind fun (count, rest) =>
          (takeMany (parse depth) count).map .array rest
      | 0xdd =>
        (takeNumber 4 rest).bind fun (count, rest) =>
          (takeMany (parse depth) count).map .array rest
      | 0xde =>
        (takeNumber 2 rest).bind fun (count, rest) =>
          (takeMany (takePair (parse depth)) count).map .map rest
      | 0xdf =>
        (takeNumber 4 rest).bind fun (count, rest) =>
          (takeMany (takePair (parse depth)) count).map .map rest
      | _ => none

/-- The value at the start of a byte string; what follows it does not matter. A value is never
nested deeper than it has bytes. -/
def Value.ofBytes? (data : Bytes) : Option Value :=
  (parse (data.size + 1) (Bytes.toList data)).map Prod.fst

def Value.toBytes (value : Value) : Bytes :=
  Bytes.ofList value.render

end WordMachine.MessagePack
