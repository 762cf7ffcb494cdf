import WordMachine.Text.Bytes

/-!
UTF-8 as a reading of byte strings. A byte that starts no valid encoding stands for itself, so
every byte string is a sequence of scalars and stray bytes.
-/

namespace WordMachine.Text

/-- One unit of text: a Unicode scalar value, or a byte that belongs to no valid encoding. -/
inductive Glyph where
  | scalar (code : Nat)
  | stray (byte : UInt8)
  deriving DecidableEq, Repr

def isContinuation (byte : UInt8) : Bool :=
  byte &&& 0xc0 == 0x80

def continuationBits (byte : UInt8) : Nat :=
  (byte &&& 0x3f).toNat

/-- The scalar encoded at the start of the bytes and the length of its encoding. Overlong
forms, surrogates and values above U+10FFFF are not encodings. -/
def leadingScalar? : List UInt8 → Option (Nat × Nat)
  | [] => none
  | first :: rest =>
    if first < 0x80 then some (first.toNat, 1)
    else if first < 0xc2 then none
    else if first < 0xe0 then
      match rest with
      | second :: _ =>
        if isContinuation second then
          some ((first &&& 0x1f).toNat * 64 + continuationBits second, 2)
        else none
      | _ => none
    else if first < 0xf0 then
      match rest with
      | second :: third :: _ =>
        let code := (first &&& 0x0f).toNat * 4096 + continuationBits second * 64 +
          continuationBits third
        if isContinuation second && isContinuation third && 0x800 ≤ code &&
            !(0xd800 ≤ code && code < 0xe000) then
          some (code, 3)
        else none
      | _ => none
    else if first < 0xf5 then
      match rest with
      | second :: third :: fourth :: _ =>
        let code := (first &&& 0x07).toNat * 262144 + continuationBits second * 4096 +
          continuationBits third * 64 + continuationBits fourth
        if isContinuation second && isContinuation third && isContinuation fourth &&
            0x10000 ≤ code && code < 0x110000 then
          some (code, 4)
        else none
      | _ => none
    else none

/-- Reads glyphs until the bytes, or the fuel, run out. -/
def glyphsWith : Nat → List UInt8 → List Glyph
  | 0, _ => []
  | _, [] => []
  | fuel + 1, byte :: rest =>
    match leadingScalar? (byte :: rest) with
    | some (code, width) => .scalar code :: glyphsWith fuel (rest.drop (width - 1))
    | none => .stray byte :: glyphsWith fuel rest

def glyphs (text : Bytes) : List Glyph :=
  glyphsWith text.size (Bytes.toList text)

def encodeScalar (code : Nat) : List UInt8 :=
  if code < 0x80 then [code.toUInt8]
  else if code < 0x800 then
    [(0xc0 + code / 64).toUInt8, (0x80 + code % 64).toUInt8]
  else if code < 0x10000 then
    [(0xe0 + code / 4096).toUInt8, (0x80 + code / 64 % 64).toUInt8, (0x80 + code % 64).toUInt8]
  else
    [(0xf0 + code / 262144).toUInt8, (0x80 + code / 4096 % 64).toUInt8,
      (0x80 + code / 64 % 64).toUInt8, (0x80 + code % 64).toUInt8]

def Glyph.bytes : Glyph → List UInt8
  | .scalar code => encodeScalar code
  | .stray byte => [byte]

def ofGlyphs (units : List Glyph) : Bytes :=
  Bytes.ofList (units.flatMap Glyph.bytes)

def isSpace (code : Nat) : Bool :=
  (9 ≤ code && code ≤ 13) || code == 0x20 || code == 0x85 || code == 0xa0 || code == 0x1680 ||
    (0x2000 ≤ code && code ≤ 0x200a) || code == 0x2028 || code == 0x2029 || code == 0x202f ||
    code == 0x205f || code == 0x3000

def Glyph.isBlank : Glyph → Bool
  | .scalar code => isSpace code
  | .stray _ => false

/-- The text without leading and trailing white space. -/
def trimSpace (text : Bytes) : Bytes :=
  ofGlyphs (((glyphs text).dropWhile Glyph.isBlank).reverse.dropWhile Glyph.isBlank).reverse

end WordMachine.Text
