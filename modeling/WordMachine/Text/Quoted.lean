import WordMachine.Text.Utf8
import WordMachine.Text.Visible

/-!
Quoted text. In a literal, visible characters stand for themselves between double quotes and
everything else is escaped; a single character stands between single quotes. JSON strings are also
safe inside HTML: the signs `<`, `>` and `&` are escaped, as are the two separators that end a line
in scripts, and a byte that is not UTF-8 is written as the replacement character.
-/

namespace WordMachine.Text

/-! ## Literals -/

/-- How one glyph is written between quotes of the given kind. -/
def quoteGlyph (mark : Nat) : Glyph → Bytes
  | .stray byte => "\\x" ++ Bytes.hex 2 byte.toNat
  | .scalar code =>
    if code == mark || code == 0x5c then Bytes.ofList [0x5c, code.toUInt8]
    else if isVisible code then Bytes.ofList (encodeScalar code)
    else
      match code with
      | 7 => "\\a"
      | 8 => "\\b"
      | 9 => "\\t"
      | 10 => "\\n"
      | 11 => "\\v"
      | 12 => "\\f"
      | 13 => "\\r"
      | _ =>
        if code < 0x20 || code == 0x7f then "\\x" ++ Bytes.hex 2 code
        else if code < 0x10000 then "\\u" ++ Bytes.hex 4 code
        else "\\U" ++ Bytes.hex 8 code

def quote (text : Bytes) : Bytes :=
  "\"" ++ Bytes.concat ((glyphs text).map (quoteGlyph 0x22)) ++ "\""

def quoteScalar (code : Nat) : Bytes :=
  "'" ++ quoteGlyph 0x27 (.scalar code) ++ "'"

/-! ## JSON -/

def jsonGlyph : Glyph → Bytes
  | .stray _ => Bytes.ofList (encodeScalar 0xfffd)
  | .scalar code =>
    match code with
    | 8 => "\\b"
    | 9 => "\\t"
    | 10 => "\\n"
    | 12 => "\\f"
    | 13 => "\\r"
    | 0x22 => "\\\""
    | 0x5c => "\\\\"
    | _ =>
      if code < 0x20 || code == 0x3c || code == 0x3e || code == 0x26 || code == 0x2028 ||
          code == 0x2029 then
        "\\u" ++ Bytes.hex 4 code
      else Bytes.ofList (encodeScalar code)

def jsonString (text : Bytes) : Bytes :=
  "\"" ++ Bytes.concat ((glyphs text).map jsonGlyph) ++ "\""

def jsonObject (members : List (Bytes × Bytes)) : Bytes :=
  "\x7b" ++ Bytes.join "," (members.map fun (name, value) => jsonString name ++ ":" ++ value) ++
    "\x7d"

end WordMachine.Text
