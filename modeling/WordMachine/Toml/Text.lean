import WordMachine.Toml.Syntax

/-!
Characters and quoted text of TOML.
-/

namespace WordMachine.Toml

def isBlank (char : Char) : Bool :=
  char == ' ' || char == '\t'

def isLineEnd (char : Char) : Bool :=
  char == '\n' || char == '\r'

/-- Control characters that cannot stand in a file. -/
def isControl (code : Nat) : Bool :=
  (code < 0x20 && code != 9 && code != 10 && code != 13) || code == 0x7f

/-- The characters of a file, if all of them may stand there. A carriage return needs a line feed
after it. -/
def characters : List Text.Glyph → Option (List Char)
  | [] => some []
  | .stray _ :: _ => none
  | .scalar code :: rest =>
    if isControl code || code == 0xfffd || (code == 13 && rest.head? != some (.scalar 10)) then
      none
    else (characters rest).map (Char.ofNat code :: ·)

def withoutMark (file : Bytes) : Bytes :=
  match file.toList with
  | 0xff :: 0xfe :: rest => Bytes.ofList rest
  | 0xfe :: 0xff :: rest => Bytes.ofList rest
  | 0xef :: 0xbb :: 0xbf :: rest => Bytes.ofList rest
  | _ => file

def utf8 (chars : List Char) : Bytes :=
  Text.ofGlyphs (chars.map fun char => .scalar char.toNat)

def escapedScalar (digits : List Char) : Option Char :=
  let code := digitsValue 16 digits
  if digits.all isHexDigit && (code < 0xd800 || 0xe000 ≤ code) && code < 0x110000 then
    some (Char.ofNat code)
  else none

def escape : List Char → Option (Char × List Char)
  | 'b' :: rest => some (Char.ofNat 8, rest)
  | 't' :: rest => some ('\t', rest)
  | 'n' :: rest => some ('\n', rest)
  | 'f' :: rest => some (Char.ofNat 12, rest)
  | 'r' :: rest => some ('\r', rest)
  | '"' :: rest => some ('"', rest)
  | '\\' :: rest => some ('\\', rest)
  | 'u' :: rest =>
    if rest.length < 4 then none
    else (escapedScalar (rest.take 4)).map fun char => (char, rest.drop 4)
  | 'U' :: rest =>
    if rest.length < 8 then none
    else (escapedScalar (rest.take 8)).map fun char => (char, rest.drop 8)
  | _ => none

/-- Text up to a double quote, on one line, with its escapes replaced. -/
def basicText : Nat → List Char → List Char → Option (Bytes × List Char)
  | 0, _, _ => none
  | _, _, [] => none
  | fuel + 1, seen, char :: rest =>
    if isLineEnd char then none
    else if char == '"' then some (utf8 seen.reverse, rest)
    else if char == '\\' then
      match escape rest with
      | some (char, rest) => basicText fuel (char :: seen) rest
      | none => none
    else basicText fuel (char :: seen) rest

/-- Text up to a single quote, on one line, as it stands. -/
def rawText : List Char → List Char → Option (Bytes × List Char)
  | _, [] => none
  | seen, char :: rest =>
    if isLineEnd char then none
    else if char == '\'' then some (utf8 seen.reverse, rest)
    else rawText (char :: seen) rest

/-! ## Text over several lines -/

/-- Whether five quotes have been seen that do not follow a backslash. -/
def fiveQuotes (quote : Char) (seen : List Char) : Bool :=
  (seen.take 5).length == 5 && (seen.take 5).all (· == quote) &&
    !(quote == '"' && (seen.drop 5).head? == some '\\')

/-- Text up to three quotes, latest character first. Up to two more quotes in front of those three
belong to the text. -/
def blockText (quote : Char) : Nat → List Char → List Char → Option (List Char × List Char)
  | 0, _, _ => none
  | _, _, [] => none
  | fuel + 1, seen, char :: rest =>
    if char == quote then
      match rest with
      | second :: third :: tail =>
        if second == quote && third == quote then
          if tail.head? == some quote then
            if fiveQuotes quote (quote :: quote :: quote :: seen) then none
            else blockText quote fuel (char :: seen) rest
          else some (seen, tail)
        else blockText quote fuel (char :: seen) rest
      | _ => blockText quote fuel (char :: seen) rest
    else if quote == '"' && char == '\\' then
      match rest with
      | next :: tail => blockText quote fuel (next :: char :: seen) tail
      | [] => none
    else blockText quote fuel (char :: seen) rest

def dropFirstLineEnd : List Char → List Char
  | '\n' :: rest => rest
  | '\r' :: '\n' :: rest => rest
  | rest => rest

/-- Replaces the escapes of a text over several lines. A backslash at the end of a line takes away
the white space up to the next character. -/
def unescapeBlock : Nat → List Char → List Char → Option (List Char)
  | 0, _, _ => none
  | _, seen, [] => some seen.reverse
  | fuel + 1, seen, char :: rest =>
    if char == '\\' then
      let (space, after) := rest.span fun next => isBlank next || isLineEnd next
      if space.contains '\n' then unescapeBlock fuel seen after
      else
        match escape rest with
        | some (char, rest) => unescapeBlock fuel (char :: seen) rest
        | none => none
    else unescapeBlock fuel (char :: seen) rest

def quotedText (quote : Char) (input : List Char) : Option (Bytes × List Char) :=
  if quote == '"' then basicText (input.length + 1) [] input else rawText [] input

/-- A text value, after its first quote: on one line, or over several lines after three quotes. -/
def textValue (quote : Char) (input : List Char) : Option (Bytes × List Char) :=
  match input with
  | second :: third :: rest =>
    if second == quote && third == quote then do
      let (seen, rest) ← blockText quote (rest.length + 1) [] rest
      let block := dropFirstLineEnd seen.reverse
      let block ← if quote == '"' then unescapeBlock (block.length + 1) [] block else some block
      some (utf8 block, rest)
    else quotedText quote input
  | _ => quotedText quote input

end WordMachine.Toml
