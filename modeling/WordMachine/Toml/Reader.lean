import WordMachine.Toml.Text

/-!
The statements of a TOML file. Every reader takes the characters that are left and gives what it
read and what is left then; the fuel of a reader is at least the number of characters.
-/

namespace WordMachine.Toml

def skipBlanks (input : List Char) : List Char :=
  input.dropWhile isBlank

def skipComment (input : List Char) : List Char :=
  input.dropWhile fun char => !isLineEnd char

/-- Drops white space, line ends and comments, from the inside of a comment or not. -/
def skipLinesFrom : Bool → List Char → List Char
  | _, [] => []
  | true, char :: rest => skipLinesFrom (!isLineEnd char) rest
  | false, char :: rest =>
    if isBlank char || isLineEnd char then skipLinesFrom false rest
    else if char == '#' then skipLinesFrom true rest
    else char :: rest

/-- Drops white space, line ends and comments. -/
def skipLines (input : List Char) : List Char :=
  skipLinesFrom false input

def keyName (input : List Char) : Option (Bytes × List Char) :=
  match input with
  | '"' :: rest => quotedText '"' rest
  | '\'' :: rest => quotedText '\'' rest
  | _ =>
    let (name, rest) := input.span isBare
    if name.isEmpty then none else some (utf8 name, rest)

/-- Names with dots between them, up to the character `final`. -/
def dottedKey (final : Char) : Nat → List Char → Option (Key × List Char)
  | 0, _ => none
  | fuel + 1, input => do
    let (name, rest) ← keyName (skipBlanks input)
    match skipBlanks rest with
    | [] => none
    | char :: rest =>
      if char == final then some ([name], rest)
      else if char == '.' then do
        let (names, rest) ← dottedKey final fuel rest
        some (name :: names, rest)
      else none

mutual

def value : Nat → List Char → Option (Literal × List Char)
  | 0, _ => none
  | fuel + 1, input =>
    match skipBlanks input with
    | [] => none
    | '[' :: rest => do
      let (items, rest) ← arrayItems fuel rest
      some (.array items, rest)
    | '\x7b' :: rest => do
      let (pairs, rest) ← tablePairs fuel true rest
      some (.table pairs, rest)
    | '"' :: rest => (textValue '"' rest).map fun (text, rest) => (.text text, rest)
    | '\'' :: rest => (textValue '\'' rest).map fun (text, rest) => (.text text, rest)
    | 'i' :: 'n' :: 'f' :: rest => some (.float ['i', 'n', 'f'], rest)
    | 'n' :: 'a' :: 'n' :: rest => some (.float ['n', 'a', 'n'], rest)
    | char :: rest =>
      if char.isDigit then unsignedToken (char :: rest)
      else if char == '-' || char == '+' then signedToken char rest
      else
        let (word, rest) := (char :: rest).span Char.isAlpha
        if word == ['t', 'r', 'u', 'e'] then some (.boolean true, rest)
        else if word == ['f', 'a', 'l', 's', 'e'] then some (.boolean false, rest)
        else none

/-- The rest of an array. A comma may stand after its last item. -/
def arrayItems : Nat → List Char → Option (List Literal × List Char)
  | 0, _ => none
  | fuel + 1, input =>
    match skipLines input with
    | ']' :: rest => some ([], rest)
    | input => do
      let (item, rest) ← value fuel input
      match skipLines rest with
      | ']' :: rest => some ([item], rest)
      | ',' :: rest => do
        let (items, rest) ← arrayItems fuel rest
        some (item :: items, rest)
      | _ => none

/-- The rest of a table on one line. It can end here only if no comma has just been read. -/
def tablePairs : Nat → Bool → List Char → Option (List (Key × Literal) × List Char)
  | 0, _, _ => none
  | fuel + 1, canEnd, input =>
    match skipBlanks input with
    | '\x7d' :: rest => if canEnd then some ([], rest) else none
    | input => do
      let (key, rest) ← dottedKey '=' fuel input
      let (item, rest) ← value fuel rest
      match skipBlanks rest with
      | '\x7d' :: rest => some ([(key, item)], rest)
      | ',' :: rest => do
        let (pairs, rest) ← tablePairs fuel false rest
        some ((key, item) :: pairs, rest)
      | _ => none

end

/-- What follows a statement: the rest of its line must be a comment or nothing. -/
def lineEnd (input : List Char) : Option (List Char) :=
  match skipBlanks input with
  | [] => some []
  | char :: rest =>
    if char == '#' then some (skipComment rest)
    else if isLineEnd char then some rest
    else none

def statement (fuel : Nat) (input : List Char) : Option (Statement × List Char) :=
  match input with
  | '[' :: '[' :: rest => do
    let (key, rest) ← dottedKey ']' fuel rest
    let rest ← skipChar ']' rest
    some (.tableOfArray key, rest)
  | '[' :: rest => do
    let (key, rest) ← dottedKey ']' fuel rest
    some (.table key, rest)
  | _ => do
    let (key, rest) ← dottedKey '=' fuel input
    let (item, rest) ← value fuel rest
    some (.pair key item, rest)

def statements : Nat → List Char → Option (List Statement)
  | 0, _ => none
  | fuel + 1, input =>
    match skipLines input with
    | [] => some []
    | input => do
      let (first, rest) ← statement fuel input
      let rest ← lineEnd rest
      let others ← statements fuel rest
      some (first :: others)

def parse (file : Bytes) : Option (List Statement) := do
  let input ← characters (Text.glyphs (withoutMark file))
  statements (input.length + 1) input

end WordMachine.Toml
