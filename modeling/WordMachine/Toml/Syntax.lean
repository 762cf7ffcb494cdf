import WordMachine.Text.Utf8

/-!
What a TOML file says, statement by statement, before the statements are joined into tables, and
how its keys, numbers and dates are written. A token of a number or date is first cut out by the
characters it may hold and then judged as a whole.
-/

namespace WordMachine.Toml

abbrev Key := List Bytes

inductive Literal where
  | text (value : Bytes)
  | integer (value : Int)
  | float (digits : List Char)
  | boolean (value : Bool)
  | moment (digits : List Char)
  | array (items : List Literal)
  | table (pairs : List (Key × Literal))
  deriving Inhabited

inductive Statement where
  | table (key : Key)
  /-- The header of one more table in an array of tables. -/
  | tableOfArray (key : Key)
  | pair (key : Key) (value : Literal)
  deriving Inhabited

/-- Characters of keys that need no quotes. -/
def isBare (char : Char) : Bool :=
  char.isAlphanum || char == '_' || char == '-'

/-- How a character is written in a quoted key. -/
def quotedChar (code : Nat) : Bytes :=
  match code with
  | 8 => "\\b"
  | 9 => "\\t"
  | 10 => "\\n"
  | 12 => "\\f"
  | 13 => "\\r"
  | 0x22 => "\\\""
  | 0x5c => "\\\\"
  | _ =>
    if code < 0x20 || code == 0x7f then "\\u" ++ Bytes.hex 4 code
    else Bytes.ofList (Text.encodeScalar code)

/-- One name of a key, in quotes unless it is bare. -/
def nameText (name : Bytes) : Bytes :=
  if !name.isEmpty && name.toList.all fun byte => isBare (Char.ofNat byte.toNat) then name
  else
    let inner := (Text.glyphs name).map fun
      | .scalar code => quotedChar code
      | .stray byte => Bytes.singleton byte
    "\"" ++ Bytes.concat inner ++ "\""

def keyText (key : Key) : Bytes :=
  Bytes.join "." (key.map nameText)

/-! ## Numbers and dates -/

def isHexDigit (char : Char) : Bool :=
  char.isDigit || ('a' ≤ char && char ≤ 'f') || ('A' ≤ char && char ≤ 'F')

def digitValue (char : Char) : Nat :=
  if char.isDigit then char.toNat - 48
  else if 'a' ≤ char then char.toNat - 87
  else char.toNat - 55

/-- The number some digits denote in a base; underscores do not count. -/
def digitsValue (base : Nat) (digits : List Char) : Nat :=
  (digits.filter (· != '_')).foldl (fun value digit => value * base + digitValue digit) 0

/-- Whether every underscore stands between two digits. -/
def underscoresOk (token : List Char) : Bool :=
  let step (state : Bool × Bool) (char : Char) : Bool × Bool :=
    (state.1 && (char != '_' || state.2), isHexDigit char)
  let (ok, last) := token.foldl step (true, false)
  ok && last

/-- Whether the digits start with a zero that does not stand alone. -/
def hasLeadingZero (token : List Char) : Bool :=
  match token with
  | sign :: '0' :: _ :: _ => sign == '-' || sign == '+' || sign == '0'
  | '0' :: _ :: _ => true
  | _ => false

def fitting (value : Int) : Option Literal :=
  if -9223372036854775808 ≤ value && value ≤ 9223372036854775807 then some (.integer value)
  else none

def decimalInteger (token : List Char) : Option Literal :=
  if underscoresOk token && !hasLeadingZero token then
    match token with
    | '-' :: digits => fitting (-(digitsValue 10 digits : Int))
    | '+' :: digits => fitting (digitsValue 10 digits)
    | digits => fitting (digitsValue 10 digits)
  else none

def basedInteger (base : Nat) (digits : List Char) : Option Literal :=
  if underscoresOk digits then fitting (digitsValue base digits) else none

/-! ## Fractions -/

/-- The nonempty parts of a token between its point and its exponent mark. -/
def floatParts : List Char → List Char → List (List Char)
  | [], part => if part.isEmpty then [] else [part.reverse]
  | char :: rest, part =>
    if char == '.' || char == 'e' || char == 'E' then
      if part.isEmpty then floatParts rest [] else part.reverse :: floatParts rest []
    else floatParts rest (char :: part)

def pointsOk : List Char → Bool
  | [] => true
  | '.' :: next :: rest => next.isDigit && pointsOk (next :: rest)
  | ['.'] => false
  | _ :: rest => pointsOk rest

def dropSign : List Char → List Char
  | '-' :: rest => rest
  | '+' :: rest => rest
  | rest => rest

/-- Whether the decimal `digits · 10 ^ exponent` is too large for a 64-bit float: it lies at or
beyond the middle between the largest float and the next power of two. -/
def overflowsDouble (digits : Nat) (exponent : Int) : Bool :=
  if digits = 0 then false
  else
    let size : Int := (Nat.toDigits 10 digits).length + exponent
    if 400 < size then true
    else if size < 0 then false
    else
      let limit := (Nat.pow 2 54 - 1) * Nat.pow 2 970
      if 0 ≤ exponent then limit ≤ digits * Nat.pow 10 exponent.toNat
      else limit * Nat.pow 10 (-exponent).toNat ≤ digits

/-- Whether a token without underscores is digits, a fraction and an exponent, and fits a float. -/
def isFraction (token : List Char) : Bool :=
  let (whole, rest) := (dropSign token).span Char.isDigit
  let (fraction, rest) := match rest with
    | '.' :: rest => rest.span Char.isDigit
    | rest => ([], rest)
  let mantissa := digitsValue 10 (whole ++ fraction)
  let judge (exponent : Int) : Bool :=
    !(whole.isEmpty && fraction.isEmpty) && !overflowsDouble mantissa (exponent - fraction.length)
  match rest with
  | [] => judge 0
  | mark :: rest =>
    let (digits, tail) := (dropSign rest).span Char.isDigit
    let magnitude := digitsValue 10 digits
    (mark == 'e' || mark == 'E') && !digits.isEmpty && tail.isEmpty &&
      judge (if rest.head? == some '-' then -(magnitude : Int) else magnitude)

def fractionOf (token : List Char) : Option Literal :=
  let parts := floatParts token []
  if parts.all underscoresOk && !(parts.head?.elim false hasLeadingZero) && pointsOk token &&
      isFraction (token.filter (· != '_')) then
    some (.float token)
  else none

/-! ## Dates and times -/

def twoDigits : List Char → Option (Nat × List Char)
  | first :: second :: rest =>
    if first.isDigit && second.isDigit then
      some (digitValue first * 10 + digitValue second, rest)
    else none
  | _ => none

def hourDigits : List Char → Option (Nat × List Char)
  | first :: second :: rest =>
    if first.isDigit then
      if second.isDigit then some (digitValue first * 10 + digitValue second, rest)
      else some (digitValue first, second :: rest)
    else none
  | [first] => if first.isDigit then some (digitValue first, []) else none
  | [] => none

def skipChar (char : Char) : List Char → Option (List Char)
  | found :: rest => if found == char then some rest else none
  | [] => none

def isLeap (year : Nat) : Bool :=
  year % 4 == 0 && (year % 100 != 0 || year % 400 == 0)

def daysIn (year month : Nat) : Nat :=
  match month with
  | 2 => if isLeap year then 29 else 28
  | 4 | 6 | 9 | 11 => 30
  | _ => 31

def dateAt (token : List Char) : Option (List Char) := do
  let (century, rest) ← twoDigits token
  let (year, rest) ← twoDigits rest
  let (month, rest) ← twoDigits (← skipChar '-' rest)
  let (day, rest) ← twoDigits (← skipChar '-' rest)
  if 1 ≤ month && month ≤ 12 && 1 ≤ day && day ≤ daysIn (century * 100 + year) month then some rest
  else none

/-- A time of day at the front; its seconds may have a fraction of any length. -/
def timeAt (token : List Char) : Option (List Char) := do
  let (hour, rest) ← hourDigits token
  let (minute, rest) ← twoDigits (← skipChar ':' rest)
  let (second, rest) ← twoDigits (← skipChar ':' rest)
  if 24 ≤ hour || 60 ≤ minute || 60 ≤ second then none
  else
    match rest with
    | '.' :: digit :: rest =>
      if digit.isDigit then some (rest.dropWhile Char.isDigit) else some ('.' :: digit :: rest)
    | rest => some rest

/-- A distance from universal time, as the whole of the rest. -/
def isZone : List Char → Bool
  | ['Z'] => true
  | [sign, h1, h2, ':', m1, m2] =>
    (sign == '+' || sign == '-') && [h1, h2, m1, m2].all Char.isDigit &&
      digitsValue 10 [h1, h2] ≤ 24 && digitsValue 10 [m1, m2] ≤ 60
  | _ => false

/-- A day, a time, or both with or without a zone. The letters may be small, and a blank can stand
for the letter between day and time. -/
def momentOf (token : List Char) : Option Literal :=
  let canonical := token.map fun
    | 'z' => 'Z'
    | 't' | ' ' => 'T'
    | char => char
  let valid :=
    match dateAt canonical with
    | some [] => true
    | some ('T' :: rest) =>
      match timeAt rest with
      | some [] => true
      | some zone => isZone zone
      | none => false
    | _ => timeAt canonical == some []
  if valid then some (.moment token) else none

/-! ## Tokens -/

def isFloatChar (char : Char) : Bool :=
  char.isDigit || char == '_' || char == '.' || char == '-' || char == '+' || char == 'e' ||
    char == 'E'

def isMomentChar (char : Char) : Bool :=
  char.isDigit || char == '-' || char == ':' || char == 'T' || char == 't' || char == ' ' ||
    char == '.' || char == 'Z' || char == 'z' || char == '+'

/-- The number that starts with the characters `front` and goes on in `rest` as an integer or a
fraction. -/
def decimalNumber (front rest : List Char) : Option (Literal × List Char) :=
  let (digits, rest) := rest.span fun char => char.isDigit || char == '_'
  let token := front ++ digits
  let isMark : Bool := match rest with
    | '.' :: _ | 'e' :: _ | 'E' :: _ => true
    | _ => false
  if isMark then do
    let (tail, rest) := rest.span isFloatChar
    let value ← fractionOf (token ++ tail)
    some (value, rest)
  else do
    let value ← decimalInteger token
    some (value, rest)

def markedInteger (base : Nat) (isDigit : Char → Bool) (rest : List Char) :
    Option (Literal × List Char) := do
  let (digits, tail) := rest.span fun char => isDigit char || char == '_'
  if !(digits.head?.elim false isDigit) then none
  let value ← basedInteger base digits
  some (value, tail)

def momentToken (input : List Char) : Option (Literal × List Char) := do
  let (token, rest) := input.span isMomentChar
  let value ← momentOf (token.reverse.dropWhile (· == ' ')).reverse
  some (value, rest)

def unsignedToken (input : List Char) : Option (Literal × List Char) :=
  match input with
  | '0' :: 'x' :: rest => markedInteger 16 isHexDigit rest
  | '0' :: 'o' :: rest => markedInteger 8 (fun char => '0' ≤ char && char ≤ '7') rest
  | '0' :: 'b' :: rest => markedInteger 2 (fun char => char == '0' || char == '1') rest
  | _ =>
    let (digits, rest) := input.span Char.isDigit
    let isMoment : Bool := digits != ['0'] && (rest.head? == some '-' || rest.head? == some ':')
    if isMoment then momentToken input else decimalNumber digits rest

def signedToken (sign : Char) (input : List Char) : Option (Literal × List Char) :=
  match input with
  | 'i' :: 'n' :: 'f' :: rest => some (.float (sign :: ['i', 'n', 'f']), rest)
  | 'n' :: 'a' :: 'n' :: rest => some (.float (sign :: ['n', 'a', 'n']), rest)
  | digit :: rest => if digit.isDigit then decimalNumber [sign, digit] rest else none
  | [] => none

end WordMachine.Toml
