import WordMachine.Text.Quoted

/-!
Quantities with units. A size in bytes such as `512`, `64KiB` or `100 MiB` is a count and an
optional unit. A duration such as `250ms` or `1h2m3.5s` is a sum of numbers with units, in
nanoseconds.
-/

namespace WordMachine

/-! ## Sizes -/

/-- Why a text is no size. The text kept is the count, without unit and white space. -/
inductive SizeError where
  | invalid (count : Bytes)
  | overflow (count : Bytes)
  deriving DecidableEq

def SizeError.message : SizeError → Bytes
  | invalid count => "invalid size " ++ Text.quote count
  | overflow count => "size " ++ Text.quote count ++ " overflows"

namespace Size

def units : List (Bytes × Nat) :=
  [("GiB", 1073741824), ("MiB", 1048576), ("KiB", 1024), ("B", 1)]

def largest : Nat :=
  9223372036854775807

/-- The number that nonempty decimal digits denote. -/
def natOfDigits? (digits : List UInt8) : Option Nat :=
  if !digits.isEmpty && digits.all Bytes.isDigit then
    some (digits.foldl (fun value digit => value * 10 + (digit.toNat - 48)) 0)
  else none

/-- The integer that an optional sign and decimal digits denote. -/
def integerOf? (text : List UInt8) : Option Int :=
  match text with
  | 43 :: digits => (natOfDigits? digits).map Int.ofNat
  | 45 :: digits => (natOfDigits? digits).map fun value => -(Int.ofNat value)
  | digits => (natOfDigits? digits).map Int.ofNat

/-- The count and the unit of a text without white space around it. -/
def splitUnit (text : Bytes) : Bytes × Nat :=
  match units.find? fun (name, _) => Bytes.endsWith text name with
  | some (name, factor) => (Text.trimSpace (Bytes.take text (text.size - name.size)), factor)
  | none => (text, 1)

def parse (text : Bytes) : Except SizeError Int64 :=
  let (count, factor) := splitUnit (Text.trimSpace text)
  match integerOf? count.toList with
  | none => .error (.invalid count)
  | some value =>
    if value < 0 || (largest : Int) < value then .error (.invalid count)
    else if ((largest / factor : Nat) : Int) < value then .error (.overflow count)
    else .ok (Int64.ofInt (value * factor))

end Size

/-! ## Durations -/

/-- Why a text is no duration. -/
inductive DurationError where
  | invalid
  | missingUnit
  | unknownUnit (unit : Bytes)
  deriving DecidableEq

namespace Duration

/-- The units and their nanoseconds. The sign of micro comes in two spellings. -/
def units : List (List UInt8 × Nat) :=
  [("ns", 1), ("us", 1000), ("µs", 1000), ("μs", 1000), ("ms", 1000000), ("s", 1000000000),
    ("m", 60000000000), ("h", 3600000000000)].map fun (name, factor) =>
      (Bytes.toList (String.toUTF8 name), factor)

def bound : Nat :=
  9223372036854775808

/-- The whole number that some digits denote, if it is within the bound. -/
def whole? (digits : List UInt8) : Option Nat :=
  let value := digits.foldl (fun value digit => value * 10 + (digit.toNat - 48)) 0
  if value ≤ bound then some value else none

/-- The digits of a fraction that count, as a number and the power of ten below it. Digits beyond
the bound have no effect. -/
def fraction (digits : List UInt8) : Nat × Nat :=
  let step (state : Nat × Nat × Bool) (digit : UInt8) : Nat × Nat × Bool :=
    let (value, scale, full) := state
    let next := value * 10 + (digit.toNat - 48)
    if full || (bound - 1) / 10 < value || bound < next then (value, scale, true)
    else (next, scale * 10, false)
  let (value, scale, _) := digits.foldl step (0, 1, false)
  (value, scale)

/-- Nanoseconds of a fraction of a unit, rounded as double-precision arithmetic rounds. -/
def fractionNanos (value scale factor : Nat) : Nat :=
  (value.toFloat * (factor.toFloat / scale.toFloat)).toUInt64.toNat

def isNumeric (byte : UInt8) : Bool :=
  byte == 46 || Bytes.isDigit byte

def sumParts : Nat → Nat → List UInt8 → Except DurationError Nat
  | 0, _, _ => .error .invalid
  | _, total, [] => .ok total
  | fuel + 1, total, text => do
    let (digits, rest) := text.span Bytes.isDigit
    let some value := whole? digits | .error .invalid
    let (decimals, rest) := match rest with
      | 46 :: rest => rest.span Bytes.isDigit
      | rest => ([], rest)
    if digits.isEmpty && decimals.isEmpty then .error .invalid
    let (name, rest) := rest.span fun byte => !isNumeric byte
    if name.isEmpty then .error .missingUnit
    let some (_, factor) := units.find? fun (found, _) => found == name
      | .error (.unknownUnit (Bytes.ofList name))
    if bound / factor < value then .error .invalid
    let (part, scale) := fraction decimals
    let nanos := value * factor + if 0 < part then fractionNanos part scale factor else 0
    let total := (total + nanos) % 18446744073709551616
    if bound < nanos || bound < total then .error .invalid
    sumParts fuel total rest

def parse (text : Bytes) : Except DurationError Int :=
  let (negative, rest) := match text.toList with
    | 45 :: rest => (true, rest)
    | 43 :: rest => (false, rest)
    | rest => (false, rest)
  if rest == [48] then .ok 0
  else if rest.isEmpty then .error .invalid
  else do
    let total ← sumParts (rest.length + 1) 0 rest
    if negative then .ok (-(total : Int))
    else if total < bound then .ok total
    else .error .invalid

/-- A text in quotes. Bytes that are no printable ASCII are written as hexadecimal digits. -/
def quote (text : Bytes) : Bytes :=
  let escape (byte : UInt8) : Bytes :=
    if byte < 32 || 128 ≤ byte then "\\x" ++ Bytes.hex 2 byte.toNat
    else if byte == 34 || byte == 92 then Bytes.ofList [92, byte]
    else Bytes.singleton byte
  "\"" ++ Bytes.concat (text.toList.map escape) ++ "\""

end Duration

def DurationError.message (text : Bytes) : DurationError → Bytes
  | invalid => "time: invalid duration " ++ Duration.quote text
  | missingUnit => "time: missing unit in duration " ++ Duration.quote text
  | unknownUnit unit =>
    "time: unknown unit " ++ Duration.quote unit ++ " in duration " ++ Duration.quote text

end WordMachine
