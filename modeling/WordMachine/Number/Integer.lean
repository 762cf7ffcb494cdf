import WordMachine.Text.Bytes

/-!
Integers of 64 bits in several bases: `42`, `-0x1F`, `0b101`, `0o17`, `017` and `1_000`.
-/

namespace WordMachine.Number

/-- Why a text is no integer. -/
inductive IntegerError where
  | malformed
  | outOfRange
  deriving DecidableEq, Repr

def IntegerError.message : IntegerError → String
  | malformed => "invalid syntax"
  | outOfRange => "value out of range"

namespace Integer

def digitValue? (byte : UInt8) : Option Nat :=
  let letter := Bytes.toLowerByte byte
  if Bytes.isDigit byte then some (byte.toNat - 48)
  else if 97 ≤ letter && letter ≤ 122 then some (letter.toNat - 87)
  else none

/-- The base that a letter behind a leading zero asks for. -/
def baseOf? (letter : UInt8) : Option Nat :=
  match Bytes.toLowerByte letter with
  | 98 => some 2
  | 111 => some 8
  | 120 => some 16
  | _ => none

/-- The base of an unsigned number, whether letters mark it, and the digits. A zero in front of
other digits means base eight. -/
def splitBase (text : List UInt8) : Nat × Bool × List UInt8 :=
  match text with
  | 48 :: letter :: first :: rest =>
    match baseOf? letter with
    | some base => (base, true, first :: rest)
    | none => (8, false, text)
  | 48 :: _ => (8, false, text)
  | _ => (10, false, text)

/-- The number that digits denote behind others; underscores do not count. The first fault is told:
a byte that is no digit, or a value beyond 64 bits. -/
def accumulate (base : Nat) : Nat → List UInt8 → Except IntegerError Nat
  | value, [] => .ok value
  | value, 95 :: rest => accumulate base value rest
  | value, byte :: rest =>
    match digitValue? byte with
    | none => .error .malformed
    | some digit =>
      if base ≤ digit then .error .malformed
      else if 18446744073709551616 ≤ value * base + digit then .error .outOfRange
      else accumulate base (value * base + digit) rest

/-- Whether every underscore stands between two digits. A mark of the base counts as a digit. -/
def underscoresFit : Bool → List UInt8 → Bool
  | afterDigit, [] => afterDigit
  | afterDigit, 95 :: rest => afterDigit && underscoresFit false rest
  | _, _ :: rest => underscoresFit true rest

def parse (text : Bytes) : Except IntegerError Int :=
  let (negative, unsigned) := match text.toList with
    | 45 :: rest => (true, rest)
    | 43 :: rest => (false, rest)
    | rest => (false, rest)
  if unsigned.isEmpty then .error .malformed
  else do
    let (base, marked, digits) := splitBase unsigned
    let value ← accumulate base 0 digits
    if !underscoresFit marked digits then .error .malformed
    if negative && value ≤ 9223372036854775808 then .ok (-(value : Int))
    else if !negative && value < 9223372036854775808 then .ok value
    else .error .outOfRange

end Integer

end WordMachine.Number
