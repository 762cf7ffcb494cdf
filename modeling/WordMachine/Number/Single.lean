import WordMachine.Number.Decimal

/-!
Arithmetic on single-precision patterns. Results are the nearest representable values; what sets it
apart from arithmetic on numbers is that patterns of NaN are kept: an operation returns its first
NaN operand made quiet, and an invalid operation the negative quiet NaN. Powers are computed in
double precision by repeated squaring; every product is rounded, so that large exponents show in the
last digits.
-/

namespace WordMachine.Number

/-! ## Powers -/

/-- The number `fraction * 2 ^ exponent`, whose fraction stays near one in products. -/
structure Scaled where
  fraction : Float
  exponent : Int

namespace Scaled

def mul (left right : Scaled) : Scaled where
  fraction := left.fraction * right.fraction
  exponent := left.exponent + right.exponent

def square (number : Scaled) : Scaled :=
  let fraction := number.fraction * number.fraction
  let exponent := 2 * number.exponent
  if fraction < 0.5 then ⟨fraction + fraction, exponent - 1⟩ else ⟨fraction, exponent⟩

/-- Whether no product with the number is in the range of doubles. -/
def isExtreme (number : Scaled) : Bool :=
  number.exponent < -4096 || 4096 < number.exponent

def inverse (number : Scaled) : Scaled where
  fraction := 1 / number.fraction
  exponent := -number.exponent

def toFloat (number : Scaled) : Float :=
  number.fraction.scaleB number.exponent

def mulPow (start base : Scaled) (count : Nat) : Scaled :=
  if count = 0 then start
  else if base.isExtreme then { start with exponent := start.exponent + base.exponent }
  else mulPow (if count % 2 = 1 then start.mul base else start) base.square (count / 2)
termination_by count
decreasing_by omega

end Scaled

/-- The power of a finite number other than zero to a finite exponent. The whole part of the
exponent is a count of factors; what is left of it, at most a half, goes through the logarithm. -/
def finitePower (base exponent : Float) : Float :=
  let whole := exponent.abs.floor
  let part := exponent.abs - whole
  if 9223372036854775808.0 ≤ whole then
    if base == -1 then 1
    else if (base.abs < 1) == (0 < exponent) then 0
    else 1 / 0
  else
    let (whole, part) := if 0.5 < part then (whole + 1, part - 1) else (whole, part)
    let start := if part == 0 then 1 else (part * base.log).exp
    let (fraction, scale) := base.frExp
    let power := Scaled.mulPow ⟨start, 0⟩ ⟨fraction, scale⟩ whole.toUInt64.toNat
    (if exponent < 0 then power.inverse else power).toFloat

/-! ## Patterns -/

abbrev Single := UInt32

namespace Single

def isNaN (bits : Single) : Bool :=
  0x7f800000 < bits &&& 0x7fffffff

def isInfinite (bits : Single) : Bool :=
  bits &&& 0x7fffffff == 0x7f800000

def isZero (bits : Single) : Bool :=
  bits &&& 0x7fffffff == 0

def quiet (bits : Single) : Single :=
  bits ||| 0x400000

/-- The result of an operation without a meaningful one. -/
def invalid : Single := 0xffc00000

/-- The NaN that functions return for arguments outside their domain. -/
def undefined : Single := 0x7fc00000

def value (bits : Single) : Float32 :=
  Float32.ofBits bits

/-- Carries a rounded operation over to patterns. -/
def binary (operation : Float32 → Float32 → Float32) (left right : Single) : Single :=
  if isNaN left then quiet left
  else if isNaN right then quiet right
  else
    let result := (operation (value left) (value right)).toBits
    if isNaN result then invalid else result

def add (left right : Single) : Single := binary (· + ·) left right

def sub (left right : Single) : Single := binary (· - ·) left right

def mul (left right : Single) : Single := binary (· * ·) left right

def div (left right : Single) : Single := binary (· / ·) left right

/-- Flips the sign, also of a NaN. -/
def neg (bits : Single) : Single :=
  bits ^^^ 0x80000000

def sqrt (bits : Single) : Single :=
  if isNaN bits then quiet bits
  else
    let result := (value bits).sqrt.toBits
    if isNaN result then invalid else result

/-! ## Comparisons: a NaN is neither equal to nor ordered with anything -/

def eq (left right : Single) : Bool :=
  value left == value right

def gt (left right : Single) : Bool :=
  decide (value right < value left)

def lt (left right : Single) : Bool :=
  decide (value left < value right)

/-! ## Functions computed in double precision and rounded -/

def unary (function : Float → Float) (bits : Single) : Single :=
  if isNaN bits then quiet bits
  else
    let result := (function (value bits).toFloat).toFloat32.toBits
    if isNaN result then undefined else result

def sin (bits : Single) : Single := unary Float.sin bits

/-- Unlike the others, the cosine of any NaN is the same NaN. -/
def cos (bits : Single) : Single :=
  if isNaN bits then undefined else unary Float.cos bits

def tan (bits : Single) : Single := unary Float.tan bits

def asin (bits : Single) : Single := unary Float.asin bits

def acos (bits : Single) : Single := unary Float.acos bits

def atan (bits : Single) : Single := unary Float.atan bits

def atan2 (left right : Single) : Single :=
  if isNaN left || isNaN right then undefined
  else (Float.atan2 (value left).toFloat (value right).toFloat).toFloat32.toBits

def one : Single := 0x3f800000

def half : Single := 0x3f000000

/-- Anything to the power zero, and one to any power, is one. A half, and minus a half, stand for
the square root and its inverse, whose results are invalid below zero. -/
def pow (base exponent : Single) : Single :=
  if isZero exponent || base == one then one
  else if exponent == one then (if isNaN base then quiet base else base)
  else if isNaN base || isNaN exponent then undefined
  else
    let number := (value base).toFloat
    let power := (value exponent).toFloat
    if isZero base || isInfinite base || isInfinite exponent then
      (Float.pow number power).toFloat32.toBits
    else if exponent == half || exponent == neg half then
      if number < 0 then invalid
      else if exponent == half then number.sqrt.toFloat32.toBits
      else (1 / number.sqrt).toFloat32.toBits
    else if number < 0 && power != power.floor then undefined
    else (finitePower number power).toFloat32.toBits

/-! ## Exact remainder and conversions -/

def ofExact (negative : Bool) (mantissa : Nat) (exponent : Int) : Single :=
  let sign : Single := if negative then 0x80000000 else 0
  if mantissa = 0 then sign
  else
    -- Bring the mantissa to 24 bits unless the exponent is already the smallest.
    let bits := mantissa.log2 + 1
    let target := max (exponent + bits - 24) (-149)
    let scaled :=
      if target ≤ exponent then mantissa * Nat.pow 2 (exponent - target).toNat
      else mantissa / Nat.pow 2 (target - exponent).toNat
    if scaled < 0x800000 then sign ||| UInt32.ofNat scaled
    else sign ||| UInt32.ofNat ((target + 150).toNat * 0x800000 + (scaled - 0x800000))

def rem (left right : Single) : Single :=
  match ofSingle left, ofSingle right with
  | .finite negative mantissa exponent, .finite _ divisor scale =>
    if divisor = 0 then undefined
    else
      let low := min exponent scale
      let number := mantissa * Nat.pow 2 (exponent - low).toNat
      let modulus := divisor * Nat.pow 2 (scale - low).toNat
      ofExact negative (number % modulus) low
  | .finite _ _ _, .infinite _ => left
  | _, _ => undefined

/-- Truncates toward zero; values outside the range, and NaN, become the least int. -/
def toInt (bits : Single) : Int32 :=
  match ofSingle bits with
  | .finite negative mantissa exponent =>
    let magnitude : Int :=
      if exponent < 0 then mantissa / Nat.pow 2 exponent.natAbs
      else mantissa * Nat.pow 2 exponent.natAbs
    let number := if negative then -magnitude else magnitude
    if -2147483648 ≤ number ∧ number < 2147483648 then Int32.ofInt number else Int32.minValue
  | _ => Int32.minValue

def ofInt (number : Int32) : Single :=
  number.toFloat32.toBits

end Single

end WordMachine.Number
