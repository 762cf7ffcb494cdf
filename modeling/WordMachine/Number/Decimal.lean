import WordMachine.Text.Bytes

/-!
Decimal text of binary floating-point numbers, computed in exact natural-number arithmetic: the
fewest digits that read back, and rounding to a given number of digits.
-/

namespace WordMachine.Number

/-- What a floating-point pattern stands for. A finite value is `mantissa * 2 ^ exponent`. -/
inductive Real where
  | nan
  | infinite (negative : Bool)
  | finite (negative : Bool) (mantissa : Nat) (exponent : Int)
  deriving DecidableEq, Repr

def ofSingle (bits : UInt32) : Real :=
  let negative := bits >>> 31 == 1
  let biased := ((bits >>> 23) &&& 0xff).toNat
  let fraction := (bits &&& 0x7fffff).toNat
  if biased == 255 then
    if fraction == 0 then .infinite negative else .nan
  else if biased == 0 then .finite negative fraction (-149)
  else .finite negative (fraction + 0x800000) ((biased : Int) - 150)

def ofDouble (bits : UInt64) : Real :=
  let negative := bits >>> 63 == 1
  let biased := ((bits >>> 52) &&& 0x7ff).toNat
  let fraction := (bits &&& 0xfffffffffffff).toNat
  if biased == 2047 then
    if fraction == 0 then .infinite negative else .nan
  else if biased == 0 then .finite negative fraction (-1074)
  else .finite negative (fraction + 0x10000000000000) ((biased : Int) - 1075)

/-- Significant digits of a positive number, most significant first, and the place of the
decimal point: the value is `0.d₁d₂… * 10 ^ point`. -/
structure Digits where
  digits : List Nat
  point : Int
  deriving DecidableEq, Repr

/-- A positive rational number. -/
structure Ratio where
  num : Nat
  den : Nat

def Ratio.scaled (mantissa : Nat) (exponent : Int) : Ratio :=
  if exponent < 0 then ⟨mantissa, Nat.pow 2 exponent.natAbs⟩
  else ⟨mantissa * Nat.pow 2 exponent.natAbs, 1⟩

def Ratio.shift (value : Ratio) (power : Int) : Ratio :=
  if power < 0 then ⟨value.num, value.den * Nat.pow 10 power.natAbs⟩
  else ⟨value.num * Nat.pow 10 power.natAbs, value.den⟩

def Ratio.belowPower (value : Ratio) (power : Int) : Bool :=
  let shifted := value.shift (-power)
  shifted.num < shifted.den

/-- Climbs from `point` to the first power of ten above the value. -/
def pointFrom (value : Ratio) : Nat → Int → Int
  | 0, point => point
  | fuel + 1, point => if value.belowPower point then point else pointFrom value fuel (point + 1)

/-- The power of ten just above the value: `10 ^ (point - 1) ≤ value < 10 ^ point`. The climb
starts below every single-precision value. -/
def pointOf (value : Ratio) : Int :=
  pointFrom value 400 (-60)

/-- Decimal digits of a number without trailing zeros. -/
def digitList (number : Nat) : List Nat :=
  ((Nat.toDigits 10 number).map fun digit => digit.toNat - 48).reverse.dropWhile (· == 0)
    |>.reverse

def Digits.ofGrid (number count : Nat) (point : Int) : Digits :=
  if number = Nat.pow 10 count then ⟨[1], point + 1⟩ else ⟨digitList number, point⟩

/-- The nearest natural number, a half to the even neighbour. -/
def Ratio.round (value : Ratio) : Nat :=
  let below := value.num / value.den
  let twice := 2 * (value.num % value.den)
  if twice < value.den then below
  else if value.den < twice then below + 1
  else if below % 2 = 0 then below else below + 1

/-- Rounds to `count` significant digits, a half to the even neighbour. -/
def roundDigits (value : Ratio) (count : Nat) : Digits :=
  let point := pointOf value
  Digits.ofGrid (value.shift (count - point)).round count point

/-- The two neighbours of `mid` on the grid of `count` digits that lie between `low` and `high`,
the nearer one first; ends count when `closed`. -/
def shortestOn (low mid high : Ratio) (closed : Bool) (point : Int) (count : Nat) : Option Digits :=
  let low := low.shift (count - point)
  let mid := mid.shift (count - point)
  let high := high.shift (count - point)
  let below := mid.num / mid.den
  let above := below + 1
  let belowFits := low.num < below * low.den || (closed && low.num == below * low.den)
  let aboveFits := above * high.den < high.num || (closed && above * high.den == high.num)
  let twice := 2 * (mid.num % mid.den)
  let nearBelow := twice < mid.den || (twice == mid.den && below % 2 == 0)
  if belowFits && (nearBelow || !aboveFits) then some (Digits.ofGrid below count point)
  else if aboveFits then some (Digits.ofGrid above count point)
  else none

/-- The fewest digits that lie in the rounding interval of a single-precision value. -/
def shortestDigits (mantissa : Nat) (exponent : Int) : Digits :=
  let mid := Ratio.scaled (4 * mantissa) (exponent - 2)
  let narrow := mantissa == 0x800000 && exponent != -149
  let low := Ratio.scaled (4 * mantissa - if narrow then 1 else 2) (exponent - 2)
  let high := Ratio.scaled (4 * mantissa + 2) (exponent - 2)
  let point := pointOf mid
  let closed := mantissa % 2 == 0
  match (List.range 17).findSome? fun count => shortestOn low mid high closed point (count + 1) with
  | some digits => digits
  | none => roundDigits mid 17

/-! ## Notation -/

def digitText (digits : List Nat) : Bytes :=
  Bytes.ofList (digits.map fun digit => (48 + digit).toUInt8)

def positional (number : Digits) : Bytes :=
  let count := number.digits.length
  let whole := number.point.toNat
  let integral : Bytes :=
    if 0 < number.point then
      Bytes.padRight (digitText (number.digits.take whole)) whole 48
    else "0"
  let places := ((count : Int) - number.point).toNat
  if places = 0 then integral
  else
    let zeros := (-number.point).toNat
    integral ++ "." ++ digitText (List.replicate zeros 0 ++ number.digits.drop whole)

/-- The number with the given number of digits after the point. -/
def fixed (value : Ratio) (places : Nat) : Bytes :=
  let rounded := (value.shift places).round
  let unit := Nat.pow 10 places
  Bytes.ofNat (rounded / unit) ++ "." ++ Bytes.padLeft (Bytes.ofNat (rounded % unit)) places 48

/-- Scientific notation: one digit before the point, an exponent of two digits or more. -/
def scientific (number : Digits) : Bytes :=
  let exponent := number.point - 1
  let head := digitText (number.digits.take 1)
  let tail := number.digits.drop 1
  let fraction : Bytes := if tail.isEmpty then "" else "." ++ digitText tail
  let sign : Bytes := if exponent < 0 then "-" else "+"
  head ++ fraction ++ "e" ++ sign ++ Bytes.padLeft (Bytes.ofNat exponent.natAbs) 2 48

/-- Texts of the values that have no digits. -/
structure Format where
  nan : Bytes
  infinity : Bytes
  negativeInfinity : Bytes

/-- Scientific below `10 ^ -4` and from `10 ^ 6` on, positional in between. -/
def general (number : Digits) : Bytes :=
  let exponent := number.point - 1
  if exponent < -4 || 6 ≤ exponent then scientific number else positional number

/-- Writes a single-precision pattern with the digits that `choose` picks. -/
def write (format : Format) (choose : Nat → Int → Digits) (bits : UInt32) : Bytes :=
  match ofSingle bits with
  | .nan => format.nan
  | .infinite negative => if negative then format.negativeInfinity else format.infinity
  | .finite negative mantissa exponent =>
    let sign : Bytes := if negative then "-" else ""
    if mantissa = 0 then sign ++ "0" else sign ++ general (choose mantissa exponent)

/-- Listings and traces show the fewest digits that read back. -/
def listingText (bits : UInt32) : Bytes :=
  write ⟨"NaN", "+Inf", "-Inf"⟩ shortestDigits bits

/-- Programs print at most six significant digits. -/
def displayText (bits : UInt32) : Bytes :=
  write ⟨"nan", "inf", "-inf"⟩
    (fun mantissa exponent => roundDigits (Ratio.scaled mantissa exponent) 6) bits

end WordMachine.Number
