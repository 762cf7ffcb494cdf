import WordMachine.Number.Single
import Mathlib

/-!
Comparisons of single-precision patterns are those of their exact values, with infinity beyond all
numbers, zeros of both signs the same, and NaN not comparable.
-/

namespace WordMachine.Number

open Float.Model (Format UnpackedFloat)
open Float.Model.UnpackedFloat (Sign packComponents unpackMantissa unpackExponent unpackSign)

variable {mantissa : Nat} {first second : Real}

/-! ## Exact values -/

/-- The rational numbers between both infinities. -/
abbrev Quantity := WithBot (WithTop ℚ)

def scaled (negative : Bool) (mantissa : Nat) (exponent : Int) : ℚ :=
  (if negative then -1 else 1) * ((mantissa : ℚ) * 2 ^ exponent)

/-- The exact value of what a pattern stands for; NaN has none. -/
def Real.quantity? : Real → Option Quantity
  | .nan => none
  | .infinite negative => some (if negative then ⊥ else ((⊤ : WithTop ℚ) : Quantity))
  | .finite negative mantissa exponent =>
    some (((scaled negative mantissa exponent : ℚ) : WithTop ℚ) : Quantity)

/-- How exact values compare. -/
def Real.order (left right : Real) : Option Ordering :=
  match left.quantity?, right.quantity? with
  | some first, some second => some (compare first second)
  | _, _ => none

/-- How the exact values of two patterns compare. -/
def Single.order (left right : Single) : Option Ordering :=
  (ofSingle left).order (ofSingle right)

/-! ## Reading patterns -/

def isNegative : Sign → Bool
  | .negative => true
  | .positive => false

/-- The mantissas and exponents of patterns: a mantissa has 24 bits, or less with the least
exponent. -/
structure IsCanonical (mantissa : Nat) (exponent : Int) : Prop where
  short : mantissa < 2 ^ 24
  long : exponent = -149 ∨ 2 ^ 23 ≤ mantissa
  least : -149 ≤ exponent
  greatest : exponent ≤ 104

/-- What unpacking a pattern gives for what the pattern stands for. -/
inductive Unpacks : UnpackedFloat → Real → Prop
  | nan : Unpacks .notANumber .nan
  | infinite (sign : Sign) : Unpacks (.infinity sign) (.infinite (isNegative sign))
  | zero (sign : Sign) : Unpacks (.zero sign) (.finite (isNegative sign) 0 (-149))
  | finite (sign : Sign) {mantissa number : Nat} {exponent scale : Int} (positive : 0 < mantissa)
      (sameNumber : mantissa = number) (sameScale : exponent = scale)
      (canonical : IsCanonical number scale) :
      Unpacks (.finite sign mantissa exponent positive) (.finite (isNegative sign) number scale)

theorem toNat_unpackMantissa (bits : Single) :
    (@unpackMantissa .binary32 bits.toBitVec).toNat = bits.toNat % 2 ^ 23 := by
  simp only [unpackMantissa, BitVec.toNat_cast, BitVec.extractLsb_toNat]
  rfl

theorem toNat_unpackExponent (bits : Single) :
    (@unpackExponent .binary32 bits.toBitVec).toNat = bits.toNat / 2 ^ 23 % 2 ^ 8 := by
  simp only [unpackExponent, BitVec.toNat_cast, BitVec.extractLsb_toNat, Nat.shiftRight_eq_div_pow]
  rfl

theorem toNat_unpackSign (bits : Single) :
    (@unpackSign .binary32 bits.toBitVec).toNat = bits.toNat / 2 ^ 31 := by
  have small := bits.toNat_lt
  simp only [unpackSign, BitVec.toNat_cast, BitVec.extractLsb_toNat, Nat.shiftRight_eq_div_pow]
  change bits.toNat / 2 ^ 31 % 2 ^ 1 = _
  omega

theorem isNegative_ofBitVec (bit : BitVec 1) :
    isNegative (Sign.ofBitVec bit) = (bit.toNat == 1) := by
  revert bit
  decide

/-- The parts as they are read from the pattern itself. -/
theorem ofSingle_eq (bits : Single) :
    ofSingle bits =
      let negative := isNegative (Sign.ofBitVec (@unpackSign .binary32 bits.toBitVec))
      let exponent := (@unpackExponent .binary32 bits.toBitVec).toNat
      let mantissa := (@unpackMantissa .binary32 bits.toBitVec).toNat
      if exponent = 255 then
        if mantissa = 0 then .infinite negative else .nan
      else if exponent = 0 then .finite negative mantissa (-149)
      else .finite negative (mantissa + 0x800000) ((exponent : Int) - 150) := by
  have negative : (bits >>> 31 == 1) = (bits.toNat / 2 ^ 31 == 1) := by
    have same : (bits >>> 31).toNat = bits.toNat / 2 ^ 31 := by
      rw [UInt32.toNat_shiftRight, Nat.shiftRight_eq_div_pow]
      rfl
    rw [← same, Bool.eq_iff_iff, beq_iff_eq, beq_iff_eq, ← UInt32.toNat_inj]
    rfl
  have exponent : ((bits >>> 23) &&& 0xff).toNat = bits.toNat / 2 ^ 23 % 2 ^ 8 := by
    rw [UInt32.toNat_and, UInt32.toNat_shiftRight, Nat.shiftRight_eq_div_pow]
    exact Nat.and_two_pow_sub_one_eq_mod _ 8
  have mantissa : (bits &&& 0x7fffff).toNat = bits.toNat % 2 ^ 23 := by
    rw [UInt32.toNat_and]
    exact Nat.and_two_pow_sub_one_eq_mod _ 23
  unfold ofSingle
  simp only [negative, exponent, mantissa, isNegative_ofBitVec, toNat_unpackSign,
    toNat_unpackExponent, toNat_unpackMantissa, beq_iff_eq]

theorem toNat_one_append (mantissa : BitVec 23) :
    (1#1 ++ mantissa).toNat = mantissa.toNat + 2 ^ 23 := by
  rw [BitVec.toNat_append, ← Nat.shiftLeft_add_eq_or_of_lt mantissa.isLt, Nat.shiftLeft_eq]
  simp
  omega

theorem unpacks_ofSingle (bits : Single) :
    Unpacks (UnpackedFloat.unpack .binary32 bits.toBitVec) (ofSingle bits) := by
  have exponentBound : (@unpackExponent .binary32 bits.toBitVec).toNat < 2 ^ 8 := BitVec.isLt _
  have mantissaBound : (@unpackMantissa .binary32 bits.toBitVec).toNat < 2 ^ 23 := BitVec.isLt _
  have atLast : @unpackExponent .binary32 bits.toBitVec = -1#8 ↔
      (@unpackExponent .binary32 bits.toBitVec).toNat = 255 := BitVec.toNat_inj.symm
  have atFirst : @unpackExponent .binary32 bits.toBitVec = 0#8 ↔
      (@unpackExponent .binary32 bits.toBitVec).toNat = 0 := BitVec.toNat_inj.symm
  have empty : @unpackMantissa .binary32 bits.toBitVec = 0#23 ↔
      (@unpackMantissa .binary32 bits.toBitVec).toNat = 0 := BitVec.toNat_inj.symm
  rw [ofSingle_eq]
  unfold UnpackedFloat.unpack
  dsimp only
  split
  · next last =>
    rw [if_pos (atLast.1 last)]
    split
    · next none =>
      rw [if_pos (empty.1 none)]
      exact .infinite _
    · next some =>
      rw [if_neg (mt empty.2 some)]
      exact .nan
  · next notLast =>
    rw [if_neg (mt atLast.2 notLast)]
    split
    · next first =>
      rw [if_pos (atFirst.1 first)]
      split
      · next none =>
        rw [empty.1 none]
        exact .zero _
      · next some =>
        refine .finite _ _ rfl ?_ ⟨?_, .inl rfl, Int.le_refl _, by decide⟩
        · rw [atFirst.1 first]
          rfl
        · omega
    · next notFirst =>
      have notNone := mt atFirst.2 notFirst
      have notAll := mt atLast.2 notLast
      rw [if_neg notNone]
      refine .finite _ _ (toNat_one_append _) rfl ⟨?_, .inr ?_, ?_, ?_⟩
      · omega
      · omega
      · omega
      · omega

/-! ## Packing again -/

theorem unpackSign_packComponents (sign : Sign) (exponent : BitVec 8) (mantissa : BitVec 23) :
    Sign.ofBitVec (@unpackSign .binary32 (packComponents .binary32 sign exponent mantissa)) =
      sign := by
  simp only [unpackSign, packComponents, BitVec.extractLsb]
  rw [BitVec.extractLsb'_append_eq_of_le (by omega),
    BitVec.extractLsb'_append_eq_of_le (by omega)]
  cases sign <;> rfl

theorem log2_eq_of_bounds {number : Nat} (long : 2 ^ 23 ≤ number) (short : number < 2 ^ 24) :
    number.log2 = 23 := by
  have positive : number ≠ 0 := by omega
  have atLeast : 23 ≤ number.log2 := (Nat.le_log2 positive).2 long
  have atMost : ¬24 ≤ number.log2 := fun more => by
    have longer := (Nat.le_log2 positive).1 more
    omega
  omega

theorem unpack_pack_subnormal (sign : Sign) (positive : 0 < mantissa) (short : mantissa < 2 ^ 23) :
    UnpackedFloat.unpack .binary32
        (UnpackedFloat.pack .binary32 (.finite sign mantissa (-149) positive)) =
      .finite sign mantissa (-149) positive := by
  have bias : ((Format.binary32.exponentBias : Nat) : Int) = 127 := rfl
  have few : ¬mantissa.log2 + 1 = Format.binary32.mantissaBits := by
    intro many
    have bits : Format.binary32.mantissaBits = 24 := rfl
    have long := (Nat.le_log2 (Nat.ne_of_gt positive)).1 (show 23 ≤ mantissa.log2 by omega)
    omega
  have number : (BitVec.ofNat 23 mantissa).toNat = mantissa := by
    rw [BitVec.toNat_ofNat]
    omega
  have some : ¬BitVec.ofNat 23 mantissa = 0#23 := by
    intro none
    rw [none] at number
    exact Nat.ne_of_gt positive number.symm
  rw [UnpackedFloat.pack]
  dsimp only
  rw [if_neg (by decide), if_neg few, UnpackedFloat.unpack]
  simp only [UnpackedFloat.unpackMantissa_packComponents,
    UnpackedFloat.unpackExponent_packComponents, unpackSign_packComponents]
  rw [if_neg (by decide), if_pos trivial, dif_neg some]
  simp [number, bias]

theorem unpack_pack_normal (sign : Sign) {exponent : Int} (positive : 0 < mantissa)
    (canonical : IsCanonical mantissa exponent) (long : 2 ^ 23 ≤ mantissa) :
    UnpackedFloat.unpack .binary32
        (UnpackedFloat.pack .binary32 (.finite sign mantissa exponent positive)) =
      .finite sign mantissa exponent positive := by
  obtain ⟨short, _, least, greatest⟩ := canonical
  have bias : ((Format.binary32.exponentBias : Nat) : Int) = 127 := rfl
  have stored : (exponent + Format.binary32.exponentBias + (23 : Nat)).toNat =
      (exponent + 150).toNat := by
    rw [bias]
    omega
  have number : (BitVec.ofNat 8 (exponent + 150).toNat).toNat = (exponent + 150).toNat := by
    rw [BitVec.toNat_ofNat]
    omega
  have notLast : ¬BitVec.ofNat 8 (exponent + 150).toNat = -1#8 := by
    intro last
    have value := congrArg BitVec.toNat last
    rw [number] at value
    change _ = 255 at value
    omega
  have notFirst : ¬BitVec.ofNat 8 (exponent + 150).toNat = 0#8 := by
    intro first
    have value := congrArg BitVec.toNat first
    rw [number] at value
    change _ = 0 at value
    omega
  have whole : (1#1 ++ BitVec.ofNat 23 mantissa).toNat = mantissa := by
    rw [toNat_one_append, BitVec.toNat_ofNat]
    omega
  rw [UnpackedFloat.pack]
  simp only [log2_eq_of_bounds long short, stored]
  rw [if_neg (by omega), if_pos (show 23 + 1 = Format.binary32.mantissaBits from rfl),
    UnpackedFloat.unpack]
  simp only [UnpackedFloat.unpackMantissa_packComponents,
    UnpackedFloat.unpackExponent_packComponents, unpackSign_packComponents]
  rw [if_neg notLast, if_neg notFirst]
  simp only [whole, number, bias, UnpackedFloat.finite.injEq, true_and]
  omega

/-- Packing what a pattern was unpacked to and unpacking again changes nothing. -/
theorem Unpacks.unpack_pack {unpacked : UnpackedFloat} {real : Real}
    (unpacks : Unpacks unpacked real) :
    UnpackedFloat.unpack .binary32 (UnpackedFloat.pack .binary32 unpacked) = unpacked := by
  cases unpacks with
  | nan => rfl
  | infinite sign => cases sign <;> rfl
  | zero sign => cases sign <;> rfl
  | finite sign positive sameNumber sameScale canonical =>
    subst sameNumber sameScale
    rename_i mantissa exponent
    rcases Nat.lt_or_ge mantissa (2 ^ 23) with short | long
    · have least := canonical.long.resolve_right (by omega)
      subst least
      exact unpack_pack_subnormal sign positive short
    · exact unpack_pack_normal sign positive canonical long

theorem unpack_value (bits : Single) :
    (Single.value bits).toModel.unpack = UnpackedFloat.unpack .binary32 bits.toBitVec :=
  (unpacks_ofSingle bits).unpack_pack

/-! ## Comparing -/

theorem compare_coe (left right : ℚ) :
    compare ((left : WithTop ℚ) : Quantity) ((right : WithTop ℚ) : Quantity) =
      compare left right := by
  rcases lt_trichotomy left right with less | rfl | greater
  · rw [compare_lt_iff_lt.2 less, compare_lt_iff_lt]
    exact WithBot.coe_lt_coe.2 (WithTop.coe_lt_coe.2 less)
  · rw [compare_eq_iff_eq.2 rfl, eq_comm, compare_eq_iff_eq]
  · rw [compare_gt_iff_gt.2 greater, compare_gt_iff_gt]
    exact WithBot.coe_lt_coe.2 (WithTop.coe_lt_coe.2 greater)

theorem scaled_zero (negative : Bool) (exponent : Int) : scaled negative 0 exponent = 0 := by
  simp [scaled]

theorem scaled_false (mantissa : Nat) (exponent : Int) :
    scaled false mantissa exponent = (mantissa : ℚ) * 2 ^ exponent := by
  simp [scaled]

theorem scaled_true (mantissa : Nat) (exponent : Int) :
    scaled true mantissa exponent = -scaled false mantissa exponent := by
  simp [scaled]

theorem scaled_pos (positive : 0 < mantissa) (exponent : Int) :
    0 < scaled false mantissa exponent := by
  rw [scaled_false]
  positivity

/-- Of two mantissas of at most 24 bits the one with the greater exponent makes the greater number
if it has all its bits. -/
theorem scaled_lt_of_exponent {first second : Nat} {low high : Int} (less : low < high)
    (short : first < 2 ^ 24) (long : 2 ^ 23 ≤ second) :
    scaled false first low < scaled false second high := by
  rw [scaled_false, scaled_false]
  have shortNumber : (first : ℚ) < 2 ^ 24 := by exact_mod_cast short
  have longNumber : (2 : ℚ) ^ 23 ≤ second := by exact_mod_cast long
  have lowPositive : (0 : ℚ) < 2 ^ low := by positivity
  have steps : (2 : ℚ) ^ (low + 1) ≤ 2 ^ high := zpow_le_zpow_right₀ (by norm_num) less
  calc (first : ℚ) * 2 ^ low < 2 ^ 24 * 2 ^ low := by gcongr
    _ = 2 ^ 23 * 2 ^ (low + 1) := by rw [zpow_add_one₀ (by norm_num)]; ring
    _ ≤ second * 2 ^ high := by gcongr

theorem compare_scaled {first second : Nat} {low high : Int}
    (canonical : IsCanonical first low) (other : IsCanonical second high) :
    (compare low high).then (compare first second) =
      compare (scaled false first low) (scaled false second high) := by
  rcases lt_trichotomy low high with less | rfl | greater
  · rw [compare_lt_iff_lt.2 less, eq_comm, Ordering.lt_then, compare_lt_iff_lt]
    have raised := canonical.least
    exact scaled_lt_of_exponent less canonical.short (other.long.resolve_left (by omega))
  · have scale : (0 : ℚ) < 2 ^ low := by positivity
    rw [compare_eq_iff_eq.2 rfl, Ordering.eq_then, scaled_false, scaled_false]
    rcases lt_trichotomy first second with less | rfl | greater
    · rw [compare_lt_iff_lt.2 less, eq_comm, compare_lt_iff_lt]
      gcongr
    · rw [compare_eq_iff_eq.2 rfl, eq_comm, compare_eq_iff_eq]
    · rw [compare_gt_iff_gt.2 greater, eq_comm, compare_gt_iff_gt]
      gcongr
  · rw [compare_gt_iff_gt.2 greater, eq_comm, Ordering.gt_then, compare_gt_iff_gt]
    have raised := other.least
    exact scaled_lt_of_exponent greater other.short (canonical.long.resolve_left (by omega))

theorem Real.order_finite (negative other : Bool) (first second : Nat) (low high : Int) :
    Real.order (.finite negative first low) (.finite other second high) =
      some (compare (scaled negative first low) (scaled other second high)) :=
  congrArg some (compare_coe _ _)

theorem Real.order_of_lt {left right : Quantity} (firstKnown : first.quantity? = some left)
    (secondKnown : second.quantity? = some right) (less : left < right) :
    first.order second = some .lt := by
  rw [Real.order, firstKnown, secondKnown]
  exact congrArg some (compare_lt_iff_lt.2 less)

theorem Real.order_of_gt {left right : Quantity} (firstKnown : first.quantity? = some left)
    (secondKnown : second.quantity? = some right) (greater : right < left) :
    first.order second = some .gt := by
  rw [Real.order, firstKnown, secondKnown]
  exact congrArg some (compare_gt_iff_gt.2 greater)

theorem Real.order_of_eq {value : Quantity} (firstKnown : first.quantity? = some value)
    (secondKnown : second.quantity? = some value) : first.order second = some .eq := by
  rw [Real.order, firstKnown, secondKnown]
  exact congrArg some (compare_eq_iff_eq.2 rfl)

theorem Real.order_infinite_finite (negative other : Bool) (mantissa : Nat) (exponent : Int) :
    Real.order (.infinite negative) (.finite other mantissa exponent) =
      some (if negative then .lt else .gt) := by
  cases negative with
  | false => exact Real.order_of_gt rfl rfl (WithBot.coe_lt_coe.2 (WithTop.coe_lt_top _))
  | true => exact Real.order_of_lt rfl rfl (WithBot.bot_lt_coe _)

theorem Real.order_finite_infinite (negative other : Bool) (mantissa : Nat) (exponent : Int) :
    Real.order (.finite other mantissa exponent) (.infinite negative) =
      some (if negative then .gt else .lt) := by
  cases negative with
  | false => exact Real.order_of_lt rfl rfl (WithBot.coe_lt_coe.2 (WithTop.coe_lt_top _))
  | true => exact Real.order_of_gt rfl rfl (WithBot.bot_lt_coe _)

theorem Real.order_infinite (negative other : Bool) :
    Real.order (.infinite negative) (.infinite other) =
      some (if negative = other then .eq else if negative then .lt else .gt) := by
  have apart : (⊥ : Quantity) < ((⊤ : WithTop ℚ) : Quantity) := WithBot.bot_lt_coe _
  cases negative with
  | false =>
    cases other with
    | false => exact Real.order_of_eq rfl rfl
    | true => exact Real.order_of_gt rfl rfl apart
  | true =>
    cases other with
    | false => exact Real.order_of_lt rfl rfl apart
    | true => exact Real.order_of_eq rfl rfl

theorem compare_neg (left right : ℚ) : compare (-left) (-right) = (compare left right).swap := by
  rcases lt_trichotomy left right with less | rfl | greater
  · rw [compare_lt_iff_lt.2 less, Ordering.swap_lt, compare_gt_iff_gt]
    exact neg_lt_neg less
  · rw [compare_eq_iff_eq.2 rfl, compare_eq_iff_eq.2 rfl, Ordering.swap_eq]
  · rw [compare_gt_iff_gt.2 greater, Ordering.swap_gt, compare_lt_iff_lt]
    exact neg_lt_neg greater

/-- Floats that are not zero compare like their exact values. -/
theorem compare_finite (sign other : Sign) {number : Nat} {exponent scale : Int}
    (positive : 0 < mantissa) (above : 0 < number) (canonical : IsCanonical mantissa exponent)
    (canonicalToo : IsCanonical number scale) :
    UnpackedFloat.compare (.finite sign mantissa exponent positive)
        (.finite other number scale above) =
      some (compare (scaled (isNegative sign) mantissa exponent)
        (scaled (isNegative other) number scale)) := by
  have first := scaled_pos positive exponent
  have second := scaled_pos above scale
  have numbers := compare_scaled canonical canonicalToo
  cases sign with
  | negative =>
    cases other with
    | negative =>
      simp only [isNegative, scaled_true, compare_neg, ← numbers]
      rfl
    | positive =>
      simp only [isNegative, scaled_true]
      exact congrArg some (compare_lt_iff_lt.2 (by linarith)).symm
  | positive =>
    cases other with
    | negative =>
      simp only [isNegative, scaled_true]
      exact congrArg some (compare_gt_iff_gt.2 (by linarith)).symm
    | positive =>
      simp only [isNegative, ← numbers]
      rfl

theorem Unpacks.compare_eq {left right : UnpackedFloat} (unpacks : Unpacks left first)
    (other : Unpacks right second) : left.compare right = first.order second := by
  cases unpacks with
  | nan => cases other <;> rfl
  | infinite sign =>
    cases other with
    | nan => cases sign <;> rfl
    | infinite other =>
      rw [Real.order_infinite]
      cases sign <;> cases other <;> rfl
    | zero other =>
      rw [Real.order_infinite_finite]
      cases sign <;> rfl
    | finite other positive sameNumber sameScale canonical =>
      rw [Real.order_infinite_finite]
      cases sign <;> rfl
  | zero sign =>
    cases other with
    | nan => rfl
    | infinite other =>
      rw [Real.order_finite_infinite]
      cases other <;> rfl
    | zero other =>
      rw [Real.order_finite, scaled_zero, scaled_zero, compare_eq_iff_eq.2 rfl]
      rfl
    | finite other positive sameNumber sameScale canonical =>
      rename_i mantissa _ exponent _
      subst sameNumber sameScale
      have above := scaled_pos positive exponent
      rw [Real.order_finite, scaled_zero]
      cases other with
      | negative =>
        rw [isNegative, scaled_true, compare_gt_iff_gt.2 (neg_lt_zero.2 above)]
        rfl
      | positive =>
        rw [isNegative, compare_lt_iff_lt.2 above]
        rfl
  | finite sign positive sameNumber sameScale canonical =>
    rename_i mantissa _ exponent _
    subst sameNumber sameScale
    cases other with
    | nan => cases sign <;> rfl
    | infinite other =>
      rw [Real.order_finite_infinite]
      cases other <;> rfl
    | zero other =>
      have above := scaled_pos positive exponent
      rw [Real.order_finite, scaled_zero]
      cases sign with
      | negative =>
        rw [isNegative, scaled_true, compare_lt_iff_lt.2 (neg_lt_zero.2 above)]
        rfl
      | positive =>
        rw [isNegative, compare_gt_iff_gt.2 above]
        rfl
    | finite other above sameNumber sameScale canonicalToo =>
      subst sameNumber sameScale
      rw [Real.order_finite]
      exact compare_finite sign other positive above canonical canonicalToo

/-! ## Comparisons of patterns -/

namespace Single

theorem compare_value (left right : Single) :
    (value left).toModel.unpack.compare (value right).toModel.unpack = order left right := by
  rw [unpack_value, unpack_value]
  exact (unpacks_ofSingle left).compare_eq (unpacks_ofSingle right)

theorem eq_eq_order (left right : Single) : eq left right = (order left right == some .eq) := by
  rw [← compare_value]
  rfl

theorem lt_eq_order (left right : Single) : lt left right = (order left right == some .lt) := by
  rw [← compare_value, Bool.eq_iff_iff, lt, decide_eq_true_iff]
  exact decide_eq_true_iff

theorem order_swap (left right : Single) :
    order right left = (order left right).map Ordering.swap := by
  unfold order Real.order
  cases (ofSingle left).quantity? with
  | none => cases (ofSingle right).quantity? <;> rfl
  | some first =>
    cases (ofSingle right).quantity? with
    | none => rfl
    | some second => exact congrArg some Std.OrientedOrd.eq_swap

theorem gt_eq_order (left right : Single) : gt left right = (order left right == some .gt) := by
  have swapped := lt_eq_order right left
  rw [order_swap] at swapped
  change lt right left = _
  rw [swapped]
  cases order left right with
  | none => rfl
  | some ordering => cases ordering <;> rfl

theorem quantity?_eq_none (bits : Single) :
    (ofSingle bits).quantity? = none ↔ isNaN bits = true := by
  have magnitude : (bits &&& 0x7fffffff).toNat = bits.toNat % 2 ^ 31 := by
    rw [UInt32.toNat_and]
    exact Nat.and_two_pow_sub_one_eq_mod _ 31
  have nan : isNaN bits = true ↔ 0x7f800000 < bits.toNat % 2 ^ 31 := by
    rw [← magnitude]
    exact decide_eq_true_iff
  rw [nan, ofSingle_eq]
  simp only [toNat_unpackExponent, toNat_unpackMantissa]
  split
  · split
    · simp only [Real.quantity?, reduceCtorEq, false_iff]
      omega
    · simp only [Real.quantity?, true_iff]
      omega
  · split
    · simp only [Real.quantity?, reduceCtorEq, false_iff]
      omega
    · simp only [Real.quantity?, reduceCtorEq, false_iff]
      omega

theorem order_eq_none (left right : Single) :
    order left right = none ↔ isNaN left = true ∨ isNaN right = true := by
  rw [← quantity?_eq_none, ← quantity?_eq_none]
  unfold order Real.order
  cases (ofSingle left).quantity? with
  | none => simp
  | some first =>
    cases (ofSingle right).quantity? with
    | none => simp
    | some second => simp

end Single

end WordMachine.Number
