import WordMachine.Machine.Word

/-!
Facts about words: what a handle is made of can be read back from it and from a reference to it,
and only references have the low bit set.
-/

namespace WordMachine

namespace Handle

@[simp]
theorem index_make (index generation : UInt32) : (make index generation).index = index := by
  apply UInt32.toBitVec_inj.1
  simp only [make, Handle.index]
  ext position bound
  simp

@[simp]
theorem generation_make (index generation : UInt32) :
    (make index generation).generation = generation &&& generationMask := by
  apply UInt32.toBitVec_inj.1
  simp only [make, Handle.generation]
  ext position bound
  simp
  grind

end Handle

namespace Word

@[simp]
theorem isRef_ofHandle (handle : Handle) : (ofHandle handle).isRef = true := by
  simp only [isRef, ofHandle, bne_iff_ne, ne_eq]
  rw [← UInt64.toBitVec_inj]
  intro equality
  have lowBit := congrArg (fun bits => bits.getLsbD 0) equality
  simp at lowBit

@[simp]
theorem toHandle_ofHandle (index generation : UInt32) :
    (ofHandle (.make index generation)).toHandle = .make index generation := by
  have topBit : Handle.generationMask.toBitVec[31] = false := by decide
  simp only [toHandle, ofHandle, Handle.make, Handle.mk.injEq]
  apply UInt64.toBitVec_inj.1
  ext position bound
  by_cases top : position = 63
  · subst top
    simp only [UInt64.toBitVec_shiftRight]
    simp
    exact fun _ => topBit
  · simp
    grind

/-- A word whose upper half is given and whose lower half is zero is no reference. -/
theorem isRef_ofBits32 (bits : UInt32) : (ofBits32 bits).isRef = false := by
  simp only [isRef, ofBits32, bne_eq_false_iff_eq]
  apply UInt64.toBitVec_inj.1
  ext position bound
  simp
  grind

@[simp]
theorem isRef_ofInt (value : Int32) : (ofInt value).isRef = false :=
  isRef_ofBits32 value.toUInt32

@[simp]
theorem isRef_ofFloat (bits : UInt32) : (ofFloat bits).isRef = false :=
  isRef_ofBits32 bits

@[simp]
theorem isRef_ofBool (value : Bool) : (ofBool value).isRef = false := by
  cases value <;> exact isRef_ofBits32 _

@[simp]
theorem isRef_ofInlineLong (value : Int64) : (ofInlineLong value).isRef = false := by
  simp only [isRef, ofInlineLong, bne_eq_false_iff_eq]
  apply UInt64.toBitVec_inj.1
  ext position bound
  simp
  grind

@[simp]
theorem isNull_null : isNull null = true := rfl

/-! ## Values of other types -/

@[simp]
theorem bits32_ofBits32 (bits : UInt32) : (ofBits32 bits).bits32 = bits := by
  unfold ofBits32 bits32
  apply UInt32.toNat_inj.1
  have small := bits.toNat_lt
  simp only [UInt64.toNat_toUInt32, UInt64.toNat_shiftRight, UInt64.toNat_shiftLeft,
    UInt32.toNat_toUInt64, UInt64.reduceToNat, Nat.reduceMod, Nat.shiftLeft_eq,
    Nat.shiftRight_eq_div_pow]
  omega

@[simp]
theorem toInt_ofInt (value : Int32) : (ofInt value).toInt = value := by
  unfold toInt ofInt
  rw [bits32_ofBits32]
  rfl

theorem toByte_ofInt (value : Int32) : (ofInt value).toByte = value.toUInt32.toUInt8 := by
  unfold toByte ofInt
  rw [bits32_ofBits32]

theorem toInlineLong_ofInlineLong {value : Int64} (positive : 0 ≤ value) :
    (ofInlineLong value).toInlineLong = value := by
  have small : value.toUInt64.toNat < 2 ^ 63 := by
    rw [Int64.le_iff_toInt_le, Int64.toInt_zero] at positive
    have cases : value.toInt = _ := value.toBitVec.toInt_eq_toNat_cond
    change value.toBitVec.toNat < 2 ^ 63
    split at cases <;> omega
  have same : value.toUInt64 <<< 1 >>> 1 = value.toUInt64 := by
    apply UInt64.toNat_inj.1
    simp only [UInt64.toNat_shiftRight, UInt64.toNat_shiftLeft, UInt64.reduceToNat, Nat.reduceMod,
      Nat.shiftLeft_eq, Nat.shiftRight_eq_div_pow]
    omega
  unfold ofInlineLong toInlineLong
  rw [same]
  rfl

theorem index_of_isNull {word : Word} (isNull : word.isNull = true) : word.toHandle.index = 0 := by
  have equality : word = null := by simpa [Word.isNull] using isNull
  rw [equality]
  rfl

/-- References to the same slot in the same generation are the same word. -/
theorem eq_of_toHandle {left right : Word} (leftRef : left.isRef = true)
    (rightRef : right.isRef = true) (index : left.toHandle.index = right.toHandle.index)
    (generation : left.toHandle.generation = right.toHandle.generation) : left = right := by
  have odd : ∀ {word : Word}, word.isRef = true → word.toNat % 2 = 1 := by
    intro word reference
    simp only [isRef, bne_iff_ne, ne_eq, ← UInt64.toNat_inj, UInt64.toNat_and] at reference
    rw [show (1 : UInt64).toNat = 2 ^ 1 - 1 from rfl, Nat.and_two_pow_sub_one_eq_mod] at reference
    rw [UInt64.toNat_zero] at reference
    omega
  have lower : ∀ word : Word, word.toHandle.index.toNat = word.toNat / 2 % 2 ^ 32 := by
    intro word
    simp only [toHandle, Handle.index, UInt64.toNat_toUInt32, UInt64.toNat_shiftRight,
      UInt64.reduceToNat, Nat.reduceMod, Nat.shiftRight_eq_div_pow, Nat.pow_one]
  have upper : ∀ word : Word, word.toHandle.generation.toNat = word.toNat / 2 / 2 ^ 32 := by
    intro word
    have small := word.toNat_lt
    rw [toHandle, Handle.generation, UInt32.toNat_and,
      show Handle.generationMask.toNat = 2 ^ 31 - 1 from rfl, Nat.and_two_pow_sub_one_eq_mod]
    simp only [UInt64.toNat_toUInt32, UInt64.toNat_shiftRight, UInt64.reduceToNat, Nat.reduceMod,
      Nat.shiftRight_eq_div_pow, Nat.pow_one]
    omega
  have sameIndex := congrArg UInt32.toNat index
  have sameGeneration := congrArg UInt32.toNat generation
  rw [lower, lower] at sameIndex
  rw [upper, upper] at sameGeneration
  have leftOdd := odd leftRef
  have rightOdd := odd rightRef
  apply UInt64.toNat_inj.1
  omega

end Word

end WordMachine
