import WordMachine.Assembly.Basic
import Mathlib

/-!
Byte strings as lists: how words are written into them and read back.
-/

namespace WordMachine

namespace Bytes

variable {text : Bytes} {before after : List UInt8}

instance : LawfulBEq Bytes where
  rfl := by
    intro text
    show (text.data == text.data) = true
    exact beq_self_eq_true _
  eq_of_beq := by
    intro left right equal
    exact ByteArray.ext (eq_of_beq equal)

/-- A word as four bytes, least significant first. -/
def le32 (value : UInt32) : List UInt8 :=
  [value.toUInt8, (value >>> 8).toUInt8, (value >>> 16).toUInt8, (value >>> 24).toUInt8]

/-- A word as eight bytes, least significant first. -/
def le64 (value : UInt64) : List UInt8 :=
  le32 value.toUInt32 ++ le32 (value >>> 32).toUInt32

@[simp]
theorem length_le32 (value : UInt32) : (le32 value).length = 4 := rfl

@[simp]
theorem toList_append (left right : Bytes) :
    toList (left ++ right) = toList left ++ toList right := by
  simp [toList]

@[simp]
theorem toList_push (text : Bytes) (byte : UInt8) :
    toList (text.push byte) = toList text ++ [byte] := by
  simp [toList]

theorem length_toList (text : Bytes) : (toList text).length = text.size := rfl

@[simp]
theorem toList_pushU32 (text : Bytes) (value : UInt32) :
    toList (pushU32 text value) = toList text ++ le32 value := by
  simp [pushU32, le32]

@[simp]
theorem toList_pushU64 (text : Bytes) (value : UInt64) :
    toList (pushU64 text value) = toList text ++ le64 value := by
  simp [pushU64, le64]

theorem byteAt_eq (text : Bytes) (position : Nat) :
    byteAt text position = (toList text)[position]?.getD 0 := by
  unfold byteAt
  split
  · next bound =>
    have inside : position < (toList text).length := bound
    rw [List.getElem?_eq_getElem inside]
    rfl
  · next bound =>
    have outside : (toList text).length ≤ position := Nat.le_of_not_lt bound
    rw [List.getElem?_eq_none outside]
    rfl

theorem byteAt_split {byte : UInt8} (split : toList text = before ++ byte :: after) :
    byteAt text before.length = byte := by
  rw [byteAt_eq, split]
  simp

theorem bitVec_of_bytes (value : BitVec 32) :
    (value.setWidth 8).setWidth 32 ||| (((value >>> 8).setWidth 8).setWidth 32 <<< 8) |||
      (((value >>> 16).setWidth 8).setWidth 32 <<< 16) |||
      (((value >>> 24).setWidth 8).setWidth 32 <<< 24) = value := by
  ext position inside
  simp only [BitVec.getElem_or, BitVec.getElem_shiftLeft, BitVec.getElem_setWidth,
    BitVec.getLsbD_setWidth, BitVec.getLsbD_ushiftRight, BitVec.getLsbD_eq_getElem inside]
  by_cases first : position < 8
  · grind
  by_cases second : position < 16
  · grind
  by_cases third : position < 24
  · grind
  · grind

theorem u32At_split {value : UInt32} (split : toList text = before ++ (le32 value ++ after)) :
    u32At text before.length = value := by
  have bytes : ∀ offset < 4,
      byteAt text (before.length + offset) = (le32 value)[offset]?.getD 0 := by
    intro offset inside
    rw [byteAt_eq, split, List.getElem?_append_right (Nat.le_add_right _ _),
      Nat.add_sub_cancel_left, List.getElem?_append_left inside]
  apply UInt32.toBitVec_inj.1
  unfold u32At
  rw [← Nat.add_zero before.length, bytes 0 (by omega)]
  simp only [Nat.add_zero, bytes 1 (by omega), bytes 2 (by omega), bytes 3 (by omega)]
  simp only [UInt32.toBitVec_or, UInt32.toBitVec_shiftLeft, UInt8.toBitVec_toUInt32,
    le32, List.getElem?_cons_zero, List.getElem?_cons_succ, Option.getD_some,
    UInt32.toBitVec_toUInt8, UInt32.toBitVec_shiftRight]
  exact bitVec_of_bytes value.toBitVec

theorem bitVec_of_halves (value : BitVec 64) :
    (value.setWidth 32).setWidth 64 ||| (((value >>> 32).setWidth 32).setWidth 64 <<< 32) =
      value := by
  ext position inside
  simp only [BitVec.getElem_or, BitVec.getElem_shiftLeft, BitVec.getElem_setWidth,
    BitVec.getLsbD_setWidth, BitVec.getLsbD_ushiftRight, BitVec.getLsbD_eq_getElem inside]
  by_cases low : position < 32
  · grind
  · grind

theorem u64At_split {value : UInt64} (split : toList text = before ++ (le64 value ++ after)) :
    u64At text before.length = value := by
  have low : u32At text before.length = value.toUInt32 :=
    u32At_split (split.trans (by rw [le64, List.append_assoc]))
  have high : u32At text (before.length + 4) = (value >>> 32).toUInt32 := by
    have moved : toList text = (before ++ le32 value.toUInt32) ++
        (le32 (value >>> 32).toUInt32 ++ after) := by
      rw [split, le64]
      simp only [List.append_assoc]
    have read := u32At_split moved
    rw [List.length_append, length_le32] at read
    exact read
  unfold u64At
  rw [low, high]
  apply UInt64.toBitVec_inj.1
  simp only [UInt64.toBitVec_or, UInt64.toBitVec_shiftLeft, UInt32.toBitVec_toUInt64,
    UInt64.toBitVec_toUInt32, UInt64.toBitVec_shiftRight]
  exact bitVec_of_halves value.toBitVec

theorem toList_setByte (before after : List UInt8) (byte value : UInt8)
    (split : toList text = before ++ byte :: after) :
    toList (setByte text before.length value) = before ++ value :: after := by
  have inside : before.length < text.size := by
    rw [← length_toList, split, List.length_append, List.length_cons]
    omega
  unfold setByte
  rw [dif_pos inside]
  have changed : toList (text.set before.length value inside) =
      (toList text).set before.length value := by
    simp [toList]
  rw [changed, split]
  simp

/-- Replacing four bytes changes nothing around them. -/
theorem toList_setU32 {old : List UInt8} (value : UInt32) (four : old.length = 4)
    (split : toList text = before ++ (old ++ after)) :
    toList (setU32 text before.length value) = before ++ (le32 value ++ after) := by
  match old, four with
  | [first, second, third, fourth], _ =>
    have one := toList_setByte before (second :: third :: fourth :: after) first value.toUInt8
      (by simpa using split)
    have two := toList_setByte (before ++ [value.toUInt8]) (third :: fourth :: after) second
      (value >>> 8).toUInt8 (by simpa using one)
    have three := toList_setByte (before ++ [value.toUInt8, (value >>> 8).toUInt8])
      (fourth :: after) third (value >>> 16).toUInt8 (by simpa using two)
    have four := toList_setByte
      (before ++ [value.toUInt8, (value >>> 8).toUInt8, (value >>> 16).toUInt8])
      after fourth (value >>> 24).toUInt8 (by simpa using three)
    simpa [setU32, le32] using four

end Bytes

end WordMachine
