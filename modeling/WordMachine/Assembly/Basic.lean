import WordMachine.Isa.Opcode

/-!
Assemblies: a finished instruction stream with its literal table and entry points.
-/

namespace WordMachine

/-- A finished program for the machine. -/
structure Assembly where
  code : Bytes
  literals : Array Bytes
  /-- Offsets at which a run starts, in order. -/
  entries : Array UInt32
  deriving DecidableEq, Inhabited

/-! ## Little-endian words -/

namespace Bytes

def byteAt (text : Bytes) (position : Nat) : UInt8 :=
  if bound : position < text.size then text[position] else 0

/-- Four bytes at a position, least significant first. -/
def u32At (text : Bytes) (position : Nat) : UInt32 :=
  (byteAt text position).toUInt32 ||| ((byteAt text (position + 1)).toUInt32 <<< 8) |||
    ((byteAt text (position + 2)).toUInt32 <<< 16) |||
    ((byteAt text (position + 3)).toUInt32 <<< 24)

/-- Eight bytes at a position, least significant first. -/
def u64At (text : Bytes) (position : Nat) : UInt64 :=
  (u32At text position).toUInt64 ||| ((u32At text (position + 4)).toUInt64 <<< 32)

/-- Appends four bytes, least significant first. -/
def pushU32 (text : Bytes) (value : UInt32) : Bytes :=
  (((text.push value.toUInt8).push (value >>> 8).toUInt8).push (value >>> 16).toUInt8).push
    (value >>> 24).toUInt8

/-- Appends eight bytes, least significant first. -/
def pushU64 (text : Bytes) (value : UInt64) : Bytes :=
  pushU32 (pushU32 text value.toUInt32) (value >>> 32).toUInt32

/-- Replaces one byte; no change past the end. -/
def setByte (text : Bytes) (position : Nat) (value : UInt8) : Bytes :=
  if bound : position < text.size then text.set position value bound else text

/-- Replaces four bytes, least significant first. -/
def setU32 (text : Bytes) (position : Nat) (value : UInt32) : Bytes :=
  setByte (setByte (setByte (setByte text position value.toUInt8) (position + 1)
    (value >>> 8).toUInt8) (position + 2) (value >>> 16).toUInt8) (position + 3)
    (value >>> 24).toUInt8

end Bytes

namespace Assembly

/-- Whether `count` bytes from `position` on lie inside the instruction stream. -/
def inBounds (assembly : Assembly) (position : UInt32) (count : Nat) : Bool :=
  position.toNat + count ≤ assembly.code.size

def literal? (assembly : Assembly) (number : UInt32) : Option Bytes :=
  assembly.literals[number.toNat]?

end Assembly

end WordMachine
