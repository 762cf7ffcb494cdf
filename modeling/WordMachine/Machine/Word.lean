/-!
Machine words. With the low bit clear the upper half of a word holds an int or a float, or the
whole word holds a non-negative long shifted left by one. With the low bit set the other bits are
a handle to a heap object. Reading a word at another type reinterprets its bits.
-/

namespace WordMachine

abbrev Word := UInt64

/-- A reference to a heap slot in one of its generations. -/
structure Handle where
  bits : UInt64
  deriving DecidableEq

namespace Handle

def generationMask : UInt32 := 0x7fffffff

/-- The slot number is the low half, the generation the next 31 bits. -/
def make (index generation : UInt32) : Handle :=
  ⟨((generation &&& generationMask).toUInt64 <<< 32) ||| index.toUInt64⟩

def index (handle : Handle) : UInt32 :=
  handle.bits.toUInt32

def generation (handle : Handle) : UInt32 :=
  (handle.bits >>> 32).toUInt32 &&& generationMask

end Handle

namespace Word

def ofBits32 (bits : UInt32) : Word :=
  bits.toUInt64 <<< 32

def ofInt (value : Int32) : Word :=
  ofBits32 value.toUInt32

def ofFloat (bits : UInt32) : Word :=
  ofBits32 bits

def ofBool (value : Bool) : Word :=
  if value then ofInt 1 else ofInt 0

def ofHandle (handle : Handle) : Word :=
  (handle.bits <<< 1) ||| 1

def null : Word :=
  ofHandle ⟨0⟩

/-- A non-negative long without an object. -/
def ofInlineLong (value : Int64) : Word :=
  value.toUInt64 <<< 1

def isRef (word : Word) : Bool :=
  word &&& 1 != 0

def isNull (word : Word) : Bool :=
  word == null

def bits32 (word : Word) : UInt32 :=
  (word >>> 32).toUInt32

def toInt (word : Word) : Int32 :=
  word.bits32.toInt32

def toBool (word : Word) : Bool :=
  word.toInt != 0

def toHandle (word : Word) : Handle :=
  ⟨word >>> 1⟩

def toInlineLong (word : Word) : Int64 :=
  (word >>> 1).toInt64

def toByte (word : Word) : UInt8 :=
  word.bits32.toUInt8

end Word

end WordMachine
