import WordMachine.Assembly.Basic
import WordMachine.Isa.PlatformCall
import WordMachine.Number.Decimal
import WordMachine.Text.Paint
import WordMachine.Text.Quoted

/-!
Reading an instruction stream back: its instructions in order, and a printed listing.
-/

namespace WordMachine

/-- One instruction of a stream with the bits of its operands. -/
structure Decoded where
  offset : UInt32
  op : Opcode
  operands : List UInt64
  deriving DecidableEq

/-- Why a stream ends before its bytes do. -/
inductive DecodeError where
  | unknownOpcode (offset : UInt32) (code : UInt8)
  | truncated (offset : UInt32) (op : Opcode)
  deriving DecidableEq

def DecodeError.message : DecodeError → Bytes
  | .unknownOpcode offset code =>
    "offset " ++ Bytes.ofNat offset.toNat ++ ": unknown opcode 0x" ++ Bytes.hex 2 code.toNat
  | .truncated offset op =>
    "offset " ++ Bytes.ofNat offset.toNat ++ ": truncated " ++ op.mnemonic.toUTF8 ++
      " instruction"

def OperandKind.read (kind : OperandKind) (code : Bytes) (position : Nat) : UInt64 :=
  match kind with
  | .u8 => (Bytes.byteAt code position).toUInt64
  | .i32 | .u32 | .f32 => (Bytes.u32At code position).toUInt64
  | .i64 => Bytes.u64At code position

def readOperands (code : Bytes) : Nat → List OperandKind → List UInt64
  | _, [] => []
  | position, kind :: kinds =>
    kind.read code position :: readOperands code (position + kind.size) kinds

def OperandKind.signed (kind : OperandKind) (bits : UInt64) : Int64 :=
  match kind with
  | .i32 => bits.toUInt32.toInt32.toInt64
  | _ => bits.toInt64

namespace Assembly

def decodeFrom (assembly : Assembly) :
    Nat → Nat → Array Decoded → Array Decoded × Option DecodeError
  | 0, _, done => (done, none)
  | fuel + 1, position, done =>
    if position < assembly.code.size then
      let offset := UInt32.ofNat position
      let code := Bytes.byteAt assembly.code position
      match Opcode.ofCode? code with
      | none => (done, some (.unknownOpcode offset code))
      | some op =>
        if position + op.size ≤ assembly.code.size then
          decodeFrom assembly fuel (position + op.size) (done.push
            { offset, op, operands := readOperands assembly.code (position + 1) op.operands })
        else (done, some (.truncated offset op))
    else (done, none)

/-- The instructions of the stream up to its end or the first error. -/
def decode (assembly : Assembly) : Array Decoded × Option DecodeError :=
  assembly.decodeFrom assembly.code.size 0 #[]

end Assembly

/-! ## Printing -/

namespace Paint

def offset : Paint := ⟨"90", "0"⟩

def mnemonic : Paint := ⟨"36;1", "0;22"⟩

def literal : Paint := ⟨"32", "0"⟩

def entry : Paint := ⟨"33;1", "0;22"⟩

end Paint

namespace Decoded

def operandText (instruction : Decoded) (assembly : Assembly) (color : Bool) : Bytes :=
  let address (bits : UInt64) : Bytes := "0x" ++ Bytes.hex 6 bits.toNat
  match instruction.op, instruction.operands with
  | .loadString, [number] =>
    Paint.literal.apply color
      (Text.quote ((assembly.literal? number.toUInt32).getD ByteArray.empty))
  | .loadFloat, [bits] => Number.listingText bits.toUInt32
  | .loadInt, [bits] => Bytes.ofInt (OperandKind.i32.signed bits).toInt
  | .loadLong, [bits] => Bytes.ofInt (OperandKind.i64.signed bits).toInt
  | .jump, [target] | .jumpIf, [target] | .loadAddress, [target] => address target
  | .call, [target, arguments, mode] =>
    address target ++ " argc=" ++ Bytes.ofNat arguments.toNat ++ " " ++
      CallMode.nameOf mode.toUInt8
  | .callDynamic, [arguments, mode] =>
    "argc=" ++ Bytes.ofNat arguments.toNat ++ " " ++ CallMode.nameOf mode.toUInt8
  | .platformCall, [code] => PlatformCall.nameOf code.toUInt8
  | _, operands => Bytes.join " " (operands.map fun bits => Bytes.ofNat bits.toNat)

def line (instruction : Decoded) (assembly : Assembly) (color : Bool) : Bytes :=
  let start := Paint.offset.apply color ("  " ++ Bytes.hex 6 instruction.offset.toNat ++ "  ") ++
    Paint.mnemonic.apply color instruction.op.mnemonic
  let operands := instruction.operandText assembly color
  if operands.isEmpty then start ++ "\n" else start ++ " " ++ operands ++ "\n"

end Decoded

namespace Assembly

def entryLines (assembly : Assembly) (offset : UInt32) (color : Bool) : Bytes :=
  Bytes.concat (assembly.entries.toList.zipIdx.filterMap fun (entry, number) =>
    if entry == offset then
      some (Paint.entry.apply color ("entry." ++ Bytes.ofNat number ++ ":") ++ "\n")
    else none)

/-- The printed listing; it stops before the first byte that does not decode. -/
def listing (assembly : Assembly) (color : Bool) : Bytes :=
  let head := "; " ++ Bytes.ofNat assembly.code.size ++ " bytes, " ++
    Bytes.ofNat assembly.literals.size ++ " literals, " ++
    Bytes.ofNat assembly.entries.size ++ " entry points\n"
  assembly.decode.1.foldl
    (fun text instruction =>
      text ++ assembly.entryLines instruction.offset color ++ instruction.line assembly color)
    head

end Assembly

end WordMachine
