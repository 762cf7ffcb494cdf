import WordMachine.Text.Bytes

/-!
The instruction set: an instruction is one opcode byte followed by the fixed-width,
little-endian operands its opcode calls for.
-/

namespace WordMachine

/-- The encoding of one instruction operand. -/
inductive OperandKind where
  | u8 | i32 | u32 | f32 | i64
  deriving DecidableEq, Repr

namespace OperandKind

def code : OperandKind → Nat
  | .u8 => 1
  | .i32 => 2
  | .u32 => 3
  | .f32 => 4
  | .i64 => 5

def ofCode? (code : Nat) : Option OperandKind :=
  match code with
  | 1 => some .u8
  | 2 => some .i32
  | 3 => some .u32
  | 4 => some .f32
  | 5 => some .i64
  | _ => none

def size : OperandKind → Nat
  | .u8 => 1
  | .i32 => 4
  | .u32 => 4
  | .f32 => 4
  | .i64 => 8

end OperandKind

/-- The operations of the machine, by group: literals, constants, int, long and float
arithmetic, strings, comparisons, conversions, structs, control flow, futures. -/
inductive Opcode where
  | loadInt | loadLong | loadFloat | loadString | loadAddress
  | reserveConsts | storeConst | loadConst | dup | pop
  | addInt | subInt | mulInt | divInt | remInt | negInt | notInt | shiftLeft | shiftRight | andInt
  | orInt | xorInt | complement
  | addLong | subLong | mulLong | divLong | remLong | negLong
  | addFloat | subFloat | mulFloat | divFloat | modFloat | powFloat | sqrtFloat | sinFloat
  | cosFloat | tanFloat | asinFloat | acosFloat | atanFloat | atan2Float | negFloat
  | concat | appendChar | length | index | slice | combineChars
  | eqInt | eqLong | eqFloat | eqString | gtInt | gtLong | gtFloat | ltInt | ltLong | ltFloat
  | isNull
  | intToLong | intToFloat | longToInt | floatToInt | intToString | longToString | floatToString
  | boolToString | charToString | intToChar | floatToChar
  | makeStruct | makeNull | loadField
  | jump | jumpIf | call | callDynamic | platformCall | ret | fail
  | awaitFor | await | force
  deriving DecidableEq, Repr, Inhabited

namespace Opcode

/-- The byte that stands for an operation in the instruction stream. -/
def code : Opcode → UInt8
  | .loadInt => 0x01
  | .loadLong => 0x02
  | .loadFloat => 0x03
  | .loadString => 0x04
  | .loadAddress => 0x05
  | .reserveConsts => 0x10
  | .storeConst => 0x11
  | .loadConst => 0x12
  | .dup => 0x13
  | .pop => 0x14
  | .addInt => 0x20
  | .subInt => 0x21
  | .mulInt => 0x22
  | .divInt => 0x23
  | .remInt => 0x24
  | .negInt => 0x25
  | .notInt => 0x26
  | .shiftLeft => 0x27
  | .shiftRight => 0x28
  | .andInt => 0x29
  | .orInt => 0x2a
  | .xorInt => 0x2b
  | .complement => 0x2c
  | .addLong => 0x30
  | .subLong => 0x31
  | .mulLong => 0x32
  | .divLong => 0x33
  | .remLong => 0x34
  | .negLong => 0x35
  | .addFloat => 0x40
  | .subFloat => 0x41
  | .mulFloat => 0x42
  | .divFloat => 0x43
  | .modFloat => 0x44
  | .powFloat => 0x45
  | .sqrtFloat => 0x46
  | .sinFloat => 0x47
  | .cosFloat => 0x48
  | .tanFloat => 0x49
  | .asinFloat => 0x4a
  | .acosFloat => 0x4b
  | .atanFloat => 0x4c
  | .atan2Float => 0x4d
  | .negFloat => 0x4e
  | .concat => 0x50
  | .appendChar => 0x51
  | .length => 0x52
  | .index => 0x53
  | .slice => 0x54
  | .combineChars => 0x55
  | .eqInt => 0x60
  | .eqLong => 0x61
  | .eqFloat => 0x62
  | .eqString => 0x63
  | .gtInt => 0x64
  | .gtLong => 0x65
  | .gtFloat => 0x66
  | .ltInt => 0x67
  | .ltLong => 0x68
  | .ltFloat => 0x69
  | .isNull => 0x6a
  | .intToLong => 0x70
  | .intToFloat => 0x71
  | .longToInt => 0x72
  | .floatToInt => 0x73
  | .intToString => 0x74
  | .longToString => 0x75
  | .floatToString => 0x76
  | .boolToString => 0x77
  | .charToString => 0x78
  | .intToChar => 0x79
  | .floatToChar => 0x7a
  | .makeStruct => 0x80
  | .makeNull => 0x81
  | .loadField => 0x82
  | .jump => 0x90
  | .jumpIf => 0x91
  | .call => 0x92
  | .callDynamic => 0x93
  | .platformCall => 0x94
  | .ret => 0x95
  | .fail => 0x96
  | .awaitFor => 0xa0
  | .await => 0xa1
  | .force => 0xa2

def ofCode? (code : UInt8) : Option Opcode :=
  match code with
  | 0x01 => some .loadInt
  | 0x02 => some .loadLong
  | 0x03 => some .loadFloat
  | 0x04 => some .loadString
  | 0x05 => some .loadAddress
  | 0x10 => some .reserveConsts
  | 0x11 => some .storeConst
  | 0x12 => some .loadConst
  | 0x13 => some .dup
  | 0x14 => some .pop
  | 0x20 => some .addInt
  | 0x21 => some .subInt
  | 0x22 => some .mulInt
  | 0x23 => some .divInt
  | 0x24 => some .remInt
  | 0x25 => some .negInt
  | 0x26 => some .notInt
  | 0x27 => some .shiftLeft
  | 0x28 => some .shiftRight
  | 0x29 => some .andInt
  | 0x2a => some .orInt
  | 0x2b => some .xorInt
  | 0x2c => some .complement
  | 0x30 => some .addLong
  | 0x31 => some .subLong
  | 0x32 => some .mulLong
  | 0x33 => some .divLong
  | 0x34 => some .remLong
  | 0x35 => some .negLong
  | 0x40 => some .addFloat
  | 0x41 => some .subFloat
  | 0x42 => some .mulFloat
  | 0x43 => some .divFloat
  | 0x44 => some .modFloat
  | 0x45 => some .powFloat
  | 0x46 => some .sqrtFloat
  | 0x47 => some .sinFloat
  | 0x48 => some .cosFloat
  | 0x49 => some .tanFloat
  | 0x4a => some .asinFloat
  | 0x4b => some .acosFloat
  | 0x4c => some .atanFloat
  | 0x4d => some .atan2Float
  | 0x4e => some .negFloat
  | 0x50 => some .concat
  | 0x51 => some .appendChar
  | 0x52 => some .length
  | 0x53 => some .index
  | 0x54 => some .slice
  | 0x55 => some .combineChars
  | 0x60 => some .eqInt
  | 0x61 => some .eqLong
  | 0x62 => some .eqFloat
  | 0x63 => some .eqString
  | 0x64 => some .gtInt
  | 0x65 => some .gtLong
  | 0x66 => some .gtFloat
  | 0x67 => some .ltInt
  | 0x68 => some .ltLong
  | 0x69 => some .ltFloat
  | 0x6a => some .isNull
  | 0x70 => some .intToLong
  | 0x71 => some .intToFloat
  | 0x72 => some .longToInt
  | 0x73 => some .floatToInt
  | 0x74 => some .intToString
  | 0x75 => some .longToString
  | 0x76 => some .floatToString
  | 0x77 => some .boolToString
  | 0x78 => some .charToString
  | 0x79 => some .intToChar
  | 0x7a => some .floatToChar
  | 0x80 => some .makeStruct
  | 0x81 => some .makeNull
  | 0x82 => some .loadField
  | 0x90 => some .jump
  | 0x91 => some .jumpIf
  | 0x92 => some .call
  | 0x93 => some .callDynamic
  | 0x94 => some .platformCall
  | 0x95 => some .ret
  | 0x96 => some .fail
  | 0xa0 => some .awaitFor
  | 0xa1 => some .await
  | 0xa2 => some .force
  | _ => none

def mnemonic : Opcode → String
  | .loadInt => "load-lit-int"
  | .loadLong => "load-lit-long"
  | .loadFloat => "load-lit-float"
  | .loadString => "load-lit-string"
  | .loadAddress => "load-lit-ip"
  | .reserveConsts => "reserve-consts"
  | .storeConst => "store-const"
  | .loadConst => "load-const"
  | .dup => "dup"
  | .pop => "pop"
  | .addInt => "add-int"
  | .subInt => "sub-int"
  | .mulInt => "mul-int"
  | .divInt => "div-int"
  | .remInt => "rem-int"
  | .negInt => "neg-int"
  | .notInt => "logic-inv-int"
  | .shiftLeft => "shift-left-int"
  | .shiftRight => "shift-right-int"
  | .andInt => "and-int"
  | .orInt => "or-int"
  | .xorInt => "xor-int"
  | .complement => "inv-int"
  | .addLong => "add-long"
  | .subLong => "sub-long"
  | .mulLong => "mul-long"
  | .divLong => "div-long"
  | .remLong => "rem-long"
  | .negLong => "neg-long"
  | .addFloat => "add-float"
  | .subFloat => "sub-float"
  | .mulFloat => "mul-float"
  | .divFloat => "div-float"
  | .modFloat => "mod-float"
  | .powFloat => "pow-float"
  | .sqrtFloat => "sqrt-float"
  | .sinFloat => "sin-float"
  | .cosFloat => "cos-float"
  | .tanFloat => "tan-float"
  | .asinFloat => "asin-float"
  | .acosFloat => "acos-float"
  | .atanFloat => "atan-float"
  | .atan2Float => "atan2-float"
  | .negFloat => "neg-float"
  | .concat => "add-string"
  | .appendChar => "append-char"
  | .length => "length-string"
  | .index => "index-string"
  | .slice => "slice-string"
  | .combineChars => "combine-char"
  | .eqInt => "check-eq-int"
  | .eqLong => "check-eq-long"
  | .eqFloat => "check-eq-float"
  | .eqString => "check-eq-string"
  | .gtInt => "check-gt-int"
  | .gtLong => "check-gt-long"
  | .gtFloat => "check-gt-float"
  | .ltInt => "check-le-int"
  | .ltLong => "check-le-long"
  | .ltFloat => "check-le-float"
  | .isNull => "check-struct-null"
  | .intToLong => "conv-int-long"
  | .intToFloat => "conv-int-float"
  | .longToInt => "conv-long-int"
  | .floatToInt => "conv-float-int"
  | .intToString => "conv-int-string"
  | .longToString => "conv-long-string"
  | .floatToString => "conv-float-string"
  | .boolToString => "conv-bool-string"
  | .charToString => "conv-char-string"
  | .intToChar => "conv-int-char"
  | .floatToChar => "conv-float-char"
  | .makeStruct => "make-struct"
  | .makeNull => "make-null-struct"
  | .loadField => "load-struct-field"
  | .jump => "jump"
  | .jumpIf => "jump-if"
  | .call => "call"
  | .callDynamic => "call-dyn"
  | .platformCall => "pcall"
  | .ret => "ret"
  | .fail => "fail"
  | .awaitFor => "future-wait-nano"
  | .await => "future-block"
  | .force => "lazy-get"

/-- The operands that follow an operation's byte, in order. -/
def operands : Opcode → List OperandKind
  | .loadInt => [.i32]
  | .loadLong => [.i64]
  | .loadFloat => [.f32]
  | .loadString | .loadAddress | .jump | .jumpIf => [.u32]
  | .reserveConsts | .storeConst | .loadConst | .makeStruct | .loadField | .platformCall =>
    [.u8]
  | .call => [.u32, .u8, .u8]
  | .callDynamic => [.u8, .u8]
  | _ => []

/-- Encoded size in bytes, operands included. -/
def size (op : Opcode) : Nat :=
  1 + op.operands.foldl (fun size kind => size + kind.size) 0

theorem size_pos (op : Opcode) : 0 < op.size := by
  unfold size
  omega

theorem ofCode?_code (op : Opcode) : ofCode? op.code = some op := by
  cases op <;> rfl

/-- The name of any opcode byte; unknown ones show their number. -/
def nameOf (code : UInt8) : Bytes :=
  match ofCode? code with
  | some op => op.mnemonic
  | none => "op(0x" ++ Bytes.hex 2 code.toNat ++ ")"

end Opcode

/-- How a call activates its target. -/
inductive CallMode where
  | normal | tail | forked | lazy
  deriving DecidableEq, Repr

namespace CallMode

def code : CallMode → UInt8
  | .normal => 0
  | .tail => 1
  | .forked => 2
  | .lazy => 3

def ofCode? (code : UInt8) : Option CallMode :=
  match code with
  | 0 => some .normal
  | 1 => some .tail
  | 2 => some .forked
  | 3 => some .lazy
  | _ => none

def nameOf (code : UInt8) : Bytes :=
  match ofCode? code with
  | some .normal => "normal"
  | some .tail => "tail"
  | some .forked => "forked"
  | some .lazy => "lazy"
  | none => "mode(" ++ Bytes.ofNat code.toNat ++ ")"

end CallMode

end WordMachine
