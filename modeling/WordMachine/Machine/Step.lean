import WordMachine.Assembly.Listing
import WordMachine.Machine.Calls
import WordMachine.Machine.PlatformCalls

/-!
One instruction of an executor: fetching, logging and carrying out.
-/

namespace WordMachine

open Number

/-! ## Strings -/

def textIndex (text : Bytes) (position : Int32) : UInt8 :=
  if position < 0 then 0 else text.byteAt position.toInt.toNat

/-- Bounds a range to a text of `size` bytes: it ends inside the text and starts no later than it
ends. -/
def clampRange (size : Nat) (first last : Int32) : Nat × Nat :=
  let last := min last.toInt.toNat size
  (min first.toInt.toNat last, last)

namespace Exec

/-! ## Patterns of instructions -/

@[inline]
def intBinary (operation : Int32 → Int32 → Int32) : Exec Unit := do
  let right ← popInt
  let left ← popInt
  pushInt (operation left right)

@[inline]
def intDivision (operation : Int32 → Int32 → Int32) : Exec Unit := do
  let right ← popInt
  let left ← popInt
  if right == 0 then fail .divByZero else pushInt (operation left right)

@[inline]
def intTest (test : Int32 → Int32 → Bool) : Exec Unit := do
  let right ← popInt
  let left ← popInt
  pushBool (test left right)

@[inline]
def longBinary (operation : Int64 → Int64 → Int64) : Exec Unit := do
  let right ← popLong
  let left ← popLong
  pushLong (operation left right)

@[inline]
def longDivision (operation : Int64 → Int64 → Int64) : Exec Unit := do
  let right ← popLong
  let left ← popLong
  if right == 0 then fail .divByZero else pushLong (operation left right)

@[inline]
def longTest (test : Int64 → Int64 → Bool) : Exec Unit := do
  let right ← popLong
  let left ← popLong
  pushBool (test left right)

@[inline]
def floatBinary (operation : Single → Single → Single) : Exec Unit := do
  let right ← popFloat
  let left ← popFloat
  pushFloat (operation left right)

@[inline]
def floatDivision (operation : Single → Single → Single) : Exec Unit := do
  let right ← popFloat
  let left ← popFloat
  if right.isZero then fail .divByZero else pushFloat (operation left right)

@[inline]
def floatTest (test : Single → Single → Bool) : Exec Unit := do
  let right ← popFloat
  let left ← popFloat
  pushBool (test left right)

@[inline]
def floatUnary (operation : Single → Single) : Exec Unit := do
  pushFloat (operation (← popFloat))

/-! ## Single instructions -/

def reserveConsts (count : Nat) : Exec Unit :=
  modifyExecutor fun executor =>
    if executor.consts.base + count ≤ executor.consts.capacity then
      { executor with consts := executor.consts.reserve count }
    else executor.fail .stackOverflow

@[inline]
def storeConst (slot : UInt8) : Exec Unit := do
  let word ← pop
  fun ⟨executor, shared⟩ =>
    match executor.consts.store slot word with
    | .ok consts => .ok () ⟨{ executor with consts }, shared⟩
    | .error fault => .error fault ⟨executor, shared⟩

@[inline]
def loadConst (slot : UInt8) : Exec Unit := do
  let session ← get
  match session.executor.consts.load slot with
  | .ok word => push word
  | .error fault => throw fault

def loadString (assembly : Assembly) (number : UInt32) : Exec Unit :=
  match assembly.literal? number with
  | some text => pushString text
  | none => fail .invalidAssembly

/-- Pushes the part of a string between two positions; the string itself if that is all of it. -/
def slice : Exec Unit := do
  let last ← popInt
  let first ← popInt
  let word ← pop
  let whole ← text word
  let (first, last) := clampRange whole.size first last
  if first = 0 ∧ last = whole.size then push word else pushString (whole.extract first last)

def loadField (index : UInt8) : Exec Unit := do
  let word ← pop
  let fields ← look (·.fields word)
  match fields[index.toNat]? with
  | some field => push field
  | none => fail .invalidAssembly

def byteOf (value : Int32) : UInt8 :=
  value.toUInt32.toUInt8

/-- Carries out an instruction whose operands start at `operands`. -/
def perform (assembly : Assembly) (op : Opcode) (operands : Nat) : Exec Unit :=
  let code := assembly.code
  match op with
  | .loadInt => pushInt (code.u32At operands).toInt32
  | .loadLong => pushLong (code.u64At operands).toInt64
  | .loadFloat => pushFloat (code.u32At operands)
  | .loadString => loadString assembly (code.u32At operands)
  | .loadAddress => pushInt (code.u32At operands).toInt32
  | .reserveConsts => reserveConsts (code.byteAt operands).toNat
  | .storeConst => storeConst (code.byteAt operands)
  | .loadConst => loadConst (code.byteAt operands)
  | .dup => do push (← peek)
  | .pop => do let _ ← pop
  | .addInt => intBinary (· + ·)
  | .subInt => intBinary (· - ·)
  | .mulInt => intBinary (· * ·)
  | .divInt => intDivision (· / ·)
  | .remInt => intDivision (· % ·)
  | .negInt => do pushInt (-(← popInt))
  | .notInt => do pushBool ((← popInt) == 0)
  | .shiftLeft => intBinary (· <<< ·)
  | .shiftRight => intBinary (· >>> ·)
  | .andInt => intBinary (· &&& ·)
  | .orInt => intBinary (· ||| ·)
  | .xorInt => intBinary (· ^^^ ·)
  | .complement => do pushInt (~~~(← popInt))
  | .addLong => longBinary (· + ·)
  | .subLong => longBinary (· - ·)
  | .mulLong => longBinary (· * ·)
  | .divLong => longDivision (· / ·)
  | .remLong => longDivision (· % ·)
  | .negLong => do pushLong (-(← popLong))
  | .addFloat => floatBinary Single.add
  | .subFloat => floatBinary Single.sub
  | .mulFloat => floatBinary Single.mul
  | .divFloat => floatDivision Single.div
  | .modFloat => floatDivision Single.rem
  | .powFloat => floatBinary Single.pow
  | .sqrtFloat => floatUnary Single.sqrt
  | .sinFloat => floatUnary Single.sin
  | .cosFloat => floatUnary Single.cos
  | .tanFloat => floatUnary Single.tan
  | .asinFloat => floatUnary Single.asin
  | .acosFloat => floatUnary Single.acos
  | .atanFloat => floatUnary Single.atan
  | .atan2Float => floatBinary Single.atan2
  | .negFloat => floatUnary Single.neg
  | .concat => do
    let right ← popText
    let left ← popText
    pushString (left ++ right)
  | .appendChar => do
    let byte := (← pop).toByte
    let word ← pop
    pushNew (.link word byte none)
  | .length => do pushInt (Int32.ofNat (← popText).size)
  | .index => do
    let position ← popInt
    pushInt (Int32.ofNat (textIndex (← popText) position).toNat)
  | .slice => slice
  | .combineChars => do
    let right := (← pop).toByte
    let left := (← pop).toByte
    pushString (Bytes.ofList [left, right])
  | .eqInt => intTest (· == ·)
  | .eqLong => longTest (· == ·)
  | .eqFloat => floatTest Single.eq
  | .eqString => do
    let right ← popText
    let left ← popText
    pushBool (left == right)
  | .gtInt => intTest fun left right => decide (right < left)
  | .gtLong => longTest fun left right => decide (right < left)
  | .gtFloat => floatTest Single.gt
  | .ltInt => intTest fun left right => decide (left < right)
  | .ltLong => longTest fun left right => decide (left < right)
  | .ltFloat => floatTest Single.lt
  | .isNull => do pushBool (← pop).isNull
  | .intToLong => do pushLong (← popInt).toInt64
  | .intToFloat => do pushFloat (Single.ofInt (← popInt))
  | .longToInt => do pushInt (← popLong).toInt32
  | .floatToInt => do pushInt (← popFloat).toInt
  | .intToString => do pushString (Bytes.ofInt (← popInt).toInt)
  | .longToString => do pushString (Bytes.ofInt (← popLong).toInt)
  | .floatToString => do pushString (Number.displayText (← popFloat))
  | .boolToString => do pushString (if (← popInt) != 0 then "true" else "false").toUTF8
  | .charToString => do pushString (Bytes.singleton (← pop).toByte)
  | .intToChar => do pushInt (Int32.ofNat (← pop).toByte.toNat)
  | .floatToChar => do
    pushInt (Int32.ofNat (byteOf (Single.toInt (← popFloat))).toNat)
  | .makeStruct => do
    let fields ← popMany (code.byteAt operands).toNat
    pushNew (.struct fields)
  | .makeNull => push .null
  | .loadField => loadField (code.byteAt operands)
  | .jump => jump (code.u32At operands)
  | .jumpIf => do if (← popInt) != 0 then jump (code.u32At operands)
  | .call =>
    call (code.u32At operands) (code.byteAt (operands + 4)).toNat (code.byteAt (operands + 5))
  | .callDynamic => callDynamic (code.byteAt operands).toNat (code.byteAt (operands + 1))
  | .platformCall =>
    match PlatformCall.ofCode? (code.byteAt operands) with
    | some target => platformCall target
    | none => fail .invalidAssembly
  | .ret => ret
  | .fail => fail .invalidAssembly
  | .awaitFor => awaitFor
  | .await => await
  | .force => force

/-! ## Fetching -/

def operandWords (code : Bytes) : Nat → List OperandKind → Bytes
  | _, [] => ByteArray.empty
  | position, kind :: rest =>
    let bits := kind.read code position
    let word := match kind with
      | .f32 => Number.listingText bits.toUInt32
      | _ => Bytes.ofInt (kind.signed bits).toInt
    " " ++ word ++ operandWords code (position + kind.size) rest

def instructionLine (executor : Nat) (code : Bytes) (position : Nat) (op : Opcode) : Bytes :=
  let call := match op with
    | .platformCall => " (" ++ PlatformCall.nameOf (code.byteAt (position + 1)) ++ ")"
    | _ => ByteArray.empty
  "[exec#" ++ Bytes.ofNat executor ++ "] 0x" ++ Bytes.hex 4 position ++ " " ++ op.mnemonic ++
    operandWords code (position + 1) op.operands ++ call

@[inline]
def fetch? (code : Bytes) (position : Nat) : Option (Opcode × Nat) :=
  if position < code.size then
    match Opcode.ofCode? (code.byteAt position) with
    | some op => if position + op.size ≤ code.size then some (op, op.size) else none
    | none => none
  else none

/-- Carries out the next instruction up to the point where it has to wait, if it does. -/
def issue : Exec Unit := do
  let session ← get
  let assembly := session.shared.assembly
  let ip := session.executor.ip
  let position := ip.toNat
  match fetch? assembly.code position with
  | none => modifyExecutor fun executor => { executor with state := .invalidAssembly }
  | some (op, size) =>
    let executor := session.executor.id
    modifyExecutor fun executor =>
      { executor with current := ip, ip := ip + UInt32.ofNat size }
    modifyShared fun shared =>
      shared.log fun _ => instructionLine executor assembly.code position op
    perform assembly op (position + 1)

/-- Carries out the next instruction; one that has to wait makes its first attempt. -/
def step : Exec Unit := do
  issue
  settle

end Exec

end WordMachine
