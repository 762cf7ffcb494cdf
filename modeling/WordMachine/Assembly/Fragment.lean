import WordMachine.Assembly.Basic
import WordMachine.Isa.PlatformCall
import WordMachine.Text.Quoted
import Std.Data.HashMap

/-!
Fragments: instruction streams under construction. References to labels are recorded and
filled in when the fragment is closed, so code may refer forwards and fragments may be built
apart and joined later.
-/

namespace WordMachine

/-- A name for a position in the code. -/
abbrev Label := Bytes

/-- Why a fragment has no assembly. -/
inductive AssembleError where
  | duplicateLabel (name : Label)
  | undefinedLabel (name : Label)
  | undefinedEntry (name : Label)
  | unknownOpcode (code : UInt8)
  | missingOperands (op : Opcode)
  deriving DecidableEq

def AssembleError.message : AssembleError → Bytes
  | .duplicateLabel name => "duplicate label: " ++ Text.quote name
  | .undefinedLabel name => "undefined label: " ++ Text.quote name
  | .undefinedEntry name => "undefined label: entry point " ++ Text.quote name
  | .unknownOpcode code => "unknown opcode " ++ Opcode.nameOf code
  | .missingOperands op => "opcode " ++ op.mnemonic.toUTF8 ++ " requires operands"

/-- An instruction whose label and string operands are still symbolic. Call modes and platform
calls are kept as bytes, known or not. -/
inductive Instruction where
  | plain (op : Opcode)
  | loadInt (value : Int32)
  | loadLong (value : Int64)
  | loadFloat (bits : UInt32)
  | loadString (text : Bytes)
  | loadAddress (label : Label)
  | reserveConsts (count : UInt8)
  | storeConst (slot : UInt8)
  | loadConst (slot : UInt8)
  | makeStruct (fields : UInt8)
  | loadField (position : UInt8)
  | jump (label : Label)
  | jumpIf (label : Label)
  | call (label : Label) (arguments mode : UInt8)
  | callDynamic (arguments mode : UInt8)
  | platformCall (code : UInt8)
  deriving DecidableEq

/-- Code under construction with everything needed to place it elsewhere. -/
structure Fragment where
  /-- Start of every generated label, so that fragments built apart never collide. -/
  scope : Bytes := ByteArray.empty
  /-- How many labels have been generated. -/
  generated : Nat := 0
  code : Bytes := ByteArray.empty
  labels : Std.HashMap Label Nat := ∅
  /-- Positions that wait for a label's offset. -/
  labelUses : Array (Nat × Label) := #[]
  literals : Array Bytes := #[]
  literalNumbers : Std.HashMap Bytes Nat := ∅
  /-- Positions that hold a literal's number. -/
  literalUses : Array (Nat × Nat) := #[]
  entries : Array Label := #[]
  /-- The first error made while building. -/
  fault : Option AssembleError := none

namespace Fragment

/-- An empty fragment whose generated labels start with `scope`. -/
def empty (scope : Bytes) : Fragment :=
  { scope }

def offset (fragment : Fragment) : UInt32 :=
  UInt32.ofNat fragment.code.size

def report (fragment : Fragment) (error : AssembleError) : Fragment :=
  match fragment.fault with
  | some _ => fragment
  | none => { fragment with fault := some error }

def generatedLabel (scope : Bytes) (number : Nat) : Label :=
  let name := "L" ++ Bytes.ofNat number
  if scope.isEmpty then name else scope ++ "." ++ name

def freshLabel (fragment : Fragment) : Label × Fragment :=
  let number := fragment.generated + 1
  (generatedLabel fragment.scope number, { fragment with generated := number })

def bindAt (fragment : Fragment) (name : Label) (position : Nat) : Fragment :=
  if fragment.labels.contains name then fragment.report (.duplicateLabel name)
  else { fragment with labels := fragment.labels.insert name position }

def bind (fragment : Fragment) (name : Label) : Fragment :=
  fragment.bindAt name fragment.code.size

def addEntry (fragment : Fragment) (label : Label) : Fragment :=
  { fragment with entries := fragment.entries.push label }

def literalNumber (fragment : Fragment) (text : Bytes) : Nat × Fragment :=
  match fragment.literalNumbers[text]? with
  | some number => (number, fragment)
  | none =>
    let number := fragment.literals.size
    (number, { fragment with
      literals := fragment.literals.push text
      literalNumbers := fragment.literalNumbers.insert text number })

/-! ## Emitting -/

def pushByte (fragment : Fragment) (byte : UInt8) : Fragment :=
  { fragment with code := fragment.code.push byte }

def pushOp (fragment : Fragment) (op : Opcode) : Fragment :=
  fragment.pushByte op.code

def pushWord (fragment : Fragment) (word : UInt32) : Fragment :=
  { fragment with code := Bytes.pushU32 fragment.code word }

def pushLong (fragment : Fragment) (word : UInt64) : Fragment :=
  { fragment with code := Bytes.pushU64 fragment.code word }

/-- Leaves room for a label's offset. -/
def pushLabelUse (fragment : Fragment) (label : Label) : Fragment :=
  pushWord { fragment with
    labelUses := fragment.labelUses.push (fragment.code.size, label) } 0

def pushLiteral (fragment : Fragment) (text : Bytes) : Fragment :=
  let (number, fragment) := fragment.literalNumber text
  pushWord { fragment with
    literalUses := fragment.literalUses.push (fragment.code.size, number) } (UInt32.ofNat number)

def emit (fragment : Fragment) : Instruction → Fragment
  | .plain op =>
    if op.operands.isEmpty then fragment.pushOp op else fragment.report (.missingOperands op)
  | .loadInt value => (fragment.pushOp .loadInt).pushWord value.toUInt32
  | .loadLong value => (fragment.pushOp .loadLong).pushLong value.toUInt64
  | .loadFloat bits => (fragment.pushOp .loadFloat).pushWord bits
  | .loadString text => (fragment.pushOp .loadString).pushLiteral text
  | .loadAddress label => (fragment.pushOp .loadAddress).pushLabelUse label
  | .reserveConsts count => (fragment.pushOp .reserveConsts).pushByte count
  | .storeConst slot => (fragment.pushOp .storeConst).pushByte slot
  | .loadConst slot => (fragment.pushOp .loadConst).pushByte slot
  | .makeStruct fields => (fragment.pushOp .makeStruct).pushByte fields
  | .loadField position => (fragment.pushOp .loadField).pushByte position
  | .jump label => (fragment.pushOp .jump).pushLabelUse label
  | .jumpIf label => (fragment.pushOp .jumpIf).pushLabelUse label
  | .call label arguments mode =>
    (((fragment.pushOp .call).pushLabelUse label).pushByte arguments).pushByte mode
  | .callDynamic arguments mode =>
    ((fragment.pushOp .callDynamic).pushByte arguments).pushByte mode
  | .platformCall code => (fragment.pushOp .platformCall).pushByte code

/-- Appends an instruction without operands given by its byte. -/
def emitCode (fragment : Fragment) (code : UInt8) : Fragment :=
  match Opcode.ofCode? code with
  | some op => fragment.emit (.plain op)
  | none => fragment.report (.unknownOpcode code)

/-- A call made on a fragment while building it. -/
inductive Command where
  | bind (label : Label)
  | entry (label : Label)
  | code (byte : UInt8)
  | emit (instruction : Instruction)

/-- Carries out one building call. -/
def apply (fragment : Fragment) : Command → Fragment
  | .bind label => fragment.bind label
  | .entry label => fragment.addEntry label
  | .code byte => fragment.emitCode byte
  | .emit instruction => fragment.emit instruction

/-! ## Joining and closing -/

/-- Takes over the labels of code placed at `base`, in the order of their names. -/
def adoptLabels (fragment : Fragment) (labels : Std.HashMap Label Nat) (base : Nat) : Fragment :=
  (Bytes.sort labels.keys).foldl
    (fun result name => result.bindAt name (labels.getD name 0 + base)) fragment

/-- Takes over the literals of code placed at `base`, giving each use its new number. -/
def adoptLiterals (fragment : Fragment) (literals : Array Bytes) (uses : Array (Nat × Nat))
    (base : Nat) : Fragment :=
  uses.foldl
    (fun result (position, number) =>
      let (number, result) := result.literalNumber (literals.getD number ByteArray.empty)
      { result with
        code := Bytes.setU32 result.code (position + base) (UInt32.ofNat number)
        literalUses := result.literalUses.push (position + base, number) })
    fragment

def append (fragment other : Fragment) : Fragment :=
  let base := fragment.code.size
  let started := match other.fault with
    | some error => fragment.report error
    | none => fragment
  let placed := { started with code := started.code ++ other.code }
  let labelled := placed.adoptLabels other.labels base
  let referring := { labelled with
    labelUses := other.labelUses.foldl
      (fun uses (position, label) => uses.push (position + base, label)) labelled.labelUses }
  let complete := referring.adoptLiterals other.literals other.literalUses base
  { complete with entries := complete.entries ++ other.entries }

def resolveUse (fragment : Fragment) (code : Bytes) (site : Nat × Label) :
    Except AssembleError Bytes :=
  match fragment.labels[site.2]? with
  | some target => .ok (Bytes.setU32 code site.1 (UInt32.ofNat target))
  | none => .error (.undefinedLabel site.2)

def resolveEntry (fragment : Fragment) (label : Label) : Except AssembleError UInt32 :=
  match fragment.labels[label]? with
  | some target => .ok (UInt32.ofNat target)
  | none => .error (.undefinedEntry label)

/-- Fills in every label reference. The first error made while building comes first, then
undefined labels in the order of their uses, then undefined entry points. -/
def close (fragment : Fragment) : Except AssembleError Assembly := do
  if let some error := fragment.fault then
    throw error
  let code ← fragment.labelUses.foldlM fragment.resolveUse fragment.code
  let entries ← fragment.entries.mapM fragment.resolveEntry
  return { code, literals := fragment.literals, entries }

end Fragment

end WordMachine
