import WordMachine.Assembly.Fragment
import WordMachine.Text.Outline

/-!
Assembly source: commands as outlines, each a list of a mnemonic and its operands. Labels are
texts, and the platform calls can be given by name.
-/

namespace WordMachine.Fragment

def opcodeOfMnemonic? (mnemonic : String) : Option UInt8 :=
  ((List.range 256).map Nat.toUInt8).find? fun code =>
    match Opcode.ofCode? code with
    | some op => op.mnemonic == mnemonic
    | none => false

def platformCallOf (operand : Outline) : UInt8 :=
  match operand with
  | .text name => (PlatformCall.codeOfName? name).getD 0
  | other => other.toU8

def Command.ofOutline : Outline → Command
  | .list (mnemonic :: operands) =>
    let operand (position : Nat) : Outline := operands[position]?.getD .none
    let first := operand 0
    match mnemonic.name with
    | "label" => .bind first.toBytes
    | "entry" => .entry first.toBytes
    | "op" => .code first.toU8
    | "load-lit-int" => .emit (.loadInt (Int32.ofInt first.toInt))
    | "load-lit-long" => .emit (.loadLong (Int64.ofInt first.toInt))
    | "load-lit-float" => .emit (.loadFloat first.toU32)
    | "load-lit-string" => .emit (.loadString first.toBytes)
    | "load-lit-ip" => .emit (.loadAddress first.toBytes)
    | "reserve-consts" => .emit (.reserveConsts first.toU8)
    | "store-const" => .emit (.storeConst first.toU8)
    | "load-const" => .emit (.loadConst first.toU8)
    | "make-struct" => .emit (.makeStruct first.toU8)
    | "load-struct-field" => .emit (.loadField first.toU8)
    | "jump" => .emit (.jump first.toBytes)
    | "jump-if" => .emit (.jumpIf first.toBytes)
    | "call" => .emit (.call first.toBytes (operand 1).toU8 (operand 2).toU8)
    | "call-dyn" => .emit (.callDynamic first.toU8 (operand 1).toU8)
    | "pcall" => .emit (.platformCall (platformCallOf first))
    | other => .code ((opcodeOfMnemonic? other).getD 0)
  | _ => .code 0

def assemble (source : List Outline) : Except AssembleError Assembly :=
  (source.foldl (fun fragment line => fragment.apply (Command.ofOutline line)) (empty "")).close

end WordMachine.Fragment
