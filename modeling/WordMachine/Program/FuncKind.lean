import WordMachine.Isa.Opcode
import WordMachine.Isa.PlatformCall

/-!
Kinds of functions: what a call of a declared function means. Everything but a user function is
built in: an operator, a constructor, or an action on the platform.
-/

namespace WordMachine

/-- How a function is carried out. -/
inductive FuncKind where
  | noOp | user | addInt | subInt | mulInt | divInt | remInt | negInt | incrementInt | decrementInt
  | shiftLeft | shiftRight | andInt | orInt | xorInt | complement | eqInt | neInt | ltInt | leInt
  | gtInt | geInt | addLong | subLong | mulLong | divLong | remLong | negLong | incrementLong
  | decrementLong | eqLong | neLong | ltLong | leLong | gtLong | geLong | addFloat | subFloat
  | mulFloat | divFloat | modFloat | powFloat | sqrtFloat | sinFloat | cosFloat | tanFloat
  | asinFloat | acosFloat | atanFloat | atan2Float | negFloat | incrementFloat | decrementFloat
  | eqFloat | neFloat | ltFloat | leFloat | gtFloat | geFloat | notBool | eqBool | neBool | concat
  | length | index | slice | eqString | neString | combineChars | appendChar | incrementChar
  | decrementChar | intToLong | intToFloat | longToInt | floatToInt | intToString | longToString
  | floatToString | boolToString | charToString | intToChar | floatToChar | defaultInt
  | defaultLong | defaultFloat | defaultBool | defaultString | makeStruct | makeUnion | awaitFor
  | await | force | eqUserType | neUserType
  | action (call : PlatformCall)
  deriving DecidableEq, Repr

namespace FuncKind

/-- The kind that a number in a program stands for; actions follow the built-in operators in the
order of the platform calls. -/
def ofCode? (code : UInt8) : Option FuncKind :=
  match code with
  | 0 => some .noOp
  | 1 => some .user
  | 2 => some .addInt
  | 3 => some .subInt
  | 4 => some .mulInt
  | 5 => some .divInt
  | 6 => some .remInt
  | 7 => some .negInt
  | 8 => some .incrementInt
  | 9 => some .decrementInt
  | 10 => some .shiftLeft
  | 11 => some .shiftRight
  | 12 => some .andInt
  | 13 => some .orInt
  | 14 => some .xorInt
  | 15 => some .complement
  | 16 => some .eqInt
  | 17 => some .neInt
  | 18 => some .ltInt
  | 19 => some .leInt
  | 20 => some .gtInt
  | 21 => some .geInt
  | 22 => some .addLong
  | 23 => some .subLong
  | 24 => some .mulLong
  | 25 => some .divLong
  | 26 => some .remLong
  | 27 => some .negLong
  | 28 => some .incrementLong
  | 29 => some .decrementLong
  | 30 => some .eqLong
  | 31 => some .neLong
  | 32 => some .ltLong
  | 33 => some .leLong
  | 34 => some .gtLong
  | 35 => some .geLong
  | 36 => some .addFloat
  | 37 => some .subFloat
  | 38 => some .mulFloat
  | 39 => some .divFloat
  | 40 => some .modFloat
  | 41 => some .powFloat
  | 42 => some .sqrtFloat
  | 43 => some .sinFloat
  | 44 => some .cosFloat
  | 45 => some .tanFloat
  | 46 => some .asinFloat
  | 47 => some .acosFloat
  | 48 => some .atanFloat
  | 49 => some .atan2Float
  | 50 => some .negFloat
  | 51 => some .incrementFloat
  | 52 => some .decrementFloat
  | 53 => some .eqFloat
  | 54 => some .neFloat
  | 55 => some .ltFloat
  | 56 => some .leFloat
  | 57 => some .gtFloat
  | 58 => some .geFloat
  | 59 => some .notBool
  | 60 => some .eqBool
  | 61 => some .neBool
  | 62 => some .concat
  | 63 => some .length
  | 64 => some .index
  | 65 => some .slice
  | 66 => some .eqString
  | 67 => some .neString
  | 68 => some .combineChars
  | 69 => some .appendChar
  | 70 => some .incrementChar
  | 71 => some .decrementChar
  | 72 => some .intToLong
  | 73 => some .intToFloat
  | 74 => some .longToInt
  | 75 => some .floatToInt
  | 76 => some .intToString
  | 77 => some .longToString
  | 78 => some .floatToString
  | 79 => some .boolToString
  | 80 => some .charToString
  | 81 => some .intToChar
  | 82 => some .floatToChar
  | 83 => some .defaultInt
  | 84 => some .defaultLong
  | 85 => some .defaultFloat
  | 86 => some .defaultBool
  | 87 => some .defaultString
  | 88 => some .makeStruct
  | 89 => some .makeUnion
  | 90 => some .awaitFor
  | 91 => some .await
  | 92 => some .force
  | 93 => some .eqUserType
  | 94 => some .neUserType
  | _ => (PlatformCall.ofCode? (code - 94)).map .action

/-- Operators that are a fixed sequence of operations on their arguments. A comparison without an
operation of its own is the negation of its complement. -/
def operations? : FuncKind → Option (List Opcode)
  | .addInt => some [.addInt]
  | .subInt => some [.subInt]
  | .mulInt => some [.mulInt]
  | .divInt => some [.divInt]
  | .remInt => some [.remInt]
  | .negInt => some [.negInt]
  | .shiftLeft => some [.shiftLeft]
  | .shiftRight => some [.shiftRight]
  | .andInt => some [.andInt]
  | .orInt => some [.orInt]
  | .xorInt => some [.xorInt]
  | .complement => some [.complement]
  | .eqInt => some [.eqInt]
  | .neInt => some [.eqInt, .notInt]
  | .ltInt => some [.ltInt]
  | .leInt => some [.gtInt, .notInt]
  | .gtInt => some [.gtInt]
  | .geInt => some [.ltInt, .notInt]
  | .addLong => some [.addLong]
  | .subLong => some [.subLong]
  | .mulLong => some [.mulLong]
  | .divLong => some [.divLong]
  | .remLong => some [.remLong]
  | .negLong => some [.negLong]
  | .eqLong => some [.eqLong]
  | .neLong => some [.eqLong, .notInt]
  | .ltLong => some [.ltLong]
  | .leLong => some [.gtLong, .notInt]
  | .gtLong => some [.gtLong]
  | .geLong => some [.ltLong, .notInt]
  | .addFloat => some [.addFloat]
  | .subFloat => some [.subFloat]
  | .mulFloat => some [.mulFloat]
  | .divFloat => some [.divFloat]
  | .modFloat => some [.modFloat]
  | .powFloat => some [.powFloat]
  | .sqrtFloat => some [.sqrtFloat]
  | .sinFloat => some [.sinFloat]
  | .cosFloat => some [.cosFloat]
  | .tanFloat => some [.tanFloat]
  | .asinFloat => some [.asinFloat]
  | .acosFloat => some [.acosFloat]
  | .atanFloat => some [.atanFloat]
  | .atan2Float => some [.atan2Float]
  | .negFloat => some [.negFloat]
  | .eqFloat => some [.eqFloat]
  | .neFloat => some [.eqFloat, .notInt]
  | .ltFloat => some [.ltFloat]
  | .leFloat => some [.gtFloat, .notInt]
  | .gtFloat => some [.gtFloat]
  | .geFloat => some [.ltFloat, .notInt]
  | .notBool => some [.notInt]
  | .eqBool => some [.eqInt]
  | .neBool => some [.eqInt, .notInt]
  | .concat => some [.concat]
  | .length => some [.length]
  | .index => some [.index]
  | .slice => some [.slice]
  | .eqString => some [.eqString]
  | .neString => some [.eqString, .notInt]
  | .combineChars => some [.combineChars]
  | .appendChar => some [.appendChar]
  | .intToLong => some [.intToLong]
  | .intToFloat => some [.intToFloat]
  | .longToInt => some [.longToInt]
  | .floatToInt => some [.floatToInt]
  | .intToString => some [.intToString]
  | .longToString => some [.longToString]
  | .floatToString => some [.floatToString]
  | .boolToString => some [.boolToString]
  | .charToString => some [.charToString]
  | .intToChar => some [.intToChar]
  | .floatToChar => some [.floatToChar]
  | .awaitFor => some [.awaitFor]
  | .await => some [.await]
  | .force => some [.force]
  | _ => none

/-- Whether a number stands for an action on the platform. -/
def isAction (code : UInt8) : Bool :=
  match ofCode? code with
  | some (.action _) => true
  | _ => false

end FuncKind

end WordMachine
