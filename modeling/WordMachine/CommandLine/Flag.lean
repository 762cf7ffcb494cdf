import WordMachine.Config.Quantity
import WordMachine.Number.Integer

/-!
Flags on a command line. A flag has a long name, and may have a letter: `--jobs=2`, `--jobs 2`,
`-j=2`, `-j2` and `-j 2` say the same. Switches stand alone, and letters of switches can share one
dash. What is no flag is an operand, and everything behind a lone `--` is.
-/

namespace WordMachine.CommandLine

inductive Value where
  | text (value : Bytes)
  | switch (value : Bool)
  | integer (value : Int)
  | duration (nanos : Int)
  deriving DecidableEq

structure Flag where
  name : String
  short : Option UInt8 := none
  /-- The value without the flag. It also tells which values there are. -/
  initial : Value
  deriving DecidableEq

/-- Why a text is no value of a flag. -/
inductive ValueError where
  | switch
  | integer (error : Number.IntegerError)
  | duration (error : DurationError)
  deriving DecidableEq

def ValueError.message (text : Bytes) : ValueError → Bytes
  | switch => "strconv.ParseBool: parsing " ++ Text.quote text ++ ": invalid syntax"
  | integer error => "strconv.ParseInt: parsing " ++ Text.quote text ++ ": " ++ error.message
  | duration error => error.message text

/-- What is wrong with a flag. A letter is told with the letters from it on. -/
inductive FlagError where
  | malformed (argument : Bytes)
  | unknown (name : Bytes)
  | unknownLetter (letter : UInt8) (letters : Bytes)
  | valueMissing (name : Bytes)
  | letterValueMissing (letter : UInt8) (letters : Bytes)
  | invalid (flag : Flag) (text : Bytes) (error : ValueError)
  deriving DecidableEq

namespace Flag

def shown (flag : Flag) : Bytes :=
  match flag.short with
  | some letter => "-" ++ Bytes.singleton letter ++ ", --" ++ flag.name
  | none => "--" ++ flag.name.toUTF8

def isSwitch (flag : Flag) : Bool :=
  match flag.initial with
  | .switch _ => true
  | _ => false

def ons : List Bytes :=
  ["1", "t", "T", "TRUE", "true", "True"]

def offs : List Bytes :=
  ["0", "f", "F", "FALSE", "false", "False"]

def parseValue (initial : Value) (text : Bytes) : Except ValueError Value :=
  match initial with
  | .text _ => .ok (.text text)
  | .switch _ =>
    if ons.contains text then .ok (.switch true)
    else if offs.contains text then .ok (.switch false)
    else .error .switch
  | .integer _ =>
    match Number.Integer.parse text with
    | .ok value => .ok (.integer value)
    | .error error => .error (.integer error)
  | .duration _ =>
    match Duration.parse text with
    | .ok nanos => .ok (.duration nanos)
    | .error error => .error (.duration error)

def read (flag : Flag) (text : Bytes) : Except FlagError Value :=
  (parseValue flag.initial text).mapError (.invalid flag text)

end Flag

/-- A letter as it is shown in an error: a byte beyond ASCII shows the character that starts with
the first byte of its own encoding. -/
def quoteLetter (letter : UInt8) : Bytes :=
  match Text.encodeScalar letter.toNat with
  | first :: _ => Text.quoteScalar first.toNat
  | [] => ByteArray.empty

def FlagError.message : FlagError → Bytes
  | malformed argument => "bad flag syntax: " ++ argument
  | unknown name => "unknown flag: --" ++ name
  | unknownLetter letter letters =>
    "unknown shorthand flag: " ++ quoteLetter letter ++ " in -" ++ letters
  | valueMissing name => "flag needs an argument: --" ++ name
  | letterValueMissing letter letters =>
    "flag needs an argument: " ++ quoteLetter letter ++ " in -" ++ letters
  | invalid flag text error =>
    "invalid argument " ++ Text.quote text ++ " for " ++ Text.quote flag.shown ++ " flag: " ++
      error.message text

/-- The flags that were given, the latest first, and the operands in order. -/
structure Options where
  given : List (String × Value) := []
  operands : List Bytes := []

namespace Options

def given? (options : Options) (flag : Flag) : Option Value :=
  (options.given.find? fun (name, _) => name == flag.name).map (·.2)

def value (options : Options) (flag : Flag) : Value :=
  (options.given? flag).getD flag.initial

def text (options : Options) (flag : Flag) : Bytes :=
  match options.value flag with
  | .text value => value
  | _ => ByteArray.empty

def isOn (options : Options) (flag : Flag) : Bool :=
  options.value flag == .switch true

def integer (options : Options) (flag : Flag) : Int :=
  match options.value flag with
  | .integer value => value
  | _ => 0

def give (options : Options) (flag : Flag) (text : Bytes) : Except FlagError Options := do
  let value ← flag.read text
  .ok { options with given := (flag.name, value) :: options.given }

def addOperands (options : Options) (operands : List Bytes) : Options :=
  { options with operands := options.operands ++ operands }

end Options

/-- What the next argument can be. -/
inductive Expected where
  | anything
  /-- The value of a flag, and the error if there is none. -/
  | value (flag : Flag) (missing : FlagError)
  /-- An operand, whatever it looks like. -/
  | operand

/-- Reads the letters behind a dash. Those that start with `test.` are passed over. -/
def readLetters (flags : List Flag) (options : Options) :
    List UInt8 → Except FlagError (Options × Expected)
  | [] => .ok (options, .anything)
  | letter :: rest =>
    let letters := Bytes.ofList (letter :: rest)
    if letters.startsWith "test." then .ok (options, .anything)
    else
      match flags.find? fun flag => flag.short == some letter, rest with
      | none, _ => .error (.unknownLetter letter letters)
      | some flag, 61 :: first :: text => do
        .ok (← options.give flag (Bytes.ofList (first :: text)), .anything)
      | some flag, rest =>
        if flag.isSwitch then do
          readLetters flags (← options.give flag "true") rest
        else if rest.isEmpty then
          .ok (options, .value flag (.letterValueMissing letter letters))
        else do .ok (← options.give flag (Bytes.ofList rest), .anything)

/-- Reads what stands behind two dashes. -/
def readLong (flags : List Flag) (options : Options) (body : Bytes) :
    Except FlagError (Options × Expected) :=
  let separator := Bytes.indexOf? body 61 0
  let name := (separator.map (Bytes.take body)).getD body
  if body.startsWith "-" || body.startsWith "=" then .error (.malformed ("--" ++ body))
  else
    match flags.find? fun flag => flag.name.toUTF8 == name, separator with
    | none, _ => .error (.unknown name)
    | some flag, some position => do
      .ok (← options.give flag (Bytes.drop body (position + 1)), .anything)
    | some flag, none =>
      if flag.isSwitch then do .ok (← options.give flag "true", .anything)
      else .ok (options, .value flag (.valueMissing name))

def readArgument (flags : List Flag) (mixed : Bool) :
    Options × Expected → Bytes → Except FlagError (Options × Expected)
  | (options, .operand), argument => .ok (options.addOperands [argument], .operand)
  | (options, .value flag _), argument => do .ok (← options.give flag argument, .anything)
  | (options, .anything), argument =>
    match argument.toList with
    | [45, 45] => .ok (options, .operand)
    | 45 :: 45 :: body => readLong flags options (Bytes.ofList body)
    | 45 :: letter :: rest => readLetters flags options (letter :: rest)
    | _ => .ok (options.addOperands [argument], if mixed then .anything else .operand)

def readOptions (flags : List Flag) (mixed : Bool) (arguments : List Bytes) :
    Except FlagError Options := do
  let (options, expected) ← arguments.foldlM (readArgument flags mixed) ({}, .anything)
  match expected with
  | .value _ missing => .error missing
  | _ => .ok options

end WordMachine.CommandLine
