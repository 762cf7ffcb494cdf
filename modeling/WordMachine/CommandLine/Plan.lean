import WordMachine.CommandLine.Flag
import WordMachine.Machine.Settings
import WordMachine.Text.LowerCase
import WordMachine.Version

/-!
What a command line asks for. The first argument that is neither a flag nor the value of one names
the command; flags can stand on both sides of it.
-/

namespace WordMachine.CommandLine

/-! ## Flags -/

namespace Flag

def help : Flag := { name := "help", short := some 104, initial := .switch false }
def version : Flag := { name := "version", short := some 118, initial := .switch false }
def color : Flag := { name := "color", initial := .text "auto" }
def quiet : Flag := { name := "quiet", initial := .switch false }
def timings : Flag := { name := "timings", initial := .switch false }
def config : Flag := { name := "config", initial := .text "" }
def trace : Flag := { name := "trace", initial := .text "" }
def traceLevel : Flag := { name := "trace-level", initial := .text "off" }
def traceMode : Flag := { name := "trace-mode", initial := .text "stream" }
def traceRingSize : Flag := { name := "trace-ring-size", initial := .integer 4096 }
def traceHeartbeat : Flag := { name := "trace-heartbeat", initial := .duration 0 }
def cpuProfile : Flag := { name := "cpu-profile", initial := .text "" }
def memProfile : Flag := { name := "mem-profile", initial := .text "" }
def runtimeTrace : Flag := { name := "runtime-trace", initial := .text "" }
def noDescriptions : Flag := { name := "no-descriptions", initial := .switch false }
def outDir : Flag := { name := "out-dir", short := some 111, initial := .text "" }
def ui : Flag := { name := "ui", initial := .text "auto" }
def jobs : Flag := { name := "jobs", short := some 106, initial := .integer 0 }
def format : Flag := { name := "format", initial := .text "pretty" }
def vmTrace : Flag := { name := "vm-trace", initial := .switch false }
def gcInterval : Flag := { name := "gc-interval", initial := .text "" }
def heapLimit : Flag := { name := "heap-limit", initial := .text "" }

def evalStack : Flag :=
  { name := "eval-stack", initial := .integer Settings.standard.evalStack }

def constStack : Flag :=
  { name := "const-stack", initial := .integer Settings.standard.constStack }

def callStack : Flag :=
  { name := "call-stack", initial := .integer Settings.standard.callStack }

def connectTimeout : Flag :=
  { name := "connect-timeout", initial := .duration Settings.standard.connectTimeout }

def shared : List Flag :=
  [color, quiet, timings, config, trace, traceLevel, traceMode, traceRingSize, traceHeartbeat,
    cpuProfile, memProfile, runtimeTrace]

end Flag

/-! ## Commands -/

inductive Command where
  | build
  | run
  | disasm
  | version
  deriving DecidableEq, Repr

/-- How many operands a command takes. -/
inductive Arity where
  | none
  | exactly (count : Nat)
  | atLeast (count : Nat)
  deriving DecidableEq, Repr

namespace Command

def all : List Command :=
  [build, run, disasm, version]

def name : Command → String
  | build => "build"
  | run => "run"
  | disasm => "disasm"
  | version => "version"

def summary : Command → String
  | build => "Compile program files into assembly files"
  | run => "Execute an assembly or program file"
  | disasm => "Print an assembly listing"
  | version => "Show novus build fingerprints"

def ofName? (name : Bytes) : Option Command :=
  all.find? fun command => command.name.toUTF8 == name

def ownFlags : Command → List Flag
  | build => [.outDir, .ui, .jobs]
  | run => [.vmTrace, .gcInterval, .heapLimit, .evalStack, .constStack, .callStack,
      .connectTimeout, .jobs]
  | disasm => []
  | version => [.format]

def flags (command : Command) : List Flag :=
  .help :: command.ownFlags ++ Flag.shared

/-- Whether flags can stand behind operands. What stands behind the file of a run belongs to the
program. -/
def mixed (command : Command) : Bool :=
  command != run

def arity : Command → Arity
  | build => .atLeast 1
  | run => .atLeast 1
  | disasm => .exactly 1
  | version => .none

end Command

/-! ## Errors -/

/-- Why a command line asks for nothing that can be done. -/
inductive UsageError where
  | unknownCommand (name path : Bytes) (suggestions : List String)
  | flag (error : FlagError)
  | exactly (expected received : Nat)
  | atLeast (expected received : Nat)
  | color (value : Bytes)
  deriving DecidableEq

def suggestionText (suggestions : List String) : Bytes :=
  if suggestions.isEmpty then ByteArray.empty
  else
    "\n\nDid you mean this?\n" ++
      Bytes.concat (suggestions.map fun name => "\t" ++ name.toUTF8 ++ "\n")

def UsageError.message : UsageError → Bytes
  | unknownCommand name path suggestions =>
    "unknown command " ++ Text.quote name ++ " for " ++ Text.quote path ++
      suggestionText suggestions
  | flag error => error.message
  | exactly expected received =>
    "accepts " ++ Bytes.ofNat expected ++ " arg(s), received " ++ Bytes.ofNat received
  | atLeast expected received =>
    "requires at least " ++ Bytes.ofNat expected ++ " arg(s), only received " ++
      Bytes.ofNat received
  | color value =>
    "invalid --color value " ++ Text.quote value ++ " (expected auto|on|off)"

/-! ## Suggestions -/

/-- The next row of the table of edit distances: the distances from a text that ends in `byte` to
the beginnings of another. `above` is the row before it without its first number, `diagonal` that
number, and `left` the last number of this row so far. -/
def distanceRow (byte : UInt8) : Nat → Nat → List Nat → List UInt8 → List Nat
  | diagonal, left, above :: row, other :: rest =>
    let best := if byte == other then diagonal else min (min left above) diagonal + 1
    best :: distanceRow byte above best row rest
  | _, _, _, _ => []

/-- The least number of insertions, deletions and exchanges that make one text of the other. -/
def editDistance (left right : List UInt8) : Nat :=
  let step (row : List Nat) (byte : UInt8) : List Nat :=
    match row with
    | [] => []
    | first :: rest => (first + 1) :: distanceRow byte first (first + 1) rest right
  let row := left.foldl step (List.range (right.length + 1))
  row.getLast?.getD 0

/-- The commands a mistyped name may stand for. -/
def suggestions (name : Bytes) : List String :=
  let typed := Text.lower name
  (Command.all.map Command.name ++ ["completion"]).filter fun candidate =>
    editDistance typed.toList (Bytes.toList candidate.toUTF8) ≤ 2 ||
      Bytes.startsWith candidate.toUTF8 typed

/-! ## Finding the command -/

/-- Whether an argument takes the next one as its value, as far as is known before the command is:
of the flags, only the shared ones are. -/
def takesNext (argument : Bytes) : Bool :=
  let isSwitch := Flag.shared.any fun flag =>
    flag.isSwitch && "--" ++ flag.name.toUTF8 == argument
  argument.startsWith "-" && !argument.toList.contains 61 && !isSwitch &&
    (argument.startsWith "--" || argument.size == 2)

/-- The first argument that is neither a flag nor the value of one. A flag whose value would be the
last argument ends the search, as does a lone `--`. -/
def firstWord? : Bool → List Bytes → Option Bytes
  | _, [] => none
  | true, _ :: rest => firstWord? false rest
  | false, argument :: rest =>
    if argument == "--".toUTF8 then none
    else if takesNext argument then
      if 1 < rest.length then firstWord? true rest else none
    else if argument.isEmpty || argument.startsWith "-" then firstWord? false rest
    else some argument

def withoutWord (word : Bytes) : Bool → List Bytes → List Bytes
  | _, [] => []
  | true, argument :: rest => argument :: withoutWord word false rest
  | false, argument :: rest =>
    if argument == "--".toUTF8 then argument :: rest
    else if takesNext argument then argument :: withoutWord word true rest
    else if argument == word then rest
    else argument :: withoutWord word false rest

/-! ## The plan -/

inductive Plan where
  | usage
  | versionLine
  | perform (command : Command) (options : Options) (color : Bool)

def checkArity (command : Command) (operands : List Bytes) : Except UsageError Unit :=
  let path := Version.toolName ++ " " ++ command.name
  match command.arity, operands with
  | .none, operand :: _ => .error (.unknownCommand operand path [])
  | .none, [] => .ok ()
  | .exactly count, operands =>
    if operands.length = count then .ok () else .error (.exactly count operands.length)
  | .atLeast count, operands =>
    if count ≤ operands.length then .ok () else .error (.atLeast count operands.length)

/-- Whether output is coloured. It goes to no terminal, so it is not unless asked for. -/
def wantsColor (options : Options) : Except UsageError Bool :=
  let value := options.text .color
  if value == "on".toUTF8 then .ok true
  else if value == "off".toUTF8 || value == "auto".toUTF8 then .ok false
  else .error (.color value)

def Command.plan (command : Command) (arguments : List Bytes) : Except UsageError Plan := do
  let options ← (readOptions command.flags command.mixed arguments).mapError .flag
  if options.isOn .help then .ok .usage
  else
    checkArity command options.operands
    .ok (.perform command options (← wantsColor options))

def bare (arguments : List Bytes) : Except UsageError Plan := do
  let options ← (readOptions (.help :: .version :: Flag.shared) true arguments).mapError .flag
  if options.isOn .help then .ok .usage
  else if options.isOn .version then .ok .versionLine
  else .ok .usage

/-- The shells that can be taught to complete command lines. -/
def shells : List String :=
  ["bash", "fish", "powershell", "zsh"]

def helpPlan (arguments : List Bytes) : Except UsageError Plan := do
  let _ ← (readOptions (.help :: Flag.shared) true arguments).mapError .flag
  .ok .usage

/-- What a request for completion asks for. A shell takes no operands. -/
def completionPlan (arguments : List Bytes) : Except UsageError Plan := do
  let word := (firstWord? false arguments).getD ByteArray.empty
  match shells.find? (·.toUTF8 == word) with
  | none => helpPlan arguments
  | some shell =>
    let options ← (readOptions (.help :: .noDescriptions :: Flag.shared) true
      (withoutWord word false arguments)).mapError .flag
    match options.isOn .help, options.operands with
    | false, operand :: _ =>
      .error (.unknownCommand operand (Version.toolName ++ " completion " ++ shell) [])
    | false, [] => do
      let _ ← wantsColor options
      .ok .usage
    | true, _ => .ok .usage

/-- Commands beside the working ones: they only tell how to use the others. -/
def topics : List (String × (List Bytes → Except UsageError Plan)) :=
  [("help", helpPlan), ("completion", completionPlan)]

def plan (arguments : List Bytes) : Except UsageError Plan :=
  match firstWord? false arguments with
  | none => bare arguments
  | some word =>
    match Command.ofName? word with
    | some command => command.plan (withoutWord word false arguments)
    | none =>
      match topics.find? fun (name, _) => name.toUTF8 == word with
      | some (_, topic) => topic (withoutWord word false arguments)
      | none => .error (.unknownCommand word Version.toolName (suggestions word))

def usage : Bytes :=
  "Novus compiles typed program files into assembly and executes assemblies on a " ++
    "garbage-collected VM\n\nUsage:\n  novus [command]\n\nAvailable Commands:\n".toUTF8 ++
    Bytes.concat (Command.all.map fun command =>
      "  " ++ Bytes.padRight command.name 11 32 ++ " " ++ command.summary ++ "\n")

end WordMachine.CommandLine
