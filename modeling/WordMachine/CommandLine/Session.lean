import WordMachine.CommandLine.Console
import WordMachine.CommandLine.Plan

/-!
What surrounds the work of a command: profiles, the trace, and the settings in force.
-/

namespace WordMachine.CommandLine

open Tracing (Tracer)

/-! ## Profiles -/

def Profile.content (profile : Profile) : Bytes :=
  profile.name.toUTF8 ++ ": 0 samples\n"

/-- Makes the file of a profile unless its path is empty. It stays empty until the profile ends. -/
def openProfile (profile : Profile) (path : Bytes) : Task (Option Nat) := do
  if path.isEmpty then pure none
  else do
    let console ← get
    match console.files.openFile path true true with
    | .ok (number, files) =>
      set { console with files }
      pure (some number)
    | .error cause => throw (.profile profile ⟨"open", path, cause⟩)

def Console.fillProfile (console : Console) (profile : Profile) (file : Option Nat) : Console :=
  match file with
  | none => console
  | some number => { console with files := console.files.setContent number profile.content }

/-- Writes the profile that is taken at the end. A command does not fail without it. -/
def Console.finishProfiles (console : Console) (path : Bytes) : Console :=
  match openProfile .heap path console with
  | .ok file console => console.fillProfile .heap file
  | .error failure console => console.writeErrors ("profile: " ++ failure.message ++ "\n")

/-! ## Trace -/

/-- Whether a trace to this path goes to the error output. -/
def isConsolePath (path : Bytes) : Bool :=
  path.isEmpty || path == "-".toUTF8

def openTraceFile (path : Bytes) : Task Unit := do
  let console ← get
  match console.files.openFile path true true with
  | .ok (number, files) => set { console with files, traceFile := some number }
  | .error cause =>
    let error : PathError := ⟨"open", path, cause⟩
    throw (.tracer ("failed to open trace output: " ++ error.message))

/-- Starts the trace that the flags ask for. A trace with a path has at least level phase. -/
def startTrace (options : Options) (clock : Int) : Task Unit := do
  let path := options.text .trace
  let level ← Task.ofExcept (Tracing.Level.ofName (options.text .traceLevel)) .traceLevel
  let level := if level == .off && !path.isEmpty then .phase else level
  unless level == .off do
    let mode ← Task.ofExcept (Tracing.Mode.ofName (options.text .traceMode)) .traceMode
    let tracer ← Task.ofExcept
      (Tracer.new level mode .auto path (options.integer .traceRingSize)) .tracer
    if tracer.stream.isSome && !isConsolePath path then openTraceFile path
    modify fun console => { console with tracer := { tracer with clock } }

/-- Writes the events that were kept to the error output. -/
def Console.finishTrace (console : Console) : Console :=
  console.writeErrors console.tracer.dump

/-! ## Settings -/

def overrideSize (options : Options) (flag : Flag) (current : Int64) : Task Int64 :=
  match options.given? flag with
  | some (.text value) => Task.ofExcept (Size.parse value) (.size flag)
  | _ => pure current

def overrideCapacity (options : Options) (flag : Flag) (current : Int) : Task Int :=
  match options.given? flag with
  | some (.integer value) => if value ≤ 0 then throw (.notPositive flag) else pure value
  | _ => pure current

def overrideTimeout (options : Options) (flag : Flag) (current : Int) : Int :=
  match options.given? flag with
  | some (.duration nanos) => nanos
  | _ => current

def overrideJobs (options : Options) (current : Int) : Task Int :=
  match options.given? .jobs with
  | some (.integer value) => if value < 0 then throw .negativeJobs else pure value
  | _ => pure current

/-- The settings with the changes that flags make. -/
def override (options : Options) (config : Config) : Task Config := do
  let machine := config.machine
  let gcInterval ← overrideSize options .gcInterval machine.gcInterval
  let heapLimit ← overrideSize options .heapLimit machine.heapLimit
  let evalStack ← overrideCapacity options .evalStack machine.evalStack
  let constStack ← overrideCapacity options .constStack machine.constStack
  let callStack ← overrideCapacity options .callStack machine.callStack
  let connectTimeout := overrideTimeout options .connectTimeout machine.connectTimeout
  let jobs ← overrideJobs options config.jobs
  pure { config with
    jobs
    machine := { gcInterval, heapLimit, evalStack, constStack, callStack, connectTimeout } }

/-- The settings in force: those of the named file, or of the nearest one, with the changes that
flags make. -/
def configure (options : Options) : Task Config := do
  let files := (← get).files
  let path := options.text .config
  let found :=
    if path.isEmpty then Config.discover files files.workingPath else Config.load files path
  override options (← Task.ofExcept found .config)

/-! ## Sessions -/

/-- Does the work of a command inside a span of its name. The work gets the number of the span. -/
def inSpan (command : Command) (config : Config) (work : Nat → Task Unit) : Task Unit :=
  fun console =>
    let (span, tracer) := console.tracer.start .driver command.name 0
    let console := { console with tracer }.flushTrace
    let span := if config.path.isEmpty then span else span.set "config" config.path
    match work span.id console with
    | .ok () console => .ok () (console.trace (·.finish span ByteArray.empty))
    | .error failure console => .error failure (console.trace (·.finish span failure.message))

/-- Does the work of a command under its settings, with the profiles and the trace that the flags
ask for. -/
def inSession (command : Command) (options : Options) (clock : Int)
    (work : Config → Nat → Task Unit) : Task Unit := do
  let cpu ← openProfile .cpu (options.text .cpuProfile)
  let execution ← (openProfile .execution (options.text .runtimeTrace)).onFailure
    (·.fillProfile .cpu cpu)
  let traced : Task Unit := do
    let config ← configure options
    inSpan command config (work config)
  let session : Task Unit := do
    startTrace options clock
    traced.always Console.finishTrace
  session.always fun console =>
    ((console.fillProfile .execution execution).fillProfile .cpu cpu).finishProfiles
      (options.text .memProfile)

end WordMachine.CommandLine
