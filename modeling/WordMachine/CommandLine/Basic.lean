import WordMachine.CommandLine.Session
import WordMachine.Progress.Basic

/-!
The commands: `build` makes assemblies of programs, `run` executes either, `disasm` prints a
listing, and `version` tells about the tools.
-/

namespace WordMachine.CommandLine

/-- The variables that lines `name=value` set. A line without a name sets none. -/
def «variables» (lines : List Bytes) : List (Bytes × Bytes) :=
  lines.filterMap fun line =>
    match Bytes.indexOf? line 61 0 with
    | none | some 0 => none
    | some position => some (Bytes.take line position, Bytes.drop line (position + 1))

/-- Everything a command can depend on. -/
structure Invocation where
  arguments : List Bytes
  environment : List (Bytes × Bytes) := []
  input : Bytes := ByteArray.empty
  files : FileSystem
  now : Nat := 1735689600000000

/-- Everything a command leaves behind. -/
structure Outcome where
  status : UInt32 := 0
  output : Bytes := ByteArray.empty
  errors : Bytes := ByteArray.empty
  files : FileSystem

structure Job where
  invocation : Invocation
  command : Command
  options : Options
  color : Bool

/-- Whether a variable of the environment keeps colours away from all but listings. -/
def Invocation.isPlain (invocation : Invocation) : Bool :=
  invocation.environment.any fun (name, value) => name == "NO_COLOR".toUTF8 && !value.isEmpty

namespace Job

def paints (job : Job) : Bool :=
  job.color && !job.invocation.isPlain

def clock (job : Job) : Int :=
  job.invocation.now * 1000

def isQuiet (job : Job) : Bool :=
  job.options.isOn .quiet

def file (job : Job) : Bytes :=
  job.options.operands.headD ByteArray.empty

def inSession (job : Job) (work : Config → Nat → Task Unit) : Task Unit :=
  CommandLine.inSession job.command job.options job.clock work

/-! ## Building -/

def builtPaint : Paint := ⟨"32;1", "0;22"⟩

def failedPaint : Paint := ⟨"31;1", "0;22"⟩

/-- What is said about a file that was to be built. -/
def resultLine (job : Job) (result : Build.Result) : Bytes :=
  match result.failure with
  | some _ => failedPaint.apply job.paints "failed" ++ " " ++ result.file ++ "\n"
  | none =>
    builtPaint.apply job.paints "built" ++ " " ++ result.file ++ " -> " ++ result.output ++ "\n"

/-- A duration as it is printed. Work on values takes no time. -/
def noTime : Bytes := "0.0 ms"

def timingLine (result : Build.Result) : Bytes :=
  let stage (stage : Build.Stage) : Bytes := " " ++ stage.name.toUTF8 ++ " " ++ noTime
  result.file ++ ":" ++ Bytes.concat ([.load, .generate, .write].map stage) ++ "\n"

def progressEvent (event : Build.Event) : Progress.Event where
  file := event.file
  stage := event.stage.name
  status := event.status.name
  error := event.failure.map Build.Failure.message

def finalScreen (files : List Bytes) (outcome : Build.Outcome) : Bytes :=
  ((outcome.events.map progressEvent).foldl Progress.apply
    (Progress.start "build" files)).finish.view

/-- Whether the progress is shown on a screen. Output goes to no terminal, so it is not unless
asked for. -/
def wantsScreen (job : Job) : Task Bool :=
  let value := job.options.text .ui
  if value == "on".toUTF8 then pure true
  else if value.isEmpty || value == "auto".toUTF8 || value == "off".toUTF8 then pure false
  else throw (.progressView value)

def build (job : Job) : Task Unit := do
  let screen ← job.wantsScreen
  let files ← Task.ofExcept (Build.expand (← get).files job.options.operands) .expand
  job.inSession fun _ span => do
    let request : Build.Request := { files, directory := job.options.text .outDir }
    let (outcome, system) := Build.run request (← get).files
    modify fun console => { console with files := system }.trace (·.build span outcome)
    unless job.isQuiet do
      modify (·.writeOutput
        (if screen then finalScreen files outcome
        else Bytes.concat (outcome.results.map job.resultLine)))
    if job.options.isOn .timings then
      modify (·.writeErrors (Bytes.concat (outcome.results.map timingLine)))
    if let some reason := outcome.message? then throw (.build reason)

/-! ## Assemblies -/

def readCode (job : Job) (span : Nat) : Task Assembly := do
  let (lowered, code) := Build.readCode (← get).files job.file
  if let some outcome := lowered then
    modify (·.trace fun tracer => tracer.lowering span outcome)
  Task.ofExcept code .read

def disasm (job : Job) : Task Unit :=
  job.inSession fun _ span => do
    let assembly ← job.readCode span
    modify (·.writeOutput (assembly.listing job.color))
    if let some error := assembly.decode.2 then throw (.listing error)

/-! ## Running -/

/-- The world of a program that is run: it has no terminal. -/
def platform (job : Job) (files : FileSystem) : Platform where
  input := { source := job.invocation.input }
  arguments := job.options.operands.toArray
  environment := job.invocation.environment
  files := .system files
  terminal := none
  epochMicros := job.invocation.now

/-- Tells how a run ended, unless it succeeded. -/
def tellEnd (job : Job) (fault : Option Report) (state : ExecState) : Task Unit := do
  if let some report := fault then
    modify (·.writeErrors ("vm panic: " ++ report.text ++ "\n"))
    throw .reported
  unless state == .success do
    unless job.isQuiet do
      modify (·.writeErrors ("program finished with state " ++ state.name.toUTF8 ++ "\n"))
    throw .reported

def run (job : Job) : Task Unit :=
  job.inSession fun config span => do
    let assembly ← job.readCode span
    let journal : Journal := if job.options.isOn .vmTrace then .console else .off
    let machine := Machine.new assembly config.machine.withDefaults
      (job.platform (← get).files) journal
    let (state, machine) := machine.run
    modify (·.takeRun span machine state)
    if job.options.isOn .timings then
      modify (·.writeErrors ("loaded " ++ noTime ++ "\nran " ++ noTime ++ "\n"))
    job.tellEnd machine.shared.fault state

/-! ## Telling the version -/

def version (job : Job) : Task Unit := do
  let version : Version := {}
  let format := job.options.text .format
  if format == "pretty".toUTF8 then modify (·.writeOutput (version.banner job.paints))
  else if format == "json".toUTF8 then modify (·.writeOutput version.record)
  else throw (.format format)

def perform (job : Job) : Task Unit :=
  match job.command with
  | .build => job.build
  | .run => job.run
  | .disasm => job.disasm
  | .version => job.version

end Job

def errorPaint : Paint := ⟨"31", "0"⟩

/-- The line that tells why a command fails. -/
def errorLine (color : Bool) (message : Bytes) : Bytes :=
  errorPaint.apply color "error:" ++ " " ++ message ++ "\n"

def Job.outcome (job : Job) : Outcome :=
  match job.perform { files := job.invocation.files } with
  | .ok () console => { output := console.output, errors := console.errors, files := console.files }
  | .error failure console =>
    let line :=
      if failure = .reported then ByteArray.empty else errorLine job.paints failure.message
    { status := 1
      output := console.output
      errors := console.errors ++ line
      files := console.files }

def execute (invocation : Invocation) : Outcome :=
  let files := invocation.files
  match plan invocation.arguments with
  | .error error => { status := 1, errors := errorLine false error.message, files }
  | .ok .usage => { output := usage, files }
  | .ok .versionLine =>
    { output := Version.toolName ++ " version " ++ ({} : Version).line ++ "\n", files }
  | .ok (.perform command options color) =>
    Job.outcome { invocation, command, options, color }

end WordMachine.CommandLine
