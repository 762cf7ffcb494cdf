import WordMachine.CommandLine.Flag
import WordMachine.Config.Basic
import WordMachine.Tracing.Phases

/-!
What a command has written so far, why it fails, and tasks that write and may fail. What a task has
written stays when it fails.
-/

namespace WordMachine.CommandLine

/-- The records of its own work that the tools can keep. -/
inductive Profile where
  | cpu
  | execution
  | heap
  deriving DecidableEq, Repr

def Profile.name : Profile → String
  | cpu => "cpu profile"
  | execution => "execution trace"
  | heap => "heap profile"

/-- Why a command fails. -/
inductive Failure where
  | profile (kind : Profile) (error : PathError)
  | traceLevel (reason : Bytes)
  | traceMode (reason : Bytes)
  | tracer (reason : Bytes)
  | config (error : ConfigError)
  | size (flag : Flag) (error : SizeError)
  | notPositive (flag : Flag)
  | negativeJobs
  | progressView (value : Bytes)
  | expand (error : Build.ExpandError)
  | build (reason : Bytes)
  | read (error : Build.ReadError)
  | listing (error : DecodeError)
  | format (value : Bytes)
  /-- What went wrong has been told already. -/
  | reported
  deriving DecidableEq

def Failure.message : Failure → Bytes
  | .profile kind error => kind.name.toUTF8 ++ ": " ++ error.message
  | traceLevel reason => "invalid trace level: " ++ reason
  | traceMode reason => "invalid trace mode: " ++ reason
  | tracer reason => "failed to create tracer: " ++ reason
  | config error => error.message
  | size flag error => "--" ++ flag.name.toUTF8 ++ ": " ++ error.message
  | notPositive flag => "--" ++ flag.name.toUTF8 ++ " must be positive"
  | negativeJobs => "--jobs must not be negative"
  | progressView value =>
    "invalid --ui value " ++ Text.quote value ++ " (expected auto|on|off)"
  | expand error => error.message
  | build reason => reason
  | read error => error.message
  | listing error => error.message
  | format value =>
    "unsupported format " ++ Text.quote value ++ " (must be pretty or json)"
  | reported => "exit status 1"

/-- Everything a command writes to. -/
structure Console where
  output : Bytes := ByteArray.empty
  errors : Bytes := ByteArray.empty
  files : FileSystem
  tracer : Tracing.Tracer := {}
  /-- The number of the file that takes the trace; the error output does without one. -/
  traceFile : Option Nat := none

/-- Work that writes and may fail. -/
abbrev Task := EStateM Failure Console

namespace Console

def writeOutput (console : Console) (text : Bytes) : Console :=
  { console with output := console.output ++ text }

def writeErrors (console : Console) (text : Bytes) : Console :=
  { console with errors := console.errors ++ text }

/-- Writes the events that the tracer has collected. -/
def flushTrace (console : Console) : Console :=
  let text := console.tracer.written
  let console := { console with tracer := { console.tracer with written := ByteArray.empty } }
  match console.traceFile with
  | none => console.writeErrors text
  | some number =>
    { console with
      files := console.files.setContent number (console.files.content number ++ text) }

def trace (console : Console) (report : Tracing.Tracer → Tracing.Tracer) : Console :=
  { console with tracer := report console.tracer }.flushTrace

/-- Writes what a run wrote to the error output, up to a position. -/
def catchUp (console : Console) (errors : Bytes) (done position : Nat) : Console :=
  console.writeErrors (errors.extract done position)

/-- Takes over what a run has written. Its error output and the trace of the run stand in the order
in which they were written. -/
def takeRun (console : Console) (parent : Nat) (machine : Machine) (state : ExecState) : Console :=
  let platform := machine.shared.platform
  let console := console.writeOutput platform.output
  let console := match platform.files with
    | .system files => { console with files }
    | .table _ => console
  let (span, tracer) := console.tracer.startRun parent
  let console := { console with tracer }.flushTrace
  let step (progress : Console × Nat × Tracing.Tracer.OpenSpans) (point : Milestone × Nat) :
      Console × Nat × Tracing.Tracer.OpenSpans :=
    let (console, done, spans) := progress
    let console := console.catchUp platform.errors done point.2
    let (spans, tracer) := console.tracer.milestone span.id spans point.1
    ({ console with tracer }.flushTrace, point.2, spans)
  let (console, done, _) := machine.shared.milestones.foldl step (console, 0, {})
  (console.catchUp platform.errors done platform.errors.size).trace fun tracer =>
    tracer.finishRun span machine state

end Console

namespace Task

def always {α : Type} (task : Task α) (change : Console → Console) : Task α := fun console =>
  match task console with
  | .ok value console => .ok value (change console)
  | .error failure console => .error failure (change console)

def onFailure {α : Type} (task : Task α) (change : Console → Console) : Task α := fun console =>
  match task console with
  | .ok value console => .ok value console
  | .error failure console => .error failure (change console)

def ofExcept {ε α : Type} (result : Except ε α) (failure : ε → Failure) : Task α :=
  match result with
  | .ok value => pure value
  | .error error => throw (failure error)

end Task

end WordMachine.CommandLine
