import WordMachine.Build.Source

/-!
Builds: every program file is loaded, lowered and written as an assembly. A file that fails does
not stop the others.
-/

namespace WordMachine.Build

/-- What happens to a file, in this order. -/
inductive Stage where
  | load
  | generate
  | write
  deriving DecidableEq, Repr

def Stage.name : Stage → String
  | load => "load"
  | generate => "generate"
  | write => "write"

/-- How far a stage is. -/
inductive Status where
  | queued
  | working
  | done
  | error
  deriving DecidableEq, Repr

def Status.name : Status → String
  | queued => "queued"
  | working => "working"
  | done => "done"
  | error => "error"

/-- Why a file was not built. -/
inductive Failure where
  | cancelled
  | read (error : ReadError)
  | write (path : Bytes) (error : FileSystem.ReplaceError)
  deriving DecidableEq

def Failure.message : Failure → Bytes
  | cancelled => "context canceled"
  | read error => error.message
  | write path (.create error) => "failed to create " ++ Text.quote path ++ ": " ++ error.message
  | write path error => "failed to write " ++ Text.quote path ++ ": " ++ error.message

structure Event where
  file : Bytes
  stage : Stage
  status : Status
  failure : Option Failure := none

structure Request where
  files : List Bytes
  /-- Where assemblies go; beside their programs when empty. -/
  directory : Bytes := ByteArray.empty
  cancelled : Bool := false

structure Result where
  file : Bytes
  output : Bytes
  failure : Option Failure := none
  stages : List Stage := []
  lowered : Option Lowering.Outcome := none

def writeStage (system : FileSystem) (result : Result) (assembly : Assembly) :
    Result × FileSystem :=
  let result := { result with stages := [.load, .generate, .write] }
  match system.replaceFile result.output assembly.save with
  | .ok system => (result, system)
  | .error error => ({ result with failure := some (.write result.output error) }, system)

/-- Runs the stages of a file until one fails. -/
def buildFile (request : Request) (system : FileSystem) (file : Bytes) : Result × FileSystem :=
  let result : Result := { file, output := outputPath file request.directory }
  if request.cancelled then ({ result with failure := some .cancelled }, system)
  else
    match readProgram system file with
    | .error error =>
      ({ result with failure := some (.read error), stages := [.load] }, system)
    | .ok program =>
      let outcome := Lowering.outcome program
      let result := { result with lowered := some outcome }
      match outcome.result with
      | .error error =>
        ({ result with
            failure := some (.read (.lowering file error))
            stages := [.load, .generate] }, system)
      | .ok assembly => writeStage system result assembly

def buildFiles (request : Request) : FileSystem → List Bytes → List Result × FileSystem
  | system, [] => ([], system)
  | system, file :: rest =>
    let (result, system) := buildFile request system file
    let (results, system) := buildFiles request system rest
    (result :: results, system)

/-- The events of a result: each stage that ran begins, and ends unless the file failed in it. -/
def Result.events (result : Result) : List Event :=
  let event (stage : Stage) (status : Status) (failure : Option Failure) : Event :=
    { file := result.file, stage, status, failure }
  let passed (stage : Stage) : List Event :=
    [event stage .working none, event stage .done none]
  match result.failure, result.stages.getLast? with
  | none, _ => result.stages.flatMap passed
  | some failure, none => [event .load .error (some failure)]
  | some failure, some last =>
    result.stages.dropLast.flatMap passed ++
      [event last .working none, event last .error (some failure)]

/-- What became of a build. -/
structure Outcome where
  /-- Why nothing was built: the directory could not be made. -/
  refused : Option PathError := none
  results : List Result := []
  events : List Event := []

def Outcome.failures (outcome : Outcome) : List Failure :=
  outcome.results.filterMap Result.failure

/-- The wording of all that went wrong, a line for each file. -/
def Outcome.message? (outcome : Outcome) : Option Bytes :=
  match outcome.refused with
  | some error => some ("failed to create output dir: " ++ error.message)
  | none =>
    if outcome.failures.isEmpty then none
    else some (Bytes.join "\n" (outcome.failures.map Failure.message))

def run (request : Request) (system : FileSystem) : Outcome × FileSystem :=
  let prepared :=
    if request.directory.isEmpty then .ok system else system.makeDirectories request.directory
  match prepared with
  | .error error => ({ refused := some error }, system)
  | .ok system =>
    let (results, system) := buildFiles request system request.files
    let queued := request.files.map fun file => { file, stage := .load, status := .queued }
    ({ results, events := queued ++ results.flatMap Result.events }, system)

end WordMachine.Build
