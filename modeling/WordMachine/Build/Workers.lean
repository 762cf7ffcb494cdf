import WordMachine.Build.Basic

/-!
Files that are built side by side. A worker takes a file through its stages; between any two of
them others may run theirs. A build that is cancelled ends each file at its next stage.
-/

namespace WordMachine.Build

/-- How far a file is. -/
inductive Progress where
  | queued
  | loaded (program : Program)
  | generated (assembly : Assembly)
  | finished

/-- A file that is being built, and what has become of it so far. -/
structure Worker where
  result : Result
  progress : Progress := .queued

namespace Worker

/-- Whether a file was begun and is not finished. -/
def isBusy (worker : Worker) : Bool :=
  match worker.progress with
  | .loaded _ => true
  | .generated _ => true
  | _ => false

def fail (worker : Worker) (result : Result) (failure : Failure) : Worker :=
  { worker with result := { result with failure := some failure }, progress := .finished }

def work (worker : Worker) (system : FileSystem) : Worker × FileSystem :=
  match worker.progress with
  | .queued =>
    let result := { worker.result with stages := [.load] }
    match readProgram system result.file with
    | .error error => (worker.fail result (.read error), system)
    | .ok program => ({ result, progress := .loaded program }, system)
  | .loaded program =>
    let outcome := Lowering.outcome program
    let result :=
      { worker.result with stages := [.load, .generate], lowered := some outcome }
    match outcome.result with
    | .error error => (worker.fail result (.read (.lowering result.file error)), system)
    | .ok assembly => ({ result, progress := .generated assembly }, system)
  | .generated assembly =>
    let (result, system) := writeStage system worker.result assembly
    ({ result, progress := .finished }, system)
  | .finished => (worker, system)

end Worker

structure Site where
  system : FileSystem
  workers : List Worker
  /-- How many files may be under way at a time. -/
  jobs : Nat
  cancelled : Bool := false

namespace Site

inductive Step where
  /-- The worker of the file at a position runs its next stage. -/
  | work (position : Nat)
  | cancel
  deriving DecidableEq, Repr

def start (request : Request) (jobs : Nat) (system : FileSystem) : Except PathError Site :=
  let prepared :=
    if request.directory.isEmpty then .ok system else system.makeDirectories request.directory
  prepared.map fun system =>
    { system
      workers := request.files.map fun file =>
        { result := { file, output := outputPath file request.directory } }
      jobs
      cancelled := request.cancelled }

/-- Whether the worker of a file may go on: a file is begun only if not too many are under way. -/
def permits (site : Site) (worker : Worker) : Bool :=
  match worker.progress with
  | .queued => site.workers.countP Worker.isBusy < site.jobs
  | .finished => false
  | _ => true

/-- Makes a step; nothing if it cannot be made. -/
def step (site : Site) : Step → Option Site
  | .work position =>
    match site.workers[position]? with
    | some worker =>
      if site.permits worker then
        let (worker, system) :=
          if site.cancelled then (worker.fail worker.result .cancelled, site.system)
          else worker.work site.system
        some { site with system, workers := site.workers.set position worker }
      else none
    | none => none
  | .cancel => some { site with cancelled := true }

/-- Makes steps one after another; nothing if one of them cannot be made. -/
def run (site : Site) (steps : List Step) : Option Site :=
  steps.foldlM step site

end Site

end WordMachine.Build
