import WordMachine.Build.Workers

/-!
Builds in the steps that others can come between. A stage begins and ends with an event. The last
one writes an assembly to a draft beside the output, gives the draft the name of the output and, at
its end, removes whatever has the name of the draft.
-/

namespace WordMachine.Build

/-- An assembly on its way to its output. -/
structure Draft where
  path : Bytes
  number : Nat

/-- How far a file is. -/
inductive Phase where
  | queued
  | loading
  | loaded (program : Program)
  | generating (program : Program)
  | generated (assembly : Assembly)
  | writing (assembly : Assembly)
  | drafted (assembly : Assembly) (draft : Draft)
  | filled (assembly : Assembly) (draft : Draft)
  /-- The draft has the name of the output, or could not take it. -/
  | settled (assembly : Assembly) (draft : Draft) (failure : Option Failure)
  | finished

/-- A file that is being built, and what has become of it so far. -/
structure Task where
  result : Result
  phase : Phase := .queued

structure Move where
  task : Task
  system : FileSystem
  events : List Event := []
  drafts : List Location := []
  /-- The step was the end of the whole build. -/
  crashed : Bool := false

namespace Task

/-- Whether a file was begun and is not finished. -/
def isBusy (task : Task) : Bool :=
  match task.phase with
  | .queued => false
  | .finished => false
  | _ => true

def isFinished (task : Task) : Bool :=
  match task.phase with
  | .finished => true
  | _ => false

def event (task : Task) (stage : Stage) (status : Status) (failure : Option Failure := none) :
    Event :=
  { file := task.result.file, stage, status, failure }

def enter (task : Task) (system : FileSystem) (stage : Stage) (phase : Phase) : Move :=
  { task := { result := { task.result with stages := task.result.stages ++ [stage] }, phase }
    system
    events := [task.event stage .working] }

def pass (task : Task) (system : FileSystem) (stage : Stage) (phase : Phase) : Move :=
  { task := { task with phase }, system, events := [task.event stage .done] }

def fail (task : Task) (system : FileSystem) (stage : Stage) (failure : Failure) : Move :=
  { task := { result := { task.result with failure := some failure }, phase := .finished }
    system
    events := [task.event stage .error (some failure)] }

def begin (task : Task) (system : FileSystem) (cancelled : Bool) (stage : Stage) (phase : Phase) :
    Move :=
  if cancelled then task.fail system stage .cancelled else task.enter system stage phase

def note (task : Task) (outcome : Lowering.Outcome) : Task :=
  { task with result := { task.result with lowered := some outcome } }

/-- Takes the next step of a file; nothing if it is finished or has no draft to write to. A lowering
that cannot tell what went wrong ends the whole build. -/
def work (task : Task) (system : FileSystem) (cancelled : Bool) : Option Move :=
  match task.phase with
  | .queued => some (task.begin system cancelled .load .loading)
  | .loading =>
    match readProgram system task.result.file with
    | .error error => some (task.fail system .load (.read error))
    | .ok program => some (task.pass system .load (.loaded program))
  | .loaded program => some (task.begin system cancelled .generate (.generating program))
  | .generating program =>
    let outcome := Lowering.outcome program
    match outcome.result with
    | .error error =>
      if error.isFatal then some { task, system, crashed := true }
      else
        let failure := Failure.read (.lowering task.result.file error)
        some ((task.note outcome).fail system .generate failure)
    | .ok assembly =>
      some ((task.note outcome).pass system .generate (.generated assembly))
  | .generated assembly => some (task.begin system cancelled .write (.writing assembly))
  | .writing _ => none
  | .drafted assembly draft =>
    some
      { task := { task with phase := .filled assembly draft }
        system := system.setContent draft.number assembly.save }
  | .filled assembly draft =>
    let output := task.result.output
    match system.renameFile draft.path output with
    | .ok system => some { task := { task with phase := .settled assembly draft none }, system }
    | .error cause =>
      let failure := Failure.write output (.rename draft.path output cause)
      some { task := { task with phase := .settled assembly draft (some failure) }, system }
  | .settled _ draft failure =>
    let system := (system.remove draft.path).toOption.getD system
    match failure with
    | none => some (task.pass system .write .finished)
    | some failure => some (task.fail system .write failure)
  | .finished => none

/-- Makes a draft for an assembly with the number drawn for it; nothing if its name is taken, so
that another number has to be drawn. -/
def draft (task : Task) (system : FileSystem) (number : Nat) : Option Move :=
  match task.phase with
  | .writing assembly =>
    let output := task.result.output
    let path := FileSystem.numberedDraft output number
    match system.createFile path with
    | .error .exists => none
    | .error cause =>
      some (task.fail system .write (.write output (.create ⟨"open", path, cause⟩)))
    | .ok (location, number, system) =>
      some
        { task := { task with phase := .drafted assembly { path, number } }
          system
          drafts := [location] }
  | _ => none

end Task

/-- A build that is under way, as others see it. -/
structure Yard where
  system : FileSystem
  tasks : List Task
  /-- How many files may be under way at a time. -/
  slots : Nat
  events : List Event := []
  drafts : List Location := []
  cancelled : Bool := false
  crashed : Bool := false

namespace Yard

inductive Step where
  | work (position : Nat)
  /-- A draft is made for the file at a position, with a number drawn for it. -/
  | draft (position number : Nat)
  | cancel
  deriving DecidableEq, Repr

/-- How many files may be under way at a time: as many as processors unless a number is given. -/
def slotsOf (jobs : Int) (processors : Nat) : Nat :=
  if jobs ≤ 0 then processors else jobs.toNat

def start (request : Request) (jobs : Int) (processors : Nat) (system : FileSystem) :
    Except PathError Yard :=
  let prepared :=
    if request.directory.isEmpty then .ok system else system.makeDirectories request.directory
  prepared.map fun system =>
    { system
      tasks := request.files.map fun file =>
        { result := { file, output := outputPath file request.directory } }
      slots := slotsOf jobs processors
      events := request.files.map fun file => { file, stage := .load, status := .queued }
      cancelled := request.cancelled }

/-- Whether the file of a task may go on: a file is begun only if not too many are under way. -/
def permits (yard : Yard) (task : Task) : Bool :=
  match task.phase with
  | .queued => yard.tasks.countP Task.isBusy < yard.slots
  | _ => true

def become (yard : Yard) (position : Nat) (move : Move) : Yard :=
  { yard with
    system := move.system
    tasks := yard.tasks.set position move.task
    events := yard.events ++ move.events
    drafts := yard.drafts ++ move.drafts
    crashed := move.crashed }

/-- Makes a step; nothing if it cannot be made. -/
def step (yard : Yard) (step : Step) : Option Yard :=
  if yard.crashed then none
  else
    match step with
    | .work position =>
      match yard.tasks[position]? with
      | some task =>
        if yard.permits task then
          (task.work yard.system yard.cancelled).map (yard.become position)
        else none
      | none => none
    | .draft position number =>
      match yard.tasks[position]? with
      | some task => (task.draft yard.system number).map (yard.become position)
      | none => none
    | .cancel => some { yard with cancelled := true }

/-- Makes steps one after another; nothing if one of them cannot be made. -/
def run (yard : Yard) (steps : List Step) : Option Yard :=
  steps.foldlM step yard

def isComplete (yard : Yard) : Bool :=
  yard.tasks.all Task.isFinished

def outcome (yard : Yard) : Outcome :=
  { results := yard.tasks.map Task.result, events := yard.events }

/-! ## Files in their order -/

/-- The next step of a file. A draft gets the first number that was not used before. -/
def move? (yard : Yard) (task : Task) : Option Move :=
  match task.phase with
  | .writing _ =>
    (List.range (yard.system.entries.length + yard.drafts.length + 2)).findSome? fun number =>
      (task.draft yard.system number).filter fun move =>
        move.drafts.all fun place => !yard.drafts.contains place
  | _ => task.work yard.system yard.cancelled

/-- The first file that can go on takes its next step. -/
def turn (yard : Yard) : Option Yard :=
  if yard.crashed then none
  else
    match yard.tasks.findIdx? fun task => !task.isFinished && yard.permits task with
    | some position =>
      (yard.tasks[position]?.bind yard.move?).map (yard.become position)
    | none => none

/-- Files take turns until none can go on, or until a number of turns is taken. -/
def finish : Nat → Yard → Yard
  | 0, yard => yard
  | turns + 1, yard =>
    match yard.turn with
    | some next => finish turns next
    | none => yard

/-- How many steps a file takes at most. -/
def stepsOfFile : Nat := 9

def perform (request : Request) (system : FileSystem) : Except PathError Yard :=
  (start request 1 1 system).map (finish (stepsOfFile * request.files.length))

end Yard

end WordMachine.Build
