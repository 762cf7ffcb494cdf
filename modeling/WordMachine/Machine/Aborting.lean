import WordMachine.Machine.Ensemble
import WordMachine.Machine.Registry

/-!
Executors that are told to stop. Whoever tells them holds the registry, marks it, and then goes from
one registered executor to the next: it marks the executor and ends its waits, which are two steps.
An executor looks at its mark before each instruction, and when it comes back from a blocking call;
it looks without holding the registry, so anything may happen in between.
-/

namespace WordMachine

/-- How the part of an instruction that an executor has carried out ends. -/
def Executor.ending (executor : Executor) : Ending :=
  match executor.state with
  | .running => .continues
  | .paused => .blocks
  | _ => .ends

def Executor.halted (executor : Executor) : Executor :=
  { executor with state := .aborted, wait := none }

/-- How far an executor is that has come back from the blocking part of a call. -/
inductive Resumption where
  /-- Has yet to look whether its waits were to end. -/
  | returned
  /-- Has yet to look whether it is told to stop. -/
  | informed
  | cleared
  deriving DecidableEq, Repr

/-- An executor with what the registry and others have told it. -/
structure Runner where
  party : Party
  executor : Executor
  cancelled : Bool := false
  resumption : Resumption := .returned
  /-- Executors that it has forked and has yet to register, before it does anything else. -/
  newborn : List Executor := []
  /-- Whether it has handed over its result. -/
  delivered : Bool := false

namespace Runner

inductive Act where
  /-- A step that the registry knows of: an instruction or a part of one, or a step on the way
  into and out of a pause. -/
  | known (act : WordMachine.Act)
  /-- Looks whether its waits were to end. That tells it to stop as well. -/
  | listen
  /-- Looks whether it is told to stop. -/
  | heed
  | enroll
  | deliver
  | leave
  deriving DecidableEq, Repr

/-- Carries out a part of an instruction. -/
def carry (runner : Runner) (shared : Shared) (party : Party) (computation : Exec Unit)
    (ending : Ending) : Option (Runner × Shared) :=
  let session := Session.carry computation ⟨runner.executor, shared⟩
  if session.executor.ending = ending then
    some
      ({ runner with
          party
          executor := session.executor
          newborn := session.shared.spawned },
        { session.shared with spawned := [] })
  else none

/-- What goes with a step that the registry knows of. One that is told to stop ends before its next
instruction. -/
def follow (runner : Runner) (shared : Shared) (party : Party) :
    WordMachine.Act → Option (Runner × Shared)
  | .check =>
    let executor := if runner.party.aborted then runner.executor.halted else runner.executor
    some ({ runner with party, executor }, shared)
  | .instruction ending => runner.carry shared party Exec.issue ending
  | .leavePaused => some ({ runner with party, resumption := .returned }, shared)
  | .finish ending =>
    if runner.resumption = .cleared then runner.carry shared party Exec.settle ending else none
  | _ => some ({ runner with party }, shared)

def act (runner : Runner) (shared : Shared) (act : WordMachine.Act) : Option (Runner × Shared) :=
  match runner.party.act act with
  | some party => runner.follow shared party act
  | none => none

/-- What an executor becomes by an act of its own, other than registering and leaving. -/
def turn (runner : Runner) (shared : Shared) : Act → Option (Runner × Shared)
  | .known act => if runner.newborn = [] then runner.act shared act else none
  | .listen =>
    if runner.party.phase = .resumed ∧ runner.resumption = .returned ∧ runner.newborn = [] then
      some
        ({ runner with
            party := { runner.party with aborted := runner.party.aborted || runner.cancelled }
            resumption := .informed },
          shared)
    else none
  | .heed =>
    if runner.party.phase = .resumed ∧ runner.resumption = .informed ∧ runner.newborn = [] then
      some
        (if runner.party.aborted then
            { runner with
              party := { runner.party with phase := .ended }
              executor := runner.executor.halted }
          else { runner with resumption := .cleared },
          shared)
    else none
  | .deliver =>
    match runner.executor.promise with
    | some promise =>
      if runner.party.phase = .ended ∧ !runner.delivered ∧ runner.newborn = [] then
        some ({ runner with delivered := true }, shared.complete promise runner.executor)
      else none
    | none => none
  | .enroll => none
  | .leave => none

end Runner

/-- Whether a step is a section for which an executor holds the registry. -/
def Act.isGuarded : Act → Bool
  | .enterSafepoint => true
  | .wakeSafepoint => true
  | .enterPaused => true
  | .holdPaused => true
  | .leavePaused => true
  | _ => false

def Runner.Act.isGuarded : Runner.Act → Bool
  | .known act => act.isGuarded
  | .enroll => true
  | .leave => true
  | _ => false

/-- What is left to do for one that tells every executor to stop. -/
structure Telling where
  untold : List Nat
  /-- The executor that is marked, but whose waits were not yet ended. -/
  half : Option Nat := none
  deriving DecidableEq, Repr

/-- The registered executors, with what they share and what is told to them. -/
structure Crew where
  shared : Shared
  runners : List Runner := []
  lastId : Nat := 0
  /-- The executors that have left, with their numbers, the last one first. -/
  left : List (Nat × Executor) := []
  /-- Set when every executor, present or future, is to stop for good. -/
  aborted : Bool := false
  /-- Someone holds the registry to tell every executor to stop. -/
  telling : Option Telling := none
  collector : CollectorPhase := .idle

namespace Crew

inductive Move where
  | enter (ip : UInt32)
  | runner (id : Nat) (act : Runner.Act)
  /-- Someone takes the registry to tell every executor to stop. -/
  | beginAbort
  | tell (id : Nat)
  /-- Ends the waits of the executor that was marked. -/
  | cancel
  | endAbort
  /-- The waits of an executor end with those of the whole run. -/
  | expire (id : Nat)
  | requestPause
  | keepWaiting
  | beginCollection
  | collect
  | withdrawRequest
  /-- Something happens outside: time passes, input arrives, a line is logged. -/
  | outside (around : Shared)

def Move.starts (id : Nat) : Move → Bool
  | .runner other (.known (.instruction _)) => other == id
  | _ => false

def new (assembly : Assembly) (settings : Settings) (platform : Platform) (journal : Journal) :
    Crew where
  shared := (Machine.new assembly settings platform journal).shared

def runner? (crew : Crew) (id : Nat) : Option Runner :=
  crew.runners.find? (·.party.id == id)

def change (crew : Crew) (id : Nat) (change : Runner → Runner) : Crew :=
  { crew with
    runners := crew.runners.map fun runner =>
      if runner.party.id = id then change runner else runner }

/-- A new executor is told what every executor is told at this time. -/
def register (crew : Crew) (executor : Executor) : Crew :=
  let id := crew.lastId + 1
  { crew with
    lastId := id
    runners :=
      { party := { id, pauseRequested := crew.collector != .idle, aborted := crew.aborted }
        executor
        cancelled := crew.aborted } :: crew.runners }

/-- Whether a collection need not wait any longer. -/
def allStopped (crew : Crew) : Bool :=
  crew.runners.all (·.party.stopped)

/-- The words through which the executors keep objects alive. -/
def roots (crew : Crew) : List Word :=
  crew.runners.flatMap (·.executor.roots)

def act (crew : Crew) (runner : Runner) : Runner.Act → Option Crew
  | .enroll =>
    match runner.newborn with
    | [] => none
    | child :: newborn =>
      some ((crew.change runner.party.id ({ · with newborn })).register child)
  | .leave =>
    if runner.party.phase = .ended ∧ runner.newborn = [] ∧
        (runner.executor.promise.isNone || runner.delivered) then
      some { crew with
        runners := crew.runners.filter (·.party.id != runner.party.id)
        left := (runner.party.id, runner.executor) :: crew.left }
    else none
  | act =>
    (runner.turn crew.shared act).map fun (after, shared) =>
      { crew.change runner.party.id (fun _ => after) with shared }

/-- Makes a move; nothing if it cannot be made. -/
def step (crew : Crew) : Move → Option Crew
  | .enter ip =>
    if crew.telling = none ∧ ip ∈ crew.shared.assembly.entries then
      let id := crew.shared.started + 1
      some ({ crew with shared := { crew.shared with started := id } }.register
        { Executor.start crew.shared.settings ip with id })
    else none
  | .runner id act =>
    match crew.runner? id with
    | some runner =>
      if act.isGuarded ∧ crew.telling ≠ none then none else crew.act runner act
    | none => none
  | .beginAbort =>
    if crew.telling = none then
      some { crew with
        aborted := true
        telling := some { untold := crew.runners.map (·.party.id) } }
    else none
  | .tell id =>
    match crew.telling with
    | some ⟨untold, none⟩ =>
      if id ∈ untold then
        some { crew.change id fun runner =>
            { runner with party := { runner.party with aborted := true } } with
          telling := some ⟨untold.filter (· != id), some id⟩ }
      else none
    | _ => none
  | .cancel =>
    match crew.telling with
    | some ⟨untold, some id⟩ =>
      some { crew.change id ({ · with cancelled := true }) with
        telling := some ⟨untold, none⟩ }
    | _ => none
  | .endAbort =>
    if crew.telling = some ⟨[], none⟩ then some { crew with telling := none } else none
  | .expire id => some (crew.change id ({ · with cancelled := true }))
  | .requestPause =>
    if crew.telling = none ∧ crew.collector = .idle then
      some { crew with
        runners := crew.runners.map fun runner =>
          { runner with party := { runner.party with pauseRequested := true } }
        collector := .waiting }
    else none
  | .keepWaiting =>
    if crew.telling = none ∧ crew.collector = .waiting ∧ !crew.allStopped then some crew else none
  | .beginCollection =>
    if crew.telling = none ∧ crew.collector = .waiting ∧ crew.allStopped then
      some { crew with collector := .collecting }
    else none
  | .collect =>
    if crew.collector = .collecting then
      some { crew with shared := (crew.shared.collect crew.roots).2 }
    else none
  | .withdrawRequest =>
    if crew.telling = none ∧ crew.collector = .collecting then
      some { crew with
        runners := crew.runners.map fun runner =>
          { runner with party := { runner.party with pauseRequested := false } }
        collector := .idle }
    else none
  | .outside around => some { crew with shared := crew.shared.within around }

/-- Makes moves one after another; nothing if one of them cannot be made. -/
def run (crew : Crew) (moves : List Move) : Option Crew :=
  moves.foldlM step crew

end Crew

end WordMachine
