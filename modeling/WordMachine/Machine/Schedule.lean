import WordMachine.Machine.Step

/-!
Running a machine. Executors take turns in the order in which they were started. A collection runs
between two turns, so it finds every executor between two instructions or waiting. Time passes only
while all executors wait.
-/

namespace WordMachine

namespace Session

/-- Records a fault. The first one stops every executor. -/
def raise (session : Session) (fault : Fault) : Session :=
  let executor := { session.executor with state := .invalidAssembly, faulted := true, wait := none }
  match session.shared.fault with
  | some _ => { session with executor }
  | none =>
    { executor
      shared := { session.shared with
        fault := some ⟨fault, executor.id, executor.current⟩
        aborting := true } }

/-- Carries out a computation and records its fault. -/
def carry (computation : Exec Unit) (session : Session) : Session :=
  match computation session with
  | .ok () session => session
  | .error fault session => session.raise fault

/-- Carries out instructions while the executor runs and nobody asks it to stop, at most as many
as given. -/
def steps : Nat → Session → Session
  | 0, session => session
  | count + 1, session =>
    match session.executor.state with
    | .running =>
      if session.shared.aborting || session.shared.heap.requested then session
      else
        match Exec.step session with
        | .ok () session => steps count session
        | .error fault session => session.raise fault
    | _ => session

/-- Tries to end the wait of a paused executor. -/
def wake (session : Session) : Session :=
  match Exec.settle session with
  | .ok () session => session
  | .error fault session => session.raise fault

def logEnd (session : Session) : Session :=
  if session.executor.state.isTerminal && !session.executor.faulted then
    let id := session.executor.id
    let state := session.executor.state
    { session with
      shared := session.shared.log fun _ =>
        "[exec#" ++ Bytes.ofNat id ++ "] " ++ state.name.toUTF8 }
  else session

def turnLength : Nat := 4096

/-- One turn of an executor. One that is told to stop carries out nothing. -/
def turn (session : Session) : Session :=
  if session.executor.state.isTerminal then session
  else if session.shared.aborting then
    ({ session with
      executor := { session.executor with state := .aborted, wait := none } }).logEnd
  else
    match session.executor.state with
    | .paused => session.wake.logEnd
    | _ => (session.steps turnLength).logEnd

end Session

/-- The number of the executor an instruction's log line belongs to; nothing for other lines. -/
def Journal.executor? (line : Bytes) : Option Nat :=
  if line.startsWith "[exec#" then
    some ((Bytes.drop line 6).toList.takeWhile Bytes.isDigit |>.foldl
      (fun number digit => number * 10 + (digit.toNat - 48)) 0)
  else none

def Journal.byExecutor (lines : List Bytes) : List Bytes :=
  let numbered := lines.filterMap fun line => (executor? line).map fun number => (number, line)
  (numbered.mergeSort fun left right => left.1 ≤ right.1).map (·.2)

/-- A machine: the executors that have not ended, in the order of their numbers, and the state
they share. -/
structure Machine where
  shared : Shared
  executors : Array Executor := #[]
  /-- The final state of the last entry point that ended. -/
  entryState : Option ExecState := none
  deriving Inhabited

namespace Machine

def new (assembly : Assembly) (settings : Settings) (platform : Platform) (journal : Journal) :
    Machine where
  shared := {
    assembly, settings, platform, journal
    heap := .new settings.gcInterval.toInt settings.heapLimit.toInt }

def abort (machine : Machine) : Machine :=
  { machine with shared := { machine.shared with aborting := true } }

/-- The words through which the executors keep objects alive. -/
def roots (machine : Machine) : List Word :=
  machine.executors.toList.flatMap Executor.roots

def collectIfRequested (machine : Machine) : Machine :=
  if machine.shared.heap.requested then
    let roots := machine.roots
    let shared := machine.shared
    let shared := { shared with heap := { shared.heap with requested := false } }
    { machine with shared := (shared.collect roots).2 }
  else machine

/-- Ends an executor: a forked call hands its result to its future. -/
def retire (machine : Machine) (executor : Executor) : Machine :=
  match executor.promise with
  | none => { machine with entryState := some executor.state }
  | some promise =>
    let outcome := some (executor.result, executor.state)
    let shared := { machine.shared with
      heap := machine.shared.heap.setPayload promise (.future outcome) }
    { machine with shared := shared.report (.forkEnded executor.id executor.state) }

/-- Adds the executors that forks have started. -/
def adopt (machine : Machine) : Machine :=
  match machine.shared.spawned with
  | [] => machine
  | spawned =>
    { machine with
      shared := { machine.shared with spawned := [] }
      executors := machine.executors ++ spawned.reverse.toArray }

def turnAt (machine : Machine) (position : Nat) : Machine :=
  match machine.executors[position]? with
  | none => machine
  | some executor =>
    let executors := machine.executors.setIfInBounds position default
    let session := Session.turn ⟨executor, machine.shared⟩
    let machine := { machine with shared := session.shared, executors }
    let machine :=
      if session.executor.state.isTerminal then
        ({ machine with executors := machine.executors.eraseIdxIfInBounds position }).retire
          session.executor
      else
        { machine with
          executors := machine.executors.setIfInBounds position session.executor }
    machine.adopt.collectIfRequested

/-- The earliest time at which a wait ends by itself. -/
def nextWake? (machine : Machine) : Option Nat :=
  machine.executors.foldl
    (fun earliest executor =>
      match earliest, executor.wait.bind Wait.deadline? with
      | some left, some right => some (min left right)
      | none, right => right
      | left, none => left)
    none

/-- Lets time pass until a wait ends. If none does, nothing can ever happen again and every
executor is told to stop. -/
def idle (machine : Machine) : Machine :=
  match machine.nextWake? with
  | some wake =>
    let platform := machine.shared.platform
    { machine with
      shared := { machine.shared with
        platform := { platform with clock := max platform.clock wake } } }
  | none => machine.abort

/-- Whether a turn of the executor at a position can only be a failed attempt to wake it. -/
def isWaiting (machine : Machine) (position : Nat) : Bool :=
  match machine.executors[position]? with
  | some executor => executor.state == .paused
  | none => false

/-- Gives turns in order until the entry point has ended. `waiting` counts the turns in a row that
left an executor waiting. -/
def runEntryFrom : Nat → Nat → Nat → Machine → Machine
  | 0, _, _, machine => machine
  | fuel + 1, position, waiting, machine =>
    if machine.entryState.isSome then machine
    else if machine.executors.size ≤ position then runEntryFrom fuel 0 waiting machine
    else if machine.executors.size ≤ waiting then runEntryFrom fuel position 0 machine.idle
    else
      let count := machine.executors.size
      let wasWaiting := machine.isWaiting position
      let machine := machine.turnAt position
      let ended := machine.executors.size < count
      let waiting :=
        if wasWaiting && !ended && machine.isWaiting position then waiting + 1 else 0
      runEntryFrom fuel (if ended then position else position + 1) waiting machine

/-- Starts an entry point and runs until it has ended. -/
def runEntry (machine : Machine) (fuel index : Nat) (ip : UInt32) : ExecState × Machine :=
  let shared := machine.shared.report .entryBegan
  let id := shared.started + 1
  let executor := { Executor.start shared.settings ip with id }
  let machine := runEntryFrom fuel 0 0
    { shared := { shared with started := id }
      executors := machine.executors.push executor
      entryState := none }
  let state := machine.entryState.getD .running
  (state, { machine with shared := machine.shared.report (.entryEnded index state) })

/-- Runs entry points in order until one does not succeed. -/
def runEntries (fuel : Nat) : Nat → List UInt32 → Machine → ExecState × Machine
  | _, [], machine => (.success, machine)
  | index, ip :: rest, machine =>
    let (state, machine) := machine.runEntry fuel index ip
    if state == .success && !rest.isEmpty then runEntries fuel (index + 1) rest machine
    else (state, machine)

/-- Gives each of the first `count` executors a turn, last one first. -/
def turns (machine : Machine) : Nat → Machine
  | 0 => machine
  | count + 1 => (machine.turnAt 0).turns count

/-- Stops the executors that are left and closes all streams. -/
def shutDown (machine : Machine) : Machine :=
  let machine := machine.abort
  let machine := machine.turns machine.executors.size
  let shared := machine.shared.heap.streams.foldl
    (fun shared word =>
      match shared.heap.stream word with
      | .ok stream =>
        let (stream, platform) := stream.close shared.platform
        { shared with platform, heap := shared.heap.setPayload word (.stream stream) }
      | .error _ => shared)
    machine.shared
  { machine with shared }

/-- More turns than any run can take. -/
def endless : Nat := 1 <<< 62

/-- Runs every entry point in order until one does not succeed, then stops all forked calls. -/
def run (machine : Machine) : ExecState × Machine :=
  let (state, machine) :=
    machine.runEntries endless 0 machine.shared.assembly.entries.toList
  (state, machine.shutDown)

end Machine

end WordMachine
