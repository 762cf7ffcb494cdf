import WordMachine.Machine.Schedule

/-!
A machine whose executors, collector and end run side by side. A turn is a step that nothing comes
between: an instruction, one look at a future, one side of a pause, the handing over of a result,
the sweep of a collection, one closing of a stream. Turns of different parties come in any order.
-/

namespace WordMachine

/-! ## Strands -/

/-- A wait for a future, which stays on top of the waiter's stack. -/
structure Joining where
  future : Word
  child : Nat
  /-- How long to wait at most, in nanoseconds; to the end if there is no limit. -/
  limit : Option Int64
  deriving DecidableEq

inductive Strand.Phase where
  /-- Carries out an instruction, waits for something other than a future, or has ended. -/
  | free
  /-- Looks whether the future it has found is done. -/
  | looking (joining : Joining)
  | pausing (joining : Joining)
  | waiting (joining : Joining)
  /-- Goes on after its wait, unless it was told to stop. -/
  | woken (joining : Joining)
  /-- Takes the outcome of the future, or tells whether there is one. -/
  | joining (joining : Joining)
  /-- Has handed over its result and makes known that it has. -/
  | closing
  | leaving
  deriving DecidableEq

/-- An executor that is registered with the machine. -/
structure Strand where
  executor : Executor
  phase : Strand.Phase := .free
  /-- Whether it is to stop before its next instruction. -/
  aborted : Bool := false
  cancelled : Bool := false

/-- An atomic step of a strand. -/
inductive Strand.Act where
  /-- Carries out an instruction, but for one that waits for a future. -/
  | issue
  /-- Begins an instruction that waits for a future. -/
  | ask
  /-- Makes an attempt to end a wait for something else. -/
  | settle
  | stop
  | abort
  | cancel
  | look
  | pause
  | wake
  | resume
  | join
  | complete
  | close
  | leave
  deriving DecidableEq

/-! ## Events -/

/-- What happened to futures, and who took part in it. -/
inductive Event where
  | forked (child : Nat) (future : Word)
  | completed (child : Nat) (value : Word) (state : ExecState)
  /-- A waiter took an outcome, which changed its operands and left it in a state. -/
  | joined (joining : Joining) (outcome : Word × ExecState) (before after : Array Word)
      (state : ExecState)
  /-- A waiter was told whether a future is done, which changed its operands. -/
  | told (joining : Joining) (done : Bool) (before after : Array Word)
  | left (executor : Nat)
  deriving DecidableEq

/-- The executor that a future was made for; the last event comes first. -/
def Event.maker? (future : Word) : List Event → Option Nat
  | [] => none
  | .forked child made :: earlier => if made = future then some child else maker? future earlier
  | _ :: earlier => maker? future earlier

/-! ## The ensemble -/

/-- What is still to be done for a stream that is marked as closed. -/
inductive Duty where
  | release (stream : Stream)
  | discard (stream : Stream)
  deriving DecidableEq

structure Ensemble where
  shared : Shared
  strands : List Strand := []
  /-- The executors whose futures are known to be done. -/
  done : List Nat := []
  /-- What happened to futures, the last event first. -/
  history : List Event := []
  /-- Streams of freed objects that are still to be closed. -/
  swept : List Stream := []
  duties : List Duty := []
  /-- The streams that the end of the run has still to close, once it has come. -/
  finals : Option (List Word) := none

inductive Turn where
  | enter (ip : UInt32)
  | strand (position : Nat) (act : Strand.Act)
  /-- A collection is asked for, or the request taken up. -/
  | request (requested : Bool)
  /-- Something happens outside: time passes, input arrives, a line is logged. -/
  | outside (around : Shared)
  /-- A collection frees what no strand reaches. -/
  | sweep
  /-- Someone begins to close the stream of a freed object. -/
  | claim (position : Nat)
  | discharge (position : Nat)
  | finish
  /-- The end of the run begins to close a stream. -/
  | visit

namespace Exec

def begin (op : Opcode) : Exec Unit := do
  let session ← get
  let ip := session.executor.ip
  modifyExecutor fun executor =>
    { executor with current := ip, ip := ip + UInt32.ofNat op.size }
  modifyShared fun shared =>
    shared.log fun _ =>
      instructionLine session.executor.id session.shared.assembly.code ip.toNat op

/-- The time limit of an instruction that waits for a future, if it has one. -/
def limit (op : Opcode) : Exec (Option Int64) :=
  if op = .awaitFor then do
    let limit ← popLong
    return some limit
  else return none

/-- Finds the future that an instruction is to wait for, and its limit. -/
def ask (op : Opcode) : Exec (Word × Option Int64) := do
  begin op
  let limit ← limit op
  let word ← peek
  let _ ← look (·.outcome word)
  return (word, limit)

/-- The same without saying what was found. -/
def asking (op : Opcode) : Exec Unit := do
  let _ ← ask op

/-- Replaces the future on top of the stack by its value. A call that failed passes its state
on. -/
def replace (outcome : Word × ExecState) : Exec Unit := do
  let _ ← pop
  if outcome.2 == .success then push outcome.1 else fail outcome.2

/-- Replaces the future on top of the stack by whether it is done. -/
def answer (done : Bool) : Exec Unit := do
  let _ ← pop
  pushBool done

end Exec

/-- What is shared, with other things around the heap. Files are opened and closed by executors
only. -/
def Shared.within (shared around : Shared) : Shared :=
  { shared with
    platform := { around.platform with
      handles := shared.platform.handles, record := shared.platform.record }
    journal := around.journal
    aborting := around.aborting
    milestones := around.milestones }

/-- Hands the result of a forked call to its future. -/
def Shared.complete (shared : Shared) (promise : Word) (executor : Executor) : Shared :=
  { shared with
    heap := shared.heap.setPayload promise (.future (some (executor.result, executor.state))) }

/-- The instruction that waits for a future and comes next, if one does. -/
def Session.joins? (session : Session) : Option Opcode :=
  match Exec.fetch? session.shared.assembly.code session.executor.ip.toNat with
  | some (.await, _) => some .await
  | some (.awaitFor, _) => some .awaitFor
  | _ => none

def Wait.isJoining : Wait → Bool
  | .future => true
  | .futureUntil _ => true
  | _ => false

/-- A strand that a collection need not wait for: it is between two instructions, or paused. -/
def Strand.rests (strand : Strand) : Bool :=
  match strand.phase with
  | .free => !strand.executor.state.isTerminal
  | .waiting _ => true
  | .woken _ => true
  | _ => false

namespace Strand

def stopped (strand : Strand) : Strand :=
  { strand with
    executor := { strand.executor with state := .aborted, wait := none }
    phase := .free
    aborted := true }

def paused (strand : Strand) (joining : Joining) (wait : Wait) : Strand :=
  { strand with
    executor := { strand.executor with state := .paused, wait := some wait }
    phase := .waiting joining }

def resumed (strand : Strand) (joining : Joining) : Strand :=
  { strand with
    executor := { strand.executor with state := .running, wait := none }
    phase := .joining joining }

end Strand

/-- The futures that were made for the executors that were just started. -/
def Shared.forks (shared : Shared) : List Event :=
  shared.spawned.filterMap fun child => child.promise.map (.forked child.id)

namespace Ensemble

def new (assembly : Assembly) (settings : Settings) (platform : Platform) (journal : Journal) :
    Ensemble where
  shared := (Machine.new assembly settings platform journal).shared

/-- The words through which the strands keep objects alive. -/
def roots (ensemble : Ensemble) : List Word :=
  ensemble.strands.flatMap (·.executor.roots)

def session (ensemble : Ensemble) (strand : Strand) : Session :=
  ⟨strand.executor, ensemble.shared⟩

/-- Takes over what a strand has done, and the executors it has forked. -/
def advance (ensemble : Ensemble) (position : Nat) (strand : Strand) (shared : Shared)
    (events : List Event) : Ensemble :=
  { ensemble with
    shared := { shared with spawned := [] }
    strands := ensemble.strands.set position strand ++
      shared.spawned.reverse.map fun executor => { executor }
    history := events ++ (shared.forks ++ ensemble.history) }

def perform (ensemble : Ensemble) (position : Nat) (strand : Strand) (computation : Exec Unit)
    (events : Session → List Event) : Ensemble :=
  let session := (ensemble.session strand).carry computation
  ensemble.advance position { strand with executor := session.executor } session.shared
    (events session)

def turnTo (ensemble : Ensemble) (position : Nat) (strand : Strand) : Ensemble :=
  { ensemble with strands := ensemble.strands.set position strand }

def asked (ensemble : Ensemble) (strand : Strand) (op : Opcode) : Strand.Phase :=
  match Exec.ask op (ensemble.session strand) with
  | .ok (future, limit) _ =>
    .looking ⟨future, (Event.maker? future ensemble.history).getD 0, limit⟩
  | .error _ _ => .free

/-- What a strand does once it has looked. One that may not wait goes on at once. -/
def looked (ensemble : Ensemble) (joining : Joining) : Strand.Phase :=
  let waits := match joining.limit with
    | none => true
    | some limit => decide (0 < limit)
  if ensemble.done.contains joining.child || !waits then .joining joining else .pausing joining

def waitOf (ensemble : Ensemble) (joining : Joining) : Wait :=
  match joining.limit with
  | none => .future
  | some limit => .futureUntil (ensemble.shared.platform.clock + limit.toInt.toNat)

/-- Whether a wait may be over: the future is done, time is up, or the wait is to end. -/
def wakes (ensemble : Ensemble) (strand : Strand) (joining : Joining) : Bool :=
  ensemble.done.contains joining.child || joining.limit.isSome || strand.cancelled

/-- The outcome that a waiter reads: an unfinished future holds zero and a running state. -/
def outcomeOf (ensemble : Ensemble) (joining : Joining) : Word × ExecState :=
  match ensemble.shared.heap.outcome joining.future with
  | .ok (some outcome) => outcome
  | _ => (0, .running)

/-- A waiter takes the outcome of a future. -/
def join (ensemble : Ensemble) (position : Nat) (strand : Strand) (joining : Joining) : Ensemble :=
  let outcome := ensemble.outcomeOf joining
  ensemble.perform position { strand with phase := .free } (Exec.replace outcome) fun session =>
    [.joined joining outcome strand.executor.eval.items session.executor.eval.items
      session.executor.state]

/-- A waiter is told whether a future is done. -/
def tell (ensemble : Ensemble) (position : Nat) (strand : Strand) (joining : Joining) : Ensemble :=
  let done := ensemble.done.contains joining.child
  ensemble.perform position { strand with phase := .free } (Exec.answer done) fun session =>
    [.told joining done strand.executor.eval.items session.executor.eval.items]

def complete (ensemble : Ensemble) (position : Nat) (strand : Strand) (promise : Word) :
    Ensemble :=
  { ensemble with
    shared := ensemble.shared.complete promise strand.executor
    strands := ensemble.strands.set position { strand with phase := .closing }
    history := .completed strand.executor.id strand.executor.result strand.executor.state ::
      ensemble.history }

/-- A strand makes known that it has handed over its result. -/
def close (ensemble : Ensemble) (position : Nat) (strand : Strand) : Ensemble :=
  { ensemble with
    strands := ensemble.strands.set position { strand with phase := .leaving }
    done := strand.executor.id :: ensemble.done }

def leave (ensemble : Ensemble) (position : Nat) (strand : Strand) : Ensemble :=
  { ensemble with
    strands := ensemble.strands.eraseIdx position
    history := .left strand.executor.id :: ensemble.history }

/-- The atomic step of the strand at a position; nothing if it cannot be made. -/
def act (ensemble : Ensemble) (position : Nat) (strand : Strand) : Strand.Act → Option Ensemble
  | .issue =>
    if strand.phase = .free ∧ strand.executor.state = .running ∧
        (ensemble.session strand).joins? = none then
      some (ensemble.perform position strand Exec.issue fun _ => [])
    else none
  | .ask =>
    match (ensemble.session strand).joins? with
    | some op =>
      if strand.phase = .free ∧ strand.executor.state = .running then
        some (ensemble.perform position { strand with phase := ensemble.asked strand op }
          (Exec.asking op) fun _ => [])
      else none
    | none => none
  | .settle =>
    if strand.phase = .free ∧ strand.executor.state = .paused ∧
        (strand.executor.wait.map Wait.isJoining) = some false then
      some (ensemble.perform position strand Exec.settle fun _ => [])
    else none
  | .stop =>
    if strand.phase = .free ∧ (strand.executor.state = .running ∧ strand.aborted = true ∨
        strand.executor.state = .paused ∧ (strand.aborted || strand.cancelled) = true) then
      some (ensemble.turnTo position strand.stopped)
    else none
  | .abort => some (ensemble.turnTo position { strand with aborted := true })
  | .cancel => some (ensemble.turnTo position { strand with cancelled := true })
  | .look =>
    match strand.phase with
    | .looking joining =>
      some (ensemble.turnTo position { strand with phase := ensemble.looked joining })
    | _ => none
  | .pause =>
    match strand.phase with
    | .pausing joining =>
      some (ensemble.turnTo position (strand.paused joining (ensemble.waitOf joining)))
    | _ => none
  | .wake =>
    match strand.phase with
    | .waiting joining =>
      if ensemble.wakes strand joining then
        some (ensemble.turnTo position { strand with phase := .woken joining })
      else none
    | _ => none
  | .resume =>
    match strand.phase with
    | .woken joining =>
      some (ensemble.turnTo position
        (if strand.aborted || strand.cancelled then strand.stopped
        else strand.resumed joining))
    | _ => none
  | .join =>
    match strand.phase with
    | .joining joining =>
      some (if joining.limit.isSome then ensemble.tell position strand joining
        else ensemble.join position strand joining)
    | _ => none
  | .complete =>
    match strand.executor.promise with
    | some promise =>
      if strand.phase = .free ∧ strand.executor.state.isTerminal = true then
        some (ensemble.complete position strand promise)
      else none
    | none => none
  | .close => if strand.phase = .closing then some (ensemble.close position strand) else none
  | .leave =>
    if strand.phase = .leaving ∨ strand.phase = .free ∧
        strand.executor.state.isTerminal = true ∧ strand.executor.promise = none then
      some (ensemble.leave position strand)
    else none

def enter (ensemble : Ensemble) (ip : UInt32) : Ensemble :=
  let id := ensemble.shared.started + 1
  { ensemble with
    shared := { ensemble.shared with started := id }
    strands := ensemble.strands ++
      [{ executor := { Executor.start ensemble.shared.settings ip with id } }] }

/-- A stream is marked as closed, which leaves someone to release it. -/
def released (stream : Stream) : Duty :=
  .release { stream with closed := true }

/-- A collection frees what no strand reaches. The streams among it are closed later. -/
def sweep (ensemble : Ensemble) : Ensemble :=
  let (heap, freed) := ensemble.shared.heap.collect ensemble.roots
  { ensemble with
    shared := freed.foldl
      (fun shared entry => shared.log fun _ =>
        "[heap] free " ++ entry.object.payload.kind.name.toUTF8 ++ "#" ++
          Bytes.ofNat entry.index.toNat)
      { ensemble.shared with heap }
    swept := ensemble.swept ++ Heap.freedStreams freed }

/-- Someone begins to close a stream, unless it is closed. -/
def claim (ensemble : Ensemble) (position : Nat) (stream : Stream) : Ensemble :=
  { ensemble with
    swept := ensemble.swept.eraseIdx position
    duties := if stream.closed then ensemble.duties else ensemble.duties ++ [released stream] }

def discharge (ensemble : Ensemble) (position : Nat) : Duty → Ensemble
  | .release stream =>
    { ensemble with
      shared := { ensemble.shared with
        platform := stream.release ensemble.shared.platform }
      duties := ensemble.duties.set position (.discard stream) }
  | .discard stream =>
    { ensemble with
      shared := { ensemble.shared with
        platform := stream.discard ensemble.shared.platform }
      duties := ensemble.duties.eraseIdx position }

/-- The end of the run begins to close a stream, if it is still there and not closed. -/
def visit (ensemble : Ensemble) (word : Word) (rest : List Word) : Ensemble :=
  match ensemble.shared.heap.stream word with
  | .ok stream =>
    if stream.closed then { ensemble with finals := some rest }
    else
      { ensemble with
        shared := { ensemble.shared with
          heap := ensemble.shared.heap.setPayload word (.stream { stream with closed := true }) }
        duties := ensemble.duties ++ [released stream]
        finals := some rest }
  | .error _ => { ensemble with finals := some rest }

/-- Makes a turn; nothing if it cannot be made. -/
def step (ensemble : Ensemble) : Turn → Option Ensemble
  | .enter ip =>
    if ensemble.finals = none ∧ ip ∈ ensemble.shared.assembly.entries then
      some (ensemble.enter ip)
    else none
  | .strand position act =>
    match ensemble.strands[position]? with
    | some strand => ensemble.act position strand act
    | none => none
  | .request requested =>
    some { ensemble with
      shared := { ensemble.shared with heap := { ensemble.shared.heap with requested } } }
  | .outside around => some { ensemble with shared := ensemble.shared.within around }
  | .sweep => if ensemble.strands.all Strand.rests then some ensemble.sweep else none
  | .claim position =>
    match ensemble.swept[position]? with
    | some stream => some (ensemble.claim position stream)
    | none => none
  | .discharge position =>
    match ensemble.duties[position]? with
    | some duty => some (ensemble.discharge position duty)
    | none => none
  | .finish =>
    if ensemble.strands = [] ∧ ensemble.finals = none then
      some { ensemble with finals := some ensemble.shared.heap.streams }
    else none
  | .visit =>
    match ensemble.finals with
    | some (word :: rest) => some (ensemble.visit word rest)
    | _ => none

/-- Whether the slots of the heap that come next have numbers of 32 bits. -/
def hasRoom (ensemble : Ensemble) : Bool :=
  ensemble.shared.heap.slots.size + 2 < 4294967296

/-- Makes a turn while there are numbers for slots. -/
def stepWithin (ensemble : Ensemble) (turn : Turn) : Option Ensemble :=
  if ensemble.hasRoom then ensemble.step turn else none

/-- Makes turns one after another; nothing if one of them cannot be made. -/
def run (ensemble : Ensemble) (turns : List Turn) : Option Ensemble :=
  turns.foldlM step ensemble

/-- The same while there are numbers for slots. -/
def runWithin (ensemble : Ensemble) (turns : List Turn) : Option Ensemble :=
  turns.foldlM stepWithin ensemble

/-- Whether the run has returned: all executors have left, and no stream is left to be closed. -/
def Returned (ensemble : Ensemble) : Prop :=
  ensemble.strands = [] ∧ ensemble.finals = some [] ∧ ensemble.swept = [] ∧ ensemble.duties = []

instance (ensemble : Ensemble) : Decidable ensemble.Returned :=
  decidable_of_iff (ensemble.strands.isEmpty = true ∧ ensemble.finals = some [] ∧
    ensemble.swept.isEmpty = true ∧ ensemble.duties.isEmpty = true) <| by
      simp only [List.isEmpty_iff, Returned]

end Ensemble

end WordMachine
