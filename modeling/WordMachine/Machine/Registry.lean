import WordMachine.Machine.State

/-!
The registry of executors that run side by side, and how a collection stops them. A request to
pause is raised for every executor; the collection starts when each one is parked between two
instructions or paused in a blocking call, and withdraws the request when it is done. An executor
looks at its request without a lock before each instruction; all else happens in guarded sections.
-/

namespace WordMachine

/-- What an executor of the registry does next. -/
inductive Phase where
  /-- Looks whether it is asked to pause. -/
  | polling
  | parking
  /-- Waits, parked, for the request to be withdrawn. -/
  | parked
  /-- Looks whether it is told to stop. -/
  | checking
  | ready
  /-- Enters the blocking part of a call. -/
  | pausing
  /-- Comes back from the blocking part of a call. -/
  | blocked
  /-- Waits, paused, for the request to be withdrawn. -/
  | leaving
  /-- Carries out the rest of a call. -/
  | resumed
  | ended
  deriving DecidableEq, Repr

/-- How an instruction, or a part of it, ends. -/
inductive Ending where
  | continues | blocks | ends
  deriving DecidableEq, Repr

def Ending.phase : Ending → Phase
  | .continues => .polling
  | .blocks => .pausing
  | .ends => .ended

/-- An executor as the registry sees it. -/
structure Party where
  id : Nat
  phase : Phase := .polling
  pauseRequested : Bool := false
  aborted : Bool := false
  parked : Bool := false
  paused : Bool := false
  deriving DecidableEq, Repr

/-- A step of an executor. A test for the request and what follows it, up to the next wait or to
the end, are one guarded section. -/
inductive Act where
  | poll
  | enterSafepoint
  | wakeSafepoint
  | check
  | instruction (ending : Ending)
  | enterPaused
  /-- The way out of a blocking call finds the request raised. -/
  | holdPaused
  | leavePaused
  /-- The rest of an instruction after its blocking part. -/
  | finish (ending : Ending)
  deriving DecidableEq, Repr

/-- Whether an executor carries out an instruction or goes on after a blocking call. -/
def Act.advances : Act → Bool
  | .instruction _ => true
  | .leavePaused => true
  | .finish _ => true
  | _ => false

namespace Party

/-- Parks while the request stands, else goes on. -/
def testSafepoint (party : Party) : Party :=
  if party.pauseRequested then { party with phase := .parked }
  else { party with phase := .checking, parked := false }

def act (party : Party) : Act → Option Party
  | .poll =>
    if party.phase = .polling then
      some { party with phase := if party.pauseRequested then .parking else .checking }
    else none
  | .enterSafepoint =>
    if party.phase = .parking then some { party with parked := true }.testSafepoint else none
  | .wakeSafepoint =>
    if party.phase = .parked then some party.testSafepoint else none
  | .check =>
    if party.phase = .checking then
      some { party with phase := if party.aborted then .ended else .ready }
    else none
  | .instruction ending =>
    if party.phase = .ready then some { party with phase := ending.phase } else none
  | .enterPaused =>
    if party.phase = .pausing then some { party with phase := .blocked, paused := true } else none
  | .holdPaused =>
    if (party.phase = .blocked ∨ party.phase = .leaving) ∧ party.pauseRequested then
      some { party with phase := .leaving }
    else none
  | .leavePaused =>
    if (party.phase = .blocked ∨ party.phase = .leaving) ∧ !party.pauseRequested then
      some { party with phase := .resumed, paused := false }
    else none
  | .finish ending =>
    if party.phase = .resumed then some { party with phase := ending.phase } else none

/-- Whether a collection need not wait for an executor. -/
def stopped (party : Party) : Bool :=
  party.parked || party.paused

end Party

/-- The registered executors. -/
structure Registry where
  parties : List Party := []
  lastId : Nat := 0
  /-- Set while a collection stops the executors or has stopped them. -/
  collecting : Bool := false
  /-- Set when every executor, present or future, is to stop for good. -/
  aborted : Bool := false
  deriving DecidableEq, Repr

namespace Registry

def register (registry : Registry) : Registry :=
  let id := registry.lastId + 1
  { registry with
    lastId := id
    parties := { id, pauseRequested := registry.collecting, aborted := registry.aborted } ::
      registry.parties }

def unregister (registry : Registry) (id : Nat) : Registry :=
  { registry with parties := registry.parties.filter (·.id != id) }

def abort (registry : Registry) : Registry :=
  { registry with
    aborted := true
    parties := registry.parties.map ({ · with aborted := true }) }

def requestPause (registry : Registry) : Registry :=
  { registry with
    collecting := true
    parties := registry.parties.map ({ · with pauseRequested := true }) }

/-- Whether a collection need not wait any longer. -/
def allStopped (registry : Registry) : Bool :=
  registry.parties.all Party.stopped

def withdrawRequest (registry : Registry) : Registry :=
  { registry with
    collecting := false
    parties := registry.parties.map ({ · with pauseRequested := false }) }

def party? (registry : Registry) (id : Nat) : Option Party :=
  registry.parties.find? (·.id == id)

def replace (registry : Registry) (id : Nat) (party : Party) : Registry :=
  { registry with
    parties := registry.parties.map fun other => if other.id = id then party else other }

end Registry

/-- How far the collector has come. Collections exclude each other. -/
inductive CollectorPhase where
  | idle
  | waiting
  | collecting
  deriving DecidableEq, Repr

/-- The executors and the collector. -/
structure World where
  registry : Registry := {}
  collector : CollectorPhase := .idle
  deriving DecidableEq, Repr

/-- A step of the world. -/
inductive Move where
  | register
  | unregister (id : Nat)
  | abort
  | executor (id : Nat) (act : Act)
  | requestPause
  /-- The collector's wake-up test finds an executor that is not stopped. -/
  | keepWaiting
  /-- The collector's wake-up test finds every executor stopped. -/
  | beginCollection
  | withdrawRequest
  deriving DecidableEq, Repr

def Move.advances : Move → Bool
  | .executor _ act => act.advances
  | _ => false

namespace World

/-- Makes a move; nothing if it cannot be made. -/
def step (world : World) : Move → Option World
  | .register => some { world with registry := world.registry.register }
  | .unregister id =>
    match world.registry.party? id with
    | some party =>
      if party.phase = .ended then some { world with registry := world.registry.unregister id }
      else none
    | none => none
  | .abort => some { world with registry := world.registry.abort }
  | .executor id act =>
    match world.registry.party? id with
    | some party =>
      (party.act act).map fun after => { world with registry := world.registry.replace id after }
    | none => none
  | .requestPause =>
    if world.collector = .idle then
      some ⟨world.registry.requestPause, .waiting⟩
    else none
  | .keepWaiting =>
    if world.collector = .waiting ∧ !world.registry.allStopped then some world else none
  | .beginCollection =>
    if world.collector = .waiting ∧ world.registry.allStopped then
      some { world with collector := .collecting }
    else none
  | .withdrawRequest =>
    if world.collector = .collecting then
      some ⟨world.registry.withdrawRequest, .idle⟩
    else none

/-- Makes moves one after another; nothing if one of them cannot be made. -/
def run : World → List Move → Option World
  | world, [] => some world
  | world, move :: moves =>
    match world.step move with
    | some next => run next moves
    | none => none

end World

end WordMachine
