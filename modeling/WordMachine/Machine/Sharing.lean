import WordMachine.Machine.Calls

/-!
Executors that ask for the value of one lazy call at the same time. Each look at the call, each
access to its arguments and each change of it is guarded, but what an executor does in between is
not: it opens a frame, and it carries out the body instruction by instruction.
-/

namespace WordMachine

namespace Delayed

def value? : Delayed → Option Word
  | .pending _ _ => none
  | .forced value => some value

/-- The arguments that are kept for the call. With the value they are no longer needed. -/
def arguments : Delayed → Array Word
  | .pending _ arguments => arguments
  | .forced _ => #[]

def store (value : Word) : Delayed → Delayed
  | .pending _ _ => .forced value
  | .forced first => .forced first

end Delayed

/-- A request for the value of a lazy call, by what its executor does next. -/
inductive Request where
  | looking
  /-- Opens a frame for the body, as there was no value. -/
  | entering
  | loading
  /-- Carries out the body, which found some arguments on the stack. -/
  | evaluating (started : Array Word)
  | storing (result : Word)
  | taking
  | served (value : Word)
  | stopped
  deriving DecidableEq

/-- An atomic step of a request. -/
inductive Advance where
  | look
  | enter (room : Bool)
  | load
  | instruction
  | finish (result : Word)
  | fail
  | store
  | take
  deriving DecidableEq

def Request.advance (call : Delayed) : Request → Advance → Option Request
  | .looking, .look =>
    match call.value? with
    | some value => some (.served value)
    | none => some .entering
  | .entering, .enter room => some (if room then .loading else .stopped)
  | .loading, .load => some (.evaluating call.arguments)
  | .evaluating started, .instruction => some (.evaluating started)
  | .evaluating _, .finish result => some (.storing result)
  | .evaluating _, .fail => some .stopped
  | .storing _, .store => some .taking
  | .taking, .take => some (.served (call.value?.getD 0))
  | _, _ => none

/-- A lazy call with the requests for its value. -/
structure Sharing where
  call : Delayed
  requests : List Request := []
  results : List Word := []
  deriving DecidableEq

/-- A step of any party. -/
inductive Demand where
  | ask
  | advance (position : Nat) (advance : Advance)
  deriving DecidableEq

namespace Sharing

def afterStep (sharing : Sharing) : Request → Advance → Sharing
  | .storing result, .store =>
    { sharing with
      call := sharing.call.store result
      results := sharing.results ++ [result] }
  | _, _ => sharing

/-- Makes a step; nothing if it cannot be made. -/
def step (sharing : Sharing) : Demand → Option Sharing
  | .ask => some { sharing with requests := sharing.requests ++ [.looking] }
  | .advance position advance =>
    match sharing.requests[position]? with
    | none => none
    | some request =>
      (request.advance sharing.call advance).map fun after =>
        { sharing.afterStep request advance with requests := sharing.requests.set position after }

/-- Makes steps one after another; nothing if one of them cannot be made. -/
def run : Sharing → List Demand → Option Sharing
  | sharing, [] => some sharing
  | sharing, demand :: demands =>
    match sharing.step demand with
    | some next => run next demands
    | none => none

end Sharing

end WordMachine
