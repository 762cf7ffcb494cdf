import WordMachine.Machine.Step

/-!
Computations of an executor, taken apart: what comes first and what follows, which changes of the
session a computation has nothing to do with, and how a step fetches an instruction, carries it out
and waits.
-/

namespace WordMachine

theorem Executor.fail_eq (executor : Executor) (state : ExecState) :
    executor.fail state =
      { executor with state := if executor.state = .running then state else executor.state } := by
  obtain ⟨_, _, _, _, _, _, before⟩ := executor
  cases before <;> rfl

namespace Exec

variable {α β : Type}

theorem bind_eq_ok {first : Exec α} {next : α → Exec β} {session after : Session}
    {value : β} (ran : (first >>= next) session = .ok value after) :
    ∃ result middle, first session = .ok result middle ∧ next result middle = .ok value after := by
  change EStateM.bind first next session = .ok value after at ran
  unfold EStateM.bind at ran
  split at ran
  · next done => exact ⟨_, _, done, ran⟩
  · cases ran

theorem get_bind (next : Session → Exec α) (session : Session) :
    (get >>= next) session = next session session := rfl

def ending : EStateM.Result Fault Session α → Session
  | .ok _ after => after
  | .error _ after => after

/-! ## Changes that may as well be made later -/

def changed (change : Session → Session) :
    EStateM.Result Fault Session α → EStateM.Result Fault Session α
  | .ok value after => .ok value (change after)
  | .error fault after => .error fault (change after)

/-- Whether a change can as well be made after an operation. -/
def Commutes (change : Session → Session) (operation : Exec α) : Prop :=
  ∀ session, operation (change session) = changed change (operation session)

variable {change : Session → Session}

theorem Commutes.bind {first : Exec α} {next : α → Exec β} (before : Commutes change first)
    (rest : ∀ value, Commutes change (next value)) : Commutes change (first >>= next) := by
  intro session
  change EStateM.bind first next _ = changed change (EStateM.bind first next session)
  unfold EStateM.bind
  rw [before]
  cases first session with
  | ok value middle => exact rest value middle
  | error fault middle => rfl

theorem Commutes.ite {condition : Prop} [Decidable condition] {yes no : Exec α}
    (whenTrue : Commutes change yes) (whenFalse : Commutes change no) :
    Commutes change (if condition then yes else no) := by
  by_cases holds : condition
  · rw [if_pos holds]
    exact whenTrue
  · rw [if_neg holds]
    exact whenFalse

/-- What follows may look at the session, but for what the change changes. -/
theorem commutes_get {next : Session → Exec α}
    (same : ∀ session, next (change session) = next session)
    (each : ∀ session, Commutes change (next session)) : Commutes change (get >>= next) := by
  intro session
  change next (change session) (change session) = _
  rw [same]
  exact each session session

theorem commutes_pure (value : α) : Commutes change (pure value : Exec α) :=
  fun _ => rfl

theorem Commutes.fixed {operation : Exec α} (commutes : Commutes change operation)
    {session : Session} (fixed : change session = session) :
    change (ending (operation session)) = ending (operation session) := by
  have same := commutes session
  rw [fixed] at same
  cases ran : operation session with
  | ok value after =>
    rw [ran] at same
    injection same with _ final
    exact final.symm
  | error fault after =>
    rw [ran] at same
    injection same with _ final
    exact final.symm

end Exec

/-! ## Steps -/

/-- The session once its next instruction has been fetched and logged, to go on at a given place. -/
def Session.fetched (session : Session) (op : Opcode) (next : UInt32) : Session where
  executor := { session.executor with current := session.executor.ip, ip := next }
  shared := session.shared.log fun _ =>
    Exec.instructionLine session.executor.id session.shared.assembly.code
      session.executor.ip.toNat op

/-- The instruction that a session is about to carry out, with its length. -/
def Session.instruction? (session : Session) : Option (Opcode × Nat) :=
  Exec.fetch? session.shared.assembly.code session.executor.ip.toNat

namespace Exec

theorem fetch?_eq_some {code : Bytes} {position size : Nat} {op : Opcode}
    (found : fetch? code position = some (op, size)) :
    size = op.size ∧ position + op.size ≤ code.size := by
  unfold fetch? at found
  split at found
  · split at found
    · split at found
      · next inside =>
        cases found
        exact ⟨rfl, inside⟩
      · cases found
    · cases found
  · cases found

theorem issue_some (session : Session) {op : Opcode} {size : Nat}
    (found : session.instruction? = some (op, size)) :
    issue session =
      perform session.shared.assembly op (session.executor.ip.toNat + 1)
        (session.fetched op (session.executor.ip + UInt32.ofNat size)) := by
  unfold Session.instruction? at found
  unfold issue
  rw [get_bind]
  dsimp only
  rw [found]
  rfl

theorem issue_none (session : Session) (nothing : session.instruction? = none) :
    issue session =
      .ok () { session with executor := { session.executor with state := .invalidAssembly } } := by
  unfold Session.instruction? at nothing
  unfold issue
  rw [get_bind]
  dsimp only
  rw [nothing]
  rfl

theorem settle_eq {session : Session} (wait : session.executor.wait = none) :
    settle session = .ok () session := by
  unfold settle
  rw [wait]

theorem step_eq_issue {session : Session} (wait : (ending (issue session)).executor.wait = none) :
    step session = issue session := by
  change EStateM.bind issue (fun _ => settle) session = _
  unfold EStateM.bind
  cases ran : issue session with
  | ok value after =>
    rw [ran] at wait
    exact settle_eq wait
  | error fault after => rfl

end Exec

end WordMachine
