import WordMachine.Machine.Schedule
import WordMachine.Proofs.Computations

/-!
Bounds of the stacks. An executor keeps its operands, constants and frames within the limits of its
settings, and the windows of constants of the calls in progress right on top of each other. No
computation of an executor changes the code or the settings.
-/

namespace WordMachine

/-- Whether the windows of constants of calls in progress, innermost call first, lie right on top
of each other, the first one below a given place. -/
def Frame.Stacked : Nat → List Frame → Prop
  | base, [] => base = 0
  | base, frame :: rest => frame.top = base ∧ frame.base ≤ frame.top ∧ Stacked frame.base rest

structure Executor.Bounded (settings : Settings) (executor : Executor) : Prop where
  operandRoom : executor.eval.capacity = settings.evalStack.toNat
  constRoom : executor.consts.capacity = settings.constStack.toNat
  frameRoom : executor.calls.limit = settings.callStack.toNat
  operands : executor.eval.items.size ≤ executor.eval.capacity
  window : executor.consts.base ≤ executor.consts.top
  consts : executor.consts.top ≤ executor.consts.capacity
  frames : executor.calls.frames.size ≤ executor.calls.limit
  stacked : Frame.Stacked executor.consts.base executor.calls.frames.toList.reverse

namespace Executor

variable {settings : Settings}

theorem bounded_start (settings : Settings) (ip : UInt32) :
    (start settings ip).Bounded settings where
  operandRoom := rfl
  constRoom := rfl
  frameRoom := rfl
  operands := Nat.zero_le _
  window := Nat.le_refl _
  consts := Nat.zero_le _
  frames := Nat.zero_le _
  stacked := rfl

/-- The bounds concern nothing but the three stacks. -/
theorem Bounded.of_stacks {before after : Executor} (bounded : before.Bounded settings)
    (eval : after.eval = before.eval) (consts : after.consts = before.consts)
    (calls : after.calls = before.calls) : after.Bounded settings := by
  obtain ⟨operandRoom, constRoom, frameRoom, operands, window, top, frames, stacked⟩ := bounded
  constructor <;> simpa only [eval, consts, calls]

theorem Bounded.fail {executor : Executor} (bounded : executor.Bounded settings)
    (state : ExecState) : (executor.fail state).Bounded settings := by
  unfold Executor.fail
  split
  · exact bounded.of_stacks rfl rfl rfl
  · exact bounded

theorem Bounded.push {executor : Executor} (bounded : executor.Bounded settings) (word : Word) :
    (executor.push word).Bounded settings := by
  unfold Executor.push
  by_cases room : executor.eval.items.size < executor.eval.capacity
  · rw [if_pos room]
    refine { bounded with operands := ?_ }
    rw [Array.size_push]
    exact room
  · rw [if_neg room]
    exact bounded.fail .stackOverflow

end Executor

namespace Session

/-- A session all of whose executors are within the limits, the forked ones included. -/
structure Bounded (session : Session) : Prop where
  own : session.executor.Bounded session.shared.settings
  spawned : ∀ child ∈ session.shared.spawned, child.Bounded session.shared.settings

/-- What stays as it is from one session to a later one, with the bounds. -/
structure Keeps (before after : Session) : Prop where
  assembly : after.shared.assembly = before.shared.assembly
  settings : after.shared.settings = before.shared.settings
  bounded : before.Bounded → after.Bounded

theorem Keeps.refl (session : Session) : session.Keeps session :=
  ⟨rfl, rfl, id⟩

theorem Keeps.trans {first second third : Session} (early : first.Keeps second)
    (late : second.Keeps third) : first.Keeps third where
  assembly := late.assembly.trans early.assembly
  settings := late.settings.trans early.settings
  bounded bounded := late.bounded (early.bounded bounded)

theorem keeps_of_executor {session : Session} {executor : Executor}
    (keeps : session.executor.Bounded session.shared.settings →
      executor.Bounded session.shared.settings) : session.Keeps ⟨executor, session.shared⟩ :=
  ⟨rfl, rfl, fun bounded => ⟨keeps bounded.own, bounded.spawned⟩⟩

/-- A change of the shared state that starts executors within the limits only. -/
theorem keeps_of_shared {session : Session} {shared : Shared}
    (assembly : shared.assembly = session.shared.assembly)
    (settings : shared.settings = session.shared.settings) (spawned : ∀ child ∈ shared.spawned,
      child ∈ session.shared.spawned ∨ child.Bounded session.shared.settings) :
    session.Keeps ⟨session.executor, shared⟩ where
  assembly := assembly
  settings := settings
  bounded := by
    intro bounded
    constructor
    case own =>
      change session.executor.Bounded shared.settings
      rw [settings]
      exact bounded.own
    case spawned =>
      intro child member
      change child.Bounded shared.settings
      rw [settings]
      rcases spawned child member with before | within
      · exact bounded.spawned child before
      · exact within

theorem keeps_raise (session : Session) (fault : Fault) : session.Keeps (session.raise fault) := by
  unfold raise
  split
  · exact keeps_of_executor fun bounded => bounded.of_stacks rfl rfl rfl
  · exact ⟨rfl, rfl, fun bounded => ⟨bounded.own.of_stacks rfl rfl rfl, bounded.spawned⟩⟩

theorem keeps_log (session : Session) (line : Unit → Bytes) :
    session.Keeps ⟨session.executor, session.shared.log line⟩ := by
  obtain ⟨executor, shared⟩ := session
  unfold Shared.log
  split <;> exact ⟨rfl, rfl, fun bounded => ⟨bounded.own, bounded.spawned⟩⟩

end Session

namespace Exec

variable {α β : Type}

/-- A computation that keeps the code, the settings and the bounds. -/
def Keeping (computation : Exec α) : Prop :=
  ∀ session : Session, session.Keeps (ending (computation session))

/-! ## Composition -/

theorem Keeping.of_eq {computation : Exec α} {session : Session}
    {result : EStateM.Result Fault Session α} (keeping : Keeping computation)
    (ran : computation session = result) : session.Keeps (ending result) := by
  rw [← ran]
  exact keeping session

theorem Keeping.bind {first : Exec α} {next : α → Exec β} (before : Keeping first)
    (rest : ∀ value, Keeping (next value)) : Keeping (first >>= next) := by
  intro session
  change session.Keeps (ending (EStateM.bind first next session))
  unfold EStateM.bind
  cases ran : first session with
  | ok value middle => exact (before.of_eq ran).trans (rest value middle)
  | error fault middle => exact before.of_eq ran

theorem Keeping.ite {condition : Prop} [Decidable condition] {yes no : Exec α}
    (whenTrue : Keeping yes) (whenFalse : Keeping no) :
    Keeping (if condition then yes else no) := by
  by_cases holds : condition
  · rw [if_pos holds]
    exact whenTrue
  · rw [if_neg holds]
    exact whenFalse

theorem keeping_get {next : Session → Exec α} (each : ∀ session, Keeping (next session)) :
    Keeping (get >>= next) :=
  fun session => each session session

theorem keeping_read {computation : Exec α}
    (reads : ∀ session, ending (computation session) = session) : Keeping computation := by
  intro session
  rw [reads]
  exact .refl session

/-! ## Changes -/

theorem keeping_modifyExecutor {change : Executor → Executor}
    (keeps : ∀ settings executor, executor.Bounded settings → (change executor).Bounded settings) :
    Keeping (modifyExecutor change) :=
  fun session => Session.keeps_of_executor (keeps session.shared.settings session.executor)

theorem keeping_onEval {operation : EvalStack → Except Fault (α × EvalStack)}
    (shrinks : ∀ stack value rest, operation stack = .ok (value, rest) →
      rest.capacity = stack.capacity ∧ rest.items.size ≤ stack.items.size) :
    Keeping (onEval operation) := by
  intro session
  unfold onEval
  cases taken : operation session.executor.eval with
  | error fault =>
    simp only [taken]
    exact .refl session
  | ok result =>
    obtain ⟨value, rest⟩ := result
    obtain ⟨capacity, size⟩ := shrinks _ _ _ taken
    simp only [taken]
    refine Session.keeps_of_executor fun bounded =>
      { bounded with operandRoom := ?_, operands := ?_ }
    · exact capacity.trans bounded.operandRoom
    · change rest.items.size ≤ rest.capacity
      rw [capacity]
      exact Nat.le_trans size bounded.operands

theorem keeping_allocate? (payload : Payload) : Keeping (allocate? payload) := by
  rintro ⟨executor, shared⟩
  unfold allocate?
  dsimp only
  by_cases room : shared.heap.hasRoom (Heap.headerSize + payload.size) = true
  · rw [if_pos room]
    have placed : Session.Keeps ⟨executor, shared⟩
        ⟨executor, { shared with heap := (shared.heap.allocate payload).2 }⟩ :=
      ⟨rfl, rfl, fun bounded => ⟨bounded.own, bounded.spawned⟩⟩
    change Session.Keeps _ ⟨executor, (shared.allocate payload).2⟩
    unfold Shared.allocate
    dsimp only
    exact placed.trans (Session.keeps_log _ _)
  · rw [if_neg room]
    exact .refl _

end Exec

end WordMachine
