import WordMachine.Proofs.CallGrounds

/-!
Execution within bounds. Whatever words an instruction works on, and whether it ends regularly or
with a fault, it leaves the stacks within their limits.
-/

namespace WordMachine

/-! ## Constants and frames -/

namespace ConstStack

theorem size_grow (slots : Array Word) (count : Nat) :
    (grow slots count).size = slots.size + count := by
  induction count generalizing slots with
  | zero => rfl
  | succ count ih =>
    unfold grow
    rw [ih, Array.size_push]
    omega

theorem top_reserve {stack : ConstStack} (window : stack.base ≤ stack.top) (count : Nat) :
    (stack.reserve count).top = stack.base + count := by
  unfold reserve top at *
  rw [size_grow, Array.size_shrink, Nat.min_eq_left window]

theorem top_release {stack : ConstStack} (window : stack.base ≤ stack.top) :
    stack.release.top = stack.base := by
  unfold release top at *
  rw [Array.size_shrink, Nat.min_eq_left window]

end ConstStack

namespace Executor.Bounded

variable {settings : Settings} {executor : Executor}

theorem reserve (bounded : executor.Bounded settings) {count : Nat}
    (room : executor.consts.base + count ≤ executor.consts.capacity) :
    Bounded settings { executor with consts := executor.consts.reserve count } := by
  have top := ConstStack.top_reserve bounded.window count
  refine { bounded with window := ?_, consts := ?_ }
  · rw [top]
    exact Nat.le_add_right _ _
  · rw [top]
    exact room

theorem release (bounded : executor.Bounded settings) :
    Bounded settings { executor with consts := executor.consts.release } := by
  have top := ConstStack.top_release bounded.window
  refine { bounded with window := ?_, consts := ?_ }
  · rw [top]
    exact Nat.le_refl _
  · rw [top]
    exact Nat.le_trans bounded.window bounded.consts

theorem enter (bounded : executor.Bounded settings) (returnTo : UInt32) (lazy : Bool)
    (room : executor.calls.frames.size < executor.calls.limit) :
    Bounded settings
      { executor with
        calls := ⟨executor.calls.limit, executor.calls.frames.push
          { returnTo, base := executor.consts.base, top := executor.consts.top, lazy }⟩
        consts := executor.consts.enter } := by
  refine { bounded with window := Nat.le_refl _, frames := ?_, stacked := ?_ }
  · rw [Array.size_push]
    exact room
  · rw [Array.toList_push, List.reverse_append]
    exact ⟨rfl, bounded.window, bounded.stacked⟩

/-- A return gives the caller the window that its frame says. -/
theorem leave (bounded : executor.Bounded settings) {frame : Frame} {returnTo : UInt32}
    (last : executor.calls.frames.back? = some frame) :
    Bounded settings
      { executor with
        consts := executor.consts.release.leave frame.base frame.top
        calls := ⟨executor.calls.limit, executor.calls.frames.pop⟩
        ip := returnTo } := by
  have split : executor.calls.frames.toList.reverse =
      frame :: executor.calls.frames.pop.toList.reverse := by
    obtain ⟨rest, pushed⟩ := Array.back?_eq_some_iff.1 last
    rw [pushed, Array.pop_push, Array.toList_push, List.reverse_append]
    rfl
  have stacked := bounded.stacked
  rw [split] at stacked
  obtain ⟨top, window, rest⟩ := stacked
  have size : (executor.consts.release.leave frame.base frame.top).top = frame.top := by
    change ((executor.consts.release.slots).shrink frame.top).size = frame.top
    have released := ConstStack.top_release bounded.window
    unfold ConstStack.top at released
    rw [Array.size_shrink, released, top, Nat.min_self]
  refine { bounded with window := ?_, consts := ?_, frames := ?_, stacked := rest }
  · rw [size]
    exact window
  · rw [size, top]
    exact Nat.le_trans bounded.window bounded.consts
  · rw [Array.size_pop]
    exact Nat.le_trans (Nat.sub_le _ _) bounded.frames

theorem leaveLast (bounded : executor.Bounded settings)
    (last : executor.calls.frames.back? = none) :
    Bounded settings
      { executor with
        consts := executor.consts.release
        calls := ⟨executor.calls.limit, executor.calls.frames.pop⟩ } := by
  obtain nothing : executor.calls.frames = #[] := by simpa using last
  have released := bounded.release
  refine { released with frames := ?_, stacked := ?_ }
  · rw [nothing]
    exact Nat.zero_le _
  · have stacked := bounded.stacked
    rw [nothing] at stacked ⊢
    exact stacked

end Executor.Bounded

/-! ## Instructions -/

namespace Exec

theorem keeping_throw {α : Type} (fault : Fault) : Keeping (throw fault : Exec α) :=
  .refl

theorem keeping_reserveConsts (count : Nat) : Keeping (reserveConsts count) := by
  refine keeping_modifyExecutor fun settings executor bounded => ?_
  by_cases room : executor.consts.base + count ≤ executor.consts.capacity
  · rw [if_pos room]
    exact bounded.reserve room
  · rw [if_neg room]
    exact bounded.fail .stackOverflow

theorem keeping_storeConst (slot : UInt8) : Keeping (storeConst slot) := by
  refine indifferent_pop.keeping.bind fun word => ?_
  rintro ⟨executor, shared⟩
  unfold ConstStack.store
  by_cases inside : executor.consts.base + slot.toNat < executor.consts.slots.size
  · simp only [inside, if_true]
    refine Session.keeps_of_executor fun bounded => { bounded with window := ?_, consts := ?_ }
    · change _ ≤ (Array.setIfInBounds _ _ _).size
      rw [Array.size_setIfInBounds]
      exact bounded.window
    · change (Array.setIfInBounds _ _ _).size ≤ _
      rw [Array.size_setIfInBounds]
      exact bounded.consts
  · simp only [inside, if_false]
    exact .refl _

theorem keeping_loadConst (slot : UInt8) : Keeping (loadConst slot) := by
  refine keeping_get fun session => ?_
  cases session.executor.consts.load slot with
  | ok word => exact (indifferent_push word).keeping
  | error fault => exact keeping_throw fault

theorem keeping_enter (lazy : Bool) : Keeping (enter lazy) := by
  rintro ⟨executor, shared⟩
  unfold enter
  dsimp only
  by_cases room : executor.calls.frames.size < executor.calls.limit
  · rw [if_pos room]
    exact Session.keeps_of_executor fun bounded => bounded.enter _ lazy room
  · rw [if_neg room]
    exact Session.keeps_of_executor fun bounded => bounded.fail .stackOverflow

theorem keeping_call (target : UInt32) (count : Nat) (mode : UInt8) :
    Keeping (call target count mode) := by
  unfold call
  cases CallMode.ofCode? mode with
  | none => exact (indifferent_fail _).keeping
  | some mode =>
    cases mode with
    | normal =>
      exact (keeping_enter false).bind fun _ =>
        .ite (indifferent_jump target).keeping (indifferent_pure ()).keeping
    | tail =>
      exact keeping_modifyExecutor fun settings executor bounded =>
        bounded.release.of_stacks rfl rfl rfl
    | forked =>
      exact (indifferent_popMany count).keeping.bind fun arguments =>
        keeping_fork target arguments
    | lazy =>
      exact (indifferent_popMany count).keeping.bind fun arguments =>
        (indifferent_pushNew _).keeping

theorem keeping_callDynamic (count : Nat) (mode : UInt8) : Keeping (callDynamic count mode) := by
  refine indifferent_pop.keeping.bind fun callee => .ite ?_ (keeping_call _ count mode)
  refine (indifferent_look _).keeping.bind fun fields => ?_
  cases fields.back? with
  | none => exact (indifferent_fail _).keeping
  | some target =>
    refine (indifferent_pushAll _).keeping.bind fun _ => ?_
    exact indifferent_isRunning.keeping.bind fun _ =>
      .ite (keeping_call _ _ mode) (indifferent_pure ()).keeping

theorem keeping_force : Keeping force := by
  refine indifferent_peek.keeping.bind fun word =>
    (indifferent_look _).keeping.bind fun delayed => ?_
  cases delayed with
  | forced value => exact (indifferent_pop.bind fun _ => indifferent_push value).keeping
  | pending target arguments =>
    refine (keeping_enter true).bind fun _ => .ite ?_ (indifferent_pure ()).keeping
    exact ((indifferent_pushAll arguments).bind fun _ => indifferent_jump target).keeping

theorem keeping_finish : Keeping finish := by
  have ends : Keeping (do
      let session ← get
      let left := session.executor.eval.size
      if left ≠ 0 then throw (.valuesLeft left)
      modifyExecutor fun executor => { executor with state := .success } : Exec Unit) := by
    refine keeping_get fun session => ?_
    have success : Keeping (modifyExecutor fun executor => { executor with state := .success }) :=
      keeping_modifyExecutor fun _ _ bounded => bounded.of_stacks rfl rfl rfl
    exact .ite ((keeping_throw _).bind fun _ => success) success
  refine keeping_get fun session => .ite ?_ ends
  refine indifferent_pop.keeping.bind fun result => ?_
  refine Keeping.bind (keeping_modifyExecutor ?_) fun _ => ends
  exact fun _ _ bounded => bounded.of_stacks rfl rfl rfl

theorem keeping_ret : Keeping ret := by
  intro session
  cases last : session.executor.calls.frames.back? with
  | none =>
    rw [ret_none last]
    exact (Session.keeps_of_executor fun bounded => bounded.leaveLast last).trans
      (keeping_finish _)
  | some frame =>
    rw [ret_some last]
    exact (Session.keeps_of_executor fun bounded => bounded.leave last).trans
      ((indifferent_deliver frame.lazy).keeping _)

theorem keeping_perform (assembly : Assembly) (op : Opcode) (operands : Nat) :
    Keeping (perform assembly op operands) := by
  cases op with
  | reserveConsts => exact keeping_reserveConsts _
  | storeConst => exact keeping_storeConst _
  | loadConst => exact keeping_loadConst _
  | call => exact keeping_call _ _ _
  | callDynamic => exact keeping_callDynamic _ _
  | ret => exact keeping_ret
  | force => exact keeping_force
  | _ => exact (indifferent_perform rfl assembly operands).keeping

theorem keeps_fetched (session : Session) (op : Opcode) (next : UInt32) :
    session.Keeps (session.fetched op next) := by
  have logged := session.keeps_log fun _ =>
    instructionLine session.executor.id session.shared.assembly.code session.executor.ip.toNat op
  refine logged.trans ?_
  exact Session.keeps_of_executor fun bounded => bounded.of_stacks rfl rfl rfl

theorem keeping_issue : Keeping issue := by
  intro session
  cases found : session.instruction? with
  | none =>
    rw [issue_none session found]
    exact Session.keeps_of_executor fun bounded => bounded.of_stacks rfl rfl rfl
  | some instruction =>
    obtain ⟨op, size⟩ := instruction
    rw [issue_some session found]
    exact (keeps_fetched session op _).trans (keeping_perform _ op _ _)

theorem keeping_step : Keeping step :=
  keeping_issue.bind fun _ => indifferent_settle.keeping

end Exec

end WordMachine
