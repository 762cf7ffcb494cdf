import WordMachine.Machine.Waiting

/-!
Calls. A call keeps its arguments on the operand stack and opens a window of constants above the
caller's; a tail call takes over the caller's window; a forked call runs on an executor of its own;
a lazy call is only recorded.
-/

namespace WordMachine.Exec

@[inline]
def jump (target : UInt32) : Exec Unit :=
  modifyExecutor fun executor => { executor with ip := target }

/-- Opens a frame that returns to the next instruction; false if there is no room. -/
def enter (lazy : Bool) : Exec Bool :=
  fun ⟨executor, shared⟩ =>
    if executor.calls.frames.size < executor.calls.limit then
      let frame : Frame :=
        { returnTo := executor.ip, base := executor.consts.base, top := executor.consts.top, lazy }
      .ok true
        ⟨{ executor with
            calls := ⟨executor.calls.limit, executor.calls.frames.push frame⟩
            consts := executor.consts.enter },
          shared⟩
    else .ok false ⟨executor.fail .stackOverflow, shared⟩

/-- Starts a forked call with the given arguments and pushes its future. -/
def fork (target : UInt32) (arguments : Array Word) : Exec Unit := do
  let session ← get
  let child := Executor.start session.shared.settings target
  if child.eval.capacity < arguments.size then fail .stackOverflow
  else
    match ← allocate? (.future none) with
    | none => fail .allocFailed
    | some future =>
      modifyShared fun shared =>
        let id := shared.started + 1
        let child := { child with
          id, eval := ⟨child.eval.capacity, arguments⟩, promise := some future }
        ({ shared with started := id, spawned := child :: shared.spawned }).report
          (.forkBegan id)
      push future

def call (target : UInt32) (count : Nat) (mode : UInt8) : Exec Unit := do
  match CallMode.ofCode? mode with
  | some .normal => if ← enter false then jump target
  | some .tail =>
    modifyExecutor fun executor =>
      { executor with consts := executor.consts.release, ip := target }
  | some .forked =>
    let arguments ← popMany count
    fork target arguments
  | some .lazy =>
    let arguments ← popMany count
    pushNew (.lazy (.pending target arguments))
  | none => fail .invalidAssembly

/-- Calls the function or closure on top of the stack. A closure is a struct whose last field is
its target and whose other fields are arguments that follow the explicit ones. -/
def callDynamic (count : Nat) (mode : UInt8) : Exec Unit := do
  let callee ← pop
  if callee.isRef then
    let fields ← look (·.fields callee)
    match fields.back? with
    | none => fail .invalidAssembly
    | some target =>
      let bound := fields.pop
      bound.forM push
      if ← isRunning then call target.bits32 (count + bound.size) mode
  else call callee.bits32 count mode

/-- Ends an executor whose outermost call returns. A forked call takes its result along; nothing
else may be left on the stack. -/
def finish : Exec Unit := do
  let session ← get
  if session.executor.promise.isSome then
    let result ← pop
    modifyExecutor fun executor => { executor with result }
  let session ← get
  let left := session.executor.eval.size
  if left ≠ 0 then throw (.valuesLeft left)
  modifyExecutor fun executor => { executor with state := .success }

/-- Returns to the caller. The return of a delayed call stores its value. -/
def ret : Exec Unit := do
  let frame ← fun ⟨executor, shared⟩ =>
    let frame := executor.calls.frames.back?
    .ok frame
      ⟨{ executor with
          consts := executor.consts.release
          calls := ⟨executor.calls.limit, executor.calls.frames.pop⟩ },
        shared⟩
  match frame with
  | none => finish
  | some frame =>
    modifyExecutor fun executor =>
      { executor with consts := executor.consts.leave frame.base frame.top, ip := frame.returnTo }
    if frame.lazy then
      let result ← pop
      let word ← pop
      let (value, heap) ← look (·.force word result)
      modifyHeap fun _ => heap
      push value

/-- Waits for the future on top of the stack. -/
def await : Exec Unit := do
  let word ← peek
  match ← look (·.outcome word) with
  | some outcome => takeOutcome outcome
  | none => stay .future

/-- Waits for the future below a time limit in nanoseconds. -/
def awaitFor : Exec Unit := do
  let limit ← popLong
  let word ← peek
  let outcome ← look (·.outcome word)
  if outcome.isSome || limit ≤ 0 then
    let _ ← pop
    pushBool outcome.isSome
  else
    let platform ← platform
    stay (.futureUntil (platform.clock + limit.toInt.toNat))

/-- Asks for the value of a lazy call. The first request makes the call. -/
def force : Exec Unit := do
  let word ← peek
  match ← look (·.delayed word) with
  | .forced value =>
    let _ ← pop
    push value
  | .pending target arguments =>
    if ← enter true then
      arguments.forM push
      jump target

end WordMachine.Exec
