import WordMachine.Proofs.ContainedSteps

/-!
Tail calls. A call in tail mode comes to the same as a normal call that is followed by a return: up
to the return of the callee both go on alike, on grounds that differ by the caller's frame and its
constants, and the return of the caller makes up for the difference.
-/

namespace WordMachine

/-! ## Calls -/

/-- What an instruction calls, with the number of arguments. -/
inductive Invocation where
  | direct (target : UInt32) (count : Nat)
  /-- The function or closure on top of the stack. -/
  | dynamic (count : Nat)
  deriving DecidableEq

namespace Invocation

def opcode : Invocation → Opcode
  | .direct _ _ => .call
  | .dynamic _ => .callDynamic

def make (mode : CallMode) : Invocation → Exec Unit
  | .direct target count => Exec.call target count mode.code
  | .dynamic count => Exec.callDynamic count mode.code

/-- Finds the target of the call, with the number of arguments once those that a closure brings
along are in place; nothing if that has ended execution. -/
def resolve : Invocation → Exec (Option (UInt32 × Nat))
  | .direct target count => return some (target, count)
  | .dynamic count => do
    let callee ← Exec.pop
    if callee.isRef then
      let fields ← Exec.look (·.fields callee)
      match fields.back? with
      | none => do
        Exec.fail .invalidAssembly
        return none
      | some target => do
        fields.pop.forM Exec.push
        let running ← Exec.isRunning
        return if running then some (target.bits32, count + fields.pop.size) else none
    else return some (callee.bits32, count)

end Invocation

namespace Session

/-- The call that a session is about to make, with the code of its mode. -/
def invocation? (session : Session) : Option (Invocation × UInt8) :=
  let code := session.shared.assembly.code
  let operands := session.executor.ip.toNat + 1
  match session.instruction? with
  | some (.call, _) =>
    some (.direct (code.u32At operands) (code.byteAt (operands + 4)).toNat,
      code.byteAt (operands + 5))
  | some (.callDynamic, _) =>
    some (.dynamic (code.byteAt operands).toNat, code.byteAt (operands + 1))
  | _ => none

/-- Whether a session is about to make a call in a given mode. -/
structure Calls (session : Session) (invocation : Invocation) (mode : CallMode) : Prop where
  running : session.executor.state = .running
  found : session.invocation? = some (invocation, mode.code)

/-- Whether a session is about to return, with a given number of frames. -/
structure Returns (session : Session) (depth : Nat) : Prop where
  running : session.executor.state = .running
  found : ∃ size, session.instruction? = some (.ret, size)
  depth : session.executor.calls.frames.size = depth

/-! ## Runs of one executor -/

/-- An executor goes on: it carries out an instruction, or tries to end its wait. -/
def move (session : Session) : Session :=
  match session.executor.state with
  | .running => session.carry Exec.step
  | .paused => session.carry Exec.settle
  | _ => session

def outside (session : Session) (change : Platform → Platform) : Session :=
  { session with shared := { session.shared with platform := change session.shared.platform } }

/-- An executor on its own after a number of moves, in a world that may do something before each
of them. -/
def alone (world : Nat → Platform → Platform) (session : Session) : Nat → Session
  | 0 => session
  | count + 1 => ((alone world session count).outside (world count)).move

/-- Whether the call that a run starts with returns after a number of moves. -/
def EndsAt (run : Nat → Session) (depth count : Nat) : Prop :=
  (run count).Returns depth ∧ ∀ earlier < count, ¬ (run earlier).Returns depth

/-- What follows a call in tail mode. -/
def tailRun (world : Nat → Platform → Platform) (session : Session) : Nat → Session :=
  (session.carry Exec.issue).alone world

/-- What follows the same call in normal mode, with a given address to return to. -/
def normalRun (world : Nat → Platform → Platform) (invocation : Invocation) (returnTo : UInt32)
    (session : Session) : Nat → Session :=
  ((session.fetched invocation.opcode returnTo).carry (invocation.make .normal)).alone world

/-- Where an executor goes on; nowhere if it has ended. -/
def next? (session : Session) : Option UInt32 :=
  if session.executor.state.isTerminal then none else some session.executor.ip

/-- Sessions that are the same, but for a further line in the log of the second one. Where their
last instructions were may also differ. -/
structure Like (first second : Session) : Prop where
  executor : second.executor =
    { first.executor with ip := second.executor.ip, current := second.executor.current }
  next : second.next? = first.next?
  shared : ∃ line, second.shared = first.shared.log line
  heap : second.shared.heap = first.shared.heap
  output : second.shared.platform.output = first.shared.platform.output

end Session

namespace Exec

/-- Results that are the same, but for a further line in the log of the second one. -/
inductive Alike {α : Type} :
    EStateM.Result Fault Session α → EStateM.Result Fault Session α → Prop
  | ok {value : α} {first second : Session} :
      first.Like second → Alike (.ok value first) (.ok value second)
  | error {fault : Fault} {first second : Session} :
      Alike (.error fault first) (.error fault second)

end Exec

/-! ## Changes aside -/

def Session.refit (session : Session) (eval : EvalStack) (state : ExecState) (result : Word)
    (heap : Heap) : Session where
  executor := { session.executor with eval, state, result }
  shared := { session.shared with heap }

/-- A change that has nothing to do with operands, state, result and heap, nor with the future of
the executor. -/
structure Session.Aside (change : Session → Session) : Prop where
  refit : ∀ (session : Session) eval state result heap,
    change (session.refit eval state result heap) =
      (change session).refit eval state result heap
  promise : ∀ session, (change session).executor.promise = session.executor.promise

namespace Session.Aside

variable {change : Session → Session} (aside : Session.Aside change) (session : Session)
include aside

theorem refitted :
    change session =
      (change session).refit session.executor.eval session.executor.state
        session.executor.result session.shared.heap :=
  aside.refit session session.executor.eval session.executor.state session.executor.result
    session.shared.heap

theorem eval : (change session).executor.eval = session.executor.eval := by
  rw [aside.refitted]
  rfl

theorem state : (change session).executor.state = session.executor.state := by
  rw [aside.refitted]
  rfl

theorem result : (change session).executor.result = session.executor.result := by
  rw [aside.refitted]
  rfl

theorem heap : (change session).shared.heap = session.shared.heap := by
  rw [aside.refitted]
  rfl

end Session.Aside

namespace Exec

variable {α β : Type} {change : Session → Session}

section

variable (aside : Session.Aside change)
include aside

theorem commutes_of_parts {operation : Exec α} (parts : EvalStack → ExecState → Word → Heap →
      Except Fault (α × EvalStack × ExecState × Word × Heap)) (does : ∀ session, operation session =
      match parts session.executor.eval session.executor.state session.executor.result
        session.shared.heap with
      | .ok (value, eval, state, result, heap) =>
        .ok value (session.refit eval state result heap)
      | .error fault => .error fault session) : Commutes change operation := by
  intro session
  rw [does, does, aside.eval, aside.state, aside.result, aside.heap]
  cases parts session.executor.eval session.executor.state session.executor.result
    session.shared.heap with
  | error fault => rfl
  | ok made =>
    obtain ⟨value, eval, state, result, heap⟩ := made
    unfold changed
    dsimp only
    rw [aside.refit]

theorem commutes_fail (state : ExecState) : Commutes change (fail state) := by
  refine commutes_of_parts aside (fun eval before result heap =>
    .ok ((), eval, if before = .running then state else before, result, heap)) fun session => ?_
  change EStateM.Result.ok () (Session.mk (session.executor.fail state) session.shared) = _
  rw [Executor.fail_eq]
  rfl

theorem commutes_push (word : Word) : Commutes change (push word) := by
  refine commutes_of_parts aside (fun eval state result heap =>
    .ok (if eval.items.size < eval.capacity then
      ((), ⟨eval.capacity, eval.items.push word⟩, state, result, heap)
    else ((), eval, if state = .running then .stackOverflow else state, result, heap)))
    fun session => ?_
  change EStateM.Result.ok () (Session.mk (session.executor.push word) session.shared) = _
  unfold Executor.push
  dsimp only
  split
  · rfl
  · rw [Executor.fail_eq]
    rfl

theorem commutes_pop : Commutes change pop := by
  refine commutes_of_parts aside (fun eval state result heap =>
    eval.pop.map fun taken => (taken.1, taken.2, state, result, heap)) fun session => ?_
  unfold pop onEval
  dsimp only
  cases session.executor.eval.pop <;> rfl

theorem commutes_look (view : Heap → Except Fault α) : Commutes change (look view) := by
  refine commutes_of_parts aside (fun eval state result heap =>
    (view heap).map fun value => (value, eval, state, result, heap)) fun session => ?_
  unfold look
  cases view session.shared.heap <;> rfl

theorem commutes_isRunning : Commutes change isRunning :=
  commutes_of_parts aside
    (fun eval state result heap => .ok (state == .running, eval, state, result, heap))
    fun _ => rfl

theorem commutes_pushAll (words : Array Word) : Commutes change (words.forM push) := by
  obtain ⟨items⟩ := words
  rw [Array.forM_eq_forM, List.forM_toArray]
  induction items with
  | nil => exact commutes_pure ()
  | cons word rest ih =>
    exact (commutes_push aside word).bind fun _ => ih

theorem commutes_resolve (invocation : Invocation) : Commutes change invocation.resolve := by
  cases invocation with
  | direct target count => exact commutes_pure _
  | dynamic count =>
    refine (commutes_pop aside).bind fun callee => .ite ?_ (commutes_pure _)
    refine (commutes_look aside _).bind fun fields => ?_
    cases fields.back? with
    | none => exact (commutes_fail aside _).bind fun _ => commutes_pure _
    | some target =>
      exact (commutes_pushAll aside _).bind fun _ =>
        (commutes_isRunning aside).bind fun _ => commutes_pure _

theorem commutes_deliver (lazy : Bool) : Commutes change (deliver lazy) := by
  cases lazy with
  | false => exact commutes_pure ()
  | true =>
    have stored : ∀ heap : Heap, Commutes change (modifyHeap fun _ => heap) := fun heap =>
      commutes_of_parts aside (fun eval state result _ => .ok ((), eval, state, result, heap))
        fun _ => rfl
    exact (commutes_pop aside).bind fun _ => (commutes_pop aside).bind fun _ =>
      (commutes_look aside _).bind fun _ => (stored _).bind fun _ => commutes_push aside _

theorem commutes_finish : Commutes change finish := by
  have taken :
      ∀ result, Commutes change (modifyExecutor fun executor => { executor with result }) :=
    fun result => commutes_of_parts aside
      (fun eval state _ heap => .ok ((), eval, state, result, heap)) fun _ => rfl
  have success : Commutes change
      (modifyExecutor fun executor => { executor with state := .success }) :=
    commutes_of_parts aside (fun eval _ result heap => .ok ((), eval, .success, result, heap))
      fun _ => rfl
  have ends : Commutes change (do
      let session ← get
      let left := session.executor.eval.size
      if left ≠ 0 then throw (.valuesLeft left)
      modifyExecutor fun executor => { executor with state := .success } : Exec Unit) := by
    refine commutes_get (fun session => ?_) fun session => ?_
    · dsimp only
      rw [aside.eval]
    · have refused :
          Commutes change (throw (.valuesLeft session.executor.eval.size) : Exec PUnit) :=
        fun _ => rfl
      exact .ite (refused.bind fun _ => success) success
  refine commutes_get (fun session => ?_) fun session => ?_
  · dsimp only
    rw [aside.promise]
  · exact .ite ((commutes_pop aside).bind fun result => (taken result).bind fun _ => ends) ends

end

end Exec

namespace Session

def placed (session : Session) (ip : UInt32) : Session :=
  { session with executor := { session.executor with ip } }

def roused (session : Session) : Session :=
  { session with executor := { session.executor with wait := none } }

/-- The session with a further line in the log, where its instruction is at another place. -/
def logged (place : UInt32 → UInt32) (current : UInt32) (line : Unit → Bytes) (session : Session) :
    Session where
  executor := { session.executor with ip := place session.executor.ip, current }
  shared := session.shared.log line

theorem aside_placed (ip : UInt32) : Aside (·.placed ip) :=
  ⟨fun _ _ _ _ _ => rfl, fun _ => rfl⟩

theorem aside_roused : Aside roused :=
  ⟨fun _ _ _ _ _ => rfl, fun _ => rfl⟩

theorem aside_logged (place : UInt32 → UInt32) (current : UInt32) (line : Unit → Bytes) :
    Aside (logged place current line) where
  refit session eval state result heap := by
    obtain ⟨executor, ⟨_, _, _, _, journal, _, _, _, _, _⟩⟩ := session
    cases journal <;> rfl
  promise _ := rfl

end Session

namespace Exec

theorem wait_of_commutes {α : Type} {operation : Exec α}
    (commutes : Commutes Session.roused operation) {session : Session}
    (wait : session.executor.wait = none) : (ending (operation session)).executor.wait = none := by
  have roused : session.roused = session := by
    unfold Session.roused
    rw [← wait]
  rw [← commutes.fixed roused]
  rfl

/-! ## The start of a call -/

/-- Putting operands on the stack of a running executor either succeeds or ends execution. -/
theorem pushAll_state {words : Array Word} {session after : Session}
    (running : session.executor.state = .running)
    (ran : (words.forM push : Exec Unit) session = .ok () after) :
    after.executor.state = .running ∨ after.executor.state = .stackOverflow := by
  obtain ⟨items⟩ := words
  rw [Array.forM_eq_forM, List.forM_toArray] at ran
  have start : session.executor.state = .running ∨ session.executor.state = .stackOverflow :=
    Or.inl running
  clear running
  induction items generalizing session with
  | nil =>
    cases ran
    exact start
  | cons word rest ih =>
    change EStateM.bind (push word) (fun _ => rest.forM push) session = _ at ran
    refine ih ran ?_
    change (session.executor.push word).state = _ ∨ (session.executor.push word).state = _
    unfold Executor.push
    split
    · exact start
    · rw [Executor.fail_eq]
      rcases start with running | full
      · exact Or.inr (if_pos running)
      · refine Or.inr ?_
        change (if session.executor.state = .running then _ else session.executor.state) = _
        rw [full]
        rfl

end Exec

namespace Invocation

variable (invocation : Invocation)

theorem make_eq (mode : CallMode) :
    invocation.make mode = invocation.resolve >>= fun found =>
      match found with
      | some (target, count) => Exec.call target count mode.code
      | none => pure () := by
  cases invocation with
  | direct target count => rfl
  | dynamic count =>
    unfold make resolve Exec.callDynamic
    simp only [bind_assoc]
    refine bind_congr fun callee => ?_
    by_cases isRef : callee.isRef = true
    · simp only [isRef, if_true, bind_assoc]
      refine bind_congr fun fields => ?_
      cases fields.back? with
      | none => simp only [bind_assoc, pure_bind, bind_pure_unit]
      | some target =>
        simp only [bind_assoc, pure_bind]
        refine bind_congr fun _ => bind_congr fun running => ?_
        cases running <;> rfl
    · simp only [isRef]
      rfl

theorem make_of_resolve (mode : CallMode) (session : Session) :
    invocation.make mode session =
      match invocation.resolve session with
      | .ok (some (target, count)) after => Exec.call target count mode.code after
      | .ok none after => .ok () after
      | .error fault after => .error fault after := by
  rw [make_eq]
  change EStateM.bind _ _ session = _
  unfold EStateM.bind
  cases invocation.resolve session with
  | error fault after => rfl
  | ok found after => cases found <;> rfl

theorem indifferent_resolve : Exec.Indifferent invocation.resolve := by
  cases invocation with
  | direct target count => exact Exec.indifferent_pure _
  | dynamic count =>
    refine Exec.indifferent_pop.bind fun callee => .ite ?_ (Exec.indifferent_pure _)
    refine (Exec.indifferent_look _).bind fun fields => ?_
    cases fields.back? with
    | none => exact (Exec.indifferent_fail _).bind fun _ => Exec.indifferent_pure _
    | some target =>
      exact (Exec.indifferent_pushAll _).bind fun _ =>
        Exec.indifferent_isRunning.bind fun _ => Exec.indifferent_pure _

/-- A running executor that finds the target runs on; otherwise it has ended. -/
theorem resolve_state {session after : Session} {found : Option (UInt32 × Nat)}
    (running : session.executor.state = .running)
    (ran : invocation.resolve session = .ok found after) :
    (∃ target, found = some target ∧ after.executor.state = .running) ∨
      (found = none ∧ after.executor.state.isTerminal = true) := by
  cases invocation with
  | direct target count =>
    cases ran
    exact Or.inl ⟨_, rfl, running⟩
  | dynamic count =>
    obtain ⟨callee, taken, popped, ran⟩ := Exec.bind_eq_ok ran
    rw [← Exec.onEval_running popped] at running
    by_cases isRef : callee.isRef = true
    · rw [if_pos isRef] at ran
      obtain ⟨fields, _, looked, ran⟩ := Exec.bind_eq_ok ran
      rw [Exec.look_keeps looked] at ran
      cases last : fields.back? with
      | none =>
        rw [last] at ran
        cases ran
        refine Or.inr ⟨rfl, ?_⟩
        change (taken.executor.fail .invalidAssembly).state.isTerminal = true
        rw [Executor.fail_eq, running]
        rfl
      | some target =>
        rw [last] at ran
        obtain ⟨_, filled, pushed, ran⟩ := Exec.bind_eq_ok ran
        cases ran
        rcases Exec.pushAll_state running pushed with runs | full
        · exact Or.inl
            ⟨(target.bits32, count + fields.pop.size), if_pos (beq_iff_eq.2 runs), runs⟩
        · simp only [full]
          exact Or.inr ⟨rfl, rfl⟩
    · rw [if_neg isRef] at ran
      cases ran
      exact Or.inl ⟨_, rfl, running⟩

end Invocation

namespace Session

/-- The ground of a call that takes its caller's place. -/
def freed (session : Session) : Ground :=
  ⟨session.executor.consts.slots.shrink session.executor.consts.base,
    session.executor.calls.frames⟩

def kept (session : Session) (returnTo : UInt32) : Ground :=
  ⟨session.executor.consts.slots,
    session.executor.calls.frames.push
      ⟨returnTo, session.executor.consts.base, session.executor.consts.top, false⟩⟩

theorem size_freed {session : Session}
    (window : session.executor.consts.base ≤ session.executor.consts.top) :
    session.freed.slots.size = session.executor.consts.base := by
  unfold ConstStack.top at window
  unfold freed
  rw [Array.size_shrink, Nat.min_eq_left window]

theorem freed_le_kept (session : Session) (returnTo : UInt32) :
    session.freed.slots.size ≤ (session.kept returnTo).slots.size := by
  unfold freed kept
  rw [Array.size_shrink]
  exact Nat.min_le_right _ _

theorem size_frames_kept (session : Session) (returnTo : UInt32) :
    (session.kept returnTo).frames.size = session.freed.frames.size + 1 :=
  Array.size_push _

theorem frames_freed_le_kept (session : Session) (returnTo : UInt32) :
    session.freed.frames.size ≤ (session.kept returnTo).frames.size := by
  rw [size_frames_kept]
  exact Nat.le_succ _

/-- A call that has just begun has no constants and frames of its own. -/
theorem on_start (session : Session) (ground : Ground) :
    session.on ground {} =
      session.under ⟨session.executor.consts.capacity, ground.slots.size, ground.slots⟩
        ⟨session.executor.calls.limit, ground.frames⟩ := by
  unfold on Growth.consts Growth.calls
  simp

end Session

namespace Exec

variable {session : Session} (target : UInt32) (count : Nat)

theorem call_tail (window : session.executor.consts.base ≤ session.executor.consts.top) :
    call target count CallMode.tail.code session =
      .ok () ((session.placed target).on session.freed {}) := by
  unfold ConstStack.top at window
  rw [Session.on_start]
  unfold Session.freed
  dsimp only
  rw [Array.size_shrink, Nat.min_eq_left window]
  rfl

theorem call_normal (room : session.executor.calls.frames.size < session.executor.calls.limit) :
    call target count CallMode.normal.code session =
      .ok () ((session.placed target).on (session.kept session.executor.ip) {}) := by
  change EStateM.bind (enter false) _ session = _
  unfold EStateM.bind enter
  dsimp only
  rw [if_pos room, Session.on_start]
  rfl

theorem call_full (full : ¬ session.executor.calls.frames.size < session.executor.calls.limit) :
    call target count CallMode.normal.code session =
      .ok () ⟨session.executor.fail .stackOverflow, session.shared⟩ := by
  change EStateM.bind (enter false) _ session = _
  unfold EStateM.bind enter
  dsimp only
  rw [if_neg full]
  rfl

end Exec

/-- The call of an instruction is made in the mode that the instruction says. -/
theorem Session.Calls.issue_eq {session : Session} {invocation : Invocation} {mode : CallMode}
    (calls : session.Calls invocation mode) :
    ∃ next, Exec.issue session = invocation.make mode (session.fetched invocation.opcode next) := by
  have found := calls.found
  unfold invocation? at found
  split at found
  · next size instruction =>
      injection found with both
      injection both with same code
      rw [Exec.issue_some session instruction, ← same]
      unfold Invocation.make
      rw [← code]
      exact ⟨_, rfl⟩
  · next size instruction =>
      injection found with both
      injection both with same code
      rw [Exec.issue_some session instruction, ← same]
      unfold Invocation.make
      rw [← code]
      exact ⟨_, rfl⟩
  · cases found

namespace Session

variable {session : Session} {invocation : Invocation} (returnTo : UInt32)

theorem raise_isTerminal (session : Session) (fault : Fault) :
    (session.raise fault).executor.state.isTerminal = true := by
  unfold raise
  split <;> rfl

/-- Both calls begin alike, unless the target is not found or there is no room for a frame. -/
theorem Calls.start (calls : session.Calls invocation .tail)
    (window : session.executor.consts.base ≤ session.executor.consts.top)
    (wait : session.executor.wait = none) :
    ((session.carry Exec.issue).executor.state.isTerminal = true ∧
      (Session.carry (invocation.make .normal)
        (session.fetched invocation.opcode returnTo)).executor.state.isTerminal = true) ∨
    ∃ begun : Session, begun.executor.wait = none ∧ begun.executor.state = .running ∧
      Exec.issue session = .ok () (begun.on session.freed {}) ∧
      ((Session.carry (invocation.make .normal)
          (session.fetched invocation.opcode returnTo)).executor.state = .stackOverflow ∨
        Session.carry (invocation.make .normal) (session.fetched invocation.opcode returnTo) =
          begun.on (session.kept returnTo) {}) := by
  obtain ⟨next, issued⟩ := calls.issue_eq
  have kept := invocation.indifferent_resolve.keeps (session.fetched invocation.opcode next)
  have placed := Exec.commutes_resolve (aside_placed returnTo) invocation
    (session.fetched invocation.opcode next)
  have roused := Exec.wait_of_commutes (Exec.commutes_resolve aside_roused invocation)
    (show (session.fetched invocation.opcode next).executor.wait = none from wait)
  change invocation.resolve (session.fetched invocation.opcode returnTo) = _ at placed
  unfold carry
  rw [issued, Invocation.make_of_resolve, Invocation.make_of_resolve, placed]
  cases ran : invocation.resolve (session.fetched invocation.opcode next) with
  | error fault after => exact Or.inl ⟨after.raise_isTerminal fault, raise_isTerminal _ fault⟩
  | ok found middle =>
    rw [ran] at kept roused
    have consts : middle.executor.consts = session.executor.consts := kept.1
    have frames : middle.executor.calls = session.executor.calls := kept.2
    have runs : (session.fetched invocation.opcode next).executor.state = .running := calls.running
    rcases invocation.resolve_state runs ran with ⟨target, rfl, running⟩ | ⟨rfl, ended⟩
    · obtain ⟨target, count⟩ := target
      have freed : middle.freed = session.freed := by
        unfold Session.freed
        rw [consts, frames]
      have kept : (middle.placed returnTo).kept returnTo = session.kept returnTo := by
        unfold Session.kept Session.placed
        dsimp only
        rw [consts, frames]
      refine Or.inr ⟨middle.placed target, roused, running, ?_, ?_⟩
      · rw [← freed]
        refine Exec.call_tail target count ?_
        rw [consts]
        exact window
      · unfold Exec.changed
        dsimp only
        rw [← kept]
        by_cases room : middle.executor.calls.frames.size < middle.executor.calls.limit
        · have called := Exec.call_normal target count
            (show (middle.placed returnTo).executor.calls.frames.size <
              (middle.placed returnTo).executor.calls.limit from room)
          rw [called]
          exact Or.inr rfl
        · have called := Exec.call_full target count
            (show ¬ (middle.placed returnTo).executor.calls.frames.size <
              (middle.placed returnTo).executor.calls.limit from room)
          rw [called, Executor.fail_eq]
          exact Or.inl (if_pos running)
    · exact Or.inl ⟨ended, ended⟩

/-! ## Runs on two grounds -/

section

variable {below other : Ground} {first second : Session}

theorem Twins.state_eq (twins : Twins below other first second) :
    second.executor.state = first.executor.state := by
  obtain ⟨session, growth, _, _, rfl, rfl⟩ := twins
  rfl

theorem Twins.settled (twins : Twins below other first second) : first.Settled := by
  obtain ⟨session, growth, _, settled, rfl, _⟩ := twins
  exact settled

theorem Twins.under_eq (twins : Twins below other first second) :
    second = first.under second.executor.consts second.executor.calls := by
  obtain ⟨session, growth, _, _, rfl, rfl⟩ := twins
  rfl

theorem Twins.size_eq (twins : Twins below other first second) :
    second.executor.calls.frames.size + below.frames.size =
      first.executor.calls.frames.size + other.frames.size := by
  obtain ⟨session, growth, _, _, rfl, rfl⟩ := twins
  have size : ∀ ground : Ground, (session.on ground growth).executor.calls.frames.size =
      ground.frames.size + growth.frames.length := fun ground => growth.size_calls ground _
  rw [size, size]
  omega

/-- A call returns on both grounds at the same time. -/
theorem Twins.returns_iff (twins : Twins below other first second) :
    second.Returns other.frames.size ↔ first.Returns below.frames.size := by
  have size := twins.size_eq
  have state := twins.state_eq
  have instruction : second.instruction? = first.instruction? := by
    rw [twins.under_eq]
    rfl
  constructor
  · rintro ⟨running, found, depth⟩
    rw [state] at running
    rw [instruction] at found
    exact ⟨running, found, by omega⟩
  · rintro ⟨running, found, depth⟩
    rw [← state] at running
    rw [← instruction] at found
    exact ⟨running, found, by omega⟩

theorem Twins.outside (twins : Twins below other first second) (change : Platform → Platform) :
    Twins below other (first.outside change) (second.outside change) := by
  obtain ⟨session, growth, grounded, settled, rfl, rfl⟩ := twins
  exact ⟨session.outside change, growth, grounded, settled, rfl, rfl⟩

theorem twins_carry {computation : Exec Unit}
    (abreast : Exec.Abreast below other (computation first) (computation second)) :
    Twins below other (first.carry computation) (second.carry computation) ∨
      (second.carry computation).executor.state = .stackOverflow := by
  unfold carry
  rcases abreast with both | full
  · generalize computation first = result at both
    generalize computation second = otherResult at both
    cases both with
    | ok twins => exact Or.inl twins
    | @error fault session growth grounded =>
      refine Or.inl ⟨session.raise fault, growth, grounded, ?_, ?_, ?_⟩
      · intro running
        have ended := session.raise_isTerminal fault
        rw [running] at ended
        cases ended
      · obtain ⟨executor, shared⟩ := session
        obtain ⟨_, _, _, _, _, _, fault, _, _, _⟩ := shared
        cases fault <;> rfl
      · obtain ⟨executor, shared⟩ := session
        obtain ⟨_, _, _, _, _, _, fault, _, _, _⟩ := shared
        cases fault <;> rfl
  · cases ran : computation second with
    | ok value after =>
      rw [ran] at full
      exact Or.inr full.1
    | error fault after =>
      rw [ran] at full
      exact full.elim

/-- Up to its return a call goes on alike on both grounds, unless the second one has no room. -/
theorem Twins.move (lower : below.slots.size ≤ other.slots.size)
    (fewer : below.frames.size ≤ other.frames.size) (twins : Twins below other first second)
    (inside : ¬ first.Returns below.frames.size) :
    Twins below other first.move second.move ∨ second.move.executor.state = .stackOverflow := by
  have same := twins.state_eq
  unfold Session.move
  rw [same]
  cases state : first.executor.state with
  | running =>
    refine twins_carry (Exec.step_abreast lower fewer twins (same.trans state) ?_)
    intro size found
    refine Nat.lt_of_le_of_ne ?_ fun depth => inside ⟨state, ⟨size, found⟩, depth.symm⟩
    obtain ⟨session, growth, _, _, rfl, rfl⟩ := twins
    exact Nat.le_trans (Nat.le_add_right _ _) (Nat.le_of_eq (growth.size_calls below _).symm)
  | paused => exact twins_carry (Exec.indifferent_settle.abreast twins)
  | _ => exact Or.inl twins

end

section

variable {world : Nat → Platform → Platform}

theorem move_of_isTerminal {session : Session} (ended : session.executor.state.isTerminal = true) :
    session.move = session := by
  unfold move
  cases state : session.executor.state with
  | running | paused =>
    rw [state] at ended
    cases ended
  | _ => rfl

theorem isTerminal_of_full {session : Session} (full : session.executor.state = .stackOverflow) :
    session.executor.state.isTerminal = true := by
  rw [full]
  rfl

theorem alone_state {session : Session} {early late : Nat} (order : early ≤ late)
    (ended : (session.alone world early).executor.state.isTerminal = true) :
    (session.alone world late).executor.state = (session.alone world early).executor.state := by
  induction late, order using Nat.le_induction with
  | base => rfl
  | succ late _ ih =>
    rw [← ih] at ended
    have stays := move_of_isTerminal
      (show ((session.alone world late).outside (world late)).executor.state.isTerminal = true
        from ended)
    change (Session.move _).executor.state = _
    rw [stays]
    exact ih

theorem not_ended_of_running {session : Session} {count : Nat}
    (running : (session.alone world count).executor.state = .running) :
    ¬ session.executor.state.isTerminal = true := by
  intro ended
  have same : (session.alone world count).executor.state = session.executor.state :=
    alone_state (Nat.zero_le count) ended
  rw [← same, running] at ended
  cases ended

variable {below other : Ground} {first second : Session}

theorem alone_twins (lower : below.slots.size ≤ other.slots.size)
    (fewer : below.frames.size ≤ other.frames.size) (twins : Twins below other first second)
    (count : Nat)
    (inside : ∀ earlier < count, ¬ (first.alone world earlier).Returns below.frames.size) :
    Twins below other (first.alone world count) (second.alone world count) ∨
      (second.alone world count).executor.state = .stackOverflow := by
  induction count with
  | zero => exact Or.inl twins
  | succ count ih =>
    rcases ih fun earlier less => inside earlier (Nat.lt_succ_of_lt less)
      with twins | full
    · refine Twins.move lower fewer (twins.outside (world count)) fun returns => ?_
      exact inside count (Nat.lt_succ_self _) ⟨returns.running, returns.found, returns.depth⟩
    · exact Or.inr ((alone_state (Nat.le_succ count) (isTerminal_of_full full)).trans full)

/-- Unless the second ground has no room, the call returns on both after as many moves. -/
theorem endsAt_iff (lower : below.slots.size ≤ other.slots.size)
    (fewer : below.frames.size ≤ other.frames.size) (twins : Twins below other first second)
    {count : Nat} (room : (second.alone world count).executor.state ≠ .stackOverflow) :
    EndsAt (second.alone world) other.frames.size count ↔
      EndsAt (first.alone world) below.frames.size count := by
  have together : ∀ moves ≤ count,
      (∀ earlier < moves, ¬ (first.alone world earlier).Returns below.frames.size) →
        Twins below other (first.alone world moves) (second.alone world moves) := by
    intro moves order inside
    refine (alone_twins lower fewer twins moves inside).resolve_right fun full => room ?_
    exact (alone_state order (isTerminal_of_full full)).trans full
  constructor
  · rintro ⟨returns, before⟩
    have inside : ∀ earlier < count, ¬ (first.alone world earlier).Returns below.frames.size := by
      intro earlier
      induction earlier using Nat.strong_induction_on with
      | _ earlier ih =>
        intro less
        have twins := together earlier (Nat.le_of_lt less) fun sooner order =>
          ih sooner order (Nat.lt_trans order less)
        rw [← twins.returns_iff]
        exact before earlier less
    exact ⟨(together count (Nat.le_refl _) inside).returns_iff.1 returns, inside⟩
  · rintro ⟨returns, inside⟩
    refine ⟨(together count (Nat.le_refl _) inside).returns_iff.2 returns, fun earlier less => ?_⟩
    have twins := together earlier (Nat.le_of_lt less) fun sooner order =>
      inside sooner (Nat.lt_trans order less)
    rw [twins.returns_iff]
    exact inside earlier less

end

end Session

/-! ## The return to the caller -/

namespace Session

theorem like_logged {session : Session} {place : UInt32 → UInt32} {current : UInt32}
    {line : Unit → Bytes} (next : (session.logged place current line).next? = session.next?) :
    session.Like (session.logged place current line) := by
  refine ⟨rfl, next, ⟨line, rfl⟩, (aside_logged place current line).heap session, ?_⟩
  obtain ⟨executor, ⟨_, _, _, _, journal, _, _, _, _, _⟩⟩ := session
  cases journal <;> rfl

def backIn (session caller : Session) (returnTo : UInt32) : Session :=
  (session.placed returnTo).under
    ⟨session.executor.consts.capacity, caller.executor.consts.base, caller.executor.consts.slots⟩
    ⟨session.executor.calls.limit, caller.executor.calls.frames⟩

end Session

namespace Exec

variable {session : Session}

/-- An executor whose outermost call has returned has ended. -/
theorem finish_state {after : Session} (ran : finish session = .ok () after) :
    after.executor.state = .success := by
  have ends : ∀ {session after : Session}, (do
      let session ← get
      let left := session.executor.eval.size
      if left ≠ 0 then throw (.valuesLeft left)
      modifyExecutor fun executor => { executor with state := .success } : Exec Unit) session =
        .ok () after → after.executor.state = .success := by
    intro session after ran
    obtain ⟨_, _, got, ran⟩ := bind_eq_ok ran
    cases got
    dsimp only at ran
    split at ran
    · obtain ⟨_, _, thrown, _⟩ := bind_eq_ok ran
      cases thrown
    · cases ran
      rfl
  obtain ⟨_, _, got, ran⟩ := bind_eq_ok ran
  cases got
  dsimp only at ran
  split at ran
  · obtain ⟨_, _, _, ran⟩ := bind_eq_ok ran
    obtain ⟨_, _, _, ran⟩ := bind_eq_ok ran
    exact ends ran
  · exact ends ran

theorem wait_ret (wait : session.executor.wait = none) :
    (ending (ret session)).executor.wait = none := by
  cases last : session.executor.calls.frames.back? with
  | none =>
    rw [ret_none last]
    exact wait_of_commutes (commutes_finish Session.aside_roused) wait
  | some frame =>
    rw [ret_some last]
    exact wait_of_commutes (commutes_deliver Session.aside_roused frame.lazy) wait

/-- A return does not depend on the constants it drops, nor on where it stands. -/
theorem ret_alike {consts : ConstStack} (same : consts.release = session.executor.consts.release)
    (place : UInt32 → UInt32) (current : UInt32) (line : Unit → Bytes) :
    Alike (ret session)
      (ret ((session.logged place current line).under consts session.executor.calls)) := by
  have alike : ∀ {operation : Exec Unit} {session : Session} (place : UInt32 → UInt32),
      Commutes (Session.logged place current line) operation →
      (∀ after, operation session = .ok () after →
        (after.logged place current line).next? = after.next?) →
      Alike (operation session) (operation (session.logged place current line)) := by
    intro operation session place commutes next
    rw [commutes]
    cases ran : operation session with
    | ok value after => exact .ok (Session.like_logged (next after ran))
    | error fault after => exact .error
  cases last : session.executor.calls.frames.back? with
  | none =>
    have otherLast : ((session.logged place current line).under consts
        session.executor.calls).executor.calls.frames.back? = none := last
    rw [ret_none last, ret_none otherLast]
    unfold Session.under
    dsimp only
    rw [same]
    refine alike place (commutes_finish (Session.aside_logged place current line)) ?_
    intro after ran
    unfold Session.next? Session.logged
    rw [finish_state ran]
    rfl
  | some frame =>
    have otherLast : ((session.logged place current line).under consts
        session.executor.calls).executor.calls.frames.back? = some frame := last
    rw [ret_some last, ret_some otherLast]
    unfold Session.under
    dsimp only
    rw [same]
    exact alike id (commutes_deliver (Session.aside_logged id current line) frame.lazy)
      fun _ _ => rfl

/-- The callee gives its caller the window and the frames back that it was called with. -/
theorem ret_kept (caller session : Session) (returnTo : UInt32) (slots : Array Word) :
    ret (session.on (caller.kept returnTo) ⟨0, slots, []⟩) =
      .ok () (session.backIn caller returnTo) := by
  have frames : (Growth.calls ⟨0, slots, []⟩ (caller.kept returnTo)
      session.executor.calls.limit).frames = caller.executor.calls.frames.push
        ⟨returnTo, caller.executor.consts.base, caller.executor.consts.top, false⟩ := by
    simp [Growth.calls, Session.kept]
  have last : (session.on (caller.kept returnTo) ⟨0, slots, []⟩).executor.calls.frames.back? =
      some ⟨returnTo, caller.executor.consts.base, caller.executor.consts.top, false⟩ := by
    change (Growth.calls _ _ _).frames.back? = _
    rw [frames, Array.back?_push]
  rw [ret_some last]
  unfold Session.on Session.under
  dsimp only
  rw [frames, Array.pop_push, release_above]
  have slots : ((Growth.consts ⟨0, slots.shrink 0, []⟩ (caller.kept returnTo)
      session.executor.consts.capacity).leave caller.executor.consts.base
        caller.executor.consts.top) =
      ⟨session.executor.consts.capacity, caller.executor.consts.base,
        caller.executor.consts.slots⟩ := by
    unfold ConstStack.leave Growth.consts Session.kept ConstStack.top
    simp
  rw [slots]
  rfl

theorem issue_ret {size : Nat} (found : session.instruction? = some (.ret, size)) :
    issue session = ret (session.fetched .ret (session.executor.ip + UInt32.ofNat size)) :=
  issue_some session found

theorem step_ret {size : Nat} (wait : session.executor.wait = none)
    (found : session.instruction? = some (.ret, size)) :
    step session = ret (session.fetched .ret (session.executor.ip + UInt32.ofNat size)) := by
  rw [← issue_ret found]
  refine step_eq_issue ?_
  rw [issue_ret found]
  exact wait_ret wait

end Exec

namespace Session

variable {session first second : Session} {returnTo : UInt32} {size : Nat}

/-- The callee returns to the return of its caller, which then comes to the same as the return of
the callee in its place. -/
theorem Returns.alike (window : session.executor.consts.base ≤ session.executor.consts.top)
    (twins : Twins session.freed (session.kept returnTo) first second)
    (returns : first.Returns session.freed.frames.size)
    (found : Exec.fetch? first.shared.assembly.code returnTo.toNat = some (.ret, size)) :
    ∃ middle, Exec.step second = .ok () middle ∧ middle.executor.ip = returnTo ∧
      middle.Returns session.executor.calls.frames.size ∧
        Exec.Alike (Exec.step first) (Exec.step middle) := by
  obtain ⟨common, ⟨base, slots, frames⟩, grounded, settled, rfl, rfl⟩ := twins
  obtain ⟨running, ⟨length, instruction⟩, depth⟩ := returns
  have depth : session.freed.frames.size + frames.length = session.freed.frames.size :=
    (Growth.size_calls ⟨base, slots, frames⟩ _ _).symm.trans depth
  obtain rfl : frames = [] := List.length_eq_zero_iff.1 (by omega)
  obtain rfl : base = 0 := grounded
  have wait : common.executor.wait = none := settled running
  have steps : ∀ ground : Ground, Exec.step (common.on ground ⟨0, slots, []⟩) =
      Exec.ret ((common.fetched .ret (common.executor.ip + UInt32.ofNat length)).on ground
        ⟨0, slots, []⟩) := by
    intro ground
    exact Exec.step_ret (show (common.on ground ⟨0, slots, []⟩).executor.wait = none from wait)
      instruction
  rw [steps, steps, Exec.ret_kept]
  generalize common.executor.ip + UInt32.ofNat length = next
  have again : ((common.fetched .ret next).backIn session returnTo).instruction? =
      some (.ret, size) := by
    change Exec.fetch? (common.fetched .ret next).shared.assembly.code returnTo.toNat = _
    rw [(Exec.keeps_fetched common .ret next).assembly]
    exact found
  have outer := Exec.step_ret
    (show ((common.fetched .ret next).backIn session returnTo).executor.wait = none from wait) again
  have dropped : ((common.fetched .ret next).backIn session returnTo).executor.consts.release =
      ((common.fetched .ret next).on session.freed ⟨0, slots, []⟩).executor.consts.release := by
    change _ = (Growth.consts ⟨0, slots, []⟩ session.freed common.executor.consts.capacity).release
    unfold ConstStack.top at window
    rw [Exec.release_above]
    simp [backIn, under, fetched, placed, Growth.consts, ConstStack.release, freed, window]
  have calls : ((common.fetched .ret next).on session.freed ⟨0, slots, []⟩).executor.calls =
      ⟨common.executor.calls.limit, session.executor.calls.frames⟩ := by
    simp [on, under, fetched, Growth.calls, freed]
  have alike := Exec.ret_alike dropped (fun _ => returnTo + UInt32.ofNat size) returnTo fun _ =>
    Exec.instructionLine common.executor.id (common.fetched .ret next).shared.assembly.code
      returnTo.toNat .ret
  rw [calls] at alike
  refine ⟨_, rfl, rfl, ⟨running, ⟨size, again⟩, rfl⟩, ?_⟩
  rw [outer]
  exact alike

/-! ## Tail calls -/

theorem keeps_move (session : Session) : session.Keeps session.move := by
  unfold move
  split
  · exact keeps_carry Exec.keeping_step session
  · exact keeps_carry Exec.indifferent_settle.keeping session
  · exact .refl session

theorem keeps_alone (world : Nat → Platform → Platform) (session : Session) (count : Nat) :
    session.Keeps (session.alone world count) := by
  induction count with
  | zero => exact .refl session
  | succ count ih =>
    have outside : (session.alone world count).Keeps
        ((session.alone world count).outside (world count)) :=
      ⟨rfl, rfl, fun bounded => ⟨bounded.own, bounded.spawned⟩⟩
    exact ih.trans (outside.trans (keeps_move _))

variable {invocation : Invocation} {world : Nat → Platform → Platform}

theorem Calls.move_eq (calls : session.Calls invocation .tail)
    (wait : session.executor.wait = none) : session.move = session.carry Exec.issue := by
  obtain ⟨next, issued⟩ := calls.issue_eq
  have roused := Exec.wait_of_commutes (Exec.commutes_resolve aside_roused invocation)
    (show (session.fetched invocation.opcode next).executor.wait = none from wait)
  have last : (Exec.ending (Exec.issue session)).executor.wait = none := by
    rw [issued, Invocation.make_of_resolve]
    cases ran : invocation.resolve (session.fetched invocation.opcode next) with
    | error fault middle =>
      rw [ran] at roused
      exact roused
    | ok found middle =>
      rw [ran] at roused
      cases found <;> exact roused
  unfold move carry
  rw [calls.running, Exec.step_eq_issue last]

theorem Bounded.limit_eq {after : Session} (bounded : session.Bounded)
    (keeps : session.Keeps after) : after.executor.calls.limit = session.executor.calls.limit := by
  rw [(keeps.bounded bounded).own.frameRoom, keeps.settings, bounded.own.frameRoom]

theorem calls_eq_of_on {begun : Session} {growth : Growth}
    (limit : begun.executor.calls.limit = session.executor.calls.limit)
    (nothing : growth.frames = []) :
    (begun.on session.freed growth).executor.calls = session.executor.calls := by
  unfold on under Growth.calls freed
  rw [limit, nothing]
  simp

/-- A tail call leaves the frames as they are and its caller's window empty. -/
theorem Calls.frames_eq (calls : session.Calls invocation .tail) (bounded : session.Bounded)
    (wait : session.executor.wait = none)
    (running : (session.carry Exec.issue).executor.state = .running) :
    (session.carry Exec.issue).executor.calls = session.executor.calls ∧
      (session.carry Exec.issue).executor.consts.base = session.executor.consts.base ∧
      (session.carry Exec.issue).executor.consts.top = session.executor.consts.base := by
  have limit := bounded.limit_eq (keeps_carry Exec.keeping_issue session)
  have window := bounded.own.window
  rcases calls.start 0 window wait with ⟨ended, _⟩ | ⟨begun, _, _, issued, _⟩
  · rw [running] at ended
    cases ended
  · have same : session.carry Exec.issue = begun.on session.freed {} := by
      unfold carry
      rw [issued]
    rw [same] at limit ⊢
    refine ⟨calls_eq_of_on limit rfl, size_freed window, ?_⟩
    rw [on_start]
    exact size_freed window

/-- How a tail call goes on, next to the same call in normal mode with the address of a return to
return to. -/
structure TailCall (session : Session) (returnTo : UInt32) (world : Nat → Platform → Platform)
    (tail normal : Nat → Session) : Prop where
  /-- If the callee returns to its caller, so it does without its caller. -/
  returns : ∀ count, EndsAt normal (session.executor.calls.frames.size + 1) count →
    EndsAt tail session.executor.calls.frames.size count
  /-- And the other way round, if there is room for the caller's frame and constants. -/
  conversely : ∀ count, EndsAt tail session.executor.calls.frames.size count →
    (normal count).executor.state = .stackOverflow ∨
      EndsAt normal (session.executor.calls.frames.size + 1) count
  /-- The callee then returns to the caller's return, and this comes to the same as the return of
  the callee alone. -/
  alike : ∀ count, EndsAt normal (session.executor.calls.frames.size + 1) count →
    (normal (count + 1)).executor.ip = returnTo ∧
      (normal (count + 1)).Returns session.executor.calls.frames.size ∧
      Exec.Alike (Exec.step ((tail count).outside (world count))) (Exec.step (normal (count + 1)))
  /-- Until then both are the same, but that the normal call has one frame more. -/
  during : (tail 0).executor.state = .running →
    ∀ count, (∀ earlier < count, ¬ (tail earlier).Returns session.executor.calls.frames.size) →
      (normal count).executor.state = .stackOverflow ∨
        (normal count).executor.calls.frames.size = (tail count).executor.calls.frames.size + 1 ∧
          normal count =
            (tail count).under (normal count).executor.consts (normal count).executor.calls
  /-- The callee begins with its caller's frames, and with the base of its caller's window as
  top. -/
  begins : (tail 0).executor.state = .running →
    (tail 0).executor.calls = session.executor.calls ∧
      (tail 0).executor.consts.base = session.executor.consts.base ∧
      (tail 0).executor.consts.top = session.executor.consts.base
  /-- So it goes on whenever no further call is in progress. -/
  level : ∀ count,
    (∀ earlier < count, ¬ (tail earlier).Returns session.executor.calls.frames.size) →
    (tail count).executor.state = .running →
    (tail count).executor.calls.frames.size = session.executor.calls.frames.size →
      (tail count).executor.calls = session.executor.calls ∧
        (tail count).executor.consts.base = session.executor.consts.base
  consecutive : ∀ count next,
    (∀ earlier < count, ¬ (tail earlier).Returns session.executor.calls.frames.size) →
    (tail count).Calls next .tail → (tail (count + 1)).executor.state = .running →
      (tail (count + 1)).executor.calls = (tail count).executor.calls ∧
        (tail (count + 1)).executor.consts.base = (tail count).executor.consts.base ∧
        (tail (count + 1)).executor.consts.top = (tail count).executor.consts.base

/-- The two calls go on alike from the start, unless neither or only the tail call begins. -/
theorem Calls.runs (calls : session.Calls invocation .tail)
    (window : session.executor.consts.base ≤ session.executor.consts.top)
    (wait : session.executor.wait = none) (world : Nat → Platform → Platform) (returnTo : UInt32) :
    ((session.tailRun world 0).executor.state.isTerminal = true ∧
      (session.normalRun world invocation returnTo 0).executor.state.isTerminal = true) ∨
    (Twins session.freed session.freed (session.tailRun world 0) (session.tailRun world 0) ∧
      ((session.normalRun world invocation returnTo 0).executor.state = .stackOverflow ∨
        Twins session.freed (session.kept returnTo) (session.tailRun world 0)
          (session.normalRun world invocation returnTo 0))) := by
  rcases calls.start returnTo window wait with ended | ⟨begun, waits, running, issued, begins⟩
  · exact Or.inl ended
  · have same : session.tailRun world 0 = begun.on session.freed {} := by
      change session.carry Exec.issue = _
      unfold carry
      rw [issued]
    rw [same]
    refine Or.inr ⟨begun.twins_on {} rfl fun _ => waits, ?_⟩
    rcases begins with full | begun_on
    · exact Or.inl full
    · change session.normalRun world invocation returnTo 0 = _ at begun_on
      rw [begun_on]
      exact Or.inr (begun.twins_on {} rfl fun _ => waits)

section

variable (twins : Twins session.freed (session.kept returnTo) first second) {count : Nat}
include twins

/-- Two calls that begin alike go on so up to the return. -/
theorem twins_kept (inside : ∀ earlier < count,
      ¬ (first.alone world earlier).Returns session.executor.calls.frames.size) :
    Twins session.freed (session.kept returnTo) (first.alone world count)
        (second.alone world count) ∨
      (second.alone world count).executor.state = .stackOverflow :=
  alone_twins (freed_le_kept session returnTo) (frames_freed_le_kept session returnTo) twins count
    inside

theorem endsAt_kept_iff (room : (second.alone world count).executor.state ≠ .stackOverflow) :
    EndsAt (second.alone world) (session.executor.calls.frames.size + 1) count ↔
      EndsAt (first.alone world) session.executor.calls.frames.size count := by
  have same := endsAt_iff (freed_le_kept session returnTo) (frames_freed_le_kept session returnTo)
    twins room
  rw [size_frames_kept] at same
  exact same

theorem alike_kept (window : session.executor.consts.base ≤ session.executor.consts.top)
    (found : Exec.fetch? first.shared.assembly.code returnTo.toNat = some (.ret, size))
    (ends : EndsAt (second.alone world) (session.executor.calls.frames.size + 1) count) :
    (second.alone world (count + 1)).executor.ip = returnTo ∧
      (second.alone world (count + 1)).Returns session.executor.calls.frames.size ∧
      Exec.Alike (Exec.step ((first.alone world count).outside (world count)))
        (Exec.step (second.alone world (count + 1))) := by
  have room : (second.alone world count).executor.state ≠ .stackOverflow := by
    intro full
    cases ends.1.running.symm.trans full
  obtain ⟨returns, inside⟩ := (endsAt_kept_iff twins room).1 ends
  have together := ((twins_kept twins inside).resolve_right room).outside (world count)
  have code : Exec.fetch? (first.alone world count).shared.assembly.code returnTo.toNat =
      some (.ret, size) := by
    rw [(keeps_alone world first count).assembly]
    exact found
  obtain ⟨middle, stepped, ip, next, alike⟩ :=
    Returns.alike window together ⟨returns.running, returns.found, returns.depth⟩ code
  have moved : second.alone world (count + 1) = middle := by
    have running : ((second.alone world count).outside (world count)).executor.state = .running :=
      ends.1.running
    change move _ = _
    unfold move carry
    rw [running, stepped]
  rw [moved]
  exact ⟨ip, next, alike⟩

end

/-- With no return in between, a call has its caller's frames whenever it has as many. -/
theorem level_freed (twins : Twins session.freed session.freed first first) {count : Nat}
    (limit : (first.alone world count).executor.calls.limit = session.executor.calls.limit)
    (window : session.executor.consts.base ≤ session.executor.consts.top)
    (inside : ∀ earlier < count,
      ¬ (first.alone world earlier).Returns session.executor.calls.frames.size)
    (running : (first.alone world count).executor.state = .running)
    (depth : (first.alone world count).executor.calls.frames.size =
      session.executor.calls.frames.size) :
    (first.alone world count).executor.calls = session.executor.calls ∧
      (first.alone world count).executor.consts.base = session.executor.consts.base := by
  rcases alone_twins (Nat.le_refl _) (Nat.le_refl _) twins count inside with together | full
  · obtain ⟨begun, growth, grounded, _, same, _⟩ := together
    rw [same] at limit depth ⊢
    have size := (growth.size_calls session.freed begun.executor.calls.limit).symm.trans depth
    have nothing : growth.frames = [] :=
      List.length_eq_zero_iff.1 (Nat.add_eq_left.1 size)
    have base : growth.base = 0 := by
      unfold Growth.Grounded at grounded
      rw [nothing] at grounded
      exact grounded
    refine ⟨calls_eq_of_on limit nothing, ?_⟩
    change session.freed.slots.size + growth.base = _
    rw [base, size_freed window]
    rfl
  · rw [running] at full
    cases full

/-- A call in tail mode comes to the same as a call in normal mode that is followed by a return,
unless the latter has no room. No number of them needs more than one frame. -/
theorem tailCall_of_calls (bounded : session.Bounded) (wait : session.executor.wait = none)
    (calls : session.Calls invocation .tail)
    (found : Exec.fetch? session.shared.assembly.code returnTo.toNat = some (.ret, size))
    (world : Nat → Platform → Platform) :
    session.TailCall returnTo world (session.tailRun world)
      (session.normalRun world invocation returnTo) := by
  have window := bounded.own.window
  have keeps : ∀ count, session.Keeps (session.tailRun world count) := fun count =>
    (keeps_carry Exec.keeping_issue session).trans (keeps_alone world _ count)
  have runs := calls.runs window wait world returnTo
  -- A run that gets anywhere has begun with its call.
  have begun : ∀ {count}, (session.tailRun world count).executor.state = .running →
      Twins session.freed session.freed (session.tailRun world 0) (session.tailRun world 0) ∧
        ((session.normalRun world invocation returnTo 0).executor.state = .stackOverflow ∨
          Twins session.freed (session.kept returnTo) (session.tailRun world 0)
            (session.normalRun world invocation returnTo 0)) := by
    intro count running
    exact runs.resolve_left fun ended => not_ended_of_running running ended.1
  have normalBegun : ∀ {count depth},
      EndsAt (session.normalRun world invocation returnTo) depth count →
        Twins session.freed (session.kept returnTo) (session.tailRun world 0)
          (session.normalRun world invocation returnTo 0) := by
    intro count depth ends
    have going := not_ended_of_running ends.1.running
    exact (runs.resolve_left fun ended => going ended.2).2.resolve_left fun full =>
      going (isTerminal_of_full full)
  -- With no room for its frame the normal call ends at once.
  have stays : (session.normalRun world invocation returnTo 0).executor.state = .stackOverflow →
      ∀ count, (session.normalRun world invocation returnTo count).executor.state =
        .stackOverflow := by
    intro full count
    exact (alone_state (Nat.zero_le count) (isTerminal_of_full full)).trans full
  constructor
  case returns =>
    intro count ends
    refine (endsAt_kept_iff (normalBegun ends) fun full => ?_).1 ends
    cases ends.1.running.symm.trans full
  case conversely =>
    intro count ends
    rcases (begun ends.1.running).2 with full | twins
    · exact Or.inl (stays full count)
    · by_cases full : (session.normalRun world invocation returnTo count).executor.state =
          .stackOverflow
      · exact Or.inl full
      · exact Or.inr ((endsAt_kept_iff twins full).2 ends)
  case alike =>
    intro count ends
    have code : Exec.fetch? (session.tailRun world 0).shared.assembly.code returnTo.toNat =
        some (.ret, size) := by
      rw [(keeps 0).assembly]
      exact found
    exact alike_kept (normalBegun ends) window code ends
  case during =>
    intro running count inside
    rcases (begun running).2 with full | twins
    · exact Or.inl (stays full count)
    · refine (twins_kept twins inside).symm.imp_right ?_
      intro twins
      have size : (session.normalRun world invocation returnTo count).executor.calls.frames.size +
          session.freed.frames.size = (session.tailRun world count).executor.calls.frames.size +
            (session.kept returnTo).frames.size := twins.size_eq
      rw [size_frames_kept] at size
      exact ⟨by omega, twins.under_eq⟩
  case begins => exact calls.frames_eq bounded wait
  case level =>
    intro count inside running depth
    exact level_freed (begun running).1 (bounded.limit_eq (keeps count)) window inside running depth
  case consecutive =>
    intro count next inside further running
    have again : ((session.tailRun world count).outside (world count)).Calls next .tail :=
      ⟨further.running, further.found⟩
    have settled : ((session.tailRun world count).outside (world count)).executor.wait = none := by
      refine ((alone_twins (Nat.le_refl _) (Nat.le_refl _) (begun further.running).1 count
        inside).resolve_right fun full => ?_).settled further.running
      cases further.running.symm.trans full
    have bounds := (keeps count).bounded bounded
    have bounds : ((session.tailRun world count).outside (world count)).Bounded :=
      ⟨bounds.own, bounds.spawned⟩
    have moved : session.tailRun world (count + 1) =
        ((session.tailRun world count).outside (world count)).carry Exec.issue :=
      again.move_eq settled
    rw [moved] at running ⊢
    exact again.frames_eq bounds settled running

/-- A session about to make a tail call, with a constant and in a call that returns to the return
at 7. The callee at 8 reserves a constant and returns. -/
def yielding : Session where
  executor := {
    Executor.start { evalStack := 4, constStack := 4, callStack := 4 } 0 with
    consts := ⟨4, 0, #[5]⟩
    calls := ⟨4, #[⟨7, 0, 0, false⟩]⟩ }
  shared := (Machine.new
    { code := ⟨#[0x92, 8, 0, 0, 0, 0, 1, 0x95, 0x10, 1, 0x95]⟩, literals := #[], entries := #[0] }
    { evalStack := 4, constStack := 4, callStack := 4 } default .off).shared

theorem tailCall_of_calls_yielding :
    EndsAt (yielding.normalRun (fun _ => id) (.direct 8 0) 7) 2 1 ∧
      EndsAt (yielding.tailRun fun _ => id) 1 1 ∧
      (yielding.tailRun (fun _ => id) 0).executor.consts.top = 0 := by
  have bounded : yielding.Bounded := by
    constructor
    case own => exact {
      operandRoom := rfl
      constRoom := rfl
      frameRoom := rfl
      operands := Nat.zero_le _
      window := Nat.zero_le _
      consts := by decide
      frames := by decide
      stacked := ⟨rfl, Nat.le_refl _, rfl⟩ }
    case spawned => exact fun _ nobody => nomatch nobody
  have calls : yielding.Calls (.direct 8 0) .tail := ⟨rfl, by decide⟩
  have agrees := tailCall_of_calls bounded rfl calls
    (show Exec.fetch? yielding.shared.assembly.code (7 : UInt32).toNat = some (.ret, 1)
      by decide) fun _ => id
  have ends : EndsAt (yielding.normalRun (fun _ => id) (.direct 8 0) 7) 2 1 := by
    refine ⟨⟨by decide, ⟨1, by decide⟩, by decide⟩, fun earlier less => ?_⟩
    obtain rfl : earlier = 0 := by omega
    have other : (yielding.normalRun (fun _ => id) (.direct 8 0) 7 0).instruction? =
        some (.reserveConsts, 2) := by decide
    rintro ⟨_, ⟨size, found⟩, _⟩
    rw [other] at found
    cases found
  exact ⟨ends, agrees.returns 1 ends, (agrees.begins (by decide)).2.2⟩

end Session

end WordMachine
