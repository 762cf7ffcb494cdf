import WordMachine.Proofs.InstructionPlans
import WordMachine.Proofs.OrderlyCourses
import WordMachine.Proofs.FutureHistories
import WordMachine.Proofs.HeapContents

/-!
Every instruction is orderly, and so is what is left of one after its executor has waited. Only
platform calls and waits for a future pause.
-/

namespace WordMachine

/-- A future that is done has the state in which an executor ended. -/
def Payload.Concluded (payload : Payload) : Prop :=
  ∀ value state, payload = .future (some (value, state)) → state.isTerminal = true

theorem Heap.Each.outcome {heap : Heap} (concluded : heap.Each Payload.Concluded)
    {word value : Word} {state : ExecState}
    (known : heap.outcome word = .ok (some (value, state))) : state.isTerminal = true := by
  obtain ⟨_, object, found, holds⟩ := outcome_eq_ok.1 known
  exact concluded.lookup? found value state holds

/-- Whether an instruction may wait. -/
def Opcode.Blocks : Opcode → Prop
  | .platformCall | .await | .awaitFor => True
  | _ => False

namespace Exec.Course

variable {mayPause : Prop} {session : Session}

/-! ## Plans -/

/-- A plan that may wait, but takes over no end of another executor. -/
def waiting (mayPause : Prop) : Rights where
  target _ := True
  pauses := mayPause
  shares := True
  adopts := False

/-- Until its last action a planned course goes on. -/
theorem Plan.conduct {rights : Rights} {α : Type} {computation : Exec α}
    {course : Course computation} {stops : Bool} {start stop : Nat}
    (plan : Plan rights course stops start stop) (own : ¬rights.adopts) :
    (stops = false → course.Steady) ∧ course.Orderly rights.pauses := by
  have steady {α : Type} {computation : Exec α} {course : Course computation} {stops : Bool}
      (steady : course.Steady) : (stops = false → course.Steady) ∧ course.Orderly rights.pauses :=
    ⟨fun _ => steady, steady.orderly⟩
  induction plan with
  | done value => exact steady (steady_done value)
  | bind _ _ first next =>
    exact ⟨fun runs => (first.1 rfl).bind fun value => (next value).1 runs,
      (first.1 rfl).before fun value => (next value).2⟩
  | ite _ _ whenTrue whenFalse =>
    exact ⟨fun runs => (whenTrue.1 runs).ite (whenFalse.1 runs), .ite whenTrue.2 whenFalse.2⟩
  | @of _ _ _ _ same _ _ _ _ other =>
    subst same
    exact other
  | get _ _ each =>
    exact ⟨fun runs => steady_get.bind fun session => (each session).1 runs,
      steady_get.before fun session => (each session).2⟩
  | pop => exact steady steady_pop
  | popAt _ => exact steady (steady_popAt _)
  | popMany => exact steady (steady_popMany _)
  | peekBehind _ => exact steady (steady_peekBehind _)
  | push => exact ⟨nofun, orderly_push _⟩
  | fail ends => exact ⟨nofun, orderly_fail (ends.resolve_right own)⟩
  | resume => exact steady steady_resume
  | stay may => exact ⟨nofun, orderly_stay may _⟩
  | jump _ => exact steady (steady_jump _)
  | look => exact steady (steady_look _)
  | text => exact steady (steady_text _)
  | allocate _ => exact steady (steady_allocate? _)
  | pushStream _ => exact ⟨nofun, orderly_pushStream _⟩
  | modifyHeap _ => exact steady (steady_modifyHeap _)
  | setStream _ => exact steady (steady_setStream _ _)
  | platform => exact steady steady_platform
  | modifyPlatform _ => exact steady (steady_modifyPlatform _)
  | setPlatform _ => exact steady (steady_setPlatform _)
  | openFileStream _ => exact steady (steady_openFileStream _ _ _)

theorem Plan.orderly {rights : Rights} {α : Type} {computation : Exec α}
    {course : Course computation} {stops : Bool} {start stop : Nat}
    (plan : Plan rights course stops start stop) (own : ¬rights.adopts) :
    course.Orderly rights.pauses :=
  (plan.conduct own).2

/-! ## Waiting -/

theorem orderly_takeOutcome {outcome : Word × ExecState} (terminal : outcome.2.isTerminal = true) :
    (takeOutcome outcome).Orderly mayPause :=
  steady_resume.before fun _ => steady_pop.before fun _ =>
    .ite (orderly_push _) (orderly_fail terminal)

theorem peekBehind_eq_ok {depth : Nat} {word : Word} {middle : Session}
    (peeked : Exec.peekBehind depth session = .ok word middle) : middle = session := by
  unfold Exec.peekBehind at peeked
  split at peeked
  · cases peeked
    rfl
  · cases peeked

theorem peekStream_eq_ok {depth : Nat} {stream : Stream} {middle : Session}
    (peeked : Exec.peekStream depth session = .ok stream middle) : middle = session := by
  obtain ⟨word, after, found, looked⟩ := bind_eq_ok peeked
  obtain rfl := peekBehind_eq_ok found
  exact (look_eq_ok looked).1

/-- What follows a look at the future on top of the stack. -/
theorem before_outcome {α : Type} {next : Option (Word × ExecState) → Exec α}
    {late : ∀ outcome, Course (next outcome)} (live : session.IsLive)
    (concluded : session.shared.heap.Each Payload.Concluded)
    (orderly : ∀ outcome : Option (Word × ExecState),
      (∀ known, outcome = some known → known.2.isTerminal = true) →
        (late outcome).Orderly mayPause) :
    (peek.bind fun word => (look (·.outcome word)).bind late).OrderlyAt mayPause session := by
  refine (steady_peek session live).before live fun word middle peeked _ => ?_
  obtain rfl := peekBehind_eq_ok peeked
  refine (steady_look _ middle live).before live fun outcome after looked _ => ?_
  obtain ⟨rfl, known⟩ := look_eq_ok looked
  refine orderly outcome (fun result same => ?_) after live
  subst same
  exact concluded.outcome known

theorem orderlyAt_attemptFuture (may : mayPause) (live : session.IsLive)
    (concluded : session.shared.heap.Each Payload.Concluded) :
    attemptFuture.OrderlyAt mayPause session := by
  refine before_outcome live concluded fun outcome terminal => ?_
  cases outcome with
  | none => exact orderly_stay may _
  | some outcome => exact orderly_takeOutcome (terminal outcome rfl)

theorem orderlyAt_attempt (may : mayPause) (live : session.IsLive)
    (concluded : session.shared.heap.Each Payload.Concluded) (wait : Wait) :
    (attempt wait).OrderlyAt mayPause session := by
  by_cases joins : wait = .future
  · subst joins
    exact orderlyAt_attemptFuture may live concluded
  · have plan := @plan_attempt (waiting mayPause) 0 may wait (fun _ => trivial)
      fun same => joins same
    exact plan.orderly id session live

/-- The rest of an instruction whose executor has come back from its wait. -/
theorem orderlyAt_settle (live : session.IsLive)
    (concluded : session.shared.heap.Each Payload.Concluded) : settle.OrderlyAt True session := by
  unfold OrderlyAt settle Exec.settle
  cases waits : session.executor.wait with
  | none =>
    simp only [waits]
    exact .stops
  | some wait =>
    simp only [waits]
    exact orderlyAt_attempt trivial live concluded wait

/-! ## Calls -/

theorem orderly_fork (target : UInt32) (arguments : Array Word) :
    (fork target arguments).Orderly mayPause := by
  refine steady_get.before fun _ => .ite (orderly_fail rfl) ?_
  refine (steady_allocate? _).before fun found => ?_
  cases found with
  | none => exact orderly_fail rfl
  | some future => exact (steady_modifyShared _).before fun _ => orderly_push _

theorem orderly_call (target : UInt32) (count : Nat) (mode : UInt8) :
    (call target count mode).Orderly mayPause := by
  unfold call
  split
  · refine .of _ fun session live => before_enter live (fun middle lives => ?_) fun middle => ?_
    · exact .ite (fun _ => (steady_jump target).orderly middle lives) fun refused =>
        absurd rfl refused
    · exact ⟨rfl, id⟩
  · exact .of _ (steady_modifyExecutor (by exact fun _ => rfl)).orderly
  · exact .of _ ((steady_popMany count).before fun _ => orderly_fork _ _)
  · exact .of _ ((steady_popMany count).before fun _ => orderly_pushNew _)
  · exact .of _ (orderly_fail rfl)

theorem orderly_callDynamic (count : Nat) (mode : UInt8) :
    (callDynamic count mode).Orderly mayPause := by
  refine steady_pop.before fun callee => .ite ?_ (orderly_call _ _ _)
  refine (steady_look _).before fun fields => ?_
  generalize fields.back? = last
  cases last with
  | none => exact orderly_fail rfl
  | some target =>
    intro session live
    refine before_pushAll live (fun middle lives => ?_) fun middle stuck => ?_
    · exact steady_isRunning.before (fun _ => .ite (orderly_call _ _ _) (steady_done _).orderly)
        middle lives
    · have ended : (middle.executor.state == .running) = false := stuck.ended
      constructor
      · intro visited member
        change visited ∈ middle ::
          (if (middle.executor.state == .running) = true then _ else []) at member
        rw [ended] at member
        rw [List.mem_singleton.1 member]
        exact .refl middle
      · change ¬IsFault
          ((if (middle.executor.state == .running) = true then _ else _ : Exec Unit) middle)
        rw [ended]
        exact id

theorem orderly_succeed : succeed.Orderly mayPause :=
  steady_get.before fun _ =>
    .ite ((steady_throw _).before fun _ => orderly_become fun _ => rfl)
      (orderly_become fun _ => rfl)

theorem orderly_finish : finish.Orderly mayPause :=
  steady_get.before fun _ =>
    .ite
      (steady_pop.before fun _ => (steady_modifyExecutor (by exact fun _ => rfl)).before fun _ =>
        orderly_succeed)
      orderly_succeed

theorem orderly_ret : ret.Orderly mayPause := by
  refine Steady.before (steady_action (by exact fun _ live => live)) fun frame => ?_
  cases frame with
  | none => exact orderly_finish
  | some frame =>
    refine (steady_modifyExecutor (by exact fun _ => rfl)).before fun _ =>
      .ite ?_ (steady_done _).orderly
    exact steady_pop.before fun _ => steady_pop.before fun _ => (steady_look _).before fun _ =>
      (steady_modifyHeap _).before fun _ => orderly_push _

theorem orderlyAt_await (may : mayPause) (live : session.IsLive)
    (concluded : session.shared.heap.Each Payload.Concluded) : await.OrderlyAt mayPause session :=
  orderlyAt_attemptFuture may live concluded

theorem orderly_force : force.Orderly mayPause := by
  refine steady_peek.before fun word => (steady_look _).before fun delayed => ?_
  cases delayed with
  | forced value => exact steady_pop.before fun _ => orderly_push _
  | pending target arguments =>
    intro session live
    refine before_enter live
      (fun middle lives => .ite (fun _ => ?_) fun refused => absurd rfl refused)
      fun middle => ⟨rfl, id⟩
    refine before_pushAll lives (fun after runs => ?_) fun after stuck =>
      ⟨fun visited member => ?_, id⟩
    · exact (steady_jump target).orderly after runs
    · rw [List.mem_singleton.1 member]
      exact ⟨target, rfl⟩

/-! ## Platform calls -/

theorem orderlyAt_readString (may : mayPause) (live : session.IsLive)
    (fits : session.executor.eval.items.size ≤ session.executor.eval.capacity) :
    readString.OrderlyAt mayPause session := by
  refine (steady_popInt session live).before live fun number middle popped lives => ?_
  have room : HasRoom middle := by
    obtain ⟨word, after, taken, same⟩ := bind_eq_ok popped
    cases same
    exact room_pop fits taken
  refine (steady_peekStream 0 middle lives).before lives fun stream after peeked _ => ?_
  obtain rfl := peekStream_eq_ok peeked
  refine (steady_allocate? _ after lives).before lives fun found placed allocated runs => ?_
  cases found with
  | none => exact orderly_fail rfl placed runs
  | some word =>
    have same := allocate?_executor (.blank number.toInt.toNat) after
    rw [allocated] at same
    change placed.executor = after.executor at same
    have roomy : HasRoom placed := by
      unfold HasRoom at *
      rw [same]
      exact room
    exact (steadyAt_push runs roomy word).before runs fun _ last _ => orderly_stay may _ last

/-- The byte finds the place of the int that it is taken from. -/
theorem orderlyAt_writeStreamChar (may : mayPause) (live : session.IsLive)
    (fits : session.executor.eval.items.size ≤ session.executor.eval.capacity) :
    writeStreamChar.OrderlyAt mayPause session := by
  refine (steady_pop session live).before live fun word middle popped lives => ?_
  refine (steadyAt_push lives (room_pop fits popped) _).before lives fun _ last _ => ?_
  exact (steady_peekStream 1).before (fun _ => orderly_stay may _) last

theorem orderlyAt_platformCall (may : mayPause) (live : session.IsLive)
    (fits : session.executor.eval.items.size ≤ session.executor.eval.capacity)
    (call : PlatformCall) : (platformCall call).OrderlyAt mayPause session := by
  have planned {call : PlatformCall} (late : call.pushesEarly = false) :
      (platformCall call).OrderlyAt mayPause session := by
    have plan := @plan_platformCall (waiting mayPause) 0 may call late fun _ => trivial
    exact plan.orderly id session live
  cases call with
  | streamReadString => exact orderlyAt_readString may live fits
  | streamWriteChar => exact orderlyAt_writeStreamChar may live fits
  | _ => exact planned rfl

/-! ## Instructions -/

theorem orderly_reserveConsts (count : Nat) : (reserveConsts count).Orderly mayPause := by
  intro session live
  unfold OrderlyAt reserveConsts action Exec.reserveConsts
  change Conduct _ _ [(⟨if _ then _ else _, session.shared⟩ : Session)]
  by_cases room : session.executor.consts.base + count ≤ session.executor.consts.capacity
  · rw [if_pos room]
    exact .runs live .stops
  · rw [if_neg room, live.fail]
    exact .ends rfl (fun _ member => absurd member List.not_mem_nil) id

theorem orderly_storeConst (slot : UInt8) : (storeConst slot).Orderly mayPause := by
  refine steady_pop.before fun word => (steady_action fun session live => ?_).orderly
  dsimp only
  cases session.executor.consts.store slot word with
  | ok consts => exact live
  | error fault => exact live

theorem orderly_loadConst (slot : UInt8) : (loadConst slot).Orderly mayPause := by
  refine steady_get.before fun session => ?_
  generalize session.executor.consts.load slot = loaded
  cases loaded with
  | ok word => exact orderly_push _
  | error fault => exact (steady_throw _).orderly

theorem orderlyAt_perform (assembly : Assembly) (op : Opcode) (operands : Nat)
    (live : session.IsLive)
    (fits : session.executor.eval.items.size ≤ session.executor.eval.capacity)
    (concluded : session.shared.heap.Each Payload.Concluded) :
    (perform assembly op operands).OrderlyAt op.Blocks session := by
  have planned {op : Opcode} (plain : op.usesFrames = false) (other : op ≠ .platformCall)
      (own : op ≠ .await) (waits : op = .awaitFor → op.Blocks) :
      (perform assembly op operands).OrderlyAt op.Blocks session := by
    refine (@plan_perform (waiting op.Blocks) 0 assembly op operands plain ?_
      (fun same => own same) (fun same => absurd same other) fun _ => trivial).orderly id session
        live
    exact fun waiting => waits ((waiting.resolve_left other).resolve_left own)
  cases op with
  | reserveConsts => exact orderly_reserveConsts _ session live
  | storeConst => exact orderly_storeConst _ session live
  | loadConst => exact orderly_loadConst _ session live
  | call => exact orderly_call _ _ _ session live
  | callDynamic => exact orderly_callDynamic _ _ session live
  | ret => exact orderly_ret session live
  | force => exact orderly_force session live
  | await => exact orderlyAt_await trivial live concluded
  | platformCall =>
    unfold perform
    dsimp only
    split
    · exact .of _ (orderlyAt_platformCall trivial live fits _)
    · exact .of _ (orderly_fail rfl session live)
  | awaitFor => exact planned rfl nofun nofun fun _ => trivial
  | _ => exact planned rfl nofun nofun nofun

/-- An instruction. If nothing can be fetched, the executor ends. -/
theorem orderlyAt_issue (live : session.IsLive)
    (fits : session.executor.eval.items.size ≤ session.executor.eval.capacity)
    (concluded : session.shared.heap.Each Payload.Concluded) :
    issue.OrderlyAt (∃ op size, session.instruction? = some (op, size) ∧ op.Blocks) session := by
  refine (steady_get session live).before live fun _ _ got _ => ?_
  cases got
  split
  · exact .of _ (orderly_become (fun _ => rfl) session live)
  · next op size known =>
    refine .of _ ((steady_modifyExecutor (by exact fun _ => rfl) session live).before live
      fun _ _ moved lives => ?_)
    cases moved
    refine (steady_modifyShared _ _ lives).before lives fun _ _ logged runs => ?_
    cases logged
    refine (orderlyAt_perform _ op _ runs fits ?_).mono fun blocks => ⟨op, size, known, blocks⟩
    obtain ⟨platform, journal, _, same⟩ := session.shared.log_around fun _ =>
      instructionLine session.executor.id session.shared.assembly.code
        session.executor.ip.toNat op
    dsimp only
    rw [same]
    exact concluded

end Exec.Course

end WordMachine
