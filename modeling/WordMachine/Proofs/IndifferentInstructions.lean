import WordMachine.Proofs.InstructionPlans
import WordMachine.Proofs.StackBounds

/-!
Operations that have nothing to do with the constants and frames of an executor. They neither
depend on these stacks nor change them, so they do the same whatever lies on them. Only the
instructions that read or write constants, call, return or force a lazy value are not of this kind.
-/

namespace WordMachine

namespace Session

/-- Whether an executor that runs waits for nothing. -/
def Settled (session : Session) : Prop :=
  session.executor.state = .running → session.executor.wait = none

end Session

namespace Exec

/-- An operation that neither depends on constants and frames nor changes them, and that leaves
nothing to wait for if its executor runs on. -/
structure Blind {α : Type} (operation : Exec α) : Prop where
  under : ∀ session consts calls,
    operation (session.under consts calls) =
      changed (·.under consts calls) (operation session)
  settled : ∀ {session value after}, session.Settled → operation session = .ok value after →
    after.Settled

/-- A blind operation that keeps the bounds of the operands. -/
structure Indifferent {α : Type} (operation : Exec α) : Prop extends Blind operation where
  keeping : Keeping operation

variable {α β : Type}

/-! ## Composition -/

theorem indifferent_pure (value : α) : Indifferent (pure value : Exec α) where
  under _ _ _ := rfl
  settled settled ran := by
    cases ran
    exact settled
  keeping := .refl

theorem Blind.bind {first : Exec α} {next : α → Exec β} (before : Blind first)
    (rest : ∀ value, Blind (next value)) : Blind (first >>= next) where
  under session consts calls :=
    Commutes.bind (fun early => before.under early consts calls)
      (fun value late => (rest value).under late consts calls) session
  settled {session value after} settled ran := by
    change EStateM.bind first next session = .ok value after at ran
    unfold EStateM.bind at ran
    cases done : first session with
    | ok result middle =>
      rw [done] at ran
      exact (rest result).settled (before.settled settled done) ran
    | error fault middle =>
      rw [done] at ran
      cases ran

theorem Indifferent.bind {first : Exec α} {next : α → Exec β} (before : Indifferent first)
    (rest : ∀ value, Indifferent (next value)) : Indifferent (first >>= next) where
  toBlind := before.toBlind.bind fun value => (rest value).toBlind
  keeping := before.keeping.bind fun value => (rest value).keeping

theorem Blind.ite {condition : Prop} [Decidable condition] {yes no : Exec α} (whenTrue : Blind yes)
    (whenFalse : Blind no) : Blind (if condition then yes else no) := by
  by_cases holds : condition
  · rw [if_pos holds]
    exact whenTrue
  · rw [if_neg holds]
    exact whenFalse

theorem Indifferent.ite {condition : Prop} [Decidable condition] {yes no : Exec α}
    (whenTrue : Indifferent yes) (whenFalse : Indifferent no) :
    Indifferent (if condition then yes else no) := by
  by_cases holds : condition
  · rw [if_pos holds]
    exact whenTrue
  · rw [if_neg holds]
    exact whenFalse

/-- What follows may read the session, but not its constants and frames. -/
theorem blind_get {next : Session → Exec α}
    (same : ∀ session consts calls, next (session.under consts calls) = next session)
    (each : ∀ session, Blind (next session)) : Blind (get >>= next) where
  under session consts calls := by
    change next (session.under consts calls) (session.under consts calls) = _
    rw [same]
    exact (each session).under session consts calls
  settled {session _ _} settled ran := (each session).settled settled ran

theorem indifferent_get {next : Session → Exec α}
    (same : ∀ session consts calls, next (session.under consts calls) = next session)
    (each : ∀ session, Indifferent (next session)) : Indifferent (get >>= next) where
  toBlind := blind_get same fun session => (each session).toBlind
  keeping := keeping_get fun session => (each session).keeping

/-! ## Changes -/

theorem indifferent_modifyExecutor {change : Executor → Executor}
    (bounded : ∀ settings executor, executor.Bounded settings → (change executor).Bounded settings)
    (commutes : ∀ executor consts calls,
      change { executor with consts, calls } = { change executor with consts, calls })
    (settled : ∀ executor, (executor.state = .running → executor.wait = none) →
      (change executor).state = .running → (change executor).wait = none) :
    Indifferent (modifyExecutor change) where
  keeping := keeping_modifyExecutor bounded
  under session consts calls := by
    change EStateM.Result.ok () (⟨change _, session.shared⟩ : Session) = _
    rw [commutes]
    rfl
  settled {session _ _} before ran := by
    cases ran
    exact settled session.executor before

theorem blind_modifyShared (change : Shared → Shared) : Blind (modifyShared change) where
  under _ _ _ := rfl
  settled settled ran := by
    cases ran
    exact settled

theorem indifferent_modifyShared {change : Shared → Shared}
    (assembly : ∀ shared, (change shared).assembly = shared.assembly)
    (settings : ∀ shared, (change shared).settings = shared.settings)
    (spawned : ∀ shared, (change shared).spawned = shared.spawned) :
    Indifferent (modifyShared change) where
  toBlind := blind_modifyShared change
  keeping session := by
    refine Session.keeps_of_shared (assembly session.shared) (settings session.shared) ?_
    rw [spawned]
    exact fun child => Or.inl

theorem indifferent_fail (state : ExecState) : Indifferent (fail state) := by
  refine indifferent_modifyExecutor (fun _ _ bounded => bounded.fail state)
    (fun executor consts calls => ?_) fun executor settled running => ?_
  · rw [Executor.fail_eq, Executor.fail_eq]
  · rw [Executor.fail_eq] at running ⊢
    by_cases before : executor.state = .running
    · exact settled before
    · simp only [before, if_false] at running

theorem indifferent_push (word : Word) : Indifferent (push word) := by
  refine indifferent_modifyExecutor (fun _ _ bounded => bounded.push word)
    (fun executor consts calls => ?_) fun executor settled running => ?_
  · unfold Executor.push
    by_cases room : executor.eval.items.size < executor.eval.capacity
    · simp only [room, if_true]
    · simp only [room, if_false]
      rw [Executor.fail_eq, Executor.fail_eq]
  · unfold Executor.push at running ⊢
    by_cases room : executor.eval.items.size < executor.eval.capacity
    · simp only [room, if_true] at running ⊢
      exact settled running
    · simp only [room, if_false, Executor.fail_eq] at running ⊢
      by_cases before : executor.state = .running
      · exact settled before
      · simp only [before, if_false] at running

theorem indifferent_resume : Indifferent resume :=
  indifferent_modifyExecutor (fun _ _ bounded => bounded.of_stacks rfl rfl rfl) (fun _ _ _ => rfl)
    fun _ _ _ => rfl

theorem indifferent_stay (wait : Wait) : Indifferent (stay wait) :=
  indifferent_modifyExecutor (fun _ _ bounded => bounded.of_stacks rfl rfl rfl) (fun _ _ _ => rfl)
    fun _ _ running => nomatch running

theorem indifferent_jump (target : UInt32) : Indifferent (jump target) :=
  indifferent_modifyExecutor (fun _ _ bounded => bounded.of_stacks rfl rfl rfl) (fun _ _ _ => rfl)
    fun _ settled => settled

theorem indifferent_onEval {operation : EvalStack → Except Fault (α × EvalStack)}
    (shrinks : ∀ stack value rest, operation stack = .ok (value, rest) →
      rest.capacity = stack.capacity ∧ rest.items.size ≤ stack.items.size) :
    Indifferent (onEval operation) where
  keeping := keeping_onEval shrinks
  under session consts calls := by
    obtain ⟨executor, shared⟩ := session
    unfold onEval Session.under
    dsimp only
    cases operation executor.eval with
    | ok taken => rfl
    | error fault => rfl
  settled {session _ _} settled ran := by
    unfold onEval at ran
    cases taken : operation session.executor.eval with
    | ok result =>
      simp only [taken] at ran
      cases ran
      exact settled
    | error fault =>
      simp only [taken] at ran
      cases ran

/-- Reading a part of the session other than the constants and frames. -/
theorem indifferent_read {operation : Exec α} (view : Session → Except Fault α)
    (reads : ∀ session, operation session =
      match view session with
      | .ok value => .ok value session
      | .error fault => .error fault session)
    (blind : ∀ session consts calls, view (session.under consts calls) = view session) :
    Indifferent operation where
  keeping := by
    refine keeping_read fun session => ?_
    rw [reads]
    cases view session <;> rfl
  under session consts calls := by
    rw [reads, reads, blind]
    cases view session with
    | ok value => rfl
    | error fault => rfl
  settled {session _ _} settled ran := by
    rw [reads] at ran
    cases viewed : view session with
    | ok value =>
      rw [viewed] at ran
      cases ran
      exact settled
    | error fault =>
      rw [viewed] at ran
      cases ran

theorem indifferent_peekBehind (depth : Nat) : Indifferent (peekBehind depth) := by
  refine indifferent_read (fun session => session.executor.eval.peekBehind depth)
    (fun session => ?_) fun _ _ _ => rfl
  unfold peekBehind
  cases session.executor.eval.peekBehind depth <;> rfl

theorem indifferent_look (view : Heap → Except Fault α) : Indifferent (look view) :=
  indifferent_read (fun session => view session.shared.heap) (fun _ => rfl) fun _ _ _ => rfl

theorem indifferent_platform : Indifferent platform :=
  indifferent_read (fun session => .ok session.shared.platform) (fun _ => rfl) fun _ _ _ => rfl

theorem indifferent_isRunning : Indifferent isRunning :=
  indifferent_read (fun session => .ok (session.executor.state == .running)) (fun _ => rfl)
    fun _ _ _ => rfl

theorem indifferent_allocate? (payload : Payload) : Indifferent (allocate? payload) where
  keeping := keeping_allocate? payload
  under session consts calls := by
    obtain ⟨executor, shared⟩ := session
    unfold allocate? Session.under
    dsimp only
    by_cases room : shared.heap.hasRoom (Heap.headerSize + payload.size) = true
    · simp only [room, if_true]
      rfl
    · simp only [room]
      rfl
  settled {session _ _} settled ran := by
    obtain ⟨executor, shared⟩ := session
    unfold allocate? at ran
    by_cases room : shared.heap.hasRoom (Heap.headerSize + payload.size) = true
    · simp only [room, if_true] at ran
      cases ran
      exact settled
    · simp only [room] at ran
      cases ran
      exact settled

/-! ## Operands -/

theorem indifferent_pop : Indifferent pop := by
  refine indifferent_onEval fun stack value rest taken => ?_
  unfold EvalStack.pop at taken
  split at taken
  · cases taken
    exact ⟨rfl, by simp⟩
  · cases taken

theorem indifferent_peek : Indifferent peek :=
  indifferent_peekBehind 0

theorem indifferent_popAt (depth : Nat) : Indifferent (popAt depth) := by
  refine indifferent_onEval fun stack value rest taken => ?_
  unfold EvalStack.popAt at taken
  split at taken
  · cases taken
    exact ⟨rfl, by simp [Array.size_eraseIdx]⟩
  · cases taken

theorem indifferent_popMany (count : Nat) : Indifferent (popMany count) := by
  refine indifferent_onEval fun stack value rest taken => ?_
  unfold EvalStack.popMany at taken
  split at taken
  · cases taken
    exact ⟨rfl, by simp⟩
  · cases taken

theorem indifferent_pushInt (value : Int32) : Indifferent (pushInt value) :=
  indifferent_push _

theorem indifferent_popInt : Indifferent popInt :=
  indifferent_pop.bind fun _ => indifferent_pure _

theorem indifferent_pushAll (words : Array Word) : Indifferent (words.forM push) := by
  obtain ⟨items⟩ := words
  rw [Array.forM_eq_forM, List.forM_toArray]
  induction items with
  | nil => exact indifferent_pure ()
  | cons word rest ih =>
    exact (indifferent_push word).bind fun _ => ih

/-! ## The heap -/

theorem indifferent_modifyHeap (change : Heap → Heap) : Indifferent (modifyHeap change) :=
  indifferent_modifyShared (fun _ => rfl) (fun _ => rfl) fun _ => rfl

theorem indifferent_pushNew (payload : Payload) : Indifferent (pushNew payload) := by
  refine (indifferent_allocate? payload).bind fun made => ?_
  cases made with
  | some word => exact indifferent_push word
  | none => exact indifferent_fail _

theorem indifferent_text (word : Word) : Indifferent (text word) := by
  refine (indifferent_look _).bind fun object => ?_
  obtain ⟨size, payload⟩ := object
  cases payload with
  | string text => exact indifferent_pure text
  | link previous byte flat =>
    cases flat with
    | none =>
      exact (indifferent_look _).bind fun _ =>
        (indifferent_modifyHeap _).bind fun _ => indifferent_pure _
    | some text => exact indifferent_look _
  | _ => exact indifferent_look _

theorem indifferent_long (word : Word) : Indifferent (long word) :=
  indifferent_look _

theorem indifferent_popLong : Indifferent popLong :=
  indifferent_pop.bind fun word => indifferent_long word

/-! ## Streams and the platform -/

theorem indifferent_peekStream (depth : Nat) : Indifferent (peekStream depth) :=
  (indifferent_peekBehind depth).bind fun _ => indifferent_look _

theorem indifferent_setStream (word : Word) (stream : Stream) :
    Indifferent (setStream word stream) :=
  indifferent_modifyHeap _

theorem indifferent_closeStream (stream : Stream) :
    Indifferent (modifyShared (·.closeStream stream)) :=
  indifferent_modifyShared (fun _ => rfl) (fun _ => rfl) fun _ => rfl

theorem indifferent_pushStream (stream : Stream) : Indifferent (pushStream stream) := by
  refine (indifferent_allocate? _).bind fun made => ?_
  cases made with
  | some word => exact indifferent_push word
  | none => exact (indifferent_closeStream stream).bind fun _ => indifferent_fail _

theorem indifferent_modifyPlatform (change : Platform → Platform) :
    Indifferent (modifyPlatform change) :=
  indifferent_modifyShared (fun _ => rfl) (fun _ => rfl) fun _ => rfl

theorem indifferent_setPlatform (platform : Platform) : Indifferent (setPlatform platform) :=
  indifferent_modifyShared (fun _ => rfl) (fun _ => rfl) fun _ => rfl

/-- To open a file depends on the platform only. -/
theorem indifferent_openFileStream (path : Bytes) (mode flags : Nat) :
    Indifferent (openFileStream path mode flags) := by
  unfold openFileStream
  cases FileMode.ofCode? mode with
  | none => exact indifferent_pure _
  | some mode =>
    refine indifferent_platform.bind fun platform => ?_
    cases platform.openFile path mode with
    | error _ => exact indifferent_pure _
    | ok opened => exact (indifferent_setPlatform _).bind fun _ => indifferent_pure _

/-! ## Plans -/

/-- What is put together from blind actions is blind. -/
theorem Course.Plan.indifferent {rights : Course.Rights} {computation : Exec α}
    {course : Course computation} {stops : Bool} {start stop : Nat}
    (plan : Course.Plan rights course stops start stop) : Indifferent computation := by
  induction plan with
  | done value => exact indifferent_pure value
  | bind _ _ first next => exact first.bind next
  | ite _ _ whenTrue whenFalse => exact .ite whenTrue whenFalse
  | @of _ _ _ _ same _ _ _ _ other => exact same ▸ other
  | get same _ each => exact indifferent_get same each
  | pop => exact indifferent_pop
  | popAt _ => exact indifferent_popAt _
  | popMany => exact indifferent_popMany _
  | peekBehind _ => exact indifferent_peekBehind _
  | push => exact indifferent_push _
  | fail _ => exact indifferent_fail _
  | resume => exact indifferent_resume
  | stay _ => exact indifferent_stay _
  | jump _ => exact indifferent_jump _
  | look => exact indifferent_look _
  | text => exact indifferent_text _
  | allocate _ => exact indifferent_allocate? _
  | pushStream _ => exact indifferent_pushStream _
  | modifyHeap _ => exact indifferent_modifyHeap _
  | setStream _ => exact indifferent_setStream _ _
  | platform => exact indifferent_platform
  | modifyPlatform _ => exact indifferent_modifyPlatform _
  | setPlatform _ => exact indifferent_setPlatform _
  | openFileStream _ => exact indifferent_openFileStream _ _ _

/-- A plan without any bounds. -/
def freely : Course.Rights where
  target _ := True
  pauses := True
  shares := True
  adopts := True

theorem indifferent_attempt (wait : Wait) : Indifferent (attempt wait) :=
  (@Course.plan_attempt freely 0 trivial wait (fun _ => trivial) fun _ => trivial).indifferent

theorem indifferent_settle : Indifferent settle where
  keeping session := by
    unfold settle
    cases session.executor.wait with
    | none => exact .refl session
    | some wait => exact (indifferent_attempt wait).keeping session
  under session consts calls := by
    unfold settle
    have same : (session.under consts calls).executor.wait = session.executor.wait := rfl
    rw [same]
    cases session.executor.wait with
    | none => rfl
    | some wait => exact (indifferent_attempt wait).under session consts calls
  settled {session _ _} settled ran := by
    unfold settle at ran
    cases waiting : session.executor.wait with
    | none =>
      rw [waiting] at ran
      cases ran
      exact settled
    | some wait =>
      rw [waiting] at ran
      exact (indifferent_attempt wait).settled settled ran

theorem indifferent_readString : Indifferent readString := by
  refine indifferent_popInt.bind fun limit => (indifferent_peekStream 0).bind fun _ =>
    (indifferent_allocate? _).bind fun made => ?_
  cases made with
  | none => exact indifferent_fail _
  | some word => exact (indifferent_push word).bind fun _ => indifferent_stay _

theorem indifferent_platformCall (target : PlatformCall) : Indifferent (platformCall target) := by
  cases target with
  | streamReadString => exact indifferent_readString
  | streamWriteChar =>
    exact indifferent_pop.bind fun _ => (indifferent_pushInt _).bind fun _ =>
      (indifferent_peekStream 1).bind fun _ => indifferent_stay _
  | _ =>
    exact (@Course.plan_platformCall freely 0 trivial _ rfl fun _ => trivial).indifferent

/-- A forked executor starts within the limits. -/
theorem keeping_fork (target : UInt32) (arguments : Array Word) :
    Keeping (fork target arguments) := by
  intro session
  change session.Keeps (ending ((if session.shared.settings.evalStack.toNat < arguments.size then _
    else _ : Exec Unit) session))
  by_cases fits : session.shared.settings.evalStack.toNat < arguments.size
  · rw [if_pos fits]
    exact (indifferent_fail _).keeping session
  · rw [if_neg fits]
    change session.Keeps (ending (EStateM.bind (allocate? _) _ session))
    unfold EStateM.bind
    cases made : allocate? (.future none) session with
    | error fault middle => exact (keeping_allocate? _).of_eq made
    | ok future middle =>
      have early : session.Keeps middle := (keeping_allocate? _).of_eq made
      refine early.trans ?_
      cases future with
      | none => exact (indifferent_fail _).keeping middle
      | some future =>
        change middle.Keeps (ending (push future ⟨middle.executor, _⟩))
        refine Session.Keeps.trans ?_ ((indifferent_push future).keeping _)
        refine Session.keeps_of_shared rfl rfl ?_
        intro child member
        rcases List.mem_cons.1 member with rfl | before
        · refine Or.inr ?_
          rw [early.settings]
          have bounded := Executor.bounded_start session.shared.settings target
          exact { bounded with operands := Nat.le_of_not_lt fits }
        · exact Or.inl before

theorem indifferent_fork (target : UInt32) (arguments : Array Word) :
    Indifferent (fork target arguments) where
  keeping := keeping_fork target arguments
  toBlind := by
    refine blind_get (fun _ _ _ => rfl) fun session => ?_
    refine .ite (indifferent_fail _).toBlind
      ((indifferent_allocate? _).toBlind.bind fun made => ?_)
    cases made with
    | none => exact (indifferent_fail _).toBlind
    | some future =>
      exact (blind_modifyShared _).bind fun _ => (indifferent_push future).toBlind

/-- All instructions that leave constants and frames alone do the same whatever these are. -/
theorem indifferent_perform {op : Opcode} (plain : op.usesFrames = false) (assembly : Assembly)
    (operands : Nat) : Indifferent (perform assembly op operands) := by
  by_cases calls : op = .platformCall
  · subst calls
    simp only [perform]
    cases PlatformCall.ofCode? (assembly.code.byteAt operands) with
    | some target => exact indifferent_platformCall target
    | none => exact indifferent_fail _
  · exact (@Course.plan_perform freely 0 assembly op operands plain (fun _ => trivial)
      (fun _ => trivial) (fun same => absurd same calls) fun _ => trivial).indifferent

end Exec

end WordMachine
