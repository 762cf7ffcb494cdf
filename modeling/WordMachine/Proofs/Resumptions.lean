import WordMachine.Machine.Schedule
import WordMachine.Proofs.Computations

/-!
Coming back from a pause. The attempt to end a wait does the same whether the executor is said to
be paused or to run already: it looks at its state only after it has set it.
-/

namespace WordMachine

/-- The session when its executor has come back from a pause. -/
def Session.returned (session : Session) : Session :=
  { session with executor := { session.executor with state := .running } }

@[simp] theorem Session.returned_shared (session : Session) :
    session.returned.shared = session.shared :=
  rfl

@[simp] theorem Session.returned_eval (session : Session) :
    session.returned.executor.eval = session.executor.eval :=
  rfl

@[simp] theorem Session.returned_wait (session : Session) :
    session.returned.executor.wait = session.executor.wait :=
  rfl

theorem Session.raise_returned (session : Session) (fault : Fault) :
    session.returned.raise fault = session.raise fault := by
  unfold Session.raise
  cases recorded : session.shared.fault <;> simp only [Session.returned, recorded]

namespace Exec

variable {α β : Type}

/-- Results that differ at most in the state of an executor that has met with a fault. -/
def Coincide : EStateM.Result Fault Session α → EStateM.Result Fault Session α → Prop
  | .ok value after, .ok other last => value = other ∧ after = last
  | .error fault after, .error other last => fault = other ∧ after.returned = last.returned
  | _, _ => False

theorem Coincide.refl (result : EStateM.Result Fault Session α) : Coincide result result := by
  cases result with
  | ok value after => exact ⟨rfl, rfl⟩
  | error fault after => exact ⟨rfl, rfl⟩

/-- A computation that does the same if its executor has come back before. -/
def Returns (computation : Exec α) : Prop :=
  ∀ session : Session, Coincide (computation session.returned) (computation session)

theorem Returns.of_eq {computation : Exec α}
    (same : ∀ session : Session, computation session.returned = computation session) :
    Returns computation := by
  intro session
  rw [same]
  exact .refl _

theorem returns_bind {first : Exec α} {next : α → Exec β} (before : Commutes Session.returned first)
    (rest : ∀ value, Returns (next value)) : Returns (first >>= next) := by
  intro session
  change Coincide (EStateM.bind first next session.returned) (EStateM.bind first next session)
  unfold EStateM.bind
  rw [before]
  cases first session with
  | ok value middle => exact rest value middle
  | error fault last => exact ⟨rfl, rfl⟩

theorem Returns.ite {condition : Prop} [Decidable condition] {yes no : Exec α}
    (whenTrue : Returns yes) (whenFalse : Returns no) :
    Returns (if condition then yes else no) := by
  by_cases holds : condition
  · rw [if_pos holds]
    exact whenTrue
  · rw [if_neg holds]
    exact whenFalse

/-! ## What an attempt begins with -/

theorem returned_peekBehind (depth : Nat) : Commutes Session.returned (peekBehind depth) := by
  intro session
  simp only [peekBehind, Session.returned_eval]
  cases session.executor.eval.peekBehind depth <;> rfl

theorem returned_look (view : Heap → Except Fault α) : Commutes Session.returned (look view) := by
  intro session
  simp only [look, Session.returned_shared]
  cases view session.shared.heap <;> rfl

theorem returned_platform : Commutes Session.returned platform :=
  fun _ => rfl

theorem returned_modifyShared (change : Shared → Shared) :
    Commutes Session.returned (modifyShared change) :=
  fun _ => rfl

theorem returned_peekStream (depth : Nat) : Commutes Session.returned (peekStream depth) :=
  (returned_peekBehind depth).bind fun _ => returned_look _

theorem returned_setStream (word : Word) (stream : Stream) :
    Commutes Session.returned (setStream word stream) :=
  fun _ => rfl

theorem returned_setPlatform (platform : Platform) :
    Commutes Session.returned (setPlatform platform) :=
  fun _ => rfl

theorem returned_readStream (depth count : Nat) :
    Commutes Session.returned (readStream depth count) := by
  refine (returned_peekBehind depth).bind fun _ => (returned_look _).bind fun stream =>
    returned_platform.bind fun platform => ?_
  obtain ⟨data, stream, platform⟩ := stream.read platform count
  exact (returned_setStream _ _).bind fun _ => (returned_setPlatform _).bind fun _ =>
    commutes_pure _

/-! ## How it goes on -/

theorem returns_resume {next : Unit → Exec α} : Returns (resume >>= next) :=
  .of_eq fun _ => rfl

theorem returns_stay (wait : Wait) : Returns (stay wait) :=
  .of_eq fun _ => rfl

theorem returns_takeConnection (stream : Stream) : Returns (takeConnection stream) :=
  returns_resume

theorem returns_attemptFuture : Returns attemptFuture := by
  refine returns_bind (returned_peekBehind 0) fun word =>
    returns_bind (returned_look _) fun outcome => ?_
  cases outcome with
  | none => exact returns_stay _
  | some outcome => exact returns_resume

theorem returns_attemptFutureUntil (deadline : Nat) : Returns (attemptFutureUntil deadline) :=
  returns_bind (returned_peekBehind 0) fun _ => returns_bind (returned_look _) fun _ =>
    returns_bind returned_platform fun _ => .ite returns_resume (returns_stay _)

theorem returns_attemptSleep (wake : Nat) : Returns (attemptSleep wake) :=
  returns_bind returned_platform fun _ => .ite (.of_eq fun _ => rfl) (returns_stay _)

theorem returns_attemptReadString (limit : Nat) : Returns (attemptReadString limit) := by
  refine returns_bind (returned_readStream 1 limit) fun data => ?_
  cases data with
  | none => exact returns_stay _
  | some data => exact returns_resume

theorem returns_attemptReadChar : Returns attemptReadChar := by
  refine returns_bind (returned_readStream 0 1) fun data => ?_
  cases data with
  | none => exact returns_stay _
  | some data => exact returns_resume

theorem returns_attemptWrite (data : Bytes) (offered : Bool) :
    Returns (attemptWrite data offered) := by
  refine returns_bind (returned_peekBehind 1) fun _ => returns_bind (returned_look _) fun stream =>
    returns_bind returned_platform fun platform => ?_
  obtain ⟨written, offered, stream, platform⟩ := stream.write platform data offered
  refine returns_bind (returned_setStream _ _) fun _ =>
    returns_bind (returned_setPlatform _) fun _ => ?_
  cases written with
  | none => exact returns_stay _
  | some written => exact returns_resume

theorem returns_attemptAccept : Returns attemptAccept := by
  refine returns_bind (returned_peekStream 0) fun stream => returns_bind returned_platform
    fun platform => ?_
  cases stream.accept platform with
  | none => exact returns_stay _
  | some accepted => exact returns_bind (returned_modifyShared _) fun _ => returns_resume

theorem returns_attemptConnect (listener : Nat) (host : Bytes) (port deadline : Nat) :
    Returns (attemptConnect listener host port deadline) := by
  refine returns_bind returned_platform fun platform => ?_
  cases platform.connect listener host port with
  | done connected =>
    exact returns_bind (returned_modifyShared _) fun _ => returns_takeConnection _
  | failed error => exact returns_takeConnection _
  | wait => exact .ite (returns_takeConnection _) (returns_stay _)

theorem returns_attemptDial (host : Bytes) (port deadline : Nat) :
    Returns (attemptDial host port deadline) := by
  refine returns_bind returned_platform fun platform => ?_
  cases platform.target host port with
  | error error => exact returns_takeConnection _
  | ok listener => exact returns_attemptConnect _ _ _ _

theorem returns_attempt (wait : Wait) : Returns (attempt wait) := by
  cases wait with
  | sleep wake => exact returns_attemptSleep wake
  | future => exact returns_attemptFuture
  | futureUntil deadline => exact returns_attemptFutureUntil deadline
  | consoleChar =>
    exact returns_bind returned_platform fun _ => returns_bind (returned_modifyShared _) fun _ =>
      returns_resume
  | consoleLine =>
    exact returns_bind returned_platform fun _ => returns_bind (returned_modifyShared _) fun _ =>
      returns_resume
  | readString limit => exact returns_attemptReadString limit
  | readChar => exact returns_attemptReadChar
  | write data offered => exact returns_attemptWrite data offered
  | flush => exact returns_bind (returned_peekStream 0) fun _ => returns_resume
  | accept => exact returns_attemptAccept
  | dial host port deadline => exact returns_attemptDial host port deadline
  | connect listener host port deadline => exact returns_attemptConnect listener host port deadline
  | address host => exact returns_bind returned_platform fun _ => returns_resume

end Exec

/-- The rest of an instruction is the same when its executor has come back before. -/
theorem Session.carry_settle_returned {session : Session}
    (waits : session.executor.wait.isSome = true) :
    session.returned.carry Exec.settle = session.carry Exec.settle := by
  obtain ⟨wait, waits⟩ := Option.isSome_iff_exists.1 waits
  have settled : Exec.settle session = Exec.attempt wait session := by
    unfold Exec.settle
    rw [waits]
  have settledAfter : Exec.settle session.returned = Exec.attempt wait session.returned := by
    unfold Exec.settle
    simp only [returned_wait, waits]
  have agree := Exec.returns_attempt wait session
  unfold Session.carry
  rw [settled, settledAfter]
  cases ran : Exec.attempt wait session with
  | ok value after =>
    cases ranAfter : Exec.attempt wait session.returned with
    | ok other last =>
      rw [ran, ranAfter] at agree
      exact agree.2
    | error fault last =>
      rw [ran, ranAfter] at agree
      exact agree.elim
  | error fault after =>
    cases ranAfter : Exec.attempt wait session.returned with
    | ok other last =>
      rw [ran, ranAfter] at agree
      exact agree.elim
    | error other last =>
      rw [ran, ranAfter] at agree
      obtain ⟨rfl, same⟩ := agree
      dsimp only
      rw [← last.raise_returned, same, after.raise_returned]

end WordMachine
