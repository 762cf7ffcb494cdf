import WordMachine.Proofs.Courses

/-!
Orderly courses. On its way through an instruction an executor runs; then it may pause, or come to
an end, and nothing follows either of them. A fault comes only while it runs. Most computations
begin with actions during which the executor runs on, and close with one that may end it.
-/

namespace WordMachine

namespace Session

def IsLive (session : Session) : Prop :=
  session.executor.state = .running

/-- Whether a later session differs at most in where its executor would go on. -/
def Rests (session later : Session) : Prop :=
  ∃ ip, later = { session with executor := { session.executor with ip } }

theorem IsLive.fail {session : Session} (live : session.IsLive) (state : ExecState) :
    session.executor.fail state = { session.executor with state } := by
  unfold IsLive at live
  rw [Executor.fail_eq, if_pos live]

theorem Rests.refl (session : Session) : session.Rests session :=
  ⟨session.executor.ip, rfl⟩

end Session

namespace Exec

variable {α β : Type}

def IsFault : EStateM.Result Fault Session α → Prop
  | .ok _ _ => False
  | .error _ _ => True

/-- How an executor behaves in the sessions it goes through from one in which it runs, if it may
pause at all. Nothing follows a pause, and nothing but a place to go on an end. -/
inductive Conduct (mayPause faulted : Prop) : List Session → Prop
  | stops : Conduct mayPause faulted []
  | runs {session : Session} {rest : List Session} :
      session.IsLive → Conduct mayPause faulted rest → Conduct mayPause faulted (session :: rest)
  | pauses {session : Session} :
      mayPause → session.executor.state = .paused → session.executor.wait.isSome = true →
      ¬faulted → Conduct mayPause faulted [session]
  | ends {session : Session} {rest : List Session} :
      session.executor.state.isTerminal = true → (∀ later ∈ rest, session.Rests later) →
      ¬faulted → Conduct mayPause faulted (session :: rest)

variable {mayPause faulted : Prop}

theorem Conduct.of_live {visited : List Session} (live : ∀ session ∈ visited, session.IsLive) :
    Conduct mayPause faulted visited := by
  induction visited with
  | nil => exact .stops
  | cons session rest ih =>
    obtain ⟨first, others⟩ := List.forall_mem_cons.1 live
    exact .runs first (ih others)

theorem Conduct.append {early late : List Session} (live : ∀ session ∈ early, session.IsLive)
    (conduct : Conduct mayPause faulted late) : Conduct mayPause faulted (early ++ late) := by
  induction early with
  | nil => exact conduct
  | cons session rest ih =>
    obtain ⟨first, others⟩ := List.forall_mem_cons.1 live
    exact .runs first (ih others)

theorem Conduct.mono {visited : List Session} {other : Prop}
    (conduct : Conduct mayPause faulted visited) (weaker : mayPause → other) :
    Conduct other faulted visited := by
  induction conduct with
  | stops => exact .stops
  | runs live _ ih => exact .runs live ih
  | pauses may paused waits regular => exact .pauses (weaker may) paused waits regular
  | ends terminal rests regular => exact .ends terminal rests regular

namespace Course

variable {computation : Exec α} {first : Exec α} {next : α → Exec β} {session : Session}
variable {early : Course first} {course : Course computation} {other : Exec α}

/-! ## Courses on which an executor runs on -/

def SteadyAt (course : Course computation) (session : Session) : Prop :=
  ∀ visited ∈ course.visits session, visited.IsLive

/-- Whether an executor that runs goes on running. -/
def Steady (course : Course computation) : Prop :=
  ∀ session, session.IsLive → course.SteadyAt session

theorem SteadyAt.live (steady : course.SteadyAt session) (live : session.IsLive) :
    (ending (computation session)).IsLive := by
  rw [← course.arrives session]
  cases last : (course.visits session).getLast? with
  | none =>
    rw [List.getLastD_eq_getLast?, last]
    exact live
  | some final =>
    rw [List.getLastD_eq_getLast?, last]
    exact steady final (List.mem_of_getLast? last)

theorem steady_action (keeps : ∀ session : Session, session.IsLive →
    (ending (computation session)).IsLive) : (action computation).Steady := by
  intro session live visited member
  obtain rfl := List.mem_singleton.1 member
  exact keeps session live

theorem steady_done (value : α) : (done value).Steady :=
  fun _ _ _ member => absurd member List.not_mem_nil

theorem Steady.bind {late : ∀ value, Course (next value)} (before : early.Steady)
    (after : ∀ value, (late value).Steady) : (early.bind late).Steady := by
  intro session live visited member
  have middle := (before session live).live live
  rcases List.mem_append.1 member with inEarly | inLate
  · exact before session live visited inEarly
  · cases ran : first session with
    | ok value between =>
      rw [ran] at inLate middle
      exact after value between middle visited inLate
    | error fault last =>
      rw [ran] at inLate
      exact absurd inLate List.not_mem_nil

theorem Steady.ite {condition : Prop} [Decidable condition] {yes no : Exec α}
    {whenTrue : Course yes} {whenFalse : Course no} (holds : whenTrue.Steady)
    (fails : whenFalse.Steady) :
    (whenTrue.ite whenFalse : Course (if condition then yes else no)).Steady := by
  intro session live visited member
  unfold Course.ite at member
  split at member
  · exact holds session live visited member
  · exact fails session live visited member

/-! ## Courses that end in order -/

def OrderlyAt (mayPause : Prop) (course : Course computation) (session : Session) : Prop :=
  Conduct mayPause (IsFault (computation session)) (course.visits session)

/-- Whether an executor that runs behaves. -/
def Orderly (mayPause : Prop) (course : Course computation) : Prop :=
  ∀ session, session.IsLive → course.OrderlyAt mayPause session

theorem OrderlyAt.mono {other : Prop} (orderly : course.OrderlyAt mayPause session)
    (weaker : mayPause → other) : course.OrderlyAt other session :=
  Conduct.mono orderly weaker

theorem Steady.orderly (steady : course.Steady) : course.Orderly mayPause :=
  fun session live => .of_live (steady session live)

/-- While the executor runs, all depends on what follows. -/
theorem SteadyAt.before {late : ∀ value, Course (next value)} (steady : early.SteadyAt session)
    (live : session.IsLive)
    (orderly : ∀ value middle, first session = .ok value middle → middle.IsLive →
      (late value).OrderlyAt mayPause middle) : (early.bind late).OrderlyAt mayPause session := by
  have lives := steady.live live
  unfold OrderlyAt Course.bind
  change Conduct _ (IsFault (EStateM.bind first next session)) _
  unfold EStateM.bind
  dsimp only
  cases ran : first session with
  | ok value middle =>
    rw [ran] at lives
    exact .append steady (orderly value middle ran lives)
  | error fault last => exact .append steady .stops

theorem Steady.before {late : ∀ value, Course (next value)} (steady : early.Steady)
    (orderly : ∀ value, (late value).Orderly mayPause) : (early.bind late).Orderly mayPause :=
  fun session live => (steady session live).before live fun value middle _ lives =>
    orderly value middle lives

theorem OrderlyAt.assoc {γ : Type} {rest : β → Exec γ} {late : ∀ value, Course (next value)}
    {last : ∀ value, Course (rest value)}
    (orderly : (early.bind fun value => (late value).bind last).OrderlyAt mayPause session) :
    ((early.bind late).bind last).OrderlyAt mayPause session := by
  unfold OrderlyAt Course.bind at *
  change Conduct _ (IsFault (EStateM.bind (EStateM.bind first next) rest session)) _
  change Conduct _
    (IsFault (EStateM.bind first (fun value => EStateM.bind (next value) rest) session)) _
    at orderly
  dsimp only [Bind.bind] at *
  unfold EStateM.bind at *
  cases ran : first session with
  | ok value middle =>
    simp only [ran] at orderly ⊢
    rw [List.append_assoc]
    exact orderly
  | error fault final =>
    simp only [ran, List.append_nil] at orderly ⊢
    exact orderly

theorem OrderlyAt.of_bind {course : Course other} (same : first = other)
    {late : ∀ value, Course (next value)}
    (orderly : (course.bind late).OrderlyAt mayPause session) :
    ((course.of same).bind late).OrderlyAt mayPause session := by
  subst same
  exact orderly

theorem OrderlyAt.ite {condition : Prop} [Decidable condition] {yes no : Exec α}
    {whenTrue : Course yes} {whenFalse : Course no}
    (holds : condition → whenTrue.OrderlyAt mayPause session)
    (fails : ¬condition → whenFalse.OrderlyAt mayPause session) :
    (whenTrue.ite whenFalse : Course (if condition then yes else no)).OrderlyAt mayPause
      session := by
  unfold OrderlyAt Course.ite
  by_cases decided : condition
  · simp only [if_pos decided]
    exact holds decided
  · simp only [if_neg decided]
    exact fails decided

theorem Orderly.ite {condition : Prop} [Decidable condition] {yes no : Exec α}
    {whenTrue : Course yes} {whenFalse : Course no} (holds : whenTrue.Orderly mayPause)
    (fails : whenFalse.Orderly mayPause) :
    (whenTrue.ite whenFalse : Course (if condition then yes else no)).Orderly mayPause :=
  fun session live => .ite (fun _ => holds session live) fun _ => fails session live

theorem OrderlyAt.of {course : Course other} (same : computation = other)
    (orderly : course.OrderlyAt mayPause session) :
    (course.of same).OrderlyAt mayPause session := by
  subst same
  exact orderly

theorem Orderly.of {course : Course other} (same : computation = other)
    (orderly : course.Orderly mayPause) : (course.of same).Orderly mayPause :=
  fun session live => (orderly session live).of same

/-! ## Actions during which an executor runs on -/

theorem steady_get : get.Steady :=
  steady_action fun _ live => live

theorem steady_throw (fault : Fault) : (throw fault : Course (α := α) _).Steady :=
  steady_action fun _ live => live

theorem steady_modifyExecutor {change : Executor → Executor}
    (keeps : ∀ executor, (change executor).state = executor.state) :
    (modifyExecutor change).Steady :=
  steady_action fun session live => (keeps session.executor).trans live

theorem steady_modifyShared (change : Shared → Shared) : (modifyShared change).Steady :=
  steady_action fun _ live => live

theorem steady_isRunning : isRunning.Steady :=
  steady_action fun _ live => live

theorem steady_onEval {operation : EvalStack → Except Fault (α × EvalStack)} :
    (action (onEval operation)).Steady := by
  refine steady_action fun session live => ?_
  unfold onEval
  dsimp only
  cases operation session.executor.eval with
  | ok taken => exact live
  | error fault => exact live

theorem steady_pop : pop.Steady :=
  steady_onEval

theorem steady_popAt (depth : Nat) : (popAt depth).Steady :=
  steady_onEval

theorem steady_popMany (count : Nat) : (popMany count).Steady :=
  steady_onEval

theorem steady_peekBehind (depth : Nat) : (peekBehind depth).Steady := by
  refine steady_action fun session live => ?_
  unfold Exec.peekBehind
  cases session.executor.eval.peekBehind depth with
  | ok word => exact live
  | error fault => exact live

theorem steady_peek : peek.Steady :=
  steady_peekBehind 0

theorem steady_look (view : Heap → Except Fault α) : (look view).Steady := by
  refine steady_action fun session live => ?_
  unfold Exec.look
  cases view session.shared.heap with
  | ok value => exact live
  | error fault => exact live

theorem steady_modifyHeap (change : Heap → Heap) : (modifyHeap change).Steady :=
  steady_modifyShared _

theorem steady_setStream (word : Word) (stream : Stream) : (setStream word stream).Steady :=
  steady_action fun _ live => live

theorem steady_platform : platform.Steady :=
  steady_action fun _ live => live

theorem steady_modifyPlatform (change : Platform → Platform) : (modifyPlatform change).Steady :=
  steady_modifyShared _

theorem steady_setPlatform (value : Platform) : (setPlatform value).Steady :=
  steady_modifyShared _

theorem allocate?_executor (payload : Payload) (session : Session) :
    (ending (Exec.allocate? payload session)).executor = session.executor := by
  unfold Exec.allocate?
  dsimp only
  split <;> rfl

theorem steady_allocate? (payload : Payload) : (allocate? payload).Steady :=
  steady_action fun session live =>
    (congrArg Executor.state (allocate?_executor payload session)).trans live

theorem steady_resume : resume.Steady :=
  steady_action fun _ _ => rfl

theorem steady_jump (target : UInt32) : (jump target).Steady :=
  steady_modifyExecutor fun _ => rfl

theorem steady_popInt : popInt.Steady :=
  steady_pop.bind fun _ => steady_done _

theorem steady_text (word : Word) : (text word).Steady := by
  refine (steady_look _).bind fun object => ?_
  cases object with
  | mk size payload =>
    cases payload with
    | string text => exact steady_done _
    | link previous byte flat =>
      cases flat with
      | none =>
        exact (steady_look _).bind fun _ => (steady_modifyHeap _).bind fun _ => steady_done _
      | some text => exact steady_look _
    | _ => exact steady_look _

theorem steady_peekStream (depth : Nat) : (peekStream depth).Steady :=
  (steady_peekBehind depth).bind fun _ => steady_look _

theorem steady_openFileStream (path : Bytes) (mode flags : Nat) :
    (openFileStream path mode flags).Steady := by
  refine steady_action fun session live => ?_
  unfold Exec.openFileStream
  cases FileMode.ofCode? mode with
  | none => exact live
  | some mode =>
    change (ending (EStateM.bind Exec.platform _ session)).IsLive
    unfold EStateM.bind Exec.platform
    dsimp only
    cases session.shared.platform.openFile path mode with
    | error error => exact live
    | ok opened => exact live

/-! ## Actions that may end an executor -/

theorem orderly_fail {state : ExecState} (terminal : state.isTerminal = true) :
    (fail state).Orderly mayPause := by
  intro session live
  refine .ends ?_ (fun _ member => absurd member List.not_mem_nil) id
  change (session.executor.fail state).state.isTerminal = true
  rw [live.fail]
  exact terminal

theorem orderly_become {change : Executor → Executor}
    (terminal : ∀ executor, (change executor).state.isTerminal = true) :
    (modifyExecutor change).Orderly mayPause :=
  fun session _ =>
    .ends (terminal session.executor) (fun _ member => absurd member List.not_mem_nil) id

theorem orderly_stay (may : mayPause) (wait : Wait) : (stay wait).Orderly mayPause :=
  fun _ _ => .pauses may rfl rfl id

/-- Whether a value can be pushed. -/
def HasRoom (session : Session) : Prop :=
  session.executor.eval.items.size < session.executor.eval.capacity

/-- An executor that has ended, and whose stack takes no more values. -/
def IsStuck (session : Session) : Prop :=
  session.executor.state.isTerminal = true ∧ ¬HasRoom session

theorem push_room (room : HasRoom session) (word : Word) :
    ending (Exec.push word session) =
      { session with executor := { session.executor with
          eval := ⟨session.executor.eval.capacity, session.executor.eval.items.push word⟩ } } := by
  unfold HasRoom at room
  change (⟨session.executor.push word, session.shared⟩ : Session) = _
  rw [Executor.push, if_pos room]

theorem push_full (full : ¬HasRoom session) (word : Word) :
    ending (Exec.push word session) =
      { session with executor := session.executor.fail .stackOverflow } := by
  unfold HasRoom at full
  change (⟨session.executor.push word, session.shared⟩ : Session) = _
  rw [Executor.push, if_neg full]

theorem stuck_push (live : session.IsLive) (full : ¬HasRoom session) (word : Word) :
    IsStuck (ending (Exec.push word session)) := by
  rw [push_full full, live.fail]
  exact ⟨rfl, full⟩

theorem IsStuck.ended (stuck : IsStuck session) : (session.executor.state == .running) = false := by
  have terminal := stuck.1
  cases known : session.executor.state <;> rw [known] at terminal <;> first | rfl | cases terminal

theorem IsStuck.push (stuck : IsStuck session) (word : Word) :
    ending (Exec.push word session) = session := by
  rw [push_full stuck.2, Executor.fail_eq, if_neg]
  intro running
  have terminal := stuck.1
  rw [running] at terminal
  exact absurd terminal (by decide)

theorem steadyAt_push (live : session.IsLive) (room : HasRoom session) (word : Word) :
    (push word).SteadyAt session := by
  intro visited member
  obtain rfl := List.mem_singleton.1 member
  rw [push_room room]
  exact live

theorem orderly_push (word : Word) : (push word).Orderly mayPause := by
  intro session live
  by_cases room : HasRoom session
  · exact .of_live (steadyAt_push live room word)
  · exact .ends (stuck_push live room word).1 (fun _ member => absurd member List.not_mem_nil) id

theorem orderly_pushNew (payload : Payload) : (pushNew payload).Orderly mayPause := by
  refine (steady_allocate? payload).before fun found => ?_
  cases found with
  | some word => exact orderly_push word
  | none => exact orderly_fail rfl

theorem orderly_pushStream (stream : Stream) : (pushStream stream).Orderly mayPause := by
  refine (steady_allocate? _).before fun found => ?_
  cases found with
  | some word => exact orderly_push word
  | none => exact (steady_modifyShared _).before fun _ => orderly_fail rfl

/-! ## Several values -/

/-- What is pushed onto a full stack changes nothing. -/
theorem IsStuck.pushEach (stuck : IsStuck session) (words : List Word) :
    (∀ visited ∈ (pushEach words).visits session, visited = session) ∧
      (words.forM Exec.push : Exec Unit) session = .ok () session := by
  induction words with
  | nil => exact ⟨fun _ member => absurd member List.not_mem_nil, rfl⟩
  | cons word rest ih =>
    have ran : Exec.push word session = .ok () session :=
      congrArg (EStateM.Result.ok ()) (stuck.push word)
    obtain ⟨same, pushed⟩ := ih
    constructor
    · intro visited member
      rcases List.mem_append.1 member with first | later
      · rw [List.mem_singleton.1 first]
        exact stuck.push word
      · rw [ran] at later
        exact same visited later
    · change EStateM.bind (Exec.push word) (fun _ => rest.forM Exec.push) session = _
      unfold EStateM.bind
      rw [ran]
      exact pushed

/-- Values are pushed until the stack is full. Then nothing more may happen, also not by what
follows. -/
theorem before_pushEach {words : List Word} {next : Unit → Exec β}
    {late : ∀ value, Course (next value)} (live : session.IsLive)
    (pushed : ∀ middle : Session, middle.IsLive → (late ()).OrderlyAt mayPause middle)
    (stuck : ∀ middle : Session, IsStuck middle →
      (∀ visited ∈ (late ()).visits middle, middle.Rests visited) ∧ ¬IsFault (next () middle)) :
    ((pushEach words).bind late).OrderlyAt mayPause session := by
  induction words generalizing session with
  | nil => exact pushed session live
  | cons word rest ih =>
    refine OrderlyAt.assoc ?_
    by_cases room : HasRoom session
    · exact (steadyAt_push live room word).before live fun _ middle _ lives =>
        ih lives
    · have full := stuck_push live room word
      obtain ⟨same, ran⟩ := full.pushEach rest
      obtain ⟨rests, regular⟩ := stuck _ full
      have whole : Conduct mayPause
          (IsFault (EStateM.bind (rest.forM Exec.push) next (ending (Exec.push word session))))
          (ending (Exec.push word session) ::
            ((pushEach rest).bind late).visits (ending (Exec.push word session))) := by
        refine .ends full.1 (fun later member => ?_) ?_
        · rcases List.mem_append.1 member with pushing | following
          · rw [same later pushing]
            exact .refl _
          · rw [ran] at following
            exact rests later following
        · unfold EStateM.bind
          rw [ran]
          exact regular
      exact whole

theorem before_pushAll {words : Array Word} {next : Unit → Exec β}
    {late : ∀ value, Course (next value)} (live : session.IsLive)
    (pushed : ∀ middle : Session, middle.IsLive → (late ()).OrderlyAt mayPause middle)
    (stuck : ∀ middle : Session, IsStuck middle →
      (∀ visited ∈ (late ()).visits middle, middle.Rests visited) ∧ ¬IsFault (next () middle)) :
    ((pushAll words).bind late).OrderlyAt mayPause session :=
  .of_bind _ (before_pushEach live pushed stuck)

/-! ## A frame is opened if there is room for it -/

theorem enter_cases (live : session.IsLive) (lazy : Bool) :
    (∃ middle, Exec.enter lazy session = .ok true middle ∧ middle.IsLive) ∨
      ∃ middle, Exec.enter lazy session = .ok false middle ∧
        middle.executor.state.isTerminal = true := by
  unfold Exec.enter
  dsimp only
  by_cases room : session.executor.calls.frames.size < session.executor.calls.limit
  · rw [if_pos room]
    exact .inl ⟨_, rfl, live⟩
  · rw [if_neg room, live.fail]
    exact .inr ⟨_, rfl, rfl⟩

theorem before_enter {lazy : Bool} {next : Bool → Exec β} {late : ∀ value, Course (next value)}
    (live : session.IsLive)
    (entered : ∀ middle : Session, middle.IsLive → (late true).OrderlyAt mayPause middle)
    (refused : ∀ middle : Session, (late false).visits middle = [] ∧ ¬IsFault (next false middle)) :
    ((enter lazy).bind late).OrderlyAt mayPause session := by
  rcases enter_cases live lazy with ⟨middle, ran, lives⟩ | ⟨middle, ran, terminal⟩
  · have steady : (enter lazy).SteadyAt session := by
      intro visited member
      rw [List.mem_singleton.1 member, ran]
      exact lives
    refine steady.before live fun value after same _ => ?_
    rw [ran] at same
    cases same
    exact entered middle lives
  · obtain ⟨nothing, regular⟩ := refused middle
    have alone : Conduct mayPause (IsFault (next false middle)) [middle] :=
      .ends terminal (fun _ member => absurd member List.not_mem_nil) regular
    unfold OrderlyAt Course.bind enter action
    change Conduct _ (IsFault (EStateM.bind (Exec.enter lazy) next session)) _
    unfold EStateM.bind
    simp only [ran, nothing, List.append_nil]
    exact alone

/-! ## A value is taken before another is put in its place -/

theorem room_pop {word : Word} {middle : Session}
    (fits : session.executor.eval.items.size ≤ session.executor.eval.capacity)
    (popped : Exec.pop session = .ok word middle) : HasRoom middle := by
  unfold Exec.pop onEval EvalStack.pop at popped
  dsimp only at popped
  by_cases some : 0 < session.executor.eval.items.size
  · rw [dif_pos some] at popped
    cases popped
    change (Array.pop _).size < session.executor.eval.capacity
    rw [Array.size_pop]
    omega
  · rw [dif_neg some] at popped
    cases popped

end Course

end Exec

end WordMachine
