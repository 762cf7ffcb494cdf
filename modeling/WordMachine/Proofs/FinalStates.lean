import WordMachine.Proofs.ExecutorStates

/-!
The states that the executors of a crew go through. Whatever ends an executor first is what it ends
with: nothing else happens in the same instruction, and no further one is carried out.
-/

namespace WordMachine

namespace Crew

variable {former : Runner} {act : Runner.Act}

/-! ## The executors of a crew -/

/-- The states that an executor goes through by a move. -/
def passes (crew : Crew) (id : Nat) : Move → List ExecState
  | .runner other act =>
    if other = id then
      match crew.runner? id with
      | some runner => runner.passes crew.shared act
      | none => []
    else []
  | _ => []

/-- The states that an executor goes through by moves one after another. -/
def states (id : Nat) : Crew → List Move → List ExecState
  | _, [] => []
  | crew, move :: moves =>
    crew.passes id move ++
      match crew.step move with
      | some next => states id next moves
      | none => []

/-- What holds of a crew at any time: every executor is in a state that goes with what it does, and
the futures have the states of executors that have ended. -/
structure Sound (crew : Crew) : Prop where
  runners : ∀ runner ∈ crew.runners, runner.Sound crew.shared.settings
  calm : crew.shared.Calm

/-- Whether an executor is in a state, has left in it, or is to begin in it. -/
structure At (crew : Crew) (id : Nat) (state : ExecState) : Prop where
  present : ∀ runner ∈ crew.runners, runner.party.id = id → runner.state = state
  left : ∀ executor, (id, executor) ∈ crew.left → executor.state = state
  unborn : crew.lastId < id → state = .running

variable {crew after : Crew} {move : Move} {id : Nat} {state : ExecState}

/-! ## Moves that leave the executors where they are -/

/-- A crew that stays sound while its executors stay in their states. -/
structure Rests (crew after : Crew) : Prop where
  sound : after.Sound
  stands : ∀ id state, crew.At id state → after.At id state

theorem Sound.rests_of_map (sound : crew.Sound) {change : Runner → Runner}
    (runners : after.runners = crew.runners.map change)
    (same : ∀ runner, (change runner).executor = runner.executor ∧
      (change runner).party.phase = runner.party.phase ∧
      (change runner).party.id = runner.party.id)
    (newborn : ∀ runner ∈ crew.runners, ∀ child ∈ (change runner).newborn,
      child.state = .running ∧ child.Bounded crew.shared.settings)
    (settings : after.shared.settings = crew.shared.settings) (calm : after.shared.Calm)
    (left : after.left = crew.left) (lastId : after.lastId = crew.lastId) : crew.Rests after where
  sound := by
    refine ⟨fun runner member => ?_, calm⟩
    rw [runners] at member
    obtain ⟨former, formerMember, rfl⟩ := List.mem_map.1 member
    obtain ⟨bounded, placed, waits, _⟩ := sound.runners former formerMember
    obtain ⟨executor, phase, _⟩ := same former
    rw [settings]
    constructor
    · rwa [executor]
    · rwa [executor, phase]
    · rwa [executor]
    · exact newborn former formerMember
  stands := by
    intro id state stands
    refine ⟨fun runner member number => ?_, ?_, ?_⟩
    · rw [runners] at member
      obtain ⟨former, formerMember, rfl⟩ := List.mem_map.1 member
      obtain ⟨executor, phase, sameId⟩ := same former
      have before := stands.present former formerMember (sameId.symm.trans number)
      unfold Runner.state at *
      rwa [executor, phase]
    · rw [left]
      exact stands.left
    · rw [lastId]
      exact stands.unborn

theorem Sound.rests_change (sound : crew.Sound) (id : Nat) {change : Runner → Runner}
    (same : ∀ runner, (change runner).executor = runner.executor ∧
      (change runner).party.phase = runner.party.phase ∧
      (change runner).party.id = runner.party.id)
    (newborn : ∀ runner ∈ crew.runners, ∀ child ∈ (change runner).newborn,
      child.state = .running ∧ child.Bounded crew.shared.settings) :
    crew.Rests (crew.change id change) := by
  refine sound.rests_of_map rfl (fun runner => ?_) (fun runner member => ?_) rfl sound.calm
    rfl rfl
  · by_cases chosen : runner.party.id = id
    · rw [if_pos chosen]
      exact same runner
    · rw [if_neg chosen]
      exact ⟨rfl, rfl, rfl⟩
  · by_cases chosen : runner.party.id = id
    · rw [if_pos chosen]
      exact newborn runner member
    · rw [if_neg chosen]
      exact (sound.runners runner member).newborn

/-- Something other than the executors changes. -/
theorem Sound.rests_shared (sound : crew.Sound) (runners : after.runners = crew.runners)
    (settings : after.shared.settings = crew.shared.settings) (calm : after.shared.Calm)
    (left : after.left = crew.left) (lastId : after.lastId = crew.lastId) : crew.Rests after := by
  rw [← List.map_id crew.runners] at runners
  exact sound.rests_of_map runners (fun _ => ⟨rfl, rfl, rfl⟩)
    (fun runner member => (sound.runners runner member).newborn) settings calm left lastId

theorem Sound.rests_register (sound : crew.Sound) {executor : Executor}
    (fresh : executor.state = .running) (bounded : executor.Bounded crew.shared.settings) :
    crew.Rests (crew.register executor) where
  sound := by
    refine ⟨List.forall_mem_cons.2 ⟨⟨bounded, ?_, ?_, ?_⟩, sound.runners⟩, sound.calm⟩
    · exact Executor.ending_eq_continues.2 fresh
    · intro paused
      rw [fresh] at paused
      cases paused
    · exact fun _ born => absurd born List.not_mem_nil
  stands := by
    intro id state stands
    refine ⟨List.forall_mem_cons.2 ⟨fun number => ?_, stands.present⟩, stands.left, ?_⟩
    · have unborn : crew.lastId < id := number ▸ Nat.lt_succ_self _
      rw [stands.unborn unborn]
      exact fresh
    · exact fun unborn => stands.unborn (Nat.lt_of_succ_lt unborn)

theorem Rests.trans {between : Crew} (first : crew.Rests between) (second : between.Rests after) :
    crew.Rests after :=
  ⟨second.sound, fun id state stands => second.stands id state (first.stands id state stands)⟩

theorem Sound.rests_collect (sound : crew.Sound) (roots : List Word) :
    crew.Rests { crew with shared := (crew.shared.collect roots).2 } := by
  refine sound.rests_shared rfl (Machine.collect_settings _ _) ⟨?_, ?_⟩ rfl rfl
  · change (crew.shared.collect roots).2.heap.Each _
    rw [Shared.collect_heap]
    exact sound.calm.concluded.thin (Heap.thins_collect _ _)
  · refine (Shared.collect_keeps (fun shared line => ?_) (fun _ _ => rfl) (fun _ _ => rfl)
      crew.shared roots).trans sound.calm.adopted
    unfold Shared.log
    split <;> rfl

theorem Sound.rests_leave (sound : crew.Sound) (member : former ∈ crew.runners)
    (ended : former.party.phase = .ended) :
    crew.Rests
      { crew with
        runners := crew.runners.filter (·.party.id != former.party.id)
        left := (former.party.id, former.executor) :: crew.left } where
  sound := ⟨fun runner kept => sound.runners runner (List.mem_filter.1 kept).1, sound.calm⟩
  stands := by
    intro id state stands
    refine ⟨fun runner kept => stands.present runner (List.mem_filter.1 kept).1, ?_, stands.unborn⟩
    intro executor gone
    rcases List.mem_cons.1 gone with same | earlier
    · cases same
      have before := stands.present former member rfl
      rwa [Runner.state_of_phase (by rw [ended]; decide)] at before
    · exact stands.left executor earlier

/-! ## Moves of executors -/

/-- What a move brings about: the crew stays sound, and each executor passes through states that may
come one after another. -/
structure Goes (crew : Crew) (move : Move) (after : Crew) : Prop where
  sound : after.Sound
  leads : ∀ id state, crew.At id state → state.Leads (crew.passes id move)
  arrives : ∀ id state, crew.At id state → after.At id ((crew.passes id move).getLastD state)

theorem Rests.goes (rests : crew.Rests after) (still : ∀ id, crew.passes id move = []) :
    crew.Goes move after := by
  refine ⟨rests.sound, fun id state _ => ?_, fun id state stands => ?_⟩
  · rw [still id]
    exact .singleton _
  · rw [still id]
    exact rests.stands id state stands

/-- Nothing is known of an executor under a number that is another's. -/
theorem Standing.only (standing : crew.Standing) (member : former ∈ crew.runners) :
    former.party.id ≤ crew.lastId ∧
      ∀ executor, (former.party.id, executor) ∉ crew.left := by
  have present : former.party.id ∈ crew.runners.map (·.party.id) := List.mem_map_of_mem member
  refine ⟨standing.numbered _ (List.mem_append_left _ present), fun executor gone => ?_⟩
  have absent : former.party.id ∈ crew.left.map (·.1) := List.mem_map_of_mem gone
  exact (List.nodup_append.1 standing.distinct).2.2 _ present _ absent rfl

/-- An act of an executor other than registering another one and leaving. -/
theorem Sound.goes_turn (sound : crew.Sound) (standing : crew.Standing) {runner : Runner}
    {shared : Shared} (found : crew.runner? former.party.id = some former)
    (turns : former.turn crew.shared act = some (runner, shared)) :
    crew.Goes (.runner former.party.id act)
      { crew.change former.party.id (fun _ => runner) with shared } := by
  obtain ⟨member, _⟩ := mem_of_runner? found
  obtain ⟨registered, unleft⟩ := standing.only member
  have passes := (sound.runners former member).passes sound.calm turns
  have number := (Runner.turned_of_turn turns).keeps.1
  have own : crew.passes former.party.id (.runner former.party.id act) =
      former.passes crew.shared act := by
    unfold Crew.passes
    dsimp only
    rw [if_pos rfl, found]
  have others : ∀ id, former.party.id ≠ id → crew.passes id (.runner former.party.id act) = [] :=
    fun _ different => if_neg different
  constructor
  case sound =>
    refine ⟨fun other otherMember => ?_, passes.calm⟩
    change other.Sound shared.settings
    rw [passes.settings]
    obtain ⟨_, kept, ⟨_, rfl⟩ | ⟨_, rfl⟩⟩ := mem_change otherMember
    · exact passes.sound
    · exact sound.runners other kept
  case leads =>
    intro id state stands
    by_cases mine : former.party.id = id
    · subst mine
      rw [own, ← stands.present former member rfl]
      exact passes.leads
    · rw [others id mine]
      exact .singleton _
  case arrives =>
    intro id state stands
    by_cases mine : former.party.id = id
    · subst mine
      refine ⟨fun other otherMember same => ?_, fun executor gone => absurd gone (unleft executor),
        fun unborn => absurd registered (Nat.not_le.2 unborn)⟩
      rw [own, ← stands.present former member rfl, passes.arrives]
      obtain ⟨_, _, ⟨_, rfl⟩ | ⟨different, rfl⟩⟩ := mem_change otherMember
      · rfl
      · exact absurd same different
    · rw [others id mine]
      refine ⟨fun other otherMember same => ?_, stands.left, stands.unborn⟩
      obtain ⟨_, kept, ⟨_, rfl⟩ | ⟨_, rfl⟩⟩ := mem_change otherMember
      · exact absurd (number.symm.trans same) mine
      · exact stands.present other kept same

/-- An executor that registers another one, or leaves, stays in its state. -/
theorem passes_idle (act : Runner.Act) (other : Nat)
    (idle : ∀ (runner : Runner) (shared : Shared), runner.passes shared act = []) :
    crew.passes id (.runner other act) = [] := by
  unfold Crew.passes
  dsimp only
  split
  · split
    · exact idle _ _
    · rfl
  · rfl

theorem Sound.goes_runner (sound : crew.Sound) (standing : crew.Standing) {number : Nat}
    (moves : crew.step (.runner number act) = some after) :
    crew.Goes (.runner number act) after := by
  obtain ⟨former, found, _, acts⟩ := step_found moves
  obtain ⟨member, rfl⟩ := mem_of_runner? found
  rcases act_cases acts with ⟨child, newborn, rfl, born, rfl⟩ | ⟨rfl, ended, rfl⟩ |
    ⟨runner, shared, turns, rfl⟩
  · have children := (sound.runners former member).newborn
    rw [born] at children
    obtain ⟨⟨fresh, bounded⟩, others⟩ := List.forall_mem_cons.1 children
    have released : crew.Rests (crew.change former.party.id ({ · with newborn })) :=
      sound.rests_change _ (fun _ => ⟨rfl, rfl, rfl⟩) fun _ _ => others
    exact (released.trans (released.sound.rests_register fresh bounded)).goes fun _ =>
      passes_idle _ _ fun _ _ => rfl
  · exact (sound.rests_leave member ended).goes fun _ => passes_idle _ _ fun _ _ => rfl
  · exact sound.goes_turn standing found turns

theorem Sound.rests_step (sound : crew.Sound) (outer : ∀ id act, move ≠ .runner id act)
    (moves : crew.step move = some after) : crew.Rests after := by
  have newborn : ∀ runner ∈ crew.runners, ∀ child ∈ runner.newborn,
      child.state = .running ∧ child.Bounded crew.shared.settings :=
    fun runner member => (sound.runners runner member).newborn
  cases move with
  | runner id act => exact absurd rfl (outer id act)
  | enter ip =>
    simp only [step, Option.ite_none_right_eq_some, Option.some.injEq] at moves
    obtain ⟨_, rfl⟩ := moves
    have counted : crew.Rests
        { crew with shared := { crew.shared with started := crew.shared.started + 1 } } :=
      sound.rests_shared rfl rfl ⟨sound.calm.concluded, sound.calm.adopted⟩ rfl rfl
    have bounded := Executor.bounded_start crew.shared.settings ip
    exact counted.trans (counted.sound.rests_register rfl (bounded.of_stacks rfl rfl rfl))
  | tell id =>
    simp only [step] at moves
    split at moves
    · simp only [Option.ite_none_right_eq_some, Option.some.injEq] at moves
      obtain ⟨_, rfl⟩ := moves
      have marked : crew.Rests (crew.change id fun runner =>
          { runner with party := { runner.party with aborted := true } }) :=
        sound.rests_change id (fun _ => ⟨rfl, rfl, rfl⟩) newborn
      exact marked.trans (marked.sound.rests_shared rfl rfl marked.sound.calm rfl rfl)
    · cases moves
  | cancel =>
    simp only [step] at moves
    split at moves
    · next id _ =>
      cases moves
      have marked : crew.Rests (crew.change id ({ · with cancelled := true })) :=
        sound.rests_change id (fun _ => ⟨rfl, rfl, rfl⟩) newborn
      exact marked.trans (marked.sound.rests_shared rfl rfl marked.sound.calm rfl rfl)
    · cases moves
  | expire id =>
    simp only [step, Option.some.injEq] at moves
    subst moves
    exact sound.rests_change id (fun _ => ⟨rfl, rfl, rfl⟩) newborn
  | collect =>
    simp only [step, Option.ite_none_right_eq_some, Option.some.injEq] at moves
    obtain ⟨_, rfl⟩ := moves
    exact sound.rests_collect _
  | outside around =>
    simp only [step, Option.some.injEq] at moves
    subst moves
    exact sound.rests_shared rfl rfl ⟨sound.calm.concluded, sound.calm.adopted⟩ rfl rfl
  | requestPause =>
    simp only [step, Option.ite_none_right_eq_some, Option.some.injEq] at moves
    obtain ⟨_, rfl⟩ := moves
    exact sound.rests_of_map rfl (fun _ => ⟨rfl, rfl, rfl⟩) newborn rfl sound.calm rfl rfl
  | withdrawRequest =>
    simp only [step, Option.ite_none_right_eq_some, Option.some.injEq] at moves
    obtain ⟨_, rfl⟩ := moves
    exact sound.rests_of_map rfl (fun _ => ⟨rfl, rfl, rfl⟩) newborn rfl sound.calm rfl rfl
  | _ =>
    simp only [step, Option.ite_none_right_eq_some, Option.some.injEq] at moves
    obtain ⟨_, rfl⟩ := moves
    exact sound.rests_shared rfl rfl sound.calm rfl rfl

theorem Sound.goes_step (sound : crew.Sound) (standing : crew.Standing)
    (moves : crew.step move = some after) : crew.Goes move after := by
  cases move with
  | runner id act => exact sound.goes_runner standing moves
  | _ => exact (sound.rests_step (fun _ _ same => by cases same) moves).goes fun _ => rfl

/-! ## Runs -/

section New

variable (assembly : Assembly) (settings : Settings) (platform : Platform) (journal : Journal)

theorem sound_new : (new assembly settings platform journal).Sound where
  runners := fun _ member => absurd member List.not_mem_nil
  calm := ⟨fun _ member => absurd member (Array.not_mem_empty _), rfl⟩

theorem at_new (id : Nat) : (new assembly settings platform journal).At id .running where
  present := fun _ member => absurd member List.not_mem_nil
  left := fun _ member => absurd member List.not_mem_nil
  unborn := fun _ => rfl

end New

/-- What holds of the executors of a crew while it is at work. -/
structure Orderly (crew : Crew) : Prop where
  sound : crew.Sound
  standing : crew.Standing

theorem Orderly.step (orderly : crew.Orderly) (moves : crew.step move = some after) :
    after.Orderly :=
  ⟨(orderly.sound.goes_step orderly.standing moves).sound, orderly.standing.step moves⟩

/-- Whatever moves are made, an executor passes through states that may come one after another. -/
theorem At.run {moves : List Move} (stands : crew.At id state) (orderly : crew.Orderly)
    (runs : crew.run moves = some after) :
    state.Leads (states id crew moves) ∧ after.At id ((states id crew moves).getLastD state) := by
  induction moves generalizing crew state with
  | nil =>
    cases runs
    exact ⟨.singleton _, stands⟩
  | cons move moves ih =>
    obtain ⟨next, moved, rest⟩ := run_cons_eq_some.1 runs
    have goes := orderly.sound.goes_step orderly.standing moved
    obtain ⟨leads, arrives⟩ :=
      ih (goes.arrives id state stands) (orderly.step moved) rest
    have apart :
        states id crew (move :: moves) = crew.passes id move ++ states id next moves := by
      rw [states, moved]
    rw [apart, Exec.Course.getLastD_append]
    exact ⟨(goes.leads id state stands).append leads, arrives⟩

/-- An executor that runs has not come to an end before. -/
theorem At.unfinished {states : List ExecState} {runner : Runner}
    (stands : crew.At id (states.getLastD .running)) (leads : ExecState.running.Leads states)
    (found : crew.runner? id = some runner) (running : runner.state = .running) :
    ∀ former ∈ states, former.isTerminal = false := by
  intro former member
  by_contra ended
  have terminal : former.isTerminal = true := (Bool.eq_false_or_eq_true _).resolve_right ended
  have last := leads.last (List.mem_cons_of_mem _ member) terminal
  obtain ⟨present, number⟩ := mem_of_runner? found
  have same := stands.present runner present number
  rw [running, last] at same
  rw [← same] at terminal
  cases terminal

/-- An executor that carries out something runs, and behaves on its way. -/
theorem Orderly.executes (orderly : crew.Orderly) (moves : crew.step (.runner id act) = some after)
    (executes : act.executes = true) :
    ∃ runner, crew.runner? id = some runner ∧ runner.state = .running ∧
      runner.Behaves crew.shared act := by
  obtain ⟨former, found, _, acts⟩ := step_found moves
  obtain ⟨member, _⟩ := mem_of_runner? found
  refine ⟨former, found, ?_⟩
  rcases act_cases acts with ⟨_, _, rfl, _⟩ | ⟨rfl, _⟩ | ⟨runner, shared, turns, _⟩
  · cases executes
  · cases executes
  · exact (orderly.sound.runners former member).behaves orderly.sound.calm turns executes

/-- The first end of an executor is final. It runs, it pauses only in an instruction that waits and
goes on running afterwards, and then it has one end that nothing changes. On its way through an
instruction nothing happens any more once it has ended, and it carries out nothing after that. -/
theorem first_end_final {assembly : Assembly} {settings : Settings} {platform : Platform}
    {journal : Journal} {moves : List Move} {crew : Crew}
    (runs : (new assembly settings platform journal).run moves = some crew) (id : Nat) :
    (ExecState.running.Leads (states id (new assembly settings platform journal) moves) ∧
      crew.At id ((states id (new assembly settings platform journal) moves).getLastD .running)) ∧
    ∀ early act late, moves = early ++ .runner id act :: late → act.executes = true →
      ∃ before runner,
        (new assembly settings platform journal).run early = some before ∧
        before.runner? id = some runner ∧
        (∀ former ∈ states id (new assembly settings platform journal) early,
          former.isTerminal = false) ∧
        runner.Behaves before.shared act := by
  have begins := at_new assembly settings platform journal id
  have orderly : (new assembly settings platform journal).Orderly :=
    ⟨sound_new assembly settings platform journal, standing_new assembly settings platform journal⟩
  refine ⟨begins.run orderly runs, ?_⟩
  intro early act late split executes
  rw [split] at runs
  obtain ⟨before, ran, rest⟩ := run_append_eq_some.1 runs
  obtain ⟨next, moved, _⟩ := run_cons_eq_some.1 rest
  obtain ⟨leads, stands⟩ := begins.run orderly ran
  have stillOrderly := run_keeps Orderly.step orderly ran
  obtain ⟨runner, found, running, behaves⟩ := stillOrderly.executes moved executes
  exact ⟨before, runner, ran, found, stands.unfinished leads found running, behaves⟩

/-- A call is forked that returns five, and waited for; then five is divided by zero. -/
def dividing : Assembly where
  code := Bytes.ofList
    [146, 15, 0, 0, 0, 0, 2, 161, 1, 0, 0, 0, 0, 35, 149, 1, 5, 0, 0, 0, 149]
  literals := #[]
  entries := #[0]

/-- The first executor waits for the one that it has forked, and is about to divide. -/
def beforeDivision : List Move :=
  [.enter 0, .runner 1 (.known .poll), .runner 1 (.known .check),
    .runner 1 (.known (.instruction .continues)), .runner 1 .enroll, .runner 1 (.known .poll),
    .runner 1 (.known .check), .runner 1 (.known (.instruction .blocks)),
    .runner 1 (.known .enterPaused), .runner 2 (.known .poll), .runner 2 (.known .check),
    .runner 2 (.known (.instruction .continues)), .runner 2 (.known .poll),
    .runner 2 (.known .check), .runner 2 (.known (.instruction .ends)), .runner 2 .deliver,
    .runner 1 (.known .leavePaused), .runner 1 .listen, .runner 1 .heed,
    .runner 1 (.known (.finish .continues)), .runner 1 (.known .poll), .runner 1 (.known .check),
    .runner 1 (.known (.instruction .continues)), .runner 1 (.known .poll),
    .runner 1 (.known .check)]

def sinceDivision : List Move :=
  [.runner 1 (.known (.instruction .ends)), .runner 1 .leave, .runner 2 .leave]

/-- An executor pauses, runs on, and divides by zero. -/
theorem first_end_final_dividing :
    ∃ crew,
      (new dividing { evalStack := 2 } default .off).run (beforeDivision ++ sinceDivision) =
        some crew ∧
      ((states 1 (new dividing { evalStack := 2 } default .off) beforeDivision).contains .paused ∧
        (states 1 (new dividing { evalStack := 2 } default .off)
          (beforeDivision ++ sinceDivision)).getLastD .running = .divByZero) ∧
      crew.At 1 .divByZero ∧
      ∃ before runner,
        (new dividing { evalStack := 2 } default .off).run beforeDivision = some before ∧
        before.runner? 1 = some runner ∧
        (∀ former ∈ states 1 (new dividing { evalStack := 2 } default .off) beforeDivision,
          former.isTerminal = false) ∧
        runner.Behaves before.shared (.known (.instruction .ends)) := by
  have happened : ((new dividing { evalStack := 2 } default .off).run
      (beforeDivision ++ sinceDivision)).isSome = true := by
    decide +kernel
  have passed :
      (states 1 (new dividing { evalStack := 2 } default .off) beforeDivision).contains .paused ∧
        (states 1 (new dividing { evalStack := 2 } default .off)
          (beforeDivision ++ sinceDivision)).getLastD .running = .divByZero := by
    decide +kernel
  obtain ⟨crew, runs⟩ := Option.isSome_iff_exists.1 happened
  obtain ⟨⟨_, stands⟩, carriesOut⟩ := first_end_final runs 1
  rw [passed.2] at stands
  exact ⟨crew, runs, passed, stands, carriesOut beforeDivision _ _ rfl rfl⟩

end Crew

end WordMachine
