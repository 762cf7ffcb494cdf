import WordMachine.Proofs.ContainedSteps
import WordMachine.Proofs.Crews
import WordMachine.Proofs.InstructionEffects
import WordMachine.Proofs.OrderlyInstructions
import WordMachine.Proofs.Resumptions

/-!
The states that an executor goes through by what it does itself. It runs, it pauses only where it
has to wait, and it goes on running afterwards; then it comes to an end, and stays as it is.
-/

namespace WordMachine

variable {executor : Executor}

/-! ## States one after another -/

/-- What the next state of an executor may be. One that pauses has to go on running, and one that
has ended stays as it is. -/
def ExecState.MayBecome : ExecState → ExecState → Prop
  | .running, _ => True
  | .paused, next => next = .running
  | state, next => next = state

theorem ExecState.mayBecome_of_terminal {state next : ExecState}
    (terminal : state.isTerminal = true) : state.MayBecome next ↔ next = state := by
  cases state with
  | running => cases terminal
  | paused => cases terminal
  | _ => rfl

/-- Whether states may come one after another, after a given one. -/
abbrev ExecState.Leads (start : ExecState) (states : List ExecState) : Prop :=
  (start :: states).IsChain MayBecome

/-- An executor that has ended may be seen again as it is. -/
theorem ExecState.leads_same {state : ExecState} (terminal : state.isTerminal = true)
    {states : List ExecState} (same : ∀ other ∈ states, other = state) : state.Leads states := by
  induction states with
  | nil => exact .singleton _
  | cons other rest ih =>
    obtain ⟨first, others⟩ := List.forall_mem_cons.1 same
    subst first
    exact .cons_cons ((mayBecome_of_terminal terminal).2 rfl) (ih others)

theorem ExecState.Leads.last {start state : ExecState} {states : List ExecState}
    (leads : start.Leads states) (member : state ∈ start :: states)
    (terminal : state.isTerminal = true) : states.getLastD start = state := by
  induction states generalizing start with
  | nil => exact (List.mem_singleton.1 member).symm
  | cons next rest ih =>
    obtain ⟨first, others⟩ := List.isChain_cons_cons.1 leads
    rw [List.getLastD_cons]
    refine ih others ?_
    rcases List.mem_cons.1 member with rfl | later
    · rw [(mayBecome_of_terminal terminal).1 first]
      exact List.mem_cons_self
    · exact later

theorem ExecState.Leads.append {start : ExecState} {first second : List ExecState}
    (leads : start.Leads first) (further : (first.getLastD start).Leads second) :
    start.Leads (first ++ second) := by
  induction first generalizing start with
  | nil => exact further
  | cons next rest ih =>
    obtain ⟨early, late⟩ := List.isChain_cons_cons.1 leads
    rw [List.getLastD_cons] at further
    exact .cons_cons early (ih late further)

namespace Exec

def faultStates {α : Type} : EStateM.Result Fault Session α → List ExecState
  | .ok _ _ => []
  | .error _ _ => [.invalidAssembly]

namespace Course

variable {computation : Exec Unit} {session : Session} {mayPause faulted : Prop}

/-- The states that an executor goes through. -/
def states (course : Course computation) (session : Session) : List ExecState :=
  (course.visits session).map (·.executor.state) ++ faultStates (computation session)

theorem getLastD_states (course : Course computation) (session : Session) :
    (course.states session).getLastD session.executor.state =
      (session.carry computation).executor.state := by
  have arrives := course.arrives session
  have mapped : ((course.visits session).map (·.executor.state)).getLastD session.executor.state =
      (ending (computation session)).executor.state := by
    rw [← arrives, List.getLastD_eq_getLast?, List.getLastD_eq_getLast?, List.getLast?_map]
    cases (course.visits session).getLast? <;> rfl
  unfold states Session.carry
  rw [getLastD_append, mapped]
  cases computation session with
  | ok value after => rfl
  | error fault after =>
    unfold Session.raise
    dsimp only
    split <;> rfl

theorem leads_of_conduct {visited : List Session} (conduct : Conduct mayPause faulted visited)
    {last : List ExecState} (leads : ExecState.running.Leads last)
    (regular : ¬faulted → last = []) :
    ExecState.running.Leads (visited.map (·.executor.state) ++ last) := by
  induction conduct with
  | stops => exact leads
  | @runs session rest live _ ih =>
    have same : session.executor.state = .running := live
    rw [List.map_cons, same]
    exact .cons_cons trivial ih
  | pauses may paused waits regularly =>
    rw [regular regularly, List.map_cons, paused]
    exact .cons_cons trivial (.singleton _)
  | @ends session rest terminal rests regularly =>
    rw [regular regularly, List.append_nil, List.map_cons]
    refine .cons_cons trivial (ExecState.leads_same terminal fun state member => ?_)
    obtain ⟨later, visited, rfl⟩ := List.mem_map.1 member
    obtain ⟨ip, rfl⟩ := rests later visited
    rfl

theorem conduct_waits {visited : List Session} (conduct : Conduct mayPause faulted visited) :
    ∀ later ∈ visited, later.executor.state = .paused → later.executor.wait.isSome = true := by
  induction conduct with
  | stops => exact fun _ member => absurd member List.not_mem_nil
  | runs live _ ih =>
    refine List.forall_mem_cons.2 ⟨fun paused => ?_, ih⟩
    rw [live] at paused
    cases paused
  | pauses may paused waits regular =>
    exact List.forall_mem_cons.2 ⟨fun _ => waits, fun _ member => absurd member List.not_mem_nil⟩
  | ends terminal rests regular =>
    refine List.forall_mem_cons.2 ⟨fun paused => ?_, fun later member paused => ?_⟩
    · rw [paused] at terminal
      cases terminal
    · obtain ⟨ip, rfl⟩ := rests later member
      rw [paused] at terminal
      cases terminal

/-- An orderly course goes through states that may come one after another. -/
theorem OrderlyAt.leads {course : Course computation}
    (orderly : course.OrderlyAt mayPause session) :
    ExecState.running.Leads (course.states session) := by
  refine leads_of_conduct orderly ?_ fun regular => ?_
  · unfold faultStates
    split
    · exact .singleton _
    · exact .cons_cons trivial (.singleton _)
  · unfold faultStates
    split
    · rfl
    · next faults =>
      rw [faults] at regular
      exact absurd trivial regular

theorem OrderlyAt.waits {course : Course computation} (orderly : course.OrderlyAt mayPause session)
    (live : session.IsLive) (paused : (session.carry computation).executor.state = .paused) :
    (session.carry computation).executor.wait.isSome = true := by
  have each : ∀ visited ∈ course.visits session, visited.executor.state = .paused →
      visited.executor.wait.isSome = true := conduct_waits orderly
  have arrives := course.arrives session
  unfold Session.carry at *
  cases ran : computation session with
  | ok value after =>
    rw [ran] at arrives paused
    dsimp only at paused ⊢
    cases last : (course.visits session).getLast? with
    | none =>
      rw [List.getLastD_eq_getLast?, last] at arrives
      have same : session = after := arrives
      rw [← same, live] at paused
      cases paused
    | some final =>
      rw [List.getLastD_eq_getLast?, last] at arrives
      have same : final = after := arrives
      rw [← same] at paused ⊢
      exact each final (List.mem_of_getLast? last) paused
  | error fault after =>
    rw [ran] at paused
    unfold Session.raise at paused
    dsimp only at paused
    split at paused <;> cases paused

end Course

end Exec

/-! ## What instructions keep -/

theorem Payload.Rewrites.concluded {before after : Payload} (rewrites : before.Rewrites after) :
    after.Concluded := by
  intro value state same
  subst same
  cases rewrites

theorem Payload.Plain.concluded {target : UInt32 → Prop} {payload : Payload}
    (plain : payload.Plain target) : payload.Concluded := by
  intro value state same
  subst same
  exact plain.elim

namespace Session

/-- A session whose futures have the states of executors that have ended, and whose forked executors
have yet to begin. -/
structure Tame (session : Session) : Prop where
  concluded : session.shared.heap.Each Payload.Concluded
  fresh : ∀ child ∈ session.shared.spawned, child.state = .running

variable {target : UInt32 → Prop} {before after : Session}

theorem Effect.tame (effect : Effect target before after) (tame : before.Tame) : after.Tame := by
  obtain ⟨concluded, fresh⟩ := tame
  cases effect with
  | own => exact ⟨concluded, fresh⟩
  | jump => exact ⟨concluded, fresh⟩
  | delayed => exact ⟨concluded, fresh⟩
  | enter => exact ⟨concluded, fresh⟩
  | leave => exact ⟨concluded, fresh⟩
  | around => exact ⟨concluded, fresh⟩
  | make payload plain => exact ⟨concluded.allocate plain.concluded, fresh⟩
  | rewrite word object change bytes found rewrites =>
    exact ⟨concluded.modify found rfl rewrites.concluded, fresh⟩
  | fork arguments permitted =>
    refine ⟨concluded.allocate fun _ _ => nofun, fun child member => ?_⟩
    rcases List.mem_cons.1 member with rfl | earlier
    · rfl
    · exact fresh child earlier
  | opened opens => exact ⟨concluded.allocate fun _ _ => nofun, fresh⟩
  | refused opens => exact ⟨concluded, fresh⟩

theorem Effects.tame (effects : before.Effects target after) (tame : before.Tame) : after.Tame := by
  induction effects with
  | refl => exact tame
  | tail _ effect ih => exact effect.tame ih

theorem Tame.issue {session : Session} (tame : session.Tame) : (session.carry Exec.issue).Tame := by
  have effects : session.Effects (fun _ => True) (session.carry Exec.issue) :=
    Effects.carry (Exec.runs_issue fun _ _ _ => ⟨trivial, Exec.permits_anywhere _ _ _⟩)
  exact effects.tame tame

theorem Tame.settle {session : Session} (tame : session.Tame) :
    (session.carry Exec.settle).Tame := by
  have effects : session.Effects (fun _ => True) (session.carry Exec.settle) :=
    Effects.carry (Exec.within_settle session)
  exact effects.tame tame

end Session

/-! ## The states of an executor -/

/-- How what an executor has carried out has ended when it has come so far. -/
def Phase.ending : Phase → Ending
  | .pausing | .blocked | .leaving | .resumed => .blocks
  | .ended => .ends
  | _ => .continues

theorem Ending.ending_phase (ending : Ending) : ending.phase.ending = ending := by
  cases ending <;> rfl

theorem Executor.ending_eq_continues :
    executor.ending = .continues ↔ executor.state = .running := by
  unfold ending
  cases executor.state <;> decide

theorem Executor.ending_eq_blocks : executor.ending = .blocks ↔ executor.state = .paused := by
  unfold ending
  cases executor.state <;> decide

theorem Executor.ending_eq_ends : executor.ending = .ends ↔ executor.state.isTerminal = true := by
  unfold ending
  cases executor.state <;> decide

namespace Runner

/-- The state of an executor. One that has come back from a pause runs. -/
def state (runner : Runner) : ExecState :=
  if runner.party.phase = .resumed then .running else runner.executor.state

/-- The states that an executor goes through by an act. What is left of an instruction after a pause
begins with an executor that runs. -/
def passes (runner : Runner) (shared : Shared) : Act → List ExecState
  | .known .check => if runner.party.aborted then [.aborted] else []
  | .known (.instruction _) => Exec.Course.issue.states ⟨runner.executor, shared⟩
  | .known .leavePaused => [.running]
  | .known (.finish _) => Exec.Course.settle.states (Session.returned ⟨runner.executor, shared⟩)
  | .heed => if runner.party.aborted then [.aborted] else []
  | _ => []

/-- Whether an executor carries out an instruction, or what is left of one after a pause. -/
def Act.executes : Act → Bool
  | .known (.instruction _) => true
  | .known (.finish _) => true
  | _ => false

/-- Whether an executor keeps to the rules on its way through what it carries out. It may pause in
an instruction that waits, and nothing follows its end. -/
def Behaves (runner : Runner) (shared : Shared) : Act → Prop
  | .known (.instruction _) =>
    Exec.Course.issue.OrderlyAt
      (∃ op size, Session.instruction? ⟨runner.executor, shared⟩ = some (op, size) ∧ op.Blocks)
      ⟨runner.executor, shared⟩
  | .known (.finish _) =>
    Exec.Course.settle.OrderlyAt True (Session.returned ⟨runner.executor, shared⟩)
  | _ => True

/-- An executor within its limits, in a state that goes with what it does. -/
structure Sound (settings : Settings) (runner : Runner) : Prop where
  bounded : runner.executor.Bounded settings
  placed : runner.executor.ending = runner.party.phase.ending
  waits : runner.executor.state = .paused → runner.executor.wait.isSome = true
  newborn : ∀ child ∈ runner.newborn, child.state = .running ∧ child.Bounded settings

end Runner

/-- A shared state with no executors to be adopted, and with futures that have the states of
executors that have ended. -/
structure Shared.Calm (shared : Shared) : Prop where
  concluded : shared.heap.Each Payload.Concluded
  adopted : shared.spawned = []

namespace Runner

variable {runner after : Runner} {shared sharedAfter : Shared} {party : Party}

/-- What becomes of an executor by an act: it and what is shared stay sound, and it passes through
states that may come one after another. -/
structure Passes (runner : Runner) (shared : Shared) (states : List ExecState) (after : Runner)
    (sharedAfter : Shared) : Prop where
  sound : after.Sound shared.settings
  settings : sharedAfter.settings = shared.settings
  calm : sharedAfter.Calm
  leads : runner.state.Leads states
  arrives : states.getLastD runner.state = after.state

theorem state_of_phase (resumed : runner.party.phase ≠ .resumed) :
    runner.state = runner.executor.state :=
  if_neg resumed

theorem state_of_resumed (resumed : runner.party.phase = .resumed) : runner.state = .running :=
  if_pos resumed

theorem Sound.passes_nothing (sound : runner.Sound shared.settings) (calm : shared.Calm)
    (executor : after.executor = runner.executor) (newborn : after.newborn = runner.newborn)
    (ending : after.party.phase.ending = runner.party.phase.ending)
    (resumed : after.party.phase = .resumed ↔ runner.party.phase = .resumed) :
    runner.Passes shared [] after shared where
  sound := by
    obtain ⟨bounded, placed, waits, fresh⟩ := sound
    constructor
    · rwa [executor]
    · rwa [executor, ending]
    · rwa [executor]
    · rwa [newborn]
  settings := rfl
  calm := calm
  leads := .singleton _
  arrives := by
    unfold state
    simp only [executor, resumed, List.getLastD_nil]

/-- What a part of an instruction leaves behind. -/
theorem Sound.passes_carry (sound : runner.Sound shared.settings) (calm : shared.Calm)
    {computation : Exec Unit} {ending : Ending} {states : List ExecState}
    (keeping : Exec.Keeping computation) (tame : Session.Tame ⟨runner.executor, shared⟩ →
      (Session.carry computation ⟨runner.executor, shared⟩).Tame)
    (waits : (Session.carry computation ⟨runner.executor, shared⟩).executor.state = .paused →
      (Session.carry computation ⟨runner.executor, shared⟩).executor.wait.isSome = true)
    (leads : runner.state.Leads states) (arrives : states.getLastD runner.state =
      (Session.carry computation ⟨runner.executor, shared⟩).executor.state)
    (phase : party.phase = ending.phase)
    (carries : runner.carry shared party computation ending = some (after, sharedAfter)) :
    runner.Passes shared states after sharedAfter := by
  have keeps := Session.keeps_carry keeping ⟨runner.executor, shared⟩
  obtain ⟨concluded, fresh⟩ := tame ⟨calm.concluded, fun child member => by
    rw [calm.adopted] at member
    exact absurd member List.not_mem_nil⟩
  have bounded := keeps.bounded ⟨sound.bounded, fun child member => by
    rw [calm.adopted] at member
    exact absurd member List.not_mem_nil⟩
  simp only [Runner.carry, Option.ite_none_right_eq_some, Option.some.injEq, Prod.mk.injEq]
    at carries
  obtain ⟨ends, rfl, rfl⟩ := carries
  have limits : (Session.carry computation ⟨runner.executor, shared⟩).shared.settings =
      shared.settings := keeps.settings
  obtain ⟨own, spawned⟩ := bounded
  rw [limits] at own spawned
  constructor
  case sound =>
    refine ⟨own, ?_, waits, fun child member => ⟨fresh child member, spawned child member⟩⟩
    rw [phase, Ending.ending_phase]
    exact ends
  case settings => exact limits
  case calm => exact ⟨concluded, rfl⟩
  case leads => exact leads
  case arrives =>
    rw [arrives, state_of_phase]
    rw [phase]
    cases ending <;> decide

/-- An executor that is about to carry out an instruction runs. -/
theorem Sound.live {settings : Settings} (sound : runner.Sound settings)
    (ready : runner.party.phase = .ready) :
    runner.executor.state = .running ∧ runner.state = .running := by
  have placed := sound.placed
  rw [ready] at placed
  have live := Executor.ending_eq_continues.1 placed
  refine ⟨live, ?_⟩
  rw [state_of_phase (by rw [ready]; decide)]
  exact live

theorem Sound.behaves_issue (sound : runner.Sound shared.settings) (calm : shared.Calm)
    (ready : runner.party.phase = .ready) (ending : Ending) :
    runner.Behaves shared (.known (.instruction ending)) :=
  Exec.Course.orderlyAt_issue (sound.live ready).1 sound.bounded.operands calm.concluded

theorem behaves_settle (calm : shared.Calm) (runner : Runner) (ending : Ending) :
    runner.Behaves shared (.known (.finish ending)) :=
  Exec.Course.orderlyAt_settle rfl calm.concluded

theorem Sound.passes_issue {ending : Ending} (sound : runner.Sound shared.settings)
    (calm : shared.Calm) (known : runner.party.act (.instruction ending) = some party)
    (carries : runner.carry shared party Exec.issue ending = some (after, sharedAfter)) :
    runner.Passes shared (Exec.Course.issue.states ⟨runner.executor, shared⟩) after
      sharedAfter := by
  simp only [Party.act, Option.ite_none_right_eq_some, Option.some.injEq] at known
  obtain ⟨ready, rfl⟩ := known
  obtain ⟨live, running⟩ := sound.live ready
  have orderly := sound.behaves_issue calm ready ending
  refine sound.passes_carry calm Exec.keeping_issue Session.Tame.issue (orderly.waits live) ?_ ?_
    rfl carries
  · rw [running]
    exact orderly.leads
  · rw [running, ← live]
    exact Exec.Course.getLastD_states _ _

theorem Sound.passes_settle {ending : Ending} (sound : runner.Sound shared.settings)
    (calm : shared.Calm) (known : runner.party.act (.finish ending) = some party)
    (carries : runner.carry shared party Exec.settle ending = some (after, sharedAfter)) :
    runner.Passes shared
      (Exec.Course.settle.states (Session.returned ⟨runner.executor, shared⟩)) after
      sharedAfter := by
  simp only [Party.act, Option.ite_none_right_eq_some, Option.some.injEq] at known
  obtain ⟨resumed, rfl⟩ := known
  have placed := sound.placed
  rw [resumed] at placed
  have waits := sound.waits (Executor.ending_eq_blocks.1 placed)
  have orderly := behaves_settle calm runner ending
  have paused := orderly.waits rfl
  have arrives := Exec.Course.getLastD_states Exec.Course.settle
    (Session.returned ⟨runner.executor, shared⟩)
  rw [Session.carry_settle_returned waits] at paused arrives
  refine sound.passes_carry calm Exec.indifferent_settle.keeping Session.Tame.settle paused ?_ ?_
    rfl carries
  · rw [state_of_resumed resumed]
    exact orderly.leads
  · rw [state_of_resumed resumed]
    exact arrives

/-- An executor that carries out something runs, and behaves on its way. -/
theorem Sound.behaves {act : Act} (sound : runner.Sound shared.settings) (calm : shared.Calm)
    (turns : runner.turn shared act = some (after, sharedAfter)) (executes : act.executes = true) :
    runner.state = .running ∧ runner.Behaves shared act := by
  cases act with
  | known act =>
    simp only [turn, Option.ite_none_right_eq_some] at turns
    obtain ⟨_, acts⟩ := turns
    unfold Runner.act at acts
    split at acts
    · next party known =>
      cases act with
      | instruction ending =>
        have ready := (Option.ite_none_right_eq_some.1 known).1
        exact ⟨(sound.live ready).2, sound.behaves_issue calm ready ending⟩
      | finish ending =>
        have resumed := (Option.ite_none_right_eq_some.1 known).1
        exact ⟨state_of_resumed resumed, behaves_settle calm runner ending⟩
      | _ => cases executes
    · cases acts
  | _ => cases executes

theorem Sound.passes_halt (sound : runner.Sound shared.settings) (calm : shared.Calm)
    (running : runner.state = .running) (phase : party.phase = .ended) :
    runner.Passes shared [.aborted] { runner with party, executor := runner.executor.halted }
      shared where
  sound :=
    { bounded := sound.bounded.of_stacks rfl rfl rfl
      placed := by
        rw [phase]
        rfl
      waits := fun paused => by cases paused
      newborn := sound.newborn }
  settings := rfl
  calm := calm
  leads := by
    rw [running]
    exact .cons_cons trivial (.singleton _)
  arrives := by
    rw [running]
    refine (if_neg ?_).symm
    rw [phase]
    decide

theorem Sound.passes_check (sound : runner.Sound shared.settings) (calm : shared.Calm)
    (known : runner.party.act .check = some party) :
    runner.Passes shared (if runner.party.aborted then [.aborted] else [])
      { runner with
        party
        executor := if runner.party.aborted then runner.executor.halted else runner.executor }
      shared := by
  simp only [Party.act, Option.ite_none_right_eq_some, Option.some.injEq] at known
  obtain ⟨checking, rfl⟩ := known
  cases told : runner.party.aborted with
  | true =>
    refine sound.passes_halt calm ?_ rfl
    have placed := sound.placed
    rw [checking] at placed
    rw [state_of_phase (by rw [checking]; decide)]
    exact Executor.ending_eq_continues.1 placed
  | false =>
    refine sound.passes_nothing calm rfl rfl ?_ ?_
    · rw [checking]
      rfl
    · simp [checking]

theorem Sound.passes_return (sound : runner.Sound shared.settings) (calm : shared.Calm)
    (known : runner.party.act .leavePaused = some party) :
    runner.Passes shared [.running] { runner with party, resumption := .returned } shared := by
  simp only [Party.act, Option.ite_none_right_eq_some, Option.some.injEq] at known
  obtain ⟨⟨waiting, _⟩, rfl⟩ := known
  have blocks : runner.party.phase.ending = .blocks := by
    rcases waiting with phase | phase <;> rw [phase] <;> rfl
  have placed := sound.placed.trans blocks
  have paused : runner.state = .paused := by
    rw [state_of_phase]
    · exact Executor.ending_eq_blocks.1 placed
    · rcases waiting with phase | phase <;> rw [phase] <;> decide
  exact
    { sound := ⟨sound.bounded, placed, sound.waits, sound.newborn⟩
      settings := rfl
      calm := calm
      leads := by
        rw [paused]
        exact .cons_cons rfl (.singleton _)
      arrives := rfl }

/-- A future takes the state of an executor that has ended. -/
theorem Sound.passes_deliver (sound : runner.Sound shared.settings) (calm : shared.Calm)
    (ended : runner.party.phase = .ended) (promise : Word) :
    runner.Passes shared [] { runner with delivered := true }
      (shared.complete promise runner.executor) := by
  have same : runner.Passes shared [] { runner with delivered := true } shared :=
    sound.passes_nothing calm rfl rfl rfl Iff.rfl
  have placed := sound.placed
  rw [ended] at placed
  refine ⟨same.sound, rfl, ⟨?_, calm.adopted⟩, same.leads, same.arrives⟩
  refine calm.concluded.modify_of_slot rfl fun slot object _ _ value state known => ?_
  cases known
  exact Executor.ending_eq_ends.1 placed

/-- Every act of an executor leads through states that may come one after another. -/
theorem Sound.passes {act : Act} (sound : runner.Sound shared.settings) (calm : shared.Calm)
    (turns : runner.turn shared act = some (after, sharedAfter)) :
    runner.Passes shared (runner.passes shared act) after sharedAfter := by
  cases act with
  | known act =>
    simp only [turn, Option.ite_none_right_eq_some] at turns
    obtain ⟨_, acts⟩ := turns
    unfold Runner.act at acts
    split at acts
    · next party known =>
      cases act with
      | check =>
        cases acts
        exact sound.passes_check calm known
      | instruction ending => exact sound.passes_issue calm known acts
      | leavePaused =>
        cases acts
        exact sound.passes_return calm known
      | finish ending =>
        simp only [follow, Option.ite_none_right_eq_some] at acts
        exact sound.passes_settle calm known acts.2
      | _ =>
        cases acts
        simp only [Party.act, Option.ite_none_right_eq_some, Option.some.injEq,
          Party.testSafepoint] at known
        obtain ⟨phase, rfl⟩ := known
        refine sound.passes_nothing calm rfl rfl ?_ ?_ <;> grind [Phase.ending]
    · cases acts
  | listen =>
    simp only [turn, Option.ite_none_right_eq_some, Option.some.injEq, Prod.mk.injEq] at turns
    obtain ⟨_, rfl, rfl⟩ := turns
    exact sound.passes_nothing calm rfl rfl rfl Iff.rfl
  | heed =>
    simp only [turn, Option.ite_none_right_eq_some, Option.some.injEq, Prod.mk.injEq] at turns
    obtain ⟨⟨resumed, _, _⟩, rfl, rfl⟩ := turns
    unfold Runner.passes
    cases told : runner.party.aborted with
    | true => exact sound.passes_halt calm (state_of_resumed resumed) rfl
    | false => exact sound.passes_nothing calm rfl rfl rfl Iff.rfl
  | deliver =>
    simp only [turn] at turns
    split at turns
    · next promise _ =>
      simp only [Option.ite_none_right_eq_some, Option.some.injEq, Prod.mk.injEq] at turns
      obtain ⟨⟨ended, _, _⟩, rfl, rfl⟩ := turns
      exact sound.passes_deliver calm ended promise
    · cases turns
  | enroll => cases turns
  | leave => cases turns

end Runner

end WordMachine
