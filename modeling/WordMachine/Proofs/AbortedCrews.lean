import WordMachine.Proofs.Crews

/-!
A crew that was told to stop. An executor starts at most one more instruction, the one before which
it had already looked whether it was told; one that waits, or is registered later, does nothing
more than to stop.
-/

namespace WordMachine

variable {runner former : Runner} {executor : Executor}

namespace Crew

variable {crew after : Crew} {move : Move} {id : Nat}

/-! ## Every executor was told -/

/-- Every executor, present or future, was told to stop, and its waits are to end. -/
structure Told (crew : Crew) : Prop where
  aborted : crew.aborted = true
  runners : ∀ runner ∈ crew.runners, runner.party.aborted = true ∧ runner.cancelled = true

theorem Told.step (told : crew.Told) (moves : crew.step move = some after) : after.Told where
  aborted := by
    rcases aborted_step moves with aborted | ⟨same, _⟩
    · exact aborted
    · exact same.trans told.aborted
  runners := by
    intro runner member
    rcases origin moves runner member with ⟨former, marked, _⟩ | ⟨former, turned, _⟩ | ⟨_, _, rfl⟩
    · obtain ⟨aborted, cancelled⟩ := told.runners _ former
      exact ⟨marked.aborted aborted, marked.cancelled cancelled⟩
    · obtain ⟨aborted, cancelled⟩ := told.runners _ former
      obtain ⟨_, _, keepsAborted, keepsCancelled⟩ := turned.keeps
      exact ⟨keepsAborted aborted, keepsCancelled.trans cancelled⟩
    · exact ⟨told.aborted, told.aborted⟩

/-- One that tells all executors to stop has told all of them when it is done. -/
theorem told_of_endAbort (standing : crew.Standing) (moves : crew.step .endAbort = some after) :
    after.Told := by
  simp only [step, Option.ite_none_right_eq_some, Option.some.injEq] at moves
  obtain ⟨tells, rfl⟩ := moves
  refine ⟨standing.aborted (by simp [tells]), ?_⟩
  intro runner member
  rcases (standing.runners runner member).covered _ tells with waiting | ⟨told, ended | half⟩
  · cases waiting
  · exact ⟨told, ended⟩
  · cases half

end Crew

/-! ## Starts of instructions -/

/-- Only one that was not told to stop when it looked gets ready for an instruction. -/
theorem Party.ready_of_act {party after : Party} {act : WordMachine.Act}
    (acts : party.act act = some after) (ready : after.phase = .ready) :
    act = .check ∧ party.aborted = false := by
  cases act with
  | check =>
    simp only [Party.act, Option.ite_none_right_eq_some, Option.some.injEq] at acts
    obtain ⟨_, rfl⟩ := acts
    cases told : party.aborted <;> simp_all
  | instruction ending =>
    simp only [Party.act, Option.ite_none_right_eq_some, Option.some.injEq] at acts
    obtain ⟨_, rfl⟩ := acts
    cases ending <;> cases ready
  | finish ending =>
    simp only [Party.act, Option.ite_none_right_eq_some, Option.some.injEq] at acts
    obtain ⟨_, rfl⟩ := acts
    cases ending <;> cases ready
  | _ =>
    simp only [Party.act, Party.testSafepoint, Option.ite_none_right_eq_some,
      Option.some.injEq] at acts
    obtain ⟨_, rfl⟩ := acts
    grind

/-- An executor that was told to stop does not get ready for an instruction by itself, and no longer
is once it has started one. -/
theorem Runner.Turned.not_ready {act : Runner.Act} (turned : former.Turned act runner)
    (told : former.party.aborted = true) : runner.party.phase ≠ .ready := by
  intro ready
  cases turned with
  | moved _ phase => exact phase.1 ready
  | checked acts => exact Bool.eq_false_iff.1 (Party.ready_of_act acts ready).2 told
  | issued acts => cases (Party.ready_of_act acts ready).1
  | finished _ acts => cases (Party.ready_of_act acts ready).1
  | returned acts => cases (Party.ready_of_act acts ready).1
  | listened phase => cases phase.symm.trans ready
  | stopped _ _ => cases ready
  | cleared phase _ => cases phase.symm.trans ready
  | delivered phase => cases phase.symm.trans ready

theorem Runner.Turned.ready {ending : Ending}
    (turned : former.Turned (.known (.instruction ending)) runner) :
    former.party.phase = .ready := by
  cases turned with
  | moved acts _ => exact (Option.ite_none_right_eq_some.1 acts).1
  | issued acts => exact (Option.ite_none_right_eq_some.1 acts).1

namespace Crew

variable {crew after : Crew} {move : Move} {id : Nat}

theorem starts_eq_true :
    move.starts id = true ↔
    ∃ ending, move = .runner id (.known (.instruction ending)) := by
  cases move with
  | runner other act =>
    cases act with
    | known act => cases act <;> simp [Move.starts]
    | _ => simp [Move.starts]
  | _ => simp [Move.starts]

/-- The executor with a number has looked whether it is told to stop, and starts an instruction
next. -/
def Ready (crew : Crew) (id : Nat) : Prop :=
  ∃ runner ∈ crew.runners, runner.party.id = id ∧ runner.party.phase = .ready

/-- Once all executors were told, none gets ready any more; one that starts an instruction was
ready, and then is not. -/
theorem Told.ready_step (told : crew.Told) (moves : crew.step move = some after)
    (ready : after.Ready id) : crew.Ready id ∧ move.starts id = false := by
  obtain ⟨runner, member, rfl, phase⟩ := ready
  rcases origin moves runner member with ⟨former, marked, still⟩ | ⟨former, turned, _⟩ |
    ⟨_, still, rfl⟩
  · exact ⟨⟨_, former, marked.sameId.symm, marked.phase.symm.trans phase⟩, still⟩
  · exact absurd phase (turned.not_ready (told.runners _ former).1)
  · cases phase

theorem ready_of_starts (moves : crew.step move = some after) (starts : move.starts id = true) :
    crew.Ready id := by
  obtain ⟨ending, rfl⟩ := starts_eq_true.1 starts
  obtain ⟨former, member, same, _, acts⟩ := step_runner moves
  rcases act_eq_some acts with ⟨_, _, enrolls, _, _⟩ | ⟨leaves, _, _⟩ | ⟨_, _, turned, _⟩
  · cases enrolls
  · cases leaves
  · exact ⟨former, member, same, turned.ready⟩

theorem Told.run_idle {moves : List Move} (told : crew.Told) (unready : ¬ crew.Ready id)
    (runs : crew.run moves = some after) : ∀ move ∈ moves, move.starts id = false := by
  induction moves generalizing crew with
  | nil =>
    intro move member
    cases member
  | cons first moves ih =>
    obtain ⟨next, moved, rest⟩ := run_cons_eq_some.1 runs
    intro move member
    rcases List.mem_cons.1 member with rfl | later
    · exact Bool.eq_false_iff.2 fun starts => unready (ready_of_starts moved starts)
    · exact ih (told.step moved)
        (fun ready => unready (told.ready_step moved ready).1) rest move later

theorem Told.countP_starts_le {moves : List Move} (told : crew.Told)
    (runs : crew.run moves = some after) (id : Nat) : moves.countP (Move.starts id) ≤ 1 := by
  induction moves generalizing crew with
  | nil => exact Nat.zero_le 1
  | cons first moves ih =>
    obtain ⟨next, moved, rest⟩ := run_cons_eq_some.1 runs
    rw [List.countP_cons]
    cases starts : first.starts id with
    | false => simpa using ih (told.step moved) rest
    | true =>
      have unready : ¬ next.Ready id := by
        intro ready
        rw [(told.ready_step moved ready).2] at starts
        cases starts
      have idle := (told.step moved).run_idle unready rest
      have none : moves.countP (Move.starts id) = 0 :=
        List.countP_eq_zero.2 fun move member => by simp [idle move member]
      simp [none]

end Crew

/-! ## Executors that wait -/

/-- An executor that does nothing more than to stop: it is not ready for an instruction and will
not go on with one, and apart from being stopped it stays as it is. -/
structure Runner.Doomed (executor : Executor) (runner : Runner) : Prop where
  unready : runner.party.phase ≠ .ready
  uncleared : runner.party.phase = .resumed → runner.resumption ≠ .cleared
  same : runner.executor =
    if runner.party.phase = .ended then executor.halted else executor

theorem Runner.Doomed.marked (doomed : former.Doomed executor) (marked : former.Marked runner) :
    runner.Doomed executor where
  unready := by
    rw [marked.phase]
    exact doomed.unready
  uncleared := by
    rw [marked.phase, marked.resumption]
    exact doomed.uncleared
  same := by
    rw [marked.phase, marked.executor]
    exact doomed.same

theorem Runner.Doomed.executor_eq (doomed : runner.Doomed executor)
    (alive : runner.party.phase ≠ .ended) : runner.executor = executor := by
  rw [doomed.same, if_neg alive]

theorem Party.alive_of_act {party after : Party} {act : WordMachine.Act}
    (acts : party.act act = some after) : party.phase ≠ .ended := by
  intro ended
  cases act <;> simp [Party.act, ended] at acts

/-- Whatever an executor that was told to stop does while it is doomed, it stays doomed. -/
theorem Runner.Doomed.turned {act : Runner.Act} (doomed : former.Doomed executor)
    (turned : former.Turned act runner) (told : former.party.aborted = true) :
    runner.Doomed executor := by
  have unready := turned.not_ready told
  cases turned with
  | moved acts elsewhere =>
    refine ⟨unready, fun resumed => absurd resumed elsewhere.2.1, ?_⟩
    rw [if_neg elsewhere.2.2]
    exact doomed.executor_eq (Party.alive_of_act acts)
  | checked acts =>
    have alive := doomed.executor_eq (Party.alive_of_act acts)
    simp only [Party.act, told, if_true, Option.ite_none_right_eq_some, Option.some.injEq] at acts
    obtain ⟨_, rfl⟩ := acts
    exact ⟨unready, by simp, by simp [told, alive]⟩
  | issued acts => exact absurd (Option.ite_none_right_eq_some.1 acts).1 doomed.unready
  | finished cleared acts =>
    exact absurd cleared (doomed.uncleared (Option.ite_none_right_eq_some.1 acts).1)
  | returned acts =>
    have alive := doomed.executor_eq (Party.alive_of_act acts)
    simp only [Party.act, Option.ite_none_right_eq_some, Option.some.injEq] at acts
    obtain ⟨_, rfl⟩ := acts
    exact ⟨unready, by simp, alive⟩
  | listened resumed =>
    refine ⟨unready, by simp, ?_⟩
    exact (doomed.executor_eq (by simp [resumed])).trans (by simp [resumed])
  | stopped resumed _ =>
    refine ⟨unready, by simp, ?_⟩
    exact congrArg Executor.halted (doomed.executor_eq (by simp [resumed]))
  | cleared _ untold => exact absurd told (Bool.eq_false_iff.1 untold)
  | delivered ended => exact ⟨unready, doomed.uncleared, doomed.same⟩

namespace Crew

variable {crew after : Crew} {move : Move} {id : Nat}

/-- The executor with a number does nothing more than to stop, or has stopped without doing
more. -/
structure Dooms (crew : Crew) (id : Nat) (executor : Executor) : Prop where
  known : id ∈ crew.numbers
  runners : ∀ runner ∈ crew.runners, runner.party.id = id → runner.Doomed executor
  left : ∀ last, (id, last) ∈ crew.left → last = executor.halted

theorem left_step (moves : crew.step move = some after) :
    after.left = crew.left ∨
      ∃ runner ∈ crew.runners, runner.party.phase = .ended ∧
        after.left = (runner.party.id, runner.executor) :: crew.left := by
  cases move with
  | runner id act =>
    obtain ⟨former, member, _, _, acts⟩ := step_runner moves
    rcases act_eq_some acts with ⟨child, newborn, _, _, rfl⟩ | ⟨_, ended, rfl⟩ |
      ⟨changed, shared, _, rfl⟩
    · exact .inl rfl
    · exact .inr ⟨former, member, ended, rfl⟩
    · exact .inl rfl
  | tell id =>
    simp only [step] at moves
    split at moves
    · simp only [Option.ite_none_right_eq_some, Option.some.injEq] at moves
      obtain ⟨_, rfl⟩ := moves
      exact .inl rfl
    · cases moves
  | cancel =>
    simp only [step] at moves
    split at moves
    · cases moves
      exact .inl rfl
    · cases moves
  | expire id =>
    simp only [step, Option.some.injEq] at moves
    subst moves
    exact .inl rfl
  | outside around =>
    simp only [step, Option.some.injEq] at moves
    subst moves
    exact .inl rfl
  | _ =>
    simp only [step, Option.ite_none_right_eq_some, Option.some.injEq] at moves
    obtain ⟨_, rfl⟩ := moves
    exact .inl rfl

theorem known_step (standing : crew.Standing) (moves : crew.step move = some after)
    (known : id ∈ crew.numbers) : id ∈ after.numbers := by
  rcases numbers_step moves standing.distinct_runners with ⟨same, _⟩ | ⟨more, _⟩
  · exact same.mem_iff.2 known
  · rw [more]
    exact List.mem_cons_of_mem _ known

theorem Dooms.step {executor : Executor} (dooms : crew.Dooms id executor) (standing : crew.Standing)
    (told : crew.Told) (moves : crew.step move = some after) : after.Dooms id executor where
  known := known_step standing moves dooms.known
  runners := by
    rintro runner member rfl
    rcases origin moves runner member with ⟨former, marked, _⟩ | ⟨former, turned, _⟩ | ⟨_, _, rfl⟩
    · exact (dooms.runners _ former marked.sameId.symm).marked marked
    · exact (dooms.runners _ former turned.keeps.1.symm).turned turned (told.runners _ former).1
    · exact absurd (standing.numbered _ dooms.known) (by simp)
  left := by
    intro last member
    rcases left_step moves with same | ⟨runner, runnerMember, ended, more⟩
    · exact dooms.left last (same ▸ member)
    · rw [more] at member
      rcases List.mem_cons.1 member with now | before
      · cases now
        exact (dooms.runners runner runnerMember rfl).same.trans (if_pos ended)
      · exact dooms.left last before

theorem Dooms.unready {executor : Executor} (dooms : crew.Dooms id executor) : ¬ crew.Ready id := by
  rintro ⟨runner, member, same, ready⟩
  exact (dooms.runners runner member same).unready ready

end Crew

end WordMachine
