import WordMachine.Machine.Aborting
import WordMachine.Proofs.StopTheWorld

/-!
What holds of the executors of a crew at any time: their flags fit the collector, their numbers are
their own, and one that tells all of them to stop misses none. Every executor after a move comes
from one before it, unless it is new.
-/

namespace WordMachine

/-! ## What an executor does by itself -/

namespace Runner

variable {runner after : Runner} {shared sharedAfter : Shared}

/-- What an executor becomes by an act of its own, other than registering and leaving. -/
inductive Turned (runner : Runner) : Act → Runner → Prop
  | moved {act : WordMachine.Act} {party : Party} :
      runner.party.act act = some party →
      party.phase ≠ .ready ∧ party.phase ≠ .resumed ∧ party.phase ≠ .ended →
      Turned runner (.known act) { runner with party }
  | checked {party : Party} :
      runner.party.act .check = some party →
      Turned runner (.known .check)
        { runner with
          party
          executor := if runner.party.aborted then runner.executor.halted else runner.executor }
  | issued {ending : Ending} {party : Party} {executor : Executor} {newborn : List Executor} :
      runner.party.act (.instruction ending) = some party →
      Turned runner (.known (.instruction ending)) { runner with party, executor, newborn }
  | finished {ending : Ending} {party : Party} {executor : Executor} {newborn : List Executor} :
      runner.resumption = .cleared →
      runner.party.act (.finish ending) = some party →
      Turned runner (.known (.finish ending)) { runner with party, executor, newborn }
  | returned {party : Party} :
      runner.party.act .leavePaused = some party →
      Turned runner (.known .leavePaused) { runner with party, resumption := .returned }
  | listened :
      runner.party.phase = .resumed →
      Turned runner .listen
        { runner with
          party := { runner.party with aborted := runner.party.aborted || runner.cancelled }
          resumption := .informed }
  | stopped :
      runner.party.phase = .resumed →
      runner.party.aborted = true →
      Turned runner .heed
        { runner with
          party := { runner.party with phase := .ended }
          executor := runner.executor.halted }
  | cleared :
      runner.party.phase = .resumed →
      runner.party.aborted = false →
      Turned runner .heed { runner with resumption := .cleared }
  | delivered :
      runner.party.phase = .ended →
      Turned runner .deliver { runner with delivered := true }

theorem carry_eq_some {party : Party} {computation : Exec Unit} {ending : Ending}
    (carries : runner.carry shared party computation ending = some (after, sharedAfter)) :
    ∃ executor newborn, after = { runner with party, executor, newborn } := by
  simp only [carry, Option.ite_none_right_eq_some, Option.some.injEq, Prod.mk.injEq] at carries
  obtain ⟨_, rfl, _⟩ := carries
  exact ⟨_, _, rfl⟩

theorem turned_of_act {act : WordMachine.Act}
    (acts : runner.act shared act = some (after, sharedAfter)) :
    runner.Turned (.known act) after := by
  unfold Runner.act at acts
  split at acts
  · next party known =>
    cases act with
    | check =>
      simp only [follow, Option.some.injEq, Prod.mk.injEq] at acts
      obtain ⟨rfl, _⟩ := acts
      exact .checked known
    | instruction ending =>
      obtain ⟨executor, newborn, rfl⟩ := carry_eq_some acts
      exact .issued known
    | leavePaused =>
      simp only [follow, Option.some.injEq, Prod.mk.injEq] at acts
      obtain ⟨rfl, _⟩ := acts
      exact .returned known
    | finish ending =>
      simp only [follow, Option.ite_none_right_eq_some] at acts
      obtain ⟨isCleared, carries⟩ := acts
      obtain ⟨executor, newborn, rfl⟩ := carry_eq_some carries
      exact .finished isCleared known
    | _ =>
      simp only [follow, Option.some.injEq, Prod.mk.injEq] at acts
      obtain ⟨rfl, _⟩ := acts
      refine .moved known ?_
      simp only [Party.act, Option.ite_none_right_eq_some, Option.some.injEq,
        Party.testSafepoint] at known
      obtain ⟨_, rfl⟩ := known
      grind
  · cases acts

theorem turned_of_turn {act : Act} (turns : runner.turn shared act = some (after, sharedAfter)) :
    runner.Turned act after := by
  cases act with
  | known act =>
    simp only [turn, Option.ite_none_right_eq_some] at turns
    exact turned_of_act turns.2
  | listen =>
    simp only [turn, Option.ite_none_right_eq_some, Option.some.injEq, Prod.mk.injEq] at turns
    obtain ⟨⟨phase, _, _⟩, rfl, _⟩ := turns
    exact .listened phase
  | heed =>
    simp only [turn, Option.ite_none_right_eq_some, Option.some.injEq, Prod.mk.injEq] at turns
    obtain ⟨⟨phase, _, _⟩, rfl, _⟩ := turns
    cases told : runner.party.aborted with
    | false => simpa [told] using Turned.cleared phase told
    | true => simpa [told] using Turned.stopped phase told
  | deliver =>
    simp only [turn] at turns
    split at turns
    · simp only [Option.ite_none_right_eq_some, Option.some.injEq, Prod.mk.injEq] at turns
      obtain ⟨⟨phase, _, _⟩, rfl, _⟩ := turns
      exact .delivered phase
    · cases turns
  | enroll => cases turns
  | leave => cases turns

end Runner

/-- What a step of an executor that the registry knows of leaves alone. -/
theorem Party.act_keeps {party after : Party} {act : WordMachine.Act}
    (acts : party.act act = some after) :
    after.id = party.id ∧ after.aborted = party.aborted ∧
      after.pauseRequested = party.pauseRequested := by
  cases act <;>
    simp only [Party.act, Party.testSafepoint, Option.ite_none_right_eq_some,
      Option.some.injEq] at acts <;>
    obtain ⟨_, rfl⟩ := acts <;> grind

namespace Runner

variable {runner after : Runner} {act : Act}

/-- No act of an executor changes its number or the request to it, and none makes it forget what
it was told. -/
theorem Turned.keeps (turned : runner.Turned act after) :
    after.party.id = runner.party.id ∧ after.party.pauseRequested = runner.party.pauseRequested ∧
      (runner.party.aborted = true → after.party.aborted = true) ∧
      after.cancelled = runner.cancelled := by
  cases turned with
  | moved acts _ =>
    obtain ⟨id, aborted, requested⟩ := Party.act_keeps acts
    exact ⟨id, requested, fun told => aborted.trans told, rfl⟩
  | checked acts =>
    obtain ⟨id, aborted, requested⟩ := Party.act_keeps acts
    exact ⟨id, requested, fun told => aborted.trans told, rfl⟩
  | issued acts =>
    obtain ⟨id, aborted, requested⟩ := Party.act_keeps acts
    exact ⟨id, requested, fun told => aborted.trans told, rfl⟩
  | finished _ acts =>
    obtain ⟨id, aborted, requested⟩ := Party.act_keeps acts
    exact ⟨id, requested, fun told => aborted.trans told, rfl⟩
  | returned acts =>
    obtain ⟨id, aborted, requested⟩ := Party.act_keeps acts
    exact ⟨id, requested, fun told => aborted.trans told, rfl⟩
  | listened _ => exact ⟨rfl, rfl, fun told => by simp [told], rfl⟩
  | stopped _ _ => exact ⟨rfl, rfl, id, rfl⟩
  | cleared _ _ => exact ⟨rfl, rfl, id, rfl⟩
  | delivered _ => exact ⟨rfl, rfl, id, rfl⟩

/-- An act of an executor leaves its flags in agreement with where it stands. -/
theorem Turned.fits {collector : CollectorPhase} (turned : runner.Turned act after)
    (fits : runner.party.Fits collector) : after.party.Fits collector := by
  cases turned with
  | moved acts _ => exact fits.act acts
  | checked acts => exact fits.act acts
  | issued acts => exact fits.act acts
  | finished _ acts => exact fits.act acts
  | returned acts => exact fits.act acts
  | listened _ => exact ⟨fits.requested, fits.parked, fits.paused, fits.atRest⟩
  | stopped phase _ => exact fits.goOn (by simp [phase, Phase.AtRest]) (by decide)
  | cleared _ _ => exact fits
  | delivered _ => exact fits

end Runner

/-! ## Where an executor comes from -/

/-- An executor that was told something, or asked to pause or to go on, but did nothing itself. -/
structure Runner.Marked (former runner : Runner) : Prop where
  sameId : runner.party.id = former.party.id
  phase : runner.party.phase = former.party.phase
  executor : runner.executor = former.executor
  resumption : runner.resumption = former.resumption
  aborted : former.party.aborted = true → runner.party.aborted = true
  cancelled : former.cancelled = true → runner.cancelled = true

/-- An executor that is still to be told, or has been told; its waits may still be to be ended. -/
def Telling.Covers (telling : Telling) (runner : Runner) : Prop :=
  runner.party.id ∈ telling.untold ∨
    runner.party.aborted = true ∧
      (runner.cancelled = true ∨ telling.half = some runner.party.id)

theorem Runner.Marked.refl (runner : Runner) : runner.Marked runner :=
  ⟨rfl, rfl, rfl, rfl, id, id⟩

namespace Crew

variable {crew after : Crew} {move : Move}
variable {runner former : Runner} {id : Nat} {act : Runner.Act} {change : Runner → Runner}

/-- How an executor comes to be in a crew after a move. -/
inductive Origin (crew : Crew) (move : Move) (runner : Runner) : Prop
  | marked {former : Runner} :
      former ∈ crew.runners →
      former.Marked runner →
      move.starts runner.party.id = false →
      Origin crew move runner
  | turned {former : Runner} {act : Runner.Act} :
      former ∈ crew.runners →
      former.Turned act runner →
      move = .runner former.party.id act →
      Origin crew move runner
  | registered {executor : Executor} :
      crew.telling = none →
      (∀ id, move.starts id = false) →
      runner =
        { party :=
            { id := crew.lastId + 1
              pauseRequested := crew.collector != .idle
              aborted := crew.aborted }
          executor
          cancelled := crew.aborted } →
      Origin crew move runner

theorem mem_of_runner? (found : crew.runner? id = some runner) :
    runner ∈ crew.runners ∧ runner.party.id = id := by
  refine ⟨List.mem_of_find?_eq_some found, ?_⟩
  simpa using List.find?_some found

theorem mem_change (member : runner ∈ (crew.change id change).runners) :
    ∃ former ∈ crew.runners,
      former.party.id = id ∧ runner = change former ∨ former.party.id ≠ id ∧ runner = former := by
  obtain ⟨former, formerMember, rfl⟩ := List.mem_map.1 member
  refine ⟨former, formerMember, ?_⟩
  by_cases same : former.party.id = id
  · exact .inl ⟨same, by simp [same]⟩
  · exact .inr ⟨same, by simp [same]⟩

/-- An act of an executor: it registers another one, it leaves, or it turns into something. -/
theorem act_cases (acts : crew.act former act = some after) :
    (∃ child newborn, act = .enroll ∧ former.newborn = child :: newborn ∧
        after = (crew.change former.party.id ({ · with newborn })).register child) ∨
    (act = .leave ∧ former.party.phase = .ended ∧
        after =
          { crew with
            runners := crew.runners.filter (·.party.id != former.party.id)
            left := (former.party.id, former.executor) :: crew.left }) ∨
    (∃ runner shared, former.turn crew.shared act = some (runner, shared) ∧
        after = { crew.change former.party.id (fun _ => runner) with shared }) := by
  cases act with
  | enroll =>
    simp only [Crew.act] at acts
    split at acts
    · cases acts
    · next child newborn born =>
      cases acts
      exact .inl ⟨child, newborn, rfl, born, rfl⟩
  | leave =>
    simp only [Crew.act, Option.ite_none_right_eq_some, Option.some.injEq] at acts
    obtain ⟨⟨phase, _, _⟩, rfl⟩ := acts
    exact .inr (.inl ⟨rfl, phase, rfl⟩)
  | _ =>
    obtain ⟨⟨runner, shared⟩, turns, rfl⟩ := Option.map_eq_some_iff.1 acts
    exact .inr (.inr ⟨runner, shared, turns, rfl⟩)

/-- What becomes of the others and of itself when an executor acts. -/
theorem act_eq_some (acts : crew.act former act = some after) :
    (∃ child newborn, act = .enroll ∧ former.newborn = child :: newborn ∧
        after = (crew.change former.party.id ({ · with newborn })).register child) ∨
    (act = .leave ∧ former.party.phase = .ended ∧
        after =
          { crew with
            runners := crew.runners.filter (·.party.id != former.party.id)
            left := (former.party.id, former.executor) :: crew.left }) ∨
    (∃ runner shared, former.Turned act runner ∧
        after = { crew.change former.party.id (fun _ => runner) with shared }) := by
  refine (act_cases acts).imp_right (Or.imp_right ?_)
  rintro ⟨runner, shared, turns, same⟩
  exact ⟨runner, shared, Runner.turned_of_turn turns, same⟩

theorem step_found (moves : crew.step (.runner id act) = some after) :
    ∃ former, crew.runner? id = some former ∧
      (act.isGuarded = true → crew.telling = none) ∧ crew.act former act = some after := by
  simp only [step] at moves
  split at moves
  · next former found =>
    simp only [Option.ite_none_left_eq_some] at moves
    obtain ⟨free, acts⟩ := moves
    refine ⟨former, found, ?_, acts⟩
    intro guarded
    exact Decidable.byContradiction fun telling => free ⟨guarded, telling⟩
  · cases moves

theorem step_runner (moves : crew.step (.runner id act) = some after) :
    ∃ former ∈ crew.runners, former.party.id = id ∧
      (act.isGuarded = true → crew.telling = none) ∧ crew.act former act = some after := by
  obtain ⟨former, found, free, acts⟩ := step_found moves
  obtain ⟨member, same⟩ := mem_of_runner? found
  exact ⟨former, member, same, free, acts⟩

theorem Origin.of_mark (member : runner ∈ crew.runners.map change)
    (still : ∀ id, move.starts id = false)
    (marks : ∀ former : Runner, former.Marked (change former)) : Origin crew move runner := by
  obtain ⟨former, formerMember, rfl⟩ := List.mem_map.1 member
  exact .marked formerMember (marks former) (still _)

theorem Origin.of_change (member : runner ∈ (crew.change id change).runners)
    (still : ∀ id, move.starts id = false)
    (marks : ∀ former : Runner, former.Marked (change former)) : Origin crew move runner := by
  refine .of_mark member still fun former => ?_
  split
  · exact marks former
  · exact .refl former

/-- Every executor after a move was there before, and was marked or did something, unless it was
registered just now. -/
theorem origin (moves : crew.step move = some after) :
    ∀ runner ∈ after.runners, Origin crew move runner := by
  intro runner member
  have unmoved : ∀ {other : Move}, (∀ id, other.starts id = false) → runner ∈ crew.runners →
      Origin crew other runner :=
    fun still kept => .marked kept (.refl runner) (still _)
  cases move with
  | runner id act =>
    obtain ⟨former, formerMember, rfl, free, acts⟩ := step_runner moves
    rcases act_eq_some acts with ⟨child, newborn, rfl, _, rfl⟩ | ⟨rfl, _, rfl⟩ |
      ⟨changed, shared, turned, rfl⟩
    · rcases List.mem_cons.1 member with rfl | kept
      · exact .registered (free rfl) (fun _ => rfl) rfl
      · exact .of_change kept (fun _ => rfl) fun _ => ⟨rfl, rfl, rfl, rfl, id, id⟩
    · exact unmoved (fun _ => rfl) (List.mem_filter.1 member).1
    · obtain ⟨other, otherMember, ⟨_, rfl⟩ | ⟨different, rfl⟩⟩ := mem_change member
      · exact .turned formerMember turned rfl
      · refine .marked otherMember (.refl _) ?_
        cases act with
        | known act =>
          cases act with
          | instruction ending => simpa [Move.starts] using Ne.symm different
          | _ => rfl
        | _ => rfl
  | enter ip =>
    simp only [step, Option.ite_none_right_eq_some, Option.some.injEq] at moves
    obtain ⟨⟨free, _⟩, rfl⟩ := moves
    rcases List.mem_cons.1 member with rfl | kept
    · exact .registered free (fun _ => rfl) rfl
    · exact unmoved (fun _ => rfl) kept
  | beginAbort =>
    simp only [step, Option.ite_none_right_eq_some, Option.some.injEq] at moves
    obtain ⟨_, rfl⟩ := moves
    exact unmoved (fun _ => rfl) member
  | tell id =>
    simp only [step] at moves
    split at moves
    · simp only [Option.ite_none_right_eq_some, Option.some.injEq] at moves
      obtain ⟨_, rfl⟩ := moves
      exact .of_change member (fun _ => rfl) fun _ =>
        ⟨rfl, rfl, rfl, rfl, fun _ => rfl, fun told => told⟩
    · cases moves
  | cancel =>
    simp only [step] at moves
    split at moves
    · cases moves
      exact .of_change member (fun _ => rfl) fun _ =>
        ⟨rfl, rfl, rfl, rfl, fun told => told, fun _ => rfl⟩
    · cases moves
  | endAbort =>
    simp only [step, Option.ite_none_right_eq_some, Option.some.injEq] at moves
    obtain ⟨_, rfl⟩ := moves
    exact unmoved (fun _ => rfl) member
  | expire id =>
    simp only [step, Option.some.injEq] at moves
    subst moves
    exact .of_change member (fun _ => rfl) fun _ =>
      ⟨rfl, rfl, rfl, rfl, fun told => told, fun _ => rfl⟩
  | requestPause =>
    simp only [step, Option.ite_none_right_eq_some, Option.some.injEq] at moves
    obtain ⟨_, rfl⟩ := moves
    exact .of_mark member (fun _ => rfl) fun _ => ⟨rfl, rfl, rfl, rfl, id, id⟩
  | withdrawRequest =>
    simp only [step, Option.ite_none_right_eq_some, Option.some.injEq] at moves
    obtain ⟨_, rfl⟩ := moves
    exact .of_mark member (fun _ => rfl) fun _ => ⟨rfl, rfl, rfl, rfl, id, id⟩
  | keepWaiting =>
    simp only [step, Option.ite_none_right_eq_some, Option.some.injEq] at moves
    obtain ⟨_, rfl⟩ := moves
    exact unmoved (fun _ => rfl) member
  | beginCollection =>
    simp only [step, Option.ite_none_right_eq_some, Option.some.injEq] at moves
    obtain ⟨_, rfl⟩ := moves
    exact unmoved (fun _ => rfl) member
  | collect =>
    simp only [step, Option.ite_none_right_eq_some, Option.some.injEq] at moves
    obtain ⟨_, rfl⟩ := moves
    exact unmoved (fun _ => rfl) member
  | outside around =>
    simp only [step, Option.some.injEq] at moves
    subst moves
    exact unmoved (fun _ => rfl) member

/-! ## The numbers of executors -/

/-- The numbers of the executors that are registered or have left. -/
def numbers (crew : Crew) : List Nat :=
  crew.runners.map (·.party.id) ++ crew.left.map (·.1)

theorem map_id_change (same : ∀ runner ∈ crew.runners, runner.party.id = id →
      (change runner).party.id = runner.party.id) :
    (crew.change id change).runners.map (·.party.id) = crew.runners.map (·.party.id) := by
  unfold Crew.change
  rw [List.map_map]
  refine List.map_congr_left fun runner member => ?_
  change (if runner.party.id = id then change runner else runner).party.id = runner.party.id
  split
  · next equal => exact same runner member equal
  · rfl

theorem map_id_of_act (turned : former.Turned act runner) :
    (crew.change former.party.id fun _ => runner).runners.map (·.party.id) =
      crew.runners.map (·.party.id) :=
  map_id_change fun _ _ equal => turned.keeps.1.trans equal.symm

theorem numbers_leave (member : former ∈ crew.runners)
    (distinct : (crew.runners.map (·.party.id)).Nodup) :
    ((crew.runners.filter (·.party.id != former.party.id)).map (·.party.id) ++
        ((former.party.id, former.executor) :: crew.left).map (·.1)).Perm crew.numbers := by
  have erased : (crew.runners.filter (·.party.id != former.party.id)).map (·.party.id) =
      (crew.runners.map (·.party.id)).erase former.party.id := by
    rw [distinct.erase_eq_filter, List.filter_map]
    rfl
  have known : former.party.id ∈ crew.runners.map (·.party.id) := List.mem_map_of_mem member
  rw [erased, List.map_cons]
  exact List.perm_middle.trans ((List.perm_cons_erase known).symm.append_right _)

/-- A move changes the order of the numbers at most, or gives the next one to a new executor. -/
theorem numbers_step (moves : crew.step move = some after)
    (distinct : (crew.runners.map (·.party.id)).Nodup) :
    after.numbers.Perm crew.numbers ∧ after.lastId = crew.lastId ∨
      after.numbers = (crew.lastId + 1) :: crew.numbers ∧ after.lastId = crew.lastId + 1 := by
  have same : ∀ {other : Crew}, other.runners.map (·.party.id) = crew.runners.map (·.party.id) →
      other.left = crew.left → other.lastId = crew.lastId →
      other.numbers.Perm crew.numbers ∧ other.lastId = crew.lastId := by
    intro other ids left lastId
    unfold numbers
    rw [ids, left]
    exact ⟨.refl _, lastId⟩
  cases move with
  | runner id act =>
    obtain ⟨former, member, rfl, _, acts⟩ := step_runner moves
    rcases act_eq_some acts with ⟨child, newborn, _, _, rfl⟩ | ⟨_, _, rfl⟩ |
      ⟨changed, shared, turned, rfl⟩
    · refine .inr ⟨?_, rfl⟩
      exact congrArg (fun ids => (crew.lastId + 1) :: (ids ++ crew.left.map (·.1)))
        (map_id_change fun _ _ _ => rfl)
    · exact .inl ⟨numbers_leave member distinct, rfl⟩
    · exact .inl (same (map_id_of_act turned) rfl rfl)
  | enter ip =>
    simp only [step, Option.ite_none_right_eq_some, Option.some.injEq] at moves
    obtain ⟨_, rfl⟩ := moves
    exact .inr ⟨rfl, rfl⟩
  | tell id =>
    simp only [step] at moves
    split at moves
    · simp only [Option.ite_none_right_eq_some, Option.some.injEq] at moves
      obtain ⟨_, rfl⟩ := moves
      exact .inl (same (map_id_change fun _ _ _ => rfl) rfl rfl)
    · cases moves
  | cancel =>
    simp only [step] at moves
    split at moves
    · cases moves
      exact .inl (same (map_id_change fun _ _ _ => rfl) rfl rfl)
    · cases moves
  | expire id =>
    simp only [step, Option.some.injEq] at moves
    subst moves
    exact .inl (same (map_id_change fun _ _ _ => rfl) rfl rfl)
  | outside around =>
    simp only [step, Option.some.injEq] at moves
    subst moves
    exact .inl (same rfl rfl rfl)
  | _ =>
    simp only [step, Option.ite_none_right_eq_some, Option.some.injEq] at moves
    obtain ⟨_, rfl⟩ := moves
    exact .inl (same (by simp) rfl rfl)

/-! ## What holds at any time -/

/-- What holds of an executor of a crew at any time. -/
structure Stands (crew : Crew) (runner : Runner) : Prop where
  fits : runner.party.Fits crew.collector
  granted : crew.collector = .idle → runner.party.pauseRequested = false
  covered : ∀ telling, crew.telling = some telling → telling.Covers runner

/-- What holds of a crew at any time. -/
structure Standing (crew : Crew) : Prop where
  runners : ∀ runner ∈ crew.runners, crew.Stands runner
  distinct : crew.numbers.Nodup
  numbered : ∀ id ∈ crew.numbers, id ≤ crew.lastId
  aborted : crew.telling ≠ none → crew.aborted = true

theorem Stands.congr (stands : crew.Stands runner) (collector : after.collector = crew.collector)
    (telling : after.telling = crew.telling) : after.Stands runner :=
  ⟨collector ▸ stands.fits, collector ▸ stands.granted, telling ▸ stands.covered⟩

theorem Stands.turned (stands : crew.Stands former) (turned : former.Turned act runner) :
    crew.Stands runner := by
  obtain ⟨id, requested, aborted, cancelled⟩ := turned.keeps
  refine ⟨turned.fits stands.fits, fun idle => requested.trans (stands.granted idle), ?_⟩
  intro telling tells
  rcases stands.covered telling tells with untold | ⟨told, waits⟩
  · exact .inl (id ▸ untold)
  · exact .inr ⟨aborted told, by rw [cancelled, id]; exact waits⟩

/-- A new executor is asked to pause while any executor is. -/
theorem Stands.registered (id : Nat) (executor : Executor) (aborted : Bool)
    (free : crew.telling = none) :
    crew.Stands
      { party := { id, pauseRequested := crew.collector != .idle, aborted }
        executor
        cancelled := aborted } where
  fits := ⟨fun active => by simpa using active, by simp, by simp, fun _ => trivial⟩
  granted := fun idle => by simp [idle]
  covered := fun telling tells => by simp [free] at tells

section Moves

variable {runner : Runner} (standing : ∀ runner ∈ crew.runners, crew.Stands runner)
include standing

theorem stands_act {former : Runner} {act : Runner.Act} (formerMember : former ∈ crew.runners)
    (free : act.isGuarded = true → crew.telling = none) (acts : crew.act former act = some after)
    (member : runner ∈ after.runners) : after.Stands runner := by
  rcases act_eq_some acts with ⟨child, newborn, rfl, _, rfl⟩ | ⟨rfl, _, rfl⟩ |
    ⟨changed, shared, turned, rfl⟩
  · rcases List.mem_cons.1 member with rfl | kept
    · exact Stands.registered _ child crew.aborted (free rfl)
    · obtain ⟨other, otherMember, ⟨_, rfl⟩ | ⟨_, rfl⟩⟩ := mem_change kept
      · have stands := standing other otherMember
        exact ⟨stands.fits, stands.granted, stands.covered⟩
      · exact (standing runner otherMember).congr rfl rfl
  · exact (standing runner (List.mem_filter.1 member).1).congr rfl rfl
  · obtain ⟨other, otherMember, ⟨_, rfl⟩ | ⟨_, rfl⟩⟩ := mem_change member
    · exact ((standing former formerMember).turned turned).congr rfl rfl
    · exact (standing runner otherMember).congr rfl rfl

/-- One that is told is half told; nobody else is forgotten. -/
theorem stands_tell {id : Nat} (moves : crew.step (.tell id) = some after)
    (member : runner ∈ after.runners) : after.Stands runner := by
  simp only [step] at moves
  split at moves
  · next untold tells =>
    simp only [Option.ite_none_right_eq_some, Option.some.injEq] at moves
    obtain ⟨_, rfl⟩ := moves
    obtain ⟨former, formerMember, ⟨same, rfl⟩ | ⟨different, rfl⟩⟩ := mem_change member
    · have stands := standing former formerMember
      refine ⟨⟨stands.fits.requested, stands.fits.parked, stands.fits.paused,
        stands.fits.atRest⟩, stands.granted, ?_⟩
      intro telling now
      cases now
      exact .inr ⟨rfl, .inr (congrArg some same.symm)⟩
    · have stands := standing runner formerMember
      refine ⟨stands.fits, stands.granted, ?_⟩
      intro telling now
      cases now
      rcases stands.covered _ tells with waiting | ⟨told, ended | half⟩
      · exact .inl (List.mem_filter.2 ⟨waiting, by simpa using different⟩)
      · exact .inr ⟨told, .inl ended⟩
      · cases half
  · cases moves

theorem stands_cancel (moves : crew.step .cancel = some after) (member : runner ∈ after.runners) :
    after.Stands runner := by
  simp only [step] at moves
  split at moves
  · next untold id tells =>
    cases moves
    obtain ⟨former, formerMember, ⟨same, rfl⟩ | ⟨different, rfl⟩⟩ := mem_change member
    · have stands := standing former formerMember
      refine ⟨stands.fits, stands.granted, ?_⟩
      intro telling now
      cases now
      rcases stands.covered _ tells with waiting | ⟨told, _⟩
      · exact .inl waiting
      · exact .inr ⟨told, .inl rfl⟩
    · have stands := standing runner formerMember
      refine ⟨stands.fits, stands.granted, ?_⟩
      intro telling now
      cases now
      rcases stands.covered _ tells with waiting | ⟨told, ended | half⟩
      · exact .inl waiting
      · exact .inr ⟨told, .inl ended⟩
      · cases half
        exact absurd rfl different
  · cases moves

end Moves

theorem stands_step (standing : ∀ runner ∈ crew.runners, crew.Stands runner)
    (moves : crew.step move = some after) : ∀ runner ∈ after.runners, after.Stands runner := by
  intro runner member
  cases move with
  | runner id act =>
    obtain ⟨former, formerMember, rfl, free, acts⟩ := step_runner moves
    exact stands_act standing formerMember free acts member
  | enter ip =>
    simp only [step, Option.ite_none_right_eq_some, Option.some.injEq] at moves
    obtain ⟨⟨free, _⟩, rfl⟩ := moves
    rcases List.mem_cons.1 member with rfl | kept
    · exact Stands.registered _ _ crew.aborted free
    · exact (standing runner kept).congr rfl rfl
  | beginAbort =>
    simp only [step, Option.ite_none_right_eq_some, Option.some.injEq] at moves
    obtain ⟨_, rfl⟩ := moves
    have stands := standing runner member
    refine ⟨stands.fits, stands.granted, ?_⟩
    intro telling tells
    cases tells
    exact .inl (List.mem_map_of_mem member)
  | tell id => exact stands_tell standing moves member
  | cancel => exact stands_cancel standing moves member
  | endAbort =>
    simp only [step, Option.ite_none_right_eq_some, Option.some.injEq] at moves
    obtain ⟨_, rfl⟩ := moves
    have stands := standing runner member
    exact ⟨stands.fits, stands.granted, fun telling tells => by cases tells⟩
  | expire id =>
    simp only [step, Option.some.injEq] at moves
    subst moves
    obtain ⟨former, formerMember, ⟨_, rfl⟩ | ⟨_, rfl⟩⟩ := mem_change member
    · have stands := standing former formerMember
      refine ⟨stands.fits, stands.granted, ?_⟩
      intro telling tells
      exact (stands.covered telling tells).imp_right fun told => ⟨told.1, .inl rfl⟩
    · exact (standing runner formerMember).congr rfl rfl
  | requestPause =>
    simp only [step, Option.ite_none_right_eq_some, Option.some.injEq] at moves
    obtain ⟨⟨free, _⟩, rfl⟩ := moves
    obtain ⟨former, formerMember, rfl⟩ := List.mem_map.1 member
    have stands := standing former formerMember
    exact ⟨⟨fun _ => rfl, stands.fits.parked, stands.fits.paused, fun now => by cases now⟩,
      (fun now => by cases now), stands.covered⟩
  | keepWaiting =>
    simp only [step, Option.ite_none_right_eq_some, Option.some.injEq] at moves
    obtain ⟨_, rfl⟩ := moves
    exact standing runner member
  | beginCollection =>
    simp only [step, Option.ite_none_right_eq_some, Option.some.injEq] at moves
    obtain ⟨⟨_, waiting, allStopped⟩, rfl⟩ := moves
    have stands := standing runner member
    have stopped : runner.party.stopped = true := List.all_eq_true.1 allStopped runner member
    exact ⟨⟨fun _ => stands.fits.requested (by rw [waiting]; decide), stands.fits.parked,
        stands.fits.paused, fun _ => stands.fits.atRest_of_stopped stopped⟩,
      (fun now => by cases now), stands.covered⟩
  | collect =>
    simp only [step, Option.ite_none_right_eq_some, Option.some.injEq] at moves
    obtain ⟨_, rfl⟩ := moves
    exact (standing runner member).congr rfl rfl
  | withdrawRequest =>
    simp only [step, Option.ite_none_right_eq_some, Option.some.injEq] at moves
    obtain ⟨_, rfl⟩ := moves
    obtain ⟨former, formerMember, rfl⟩ := List.mem_map.1 member
    have stands := standing former formerMember
    exact ⟨⟨fun active => absurd rfl active, stands.fits.parked, stands.fits.paused,
      fun now => by cases now⟩, fun _ => rfl, stands.covered⟩
  | outside around =>
    simp only [step, Option.some.injEq] at moves
    subst moves
    exact (standing runner member).congr rfl rfl

/-- Only one that begins to tell all executors to stop marks the registry, and nothing takes the
mark away. -/
theorem aborted_step (moves : crew.step move = some after) :
    after.aborted = true ∨
      after.aborted = crew.aborted ∧ (after.telling ≠ none → crew.telling ≠ none) := by
  have same : ∀ {other : Crew}, other.aborted = crew.aborted → other.telling = crew.telling →
      other.aborted = crew.aborted ∧ (other.telling ≠ none → crew.telling ≠ none) :=
    fun aborted telling => ⟨aborted, fun tells => telling ▸ tells⟩
  cases move with
  | runner id act =>
    obtain ⟨former, _, _, _, acts⟩ := step_runner moves
    rcases act_eq_some acts with ⟨child, newborn, _, _, rfl⟩ | ⟨_, _, rfl⟩ |
      ⟨changed, shared, _, rfl⟩
    · exact .inr (same rfl rfl)
    · exact .inr (same rfl rfl)
    · exact .inr (same rfl rfl)
  | beginAbort =>
    simp only [step, Option.ite_none_right_eq_some, Option.some.injEq] at moves
    obtain ⟨_, rfl⟩ := moves
    exact .inl rfl
  | tell id =>
    simp only [step] at moves
    split at moves
    · next untold tells =>
      simp only [Option.ite_none_right_eq_some, Option.some.injEq] at moves
      obtain ⟨_, rfl⟩ := moves
      exact .inr ⟨rfl, fun _ => by simp [tells]⟩
    · cases moves
  | cancel =>
    simp only [step] at moves
    split at moves
    · next untold id tells =>
      cases moves
      exact .inr ⟨rfl, fun _ => by simp [tells]⟩
    · cases moves
  | endAbort =>
    simp only [step, Option.ite_none_right_eq_some, Option.some.injEq] at moves
    obtain ⟨_, rfl⟩ := moves
    exact .inr ⟨rfl, fun tells => absurd rfl tells⟩
  | expire id =>
    simp only [step, Option.some.injEq] at moves
    subst moves
    exact .inr (same rfl rfl)
  | outside around =>
    simp only [step, Option.some.injEq] at moves
    subst moves
    exact .inr (same rfl rfl)
  | _ =>
    simp only [step, Option.ite_none_right_eq_some, Option.some.injEq] at moves
    obtain ⟨_, rfl⟩ := moves
    exact .inr (same rfl rfl)

theorem Standing.distinct_runners (standing : crew.Standing) :
    (crew.runners.map (·.party.id)).Nodup :=
  (List.nodup_append.1 standing.distinct).1

theorem Standing.step (standing : crew.Standing) (moves : crew.step move = some after) :
    after.Standing := by
  have numbers := numbers_step moves standing.distinct_runners
  refine ⟨stands_step standing.runners moves, ?_, ?_, ?_⟩
  · rcases numbers with ⟨same, _⟩ | ⟨more, _⟩
    · exact same.nodup_iff.2 standing.distinct
    · rw [more]
      refine List.nodup_cons.2 ⟨fun known => ?_, standing.distinct⟩
      exact absurd (standing.numbered _ known) (by omega)
  · intro id known
    rcases numbers with ⟨same, lastId⟩ | ⟨more, lastId⟩
    · rw [lastId]
      exact standing.numbered id (same.mem_iff.1 known)
    · rw [more] at known
      rw [lastId]
      rcases List.mem_cons.1 known with rfl | former
      · exact Nat.le_refl _
      · exact Nat.le_succ_of_le (standing.numbered id former)
  · intro tells
    rcases aborted_step moves with aborted | ⟨aborted, before⟩
    · exact aborted
    · exact aborted.trans (standing.aborted (before tells))

theorem run_cons_eq_some {moves : List Move} :
    crew.run (move :: moves) = some after ↔
      ∃ next, crew.step move = some next ∧ next.run moves = some after := by
  unfold run
  rw [List.foldlM_cons]
  exact Option.bind_eq_some_iff

theorem run_append_eq_some {first second : List Move} :
    crew.run (first ++ second) = some after ↔
      ∃ next, crew.run first = some next ∧ next.run second = some after := by
  unfold run
  rw [List.foldlM_append]
  exact Option.bind_eq_some_iff

theorem run_keeps {Property : Crew → Prop} {moves : List Move}
    (keeps : ∀ {crew after : Crew} {move : Move}, Property crew → crew.step move = some after →
      Property after) (holds : Property crew) (runs : crew.run moves = some after) :
    Property after := by
  induction moves generalizing crew with
  | nil =>
    cases runs
    exact holds
  | cons move moves ih =>
    obtain ⟨next, moved, rest⟩ := run_cons_eq_some.1 runs
    exact ih (keeps holds moved) rest

theorem standing_new (assembly : Assembly) (settings : Settings) (platform : Platform)
    (journal : Journal) : (new assembly settings platform journal).Standing where
  runners := fun _ member => by cases member
  distinct := List.nodup_nil
  numbered := fun _ known => by cases known
  aborted := fun tells => absurd rfl tells

end Crew

end WordMachine
