import Mathlib.Algebra.GroupWithZero.Nat
import Mathlib.Data.List.Nodup
import WordMachine.Proofs.AbortedCrews

/-!
A crew that was told to stop comes to its end: whatever has happened, each executor has something
left to do by itself, as long as no collection makes it wait, and comes closer to its end by it.
-/

namespace WordMachine

namespace Runner

variable {runner : Runner}

/-! ## How far an executor is from its end -/

/-- Whether an executor starts an instruction next, or goes on with one. -/
def eager (runner : Runner) : Bool :=
  match runner.party.phase, runner.resumption with
  | .ready, _ => true
  | .resumed, .cleared => true
  | _, _ => false

/-- How many acts an executor has left at most that was told to stop and is not eager. -/
def distance (runner : Runner) : Nat :=
  7 * runner.newborn.length +
    match runner.party.phase with
    | .polling => 6
    | .parking => 5
    | .parked => 4
    | .checking => 3
    | .pausing => 6
    | .blocked => 5
    | .leaving => 5
    | .resumed => if runner.resumption = .returned then 4 else 3
    | .ended => if runner.delivered then 1 else 2
    | .ready => 0

/-- One executor is closer to its end than another. -/
def Nearer (runner former : Runner) : Prop :=
  runner.eager = false ∧ (former.eager = true ∨ runner.distance < former.distance)

/-- A step that the registry knows of can be made by one that has no one to register. -/
theorem turn_known (act : WordMachine.Act) {party : Party} (shared : Shared)
    (born : runner.newborn = []) (acts : runner.party.act act = some party) :
    runner.turn shared (.known act) = runner.follow shared party act := by
  unfold turn
  simp only
  rw [if_pos born, Runner.act, acts]

theorem exists_carry (runner : Runner) (shared : Shared) (computation : Exec Unit) :
    ∃ ending : Ending, ∀ party, ∃ executor newborn sharedAfter,
      runner.carry shared party computation ending =
        some ({ runner with party, executor, newborn }, sharedAfter) :=
  ⟨_, fun _ => ⟨_, _, _, if_pos rfl⟩⟩

theorem eager_ending {ending : Ending} (phase : runner.party.phase = ending.phase) :
    runner.eager = false := by
  unfold eager
  rw [phase]
  cases ending <;> rfl

/-- An executor that was told to stop, and that no request makes wait, has something left to do that
brings it closer to its end, unless it has ended and handed over its result. -/
theorem exists_turn (shared : Shared) (told : runner.party.aborted = true)
    (born : runner.newborn = [])
    (goes : runner.party.pauseRequested = false ∨ runner.party.phase ≠ .parked ∧
      runner.party.phase ≠ .blocked ∧ runner.party.phase ≠ .leaving)
    (alive : runner.party.phase = .ended →
      runner.executor.promise.isSome = true ∧ runner.delivered = false) :
    ∃ act after sharedAfter, runner.turn shared act = some (after, sharedAfter) ∧
      after.Nearer runner := by
  have granted : ¬ (runner.party.phase ≠ .parked ∧ runner.party.phase ≠ .blocked ∧
      runner.party.phase ≠ .leaving) → runner.party.pauseRequested = false :=
    goes.resolve_right
  cases phase : runner.party.phase with
  | polling =>
    refine ⟨.known .poll, _, shared, turn_known .poll shared born (if_pos phase), ?_⟩
    cases requested : runner.party.pauseRequested <;>
      simp [Nearer, eager, distance, phase]
  | parking =>
    refine ⟨.known .enterSafepoint, _, shared,
      turn_known .enterSafepoint shared born (if_pos phase), ?_⟩
    cases requested : runner.party.pauseRequested <;>
      simp [Nearer, eager, distance, phase, Party.testSafepoint]
  | parked =>
    refine ⟨.known .wakeSafepoint, _, shared,
      turn_known .wakeSafepoint shared born (if_pos phase), ?_⟩
    simp [Nearer, eager, distance, phase, granted (by simp [phase]), Party.testSafepoint]
  | checking =>
    refine ⟨.known .check, _, shared, turn_known .check shared born (if_pos phase), ?_⟩
    cases delivered : runner.delivered <;>
      simp [Nearer, eager, distance, phase, told]
  | ready =>
    obtain ⟨ending, carries⟩ := runner.exists_carry shared Exec.issue
    obtain ⟨executor, newborn, sharedAfter, carried⟩ :=
      carries { runner.party with phase := ending.phase }
    refine ⟨.known (.instruction ending), _, sharedAfter,
      (turn_known (.instruction ending) shared born (if_pos phase)).trans carried,
      eager_ending rfl, .inl ?_⟩
    simp [eager, phase]
  | pausing =>
    refine ⟨.known .enterPaused, _, shared,
      turn_known .enterPaused shared born (if_pos phase), ?_⟩
    simp [Nearer, eager, distance, phase]
  | blocked =>
    have goesOn := granted (by simp [phase])
    refine ⟨.known .leavePaused, _, shared,
      turn_known .leavePaused shared born (if_pos ⟨.inl phase, by simp [goesOn]⟩), ?_⟩
    simp [Nearer, eager, distance, phase]
  | leaving =>
    have goesOn := granted (by simp [phase])
    refine ⟨.known .leavePaused, _, shared,
      turn_known .leavePaused shared born (if_pos ⟨.inr phase, by simp [goesOn]⟩), ?_⟩
    simp [Nearer, eager, distance, phase]
  | resumed =>
    cases resumption : runner.resumption with
    | returned =>
      refine ⟨.listen, _, shared, if_pos ⟨phase, resumption, born⟩, ?_⟩
      simp [Nearer, eager, distance, phase, resumption]
    | informed =>
      refine ⟨.heed, _, shared, if_pos ⟨phase, resumption, born⟩, ?_⟩
      cases delivered : runner.delivered <;>
        simp [Nearer, eager, distance, phase, resumption, told]
    | cleared =>
      obtain ⟨ending, carries⟩ := runner.exists_carry shared Exec.settle
      obtain ⟨executor, newborn, sharedAfter, carried⟩ :=
        carries { runner.party with phase := ending.phase }
      refine ⟨.known (.finish ending), _, sharedAfter,
        ((turn_known (.finish ending) shared born (if_pos phase)).trans (if_pos resumption)).trans
          carried,
        eager_ending rfl, .inl ?_⟩
      simp [eager, phase, resumption]
  | ended =>
    obtain ⟨promised, undelivered⟩ := alive phase
    obtain ⟨promise, promises⟩ := Option.isSome_iff_exists.1 promised
    refine ⟨.deliver, { runner with delivered := true },
      shared.complete promise runner.executor, ?_, ?_⟩
    · simp [turn, promises, phase, undelivered, born]
    · simp [Nearer, eager, distance, phase, undelivered]

/-- An executor that waits in a call or for a future: it is about to, or it does, or it is back and
has yet to look whether it is told to stop. -/
def IsWaiting (runner : Runner) : Prop :=
  match runner.party.phase with
  | .pausing => True
  | .blocked => True
  | .leaving => True
  | .resumed => runner.resumption ≠ .cleared
  | _ => False

theorem IsWaiting.doomed (waiting : runner.IsWaiting) : runner.Doomed runner.executor := by
  unfold IsWaiting at waiting
  cases phase : runner.party.phase with
  | resumed =>
    rw [phase] at waiting
    exact ⟨by simp [phase], fun _ => waiting, by simp [phase]⟩
  | _ =>
    rw [phase] at waiting
    first
      | exact waiting.elim
      | exact ⟨by simp [phase], by simp [phase], by simp [phase]⟩

end Runner

namespace Crew

variable {crew after : Crew} {move : Move} {id : Nat}
variable {runner former : Runner}

/-! ## How far a crew is from its end -/

/-- How many executors start an instruction next, or go on with one. -/
def eagerness (crew : Crew) : Nat :=
  crew.runners.countP Runner.eager

def distance (crew : Crew) : Nat :=
  (crew.runners.map Runner.distance).sum

/-- One crew is closer to its end than another: what an eager executor does may leave the crew with
many new ones, but with one eager executor less. -/
def Nearer (after crew : Crew) : Prop :=
  Prod.Lex (· < ·) (· < ·) (after.eagerness, after.distance) (crew.eagerness, crew.distance)

theorem exists_split (member : runner ∈ crew.runners)
    (distinct : (crew.runners.map (·.party.id)).Nodup) :
    ∃ before rest, crew.runners = before ++ runner :: rest ∧
      crew.runner? runner.party.id = some runner ∧
      crew.runners.filter (·.party.id != runner.party.id) = before ++ rest ∧
      ∀ change : Runner → Runner,
        (crew.change runner.party.id change).runners = before ++ change runner :: rest := by
  obtain ⟨before, rest, split⟩ := List.append_of_mem member
  rw [split, List.map_append, List.map_cons, List.nodup_middle, List.nodup_cons,
    ← List.map_append] at distinct
  have others : ∀ other ∈ before ++ rest, other.party.id ≠ runner.party.id :=
    fun other otherMember same => distinct.1 (same ▸ List.mem_map_of_mem otherMember)
  refine ⟨before, rest, split, ?_, ?_, ?_⟩
  · unfold runner?
    rw [split, List.find?_append, List.find?_eq_none.2, Option.none_or, List.find?_cons_of_pos]
    · simp
    · intro other otherMember
      simpa using others other (List.mem_append_left _ otherMember)
  · rw [split, List.filter_append, List.filter_cons_of_neg (by simp), ← List.filter_append]
    refine List.filter_eq_self.2 fun other otherMember => ?_
    simpa using others other otherMember
  · intro change
    have unchanged : ∀ part : List Runner, (∀ other ∈ part, other ∈ before ++ rest) →
        part.map (fun other => if other.party.id = runner.party.id then change other else other) =
          part := by
      intro part within
      refine (List.map_congr_left fun other otherMember => ?_).trans (List.map_id part)
      exact if_neg (others other (within other otherMember))
    unfold Crew.change
    rw [split, List.map_append, List.map_cons, if_pos rfl,
      unchanged before fun _ => List.mem_append_left _,
      unchanged rest fun _ => List.mem_append_right _]

/-- What an executor does that comes closer to its end brings the crew closer to its end. -/
theorem nearer_of_turn {shared : Shared} (member : former ∈ crew.runners)
    (distinct : (crew.runners.map (·.party.id)).Nodup) (nearer : runner.Nearer former) :
    Nearer { crew.change former.party.id (fun _ => runner) with shared } crew := by
  obtain ⟨before, rest, split, _, _, changed⟩ := exists_split member distinct
  refine Prod.lex_def.2 ?_
  simp only [eagerness, Crew.distance, changed, split, List.countP_append, List.countP_cons,
    List.map_append, List.map_cons, List.sum_append, List.sum_cons]
  obtain ⟨calm, eager | closer⟩ := nearer
  · exact .inl (by simp [calm, eager])
  · cases eager : former.eager with
    | true => exact .inl (by simp [calm])
    | false => exact .inr ⟨by simp [calm], by omega⟩

theorem nearer_of_enroll {child : Executor} {newborn : List Executor}
    (member : former ∈ crew.runners) (distinct : (crew.runners.map (·.party.id)).Nodup)
    (born : former.newborn = child :: newborn) :
    Nearer ((crew.change former.party.id ({ · with newborn })).register child) crew := by
  obtain ⟨before, rest, split, _, _, changed⟩ := exists_split member distinct
  refine Prod.lex_def.2 (.inr ?_)
  simp only [eagerness, Crew.distance, register, changed, split, List.countP_append,
    List.countP_cons, List.map_append, List.map_cons, List.sum_append, List.sum_cons]
  constructor
  · rfl
  · simp only [Runner.distance, born, List.length_cons, List.length_nil]
    omega

theorem nearer_of_leave {left : List (Nat × Executor)} (member : former ∈ crew.runners)
    (distinct : (crew.runners.map (·.party.id)).Nodup) (ended : former.party.phase = .ended) :
    Nearer
      { crew with
        runners := crew.runners.filter (·.party.id != former.party.id)
        left } crew := by
  obtain ⟨before, rest, split, _, filtered, _⟩ := exists_split member distinct
  have positive : 0 < former.distance := by
    simp only [Runner.distance, ended]
    split <;> omega
  have calm : former.eager = false := by simp [Runner.eager, ended]
  refine Prod.lex_def.2 (.inr ?_)
  simp only [eagerness, Crew.distance, filtered]
  rw [split]
  simp only [List.countP_append, List.countP_cons, List.map_append, List.map_cons,
    List.sum_append, List.sum_cons, calm]
  exact ⟨rfl, by omega⟩

/-! ## Coming to the end -/

/-- A crew that was told to stop, as it is met in runs. -/
structure Stopping (crew : Crew) : Prop where
  standing : crew.Standing
  told : crew.Told

theorem Stopping.step (stopping : crew.Stopping) (moves : crew.step move = some after) :
    after.Stopping :=
  ⟨stopping.standing.step moves, stopping.told.step moves⟩

/-- An executor that is not stopped for a collection has something to do, and so has any executor if
there is no collection. -/
theorem Stopping.exists_step (stopping : crew.Stopping) (free : crew.telling = none)
    (member : runner ∈ crew.runners)
    (goes : crew.collector = .idle ∨ runner.party.stopped = false) :
    ∃ move after, crew.step move = some after ∧ after.telling = none ∧
      after.collector = crew.collector ∧ after.Nearer crew := by
  have distinct := stopping.standing.distinct_runners
  have stands := stopping.standing.runners runner member
  obtain ⟨_, _, _, found, _, _⟩ := exists_split member distinct
  have acts : ∀ act, crew.step (.runner runner.party.id act) = crew.act runner act := by
    intro act
    simp [Crew.step, found, free]
  cases born : runner.newborn with
  | cons child newborn =>
    exact ⟨.runner runner.party.id .enroll,
      (crew.change runner.party.id ({ · with newborn })).register child,
      (acts _).trans (by simp only [Crew.act, born]), free, rfl,
      nearer_of_enroll member distinct born⟩
  | nil =>
    by_cases done : runner.party.phase = .ended ∧
        (runner.executor.promise.isNone || runner.delivered) = true
    · exact ⟨.runner runner.party.id .leave, _,
        (acts _).trans (if_pos ⟨done.1, born, done.2⟩), free, rfl,
        nearer_of_leave member distinct done.1⟩
    · have unhindered : runner.party.pauseRequested = false ∨ runner.party.phase ≠ .parked ∧
          runner.party.phase ≠ .blocked ∧ runner.party.phase ≠ .leaving := by
        rcases goes with idle | unstopped
        · exact .inl (stands.granted idle)
        · simp only [Party.stopped, Bool.or_eq_false_iff] at unstopped
          refine .inr ⟨fun parked => ?_, fun blocked => ?_, fun leaving => ?_⟩
          · simp [stands.fits.parked.2 parked] at unstopped
          · simp [stands.fits.paused.2 (.inl blocked)] at unstopped
          · simp [stands.fits.paused.2 (.inr leaving)] at unstopped
      obtain ⟨act, changed, shared, turns, nearer⟩ := runner.exists_turn crew.shared
        (stopping.told.runners runner member).1 born unhindered
        (fun ended => by simpa [ended, Option.isSome_iff_ne_none] using done)
      refine ⟨.runner runner.party.id act,
        { crew.change runner.party.id (fun _ => changed) with shared }, (acts _).trans ?_, free,
        rfl, nearer_of_turn member distinct nearer⟩
      cases act with
      | enroll => cases turns
      | leave => cases turns
      | _ => simp [Crew.act, turns]

/-- A crew can come to be another one. -/
def Leads (crew after : Crew) : Prop :=
  ∃ moves, crew.run moves = some after

theorem Leads.refl (crew : Crew) : crew.Leads crew :=
  ⟨[], rfl⟩

theorem Leads.step {next : Crew} (moves : crew.step move = some next) (leads : next.Leads after) :
    crew.Leads after := by
  obtain ⟨rest, runs⟩ := leads
  exact ⟨move :: rest, run_cons_eq_some.2 ⟨next, moves, runs⟩⟩

theorem Leads.trans {next : Crew} (first : crew.Leads next) (second : next.Leads after) :
    crew.Leads after := by
  obtain ⟨before, runs⟩ := first
  obtain ⟨rest, runsOn⟩ := second
  exact ⟨before ++ rest, run_append_eq_some.2 ⟨next, runs, runsOn⟩⟩

theorem Leads.keeps {Property : Crew → Prop}
    (keeps : ∀ {crew after : Crew} {move : Move}, Property crew → crew.step move = some after →
      Property after) (leads : crew.Leads after) (holds : Property crew) : Property after :=
  run_keeps keeps holds leads.choose_spec

/-- The executors can go on by themselves until each of them is stopped for a collection, or until
all of them have left if there is none. -/
theorem Stopping.leads_to_rest {crew : Crew} (stopping : crew.Stopping)
    (free : crew.telling = none) :
    ∃ after, crew.Leads after ∧ after.telling = none ∧ after.collector = crew.collector ∧
      ∀ runner ∈ after.runners, ¬ (crew.collector = .idle ∨ runner.party.stopped = false) := by
  by_cases busy : ∃ runner ∈ crew.runners, crew.collector = .idle ∨ runner.party.stopped = false
  · obtain ⟨runner, member, goes⟩ := busy
    obtain ⟨move, next, moves, freeNext, same, nearer⟩ := stopping.exists_step free member goes
    obtain ⟨after, leads, freeAfter, sameAfter, rests⟩ :=
      (stopping.step moves).leads_to_rest freeNext
    exact ⟨after, leads.step moves, freeAfter, sameAfter.trans same, same ▸ rests⟩
  · exact ⟨crew, .refl crew, free, rfl, fun runner member goes => busy ⟨runner, member, goes⟩⟩
termination_by (crew.eagerness, crew.distance)
decreasing_by exact nearer

/-- One that is about to tell the next executor can tell all that are left. -/
theorem leads_to_told {crew : Crew} {untold : List Nat}
    (tells : crew.telling = some ⟨untold, none⟩) :
    ∃ after, crew.Leads after ∧ after.telling = none ∧ after.collector = crew.collector := by
  cases untold with
  | nil =>
    have ends : crew.step .endAbort = some { crew with telling := none } := if_pos tells
    exact ⟨_, .step ends (.refl _), rfl, rfl⟩
  | cons id untold =>
    let marked : Crew := { crew.change id fun runner =>
        { runner with party := { runner.party with aborted := true } } with
      telling := some ⟨(id :: untold).filter (· != id), some id⟩ }
    let told : Crew := { marked.change id ({ · with cancelled := true }) with
      telling := some ⟨(id :: untold).filter (· != id), none⟩ }
    have marks : crew.step (.tell id) = some marked := by
      simp [step, tells, marked]
    have ends : marked.step .cancel = some told := rfl
    have fewer : ((id :: untold).filter (· != id)).length < (id :: untold).length := by
      simpa using Nat.lt_succ_of_le (List.length_filter_le ..)
    obtain ⟨after, leads, free, same⟩ :=
      leads_to_told (rfl : told.telling = some ⟨(id :: untold).filter (· != id), none⟩)
    exact ⟨after, (leads.step ends).step marks, free, same⟩
termination_by untold.length
decreasing_by simp_all

theorem leads_to_free (crew : Crew) :
    ∃ after, crew.Leads after ∧ after.telling = none ∧ after.collector = crew.collector := by
  cases tells : crew.telling with
  | none => exact ⟨crew, .refl crew, tells, rfl⟩
  | some telling =>
    obtain ⟨untold, half⟩ := telling
    cases half with
    | none => exact leads_to_told tells
    | some id =>
      let told : Crew :=
        { crew.change id ({ · with cancelled := true }) with telling := some ⟨untold, none⟩ }
      have ends : crew.step .cancel = some told := by
        simp [step, tells, told]
      obtain ⟨after, leads, free, same⟩ :=
        leads_to_told (rfl : told.telling = some ⟨untold, none⟩)
      exact ⟨after, leads.step ends, free, same⟩

theorem leads_to_withdrawn (free : crew.telling = none)
    (collecting : crew.collector = .collecting) :
    ∃ after, crew.Leads after ∧ after.telling = none ∧ after.collector = .idle := by
  have ends : crew.step .withdrawRequest = some
      { crew with
        runners := crew.runners.map fun runner =>
          { runner with party := { runner.party with pauseRequested := false } }
        collector := .idle } :=
    if_pos ⟨free, collecting⟩
  exact ⟨_, .step ends (.refl _), free, rfl⟩

/-- A collection can be brought to its end. -/
theorem Stopping.leads_to_idle (stopping : crew.Stopping) (free : crew.telling = none) :
    ∃ after, crew.Leads after ∧ after.telling = none ∧ after.collector = .idle := by
  cases phase : crew.collector with
  | idle => exact ⟨crew, .refl crew, free, phase⟩
  | collecting => exact leads_to_withdrawn free phase
  | waiting =>
    obtain ⟨rested, leads, freeRested, same, rests⟩ := stopping.leads_to_rest free
    have allStopped : rested.allStopped = true := by
      refine List.all_eq_true.2 fun runner member => ?_
      simpa using fun unstopped => rests runner member (.inr unstopped)
    let collecting : Crew := { rested with collector := .collecting }
    have begins : rested.step .beginCollection = some collecting :=
      if_pos ⟨freeRested, same.trans phase, allStopped⟩
    have stillFree : collecting.telling = none := freeRested
    obtain ⟨after, leadsOn, ends⟩ := leads_to_withdrawn stillFree rfl
    exact ⟨after, leads.trans (leadsOn.step begins), ends⟩

/-- A crew that was told to stop can come to its end, whatever it is in the middle of. -/
theorem Stopping.leads_to_end (stopping : crew.Stopping) :
    ∃ after, crew.Leads after ∧ after.runners = [] := by
  obtain ⟨free, leads, isFree, _⟩ := crew.leads_to_free
  obtain ⟨idle, leadsOn, stillFree, isIdle⟩ :=
    (leads.keeps Stopping.step stopping).leads_to_idle isFree
  obtain ⟨after, leadsOut, _, _, rests⟩ :=
    ((leads.trans leadsOn).keeps Stopping.step stopping).leads_to_rest stillFree
  refine ⟨after, (leads.trans leadsOn).trans leadsOut, List.eq_nil_iff_forall_not_mem.2 ?_⟩
  exact fun runner member => rests runner member (.inl isIdle)

/-! ## What an abort comes to -/

/-- The executor with a number starts no instruction any more, whatever happens. It can always come
to its end, and it ends aborted and otherwise as it is. -/
structure Halts (crew : Crew) (id : Nat) (executor : Executor) : Prop where
  idle : ∀ moves after, crew.run moves = some after → ∀ move ∈ moves, move.starts id = false
  aborted : ∀ after, crew.Leads after → ∀ last, (id, last) ∈ after.left → last = executor.halted
  ends : ∀ after, crew.Leads after → ∃ final, after.Leads final ∧ (id, executor.halted) ∈ final.left

theorem Stopping.halts {executor : Executor} (stopping : crew.Stopping)
    (dooms : crew.Dooms id executor) : crew.Halts id executor := by
  have keeps : ∀ {now next : Crew} {move : Move}, now.Stopping ∧ now.Dooms id executor →
      now.step move = some next → next.Stopping ∧ next.Dooms id executor :=
    fun ⟨isStopping, isDoomed⟩ moves =>
      ⟨isStopping.step moves, isDoomed.step isStopping.standing isStopping.told moves⟩
  refine ⟨fun moves after runs => stopping.told.run_idle dooms.unready runs, ?_, ?_⟩
  · intro after leads last left
    exact (leads.keeps keeps ⟨stopping, dooms⟩).2.left last left
  · intro after leads
    obtain ⟨stillStopping, stillDoomed⟩ := leads.keeps keeps ⟨stopping, dooms⟩
    obtain ⟨final, leadsOn, empty⟩ := stillStopping.leads_to_end
    have isDoomed := (leadsOn.keeps keeps ⟨stillStopping, stillDoomed⟩).2
    have known := isDoomed.known
    rw [numbers, empty, List.map_nil, List.nil_append] at known
    obtain ⟨⟨_, last⟩, member, rfl⟩ := List.mem_map.1 known
    exact ⟨final, leadsOn, isDoomed.left last member ▸ member⟩

/-- An executor that is doomed now is doomed for good, as its number is its own. -/
theorem Stopping.dooms {executor : Executor} (stopping : crew.Stopping)
    (member : runner ∈ crew.runners) (doomed : runner.Doomed executor) :
    crew.Dooms runner.party.id executor where
  known := List.mem_append_left _ (List.mem_map_of_mem member)
  runners := by
    intro other otherMember same
    have distinct := stopping.standing.distinct_runners
    rw [List.inj_on_of_nodup_map distinct otherMember member same]
    exact doomed
  left := by
    intro last left
    have apart := (List.nodup_append.1 stopping.standing.distinct).2.2
    exact absurd rfl (apart _ (List.mem_map_of_mem member) _ (List.mem_map_of_mem left))

theorem stopping_of_endAbort {assembly : Assembly} {settings : Settings} {platform : Platform}
    {journal : Journal} {before : List Move}
    (returns : (new assembly settings platform journal).run (before ++ [.endAbort]) = some crew) :
    crew.Stopping := by
  obtain ⟨ending, runs, ends⟩ := run_append_eq_some.1 returns
  obtain ⟨_, moves, same⟩ := run_cons_eq_some.1 ends
  cases same
  have standing := run_keeps Standing.step (standing_new assembly settings platform journal) runs
  exact ⟨standing.step moves, told_of_endAbort standing moves⟩

/-- All executors start at most one more instruction each, once whoever told them to stop has done
so. One that waits then or later, in a platform call or for a future, and one that is registered
later, start none; they can always come to their ends, and end aborted. -/
theorem abort_reaches_everyone {assembly : Assembly} {settings : Settings} {platform : Platform}
    {journal : Journal} {before moves : List Move} {returned later : Crew} (returns :
      (new assembly settings platform journal).run (before ++ [.endAbort]) = some returned)
    (runs : returned.run moves = some later) :
    (∀ id, moves.countP (Move.starts id) ≤ 1) ∧
    (∀ runner ∈ later.runners, runner.IsWaiting →
      later.Halts runner.party.id runner.executor) ∧
    (∀ move next, later.step move = some next → ∀ runner ∈ next.runners,
      later.lastId < runner.party.id → next.Halts runner.party.id runner.executor) := by
  have stopping := stopping_of_endAbort returns
  have stillStopping := run_keeps Stopping.step stopping runs
  refine ⟨stopping.told.countP_starts_le runs, ?_, ?_⟩
  · intro runner member waiting
    exact stillStopping.halts (stillStopping.dooms member waiting.doomed)
  · intro move next moved runner member new
    have nextStopping := stillStopping.step moved
    rcases origin moved runner member with ⟨former, marked, _⟩ | ⟨former, turned, _⟩ | ⟨_, _, rfl⟩
    · have known := stillStopping.standing.numbered _
        (List.mem_append_left _ (List.mem_map_of_mem former))
      exact absurd known (by rw [← marked.sameId]; exact Nat.not_le_of_lt new)
    · have known := stillStopping.standing.numbered _
        (List.mem_append_left _ (List.mem_map_of_mem former))
      exact absurd known (by rw [← turned.keeps.1]; exact Nat.not_le_of_lt new)
    · exact nextStopping.halts (nextStopping.dooms member ⟨nofun, nofun, rfl⟩)

/-- A call is forked that returns five, and waited for. -/
def joining : Assembly where
  code := Bytes.ofList [146, 9, 0, 0, 0, 0, 2, 161, 149, 1, 5, 0, 0, 0, 149]
  literals := #[]
  entries := #[0]

/-- The first executor waits for the one that it has forked, and another has just looked whether it
is told to stop, when all are told. -/
def beforeReturn : List Move :=
  [.enter 0, .runner 1 (.known .poll), .runner 1 (.known .check),
    .runner 1 (.known (.instruction .continues)), .runner 1 .enroll, .runner 1 (.known .poll),
    .runner 1 (.known .check), .runner 1 (.known (.instruction .blocks)),
    .runner 1 (.known .enterPaused), .enter 0, .runner 3 (.known .poll), .runner 3 (.known .check),
    .beginAbort, .tell 2, .cancel, .tell 3, .cancel, .tell 1, .cancel]

/-- The one that has looked forks another executor; the first one comes back from its wait. -/
def afterReturn : List Move :=
  [.runner 3 (.known (.instruction .continues)), .runner 3 .enroll, .runner 4 (.known .poll),
    .runner 4 (.known .check), .runner 4 .deliver, .runner 4 .leave, .runner 3 (.known .poll),
    .runner 1 (.known .leavePaused), .runner 1 .listen, .runner 1 .heed, .runner 1 .leave]

/-- A fork that comes too late, and a wait that ends. -/
theorem abort_reaches_everyone_forking :
    ∃ returned later,
      (new joining { evalStack := 2 } default .off).run (beforeReturn ++ [.endAbort]) =
          some returned ∧
        returned.run afterReturn = some later ∧
        later.left.map (fun entry => (entry.1, entry.2.state)) = [(1, .aborted), (4, .aborted)] ∧
        afterReturn.countP (Move.starts 3) ≤ 1 := by
  have happened :
      ((new joining { evalStack := 2 } default .off).run (beforeReturn ++ [.endAbort])).any
        (fun returned => (returned.run afterReturn).any fun later =>
          later.left.map (fun entry => (entry.1, entry.2.state)) =
            [(1, .aborted), (4, .aborted)]) = true := by
    decide +kernel
  obtain ⟨returned, returns, happenedLater⟩ := (Option.any_eq_true _ _).1 happened
  obtain ⟨later, runs, left⟩ := (Option.any_eq_true _ _).1 happenedLater
  exact ⟨returned, later, returns, runs, of_decide_eq_true left,
    (abort_reaches_everyone returns runs).1 3⟩

end Crew

end WordMachine
