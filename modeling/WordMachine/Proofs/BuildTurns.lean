import Mathlib
import WordMachine.Proofs.DraftedFiles
import WordMachine.Proofs.ListUpdates

/-!
What holds of a build at all times, whatever turns its files take. Every step leaves fewer steps to
be taken, and until all files are finished there is a next one.
-/

namespace WordMachine.Build

open FileSystem

/-! ## What is asked for -/

/-- The outputs of a request are different files, and none of them is a file to be built. -/
structure Request.Separate (request : Request) (ready : FileSystem) : Prop where
  distinct : (request.files.map fun file => outputPath file request.directory).Nodup
  apart : request.files.Pairwise fun file other => ∀ place,
    ready.locate (outputPath file request.directory) = .ok place →
      ready.locate (outputPath other request.directory) ≠ .ok place
  unread : ∀ file ∈ request.files, ∀ other ∈ request.files, ∀ place,
    ready.locate (outputPath file request.directory) = .ok place →
      ready.locate other ≠ .ok place

theorem Request.Separate.nodup_files {request : Request} {ready : FileSystem}
    (separate : request.Separate ready) : request.files.Nodup :=
  .of_map _ separate.distinct

def Request.Answered (request : Request) (ready : FileSystem) : Prop :=
  ∀ file ∈ request.files, ∀ program error, readProgram ready file = .ok program →
    (Lowering.outcome program).result = .error error → error.isFatal = false

/-- The paths of a file to be built and of its output. -/
def Request.paths (request : Request) : List (Bytes × Bytes) :=
  request.files.map fun file => (file, outputPath file request.directory)

def queuedEvent (file : Bytes) : Event :=
  { file, stage := .load, status := .queued }

def Task.paths (task : Task) : Bytes × Bytes :=
  (task.result.file, task.result.output)

namespace Yard

variable {request : Request} {ready : FileSystem} {yard after : Yard} {task : Task}
variable {move : Move} {position processors : Nat} {system : FileSystem} {step : Step}
variable {steps : List Step} {jobs : Int}

/-- No draft has the name of another one, whether that is there or not, or of a file to be built. -/
structure Fresh (request : Request) (ready : FileSystem) (yard : Yard) : Prop where
  once : yard.drafts.Nodup
  unread : ∀ place ∈ yard.drafts, ∀ file ∈ request.files, ready.locate file ≠ .ok place

theorem Fresh.of_prefix (fresh : after.Fresh request ready)
    (before : yard.drafts <+: after.drafts) : yard.Fresh request ready :=
  ⟨fresh.once.sublist before.sublist, fun place among => fresh.unread place (before.subset among)⟩

/-! ## What every step keeps -/

/-- What holds of a build at all times. -/
structure Kept (request : Request) (ready : FileSystem) (yard : Yard) : Prop where
  paths : yard.tasks.map Task.paths = request.paths
  follows : ∀ task ∈ yard.tasks, task.Follows ready
  stored : Stored ready yard
  queued : request.files.map queuedEvent <+: yard.events
  told : ∀ task ∈ yard.tasks, yard.events.filter (fun event => event.file == task.result.file) =
    queuedEvent task.result.file :: task.log
  goesOn : yard.crashed = false
  uncancelled : yard.cancelled = false
  slots : 0 < yard.slots

theorem Kept.files (kept : yard.Kept request ready) :
    yard.tasks.map (fun task => task.result.file) = request.files := by
  have first := congrArg (List.map Prod.fst) kept.paths
  rw [Request.paths, List.map_map, List.map_map] at first
  exact first.trans (List.map_id'' (fun _ => rfl) _)

theorem Kept.requested (kept : yard.Kept request ready) (present : task ∈ yard.tasks) :
    task.result.file ∈ request.files ∧
      task.result.output = outputPath task.result.file request.directory := by
  have among := List.mem_map_of_mem (f := Task.paths) present
  rw [kept.paths] at among
  obtain ⟨file, requested, same⟩ := List.mem_map.1 among
  obtain ⟨rfl, output⟩ := Prod.mk.inj same
  exact ⟨requested, output.symm⟩

theorem Kept.outputs (kept : yard.Kept request ready) (separate : request.Separate ready) :
    OutputsApart ready yard := by
  -- The files of different tasks are those at different positions of the request.
  have file : ∀ {position : Nat} {task : Task}, yard.tasks[position]? = some task →
      request.files[position]? = some task.result.file := by
    intro position task found
    rw [← kept.files, List.getElem?_map, found, Option.map_some]
  constructor
  · intro first second task other apart found otherFound place located otherLocated
    rw [(kept.requested (List.mem_of_getElem? found)).2] at located
    rw [(kept.requested (List.mem_of_getElem? otherFound)).2] at otherLocated
    obtain ⟨firstBound, firstFile⟩ := List.getElem?_eq_some_iff.1 (file found)
    obtain ⟨secondBound, secondFile⟩ := List.getElem?_eq_some_iff.1 (file otherFound)
    have pairs := List.pairwise_iff_getElem.1 separate.apart
    rcases Nat.lt_or_gt_of_ne apart with less | greater
    · refine pairs first second firstBound secondBound less place ?_ ?_
      · rw [firstFile]
        exact located
      · rw [secondFile]
        exact otherLocated
    · refine pairs second first secondBound firstBound greater place ?_ ?_
      · rw [secondFile]
        exact otherLocated
      · rw [firstFile]
        exact located
  · intro task present place located
    rw [(kept.requested present).2] at located
    exact not_isDraftPlace_output located

/-- What a file reads is what it would have read when the build began. -/
theorem Kept.finds (kept : yard.Kept request ready) (separate : request.Separate ready)
    (fresh : yard.Fresh request ready) (present : task ∈ yard.tasks) :
    task.Finds ready yard.system := by
  have same := kept.stored.same
  have requested := (kept.requested present).1
  refine ⟨same, fun program => ?_, ?_⟩
  · have unput : ∀ place, ready.locate task.result.file = .ok place →
        yard.system.view? place = ready.view? place := by
      intro place located
      refine kept.stored.kept place ?_
      rintro other otherPresent text ⟨path, isPut, leads⟩
      rcases Task.put?_cases isPut with ⟨draft, isDraft, rfl⟩ | rfl
      · obtain ⟨drawn, drawnLocated, among⟩ :=
          kept.stored.draft other otherPresent draft isDraft
        rw [leads] at drawnLocated
        cases drawnLocated
        exact fresh.unread place among _ requested located
      · obtain ⟨otherRequested, output⟩ := kept.requested otherPresent
        rw [output] at leads
        exact separate.unread _ otherRequested _ requested place leads located
    rw [readProgram_eq_ok, readProgram_eq_ok]
    refine exists_congr fun place => exists_congr fun data => ?_
    constructor
    · rintro ⟨located, holds, loaded⟩
      have located := same.locate.1 located
      rw [← view?_eq_file, unput place located, view?_eq_file] at holds
      exact ⟨located, holds, loaded⟩
    · rintro ⟨located, holds, loaded⟩
      rw [← view?_eq_file, ← unput place located, view?_eq_file] at holds
      exact ⟨same.locate.2 located, holds, loaded⟩
  · intro assembly draft filled
    obtain ⟨place, located, _⟩ := kept.stored.draft task present draft
      (by unfold Task.draft?; rw [filled])
    have seen := (kept.stored.put task present place assembly.save
      ⟨draft.path, by unfold Task.put?; rw [filled], located⟩).1
    rw [view?_eq_file, held?] at seen
    split at seen
    · next number found => exact ⟨place, number, same.locate.2 located, found⟩
    · cases seen

theorem step_cases (steps : yard.step step = some after) (uncancelled : yard.cancelled = false)
    (goesOn : step ≠ .cancel) :
    ∃ position task move, yard.tasks[position]? = some task ∧ task.Moves yard.system move ∧
      after = yard.become position move := by
  unfold Yard.step at steps
  split at steps
  · cases steps
  · cases step with
    | work position =>
      dsimp only at steps
      split at steps
      · next task found =>
        split at steps
        · obtain ⟨move, works, rfl⟩ := Option.map_eq_some_iff.1 steps
          rw [uncancelled] at works
          exact ⟨position, task, move, found, Task.moves_of_work works, rfl⟩
        · cases steps
      · cases steps
    | draft position number =>
      dsimp only at steps
      split at steps
      · next task found =>
        obtain ⟨move, drafts, rfl⟩ := Option.map_eq_some_iff.1 steps
        exact ⟨position, task, move, found, Task.moves_of_draft drafts, rfl⟩
      · cases steps
    | cancel => exact absurd rfl goesOn

section Step

variable (kept : yard.Kept request ready) (separate : request.Separate ready)
  (answered : request.Answered ready) (room : sink < ready.contents.size)

include kept answered in
/-- No step is the end of a build whose programs are all answered. -/
theorem Kept.goesOn_move {move : Move} (present : task ∈ yard.tasks)
    (moves : task.Moves yard.system move) : move.crashed = false := by
  rw [Bool.eq_false_iff]
  intro crashes
  obtain ⟨program, error, generating, failed, fatal⟩ := moves.crashed_iff crashes
  have follows := kept.follows task present
  unfold Task.Follows at follows
  rw [generating] at follows
  obtain ⟨_, _, read⟩ := follows
  rw [answered _ (kept.requested present).1 program error read failed] at fatal
  cases fatal

include kept separate answered room in
theorem Kept.become {position : Nat} {move : Move} (found : yard.tasks[position]? = some task)
    (moves : task.Moves yard.system move)
    (fresh : (yard.become position move).Fresh request ready) :
    (yard.become position move).Kept request ready := by
  have present := List.mem_of_getElem? found
  have before := fresh.of_prefix (List.prefix_append yard.drafts move.drafts)
  have outputs := kept.outputs separate
  have holds := kept.stored.holds outputs found
  have follows := kept.follows task present
  have file := moves.paths_eq.1
  have distinct : (yard.tasks.map fun task => task.result.file).Nodup := by
    rw [kept.files]
    exact separate.nodup_files
  refine ⟨?_, ?_, ?_, ?_, ?_, kept.goesOn_move answered present moves, kept.uncancelled,
    kept.slots⟩
  · rw [← kept.paths]
    exact map_set_of_eq found (Prod.ext moves.paths_eq.1 moves.paths_eq.2)
  · intro other otherPresent
    rcases mem_set_of_nodup distinct found otherPresent with rfl | ⟨otherPresent, _⟩
    · exact moves.follows (kept.finds separate before present) follows
    · exact kept.follows other otherPresent
  · exact kept.stored.become outputs found moves fresh.once (moves.affects holds room follows)
  · exact kept.queued.trans (List.prefix_append _ _)
  · intro other otherPresent
    change (yard.events ++ move.events).filter _ = _
    rw [List.filter_append]
    rcases mem_set_of_nodup distinct found otherPresent with rfl | ⟨otherPresent, apart⟩
    · have own : move.events.filter (fun event => event.file == task.result.file) = move.events :=
        List.filter_eq_self.2 fun event told => beq_iff_eq.2 (moves.told event told)
      rw [file, kept.told task present, own, moves.log_eq follows, List.cons_append]
    · have none : move.events.filter (fun event => event.file == other.result.file) = [] := by
        rw [List.filter_eq_nil_iff]
        intro event told same
        exact apart ((eq_of_beq same).symm.trans (moves.told event told))
      rw [none, List.append_nil, kept.told other otherPresent]

end Step

/-! ## Runs -/

/-- How many steps the files of a build may still take. -/
def remaining (yard : Yard) : Nat :=
  (yard.tasks.map fun task => task.phase.rank).sum

theorem run_eq_some (runs : yard.run (step :: steps) = some after) :
    ∃ next, yard.step step = some next ∧ next.run steps = some after := by
  unfold run at runs
  rw [List.foldlM_cons] at runs
  exact Option.bind_eq_some_iff.1 runs

theorem drafts_step (steps : yard.step step = some after) : yard.drafts <+: after.drafts := by
  unfold Yard.step at steps
  split at steps
  · cases steps
  · split at steps
    · split at steps
      · split at steps
        · obtain ⟨move, _, rfl⟩ := Option.map_eq_some_iff.1 steps
          exact List.prefix_append _ _
        · cases steps
      · cases steps
    · split at steps
      · obtain ⟨move, _, rfl⟩ := Option.map_eq_some_iff.1 steps
        exact List.prefix_append _ _
      · cases steps
    · cases steps
      exact List.prefix_refl _

/-- Where drafts were made is never forgotten. -/
theorem drafts_run (runs : yard.run steps = some after) : yard.drafts <+: after.drafts := by
  induction steps generalizing yard with
  | nil =>
    cases runs
    exact List.prefix_refl _
  | cons step steps ih =>
    obtain ⟨next, steps', rest⟩ := run_eq_some runs
    exact (drafts_step steps').trans (ih rest)

theorem remaining_become (found : yard.tasks[position]? = some task)
    (moves : task.Moves yard.system move) (goesOn : move.crashed = false) :
    (yard.become position move).remaining < yard.remaining := by
  have sums := @sum_map_set _ _ _ _ move.task (fun task : Task => task.phase.rank) found
  have less := moves.rank_lt goesOn
  change ((yard.tasks.set position move.task).map fun task => task.phase.rank).sum < _
  unfold remaining
  omega

/-- Steps keep what holds of a build, and each of them is one less that files may still take. -/
theorem Kept.run (kept : yard.Kept request ready) (separate : request.Separate ready)
    (answered : request.Answered ready) (room : sink < ready.contents.size)
    (runs : yard.run steps = some after) (uncancelled : .cancel ∉ steps)
    (fresh : after.Fresh request ready) :
    after.Kept request ready ∧ steps.length + after.remaining ≤ yard.remaining := by
  induction steps generalizing yard with
  | nil =>
    cases runs
    exact ⟨kept, (Nat.zero_add _).le⟩
  | cons step steps ih =>
    obtain ⟨next, steps', rest⟩ := run_eq_some runs
    rw [List.mem_cons, not_or] at uncancelled
    obtain ⟨position, task, move, found, moves, rfl⟩ :=
      step_cases steps' kept.uncancelled (Ne.symm uncancelled.1)
    have less := remaining_become found moves
      (kept.goesOn_move answered (List.mem_of_getElem? found) moves)
    obtain ⟨keptAfter, bound⟩ := ih
      (kept.become separate answered room found moves (fresh.of_prefix (drafts_run rest))) rest
      uncancelled.2
    refine ⟨keptAfter, ?_⟩
    rw [List.length_cons]
    omega

/-! ## The beginning -/

theorem start_eq_ok {begun : Yard} (prepared : prepare request system = .ok ready)
    (starts : Yard.start request jobs processors system = .ok begun) :
    begun =
      { system := ready
        tasks := request.files.map fun file =>
          { result := { file, output := outputPath file request.directory } }
        slots := slotsOf jobs processors
        events := request.files.map queuedEvent
        cancelled := request.cancelled } := by
  change (prepare request system).map _ = _ at starts
  rw [prepared] at starts
  exact (Except.ok.inj starts).symm

theorem slotsOf_pos (some : 0 < processors) : 0 < slotsOf jobs processors := by
  unfold slotsOf
  split
  · exact some
  · omega

theorem filter_queued {files : List Bytes} (distinct : files.Nodup) {file : Bytes}
    (requested : file ∈ files) :
    (files.map queuedEvent).filter (fun event => event.file == file) = [queuedEvent file] := by
  have same : (fun event : Event => event.file == file) ∘ queuedEvent = (· == file) := rfl
  rw [List.filter_map, same, List.filter_beq, List.count_eq_one_of_mem distinct requested]
  rfl

theorem Kept.start {begun : Yard} (sound : ready.Sound) (separate : request.Separate ready)
    (uncancelled : request.cancelled = false) (some : 0 < processors)
    (prepared : prepare request system = .ok ready)
    (starts : Yard.start request jobs processors system = .ok begun) :
    begun.Kept request ready ∧ begun.remaining = 9 * request.files.length := by
  rw [start_eq_ok prepared starts]
  have queued : ∀ {task : Task}, (task ∈ request.files.map fun file =>
      ({ result := { file, output := outputPath file request.directory } } : Task)) →
        ∃ file ∈ request.files,
          task = { result := { file, output := outputPath file request.directory } } := by
    intro task present
    obtain ⟨file, requested, rfl⟩ := List.mem_map.1 present
    exact ⟨file, requested, rfl⟩
  refine ⟨⟨?_, ?_, ?_, List.prefix_refl _, ?_, rfl, uncancelled, slotsOf_pos some⟩, ?_⟩
  · rw [List.map_map]
    rfl
  · intro task present
    obtain ⟨file, _, rfl⟩ := queued present
    exact ⟨rfl, rfl⟩
  · refine ⟨sound, rfl, Nat.le_refl _, ?_, ?_, fun _ _ => rfl, ?_, ?_, ?_, ?_⟩
    · intro number place other isNew found
      exact absurd (sound.numbered place number found) (Nat.not_lt.2 isNew)
    · rintro task present place text ⟨path, isPut, _⟩
      obtain ⟨file, _, rfl⟩ := queued present
      cases isPut
    · intro task present draft isDraft
      obtain ⟨file, _, rfl⟩ := queued present
      cases isDraft
    · exact fun place none => nomatch none
    · intro task present assembly draft drafted
      obtain ⟨file, _, rfl⟩ := queued present
      cases drafted
    · intro first second task other _ found _ draft otherDraft place isDraft
      obtain ⟨file, _, rfl⟩ := queued (List.mem_of_getElem? found)
      cases isDraft
  · intro task present
    obtain ⟨file, requested, rfl⟩ := queued present
    exact filter_queued separate.nodup_files requested
  · unfold remaining
    rw [List.map_map]
    change (request.files.map fun _ => 9).sum = _
    rw [List.map_const', List.sum_replicate, smul_eq_mul, Nat.mul_comm]

/-! ## There is always a next step -/

/-- A step makes no draft unless a number was drawn for it. -/
theorem drafts_of_work {cancelled : Bool} (works : task.work system cancelled = some move) :
    move.drafts = [] := by
  have ofBegin : ∀ stage phase, (task.begin system cancelled stage phase).drafts = [] := by
    intro stage phase
    unfold Task.begin
    split <;> rfl
  unfold Task.work at works
  dsimp only at works
  split at works
  case h_1 | h_3 | h_5 =>
    cases works
    exact ofBegin _ _
  case h_6 | h_10 => cases works
  case h_7 =>
    cases works
    rfl
  case h_4 =>
    split at works
    · split at works <;>
      · cases works
        rfl
    · cases works
      rfl
  case h_2 | h_8 | h_9 =>
    split at works <;>
    · cases works
      rfl

/-- A file that is not finished and has no draft to make can go on. -/
theorem exists_work (system : FileSystem) (cancelled : Bool) (unfinished : task.isFinished = false)
    (notWriting : ∀ assembly, task.phase ≠ .writing assembly) :
    ∃ move, task.work system cancelled = some move := by
  obtain ⟨result, phase⟩ := task
  unfold Task.work
  dsimp only
  cases phase with
  | writing assembly => exact absurd rfl (notWriting assembly)
  | finished => cases unfinished
  | loading =>
    dsimp only
    split <;> exact ⟨_, rfl⟩
  | generating program =>
    dsimp only
    split
    · split <;> exact ⟨_, rfl⟩
    · exact ⟨_, rfl⟩
  | filled assembly draft =>
    dsimp only
    split <;> exact ⟨_, rfl⟩
  | settled assembly draft failure =>
    dsimp only
    split <;> exact ⟨_, rfl⟩
  | _ => exact ⟨_, rfl⟩

/-- Among more numbers than places that are taken, one makes no draft at such a place. -/
theorem exists_number {output : Bytes} (taken : List Location) :
    ∃ number < taken.length + 1,
      (∃ cause, system.locate (numberedDraft output number) = .error cause) ∨
        ∃ place, system.locate (numberedDraft output number) = .ok place ∧ place ∉ taken := by
  by_contra none
  push Not at none
  have leads : ∀ number, ∃ place, number < taken.length + 1 →
      system.locate (numberedDraft output number) = .ok place ∧ place ∈ taken := by
    intro number
    cases located : system.locate (numberedDraft output number) with
    | error cause => exact ⟨[], fun bound => absurd located ((none number bound).1 cause)⟩
    | ok place => exact ⟨place, fun bound => ⟨rfl, (none number bound).2 place located⟩⟩
  choose place located using leads
  -- Different numbers lead to different places, which are then too many to be all taken.
  have distinct : ((List.range (taken.length + 1)).map place).Nodup := by
    refine List.Nodup.map_on ?_ List.nodup_range
    intro first firstBound second secondBound same
    obtain ⟨above, _, _, atFirst⟩ :=
      locate_numberedDraft (located first (List.mem_range.1 firstBound)).1
    obtain ⟨other, _, _, atSecond⟩ :=
      locate_numberedDraft (located second (List.mem_range.1 secondBound)).1
    rw [atFirst, atSecond] at same
    exact draftName_injective (List.singleton_inj.1 (List.append_inj_right' same rfl))
  have among : (List.range (taken.length + 1)).map place ⊆ taken := by
    intro drawn present
    obtain ⟨number, bound, rfl⟩ := List.mem_map.1 present
    exact (located number (List.mem_range.1 bound)).2
  have few := (distinct.subperm among).length_le
  rw [List.length_map, List.length_range] at few
  omega

theorem exists_draft {assembly : Assembly} (system : FileSystem)
    (writing : task.phase = .writing assembly) (taken : List Location) :
    ∃ number < system.entries.length + taken.length + 2, ∃ move,
      task.draft system number = some move ∧ ∀ place ∈ move.drafts, place ∉ taken := by
  obtain ⟨number, bound, ⟨cause, failed⟩ | ⟨place, located, free⟩⟩ :=
    @exists_number system task.result.output ([] :: taken ++ system.entries.map Prod.fst)
  all_goals
    simp only [List.cons_append, List.length_cons, List.length_append, List.length_map] at bound
    refine ⟨number, by omega, ?_⟩
    unfold Task.draft
    rw [writing]
    dsimp only
  · have notTaken : cause ≠ .exists := by
      rintro rfl
      exact locate_ne_exists failed
    have created : system.createFile (numberedDraft task.result.output number) = .error cause := by
      unfold createFile
      rw [failed]
      rfl
    rw [created]
    split
    · next same => exact absurd (Except.error.inj same) notTaken
    · exact ⟨_, rfl, fun _ none => nomatch none⟩
    · next same => cases same
  · simp only [List.cons_append, List.mem_cons, List.mem_append, not_or] at free
    obtain ⟨notRoot, notTaken, notEntry⟩ := free
    have none : system.lookup? place = none := by
      rw [Option.eq_none_iff_forall_ne_some]
      intro entry found
      rcases mem_of_lookup? found with ⟨root, _⟩ | present
      · exact notRoot root
      · exact notEntry (List.mem_map_of_mem (f := Prod.fst) present)
    rw [createFile_eq_ok.2 ⟨located, none, rfl, rfl⟩]
    exact ⟨_, rfl, fun _ made => List.mem_singleton.1 made ▸ notTaken⟩

theorem nodup_become (once : yard.drafts.Nodup) (moves : task.Moves yard.system move)
    (free : ∀ place ∈ move.drafts, place ∉ yard.drafts) :
    (yard.become position move).drafts.Nodup := by
  refine List.nodup_append'.2 ⟨once, ?_, fun place before made => free place made before⟩
  cases moves.drafted_cases with
  | kept none _ _ =>
    rw [none]
    exact List.nodup_nil
  | made drafts _ _ _ _ _ _ =>
    rw [drafts]
    exact List.nodup_singleton _

theorem step_work (goesOn : yard.crashed = false) (found : yard.tasks[position]? = some task)
    (permits : yard.permits task = true)
    (works : task.work yard.system yard.cancelled = some move) :
    yard.step (.work position) = some (yard.become position move) := by
  unfold Yard.step
  simp [goesOn, found, permits, works]

theorem step_draft {number : Nat} (goesOn : yard.crashed = false)
    (found : yard.tasks[position]? = some task)
    (drafts : task.draft yard.system number = some move) :
    yard.step (.draft position number) = some (yard.become position move) := by
  unfold Yard.step
  simp [goesOn, found, drafts]

/-- A file that was begun can go on, and so can one in the queue while no file is under way. -/
theorem Kept.exists_permitted (kept : yard.Kept request ready)
    (unfinished : yard.isComplete = false) :
    ∃ (position : Nat) (task : Task), yard.tasks[position]? = some task ∧
      task.isFinished = false ∧ yard.permits task = true := by
  by_cases busy : ∃ task ∈ yard.tasks, task.isBusy = true
  · obtain ⟨task, present, isBusy⟩ := busy
    obtain ⟨position, found⟩ := List.mem_iff_getElem?.1 present
    refine ⟨position, task, found, ?_⟩
    obtain ⟨result, phase⟩ := task
    cases phase with
    | queued => cases isBusy
    | finished => cases isBusy
    | _ => exact ⟨rfl, rfl⟩
  · have idle : yard.tasks.countP Task.isBusy = 0 :=
      List.countP_eq_zero.2 fun task present isBusy => busy ⟨task, present, isBusy⟩
    obtain ⟨task, present, notFinished⟩ : ∃ task ∈ yard.tasks, task.isFinished = false := by
      by_contra all
      push Not at all
      refine Bool.false_ne_true (unfinished.symm.trans (List.all_eq_true.2 fun task present => ?_))
      exact Bool.not_eq_false _ ▸ all task present
    obtain ⟨position, found⟩ := List.mem_iff_getElem?.1 present
    refine ⟨position, task, found, notFinished, ?_⟩
    unfold permits
    rw [idle]
    split
    · exact decide_eq_true kept.slots
    · rfl

/-- A build that is not complete can go on, with a name for a draft that was not used before. -/
theorem Kept.exists_step (kept : yard.Kept request ready) (fresh : yard.Fresh request ready)
    (unfinished : yard.isComplete = false) :
    ∃ step next, step ≠ .cancel ∧ yard.step step = some next ∧ next.Fresh request ready := by
  obtain ⟨position, task, found, notFinished, permits⟩ := kept.exists_permitted unfinished
  by_cases writing : ∃ assembly, task.phase = .writing assembly
  · obtain ⟨assembly, writing⟩ := writing
    let files := request.files.filterMap fun file => (ready.locate file).toOption
    obtain ⟨number, _, move, drafts, free⟩ :=
      exists_draft yard.system writing (yard.drafts ++ files)
    refine ⟨.draft position number, _, Step.noConfusion, step_draft kept.goesOn found drafts,
      nodup_become fresh.once (Task.moves_of_draft drafts) fun place made among =>
        free place made (List.mem_append_left _ among), ?_⟩
    intro place among file requested located
    rcases List.mem_append.1 among with before | made
    · exact fresh.unread place before file requested located
    · refine free place made (List.mem_append_right _ ?_)
      exact List.mem_filterMap.2 ⟨file, requested, by rw [located]; rfl⟩
  · push Not at writing
    obtain ⟨move, works⟩ := exists_work yard.system yard.cancelled notFinished writing
    refine ⟨.work position, _, Step.noConfusion, step_work kept.goesOn found permits works, ?_⟩
    refine fresh.of_prefix ?_
    change yard.drafts ++ move.drafts <+: yard.drafts
    rw [drafts_of_work works, List.append_nil]

/-! ## Files in their order -/

end Yard

end WordMachine.Build
