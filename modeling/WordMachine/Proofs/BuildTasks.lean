import WordMachine.Build.Tasks
import WordMachine.Proofs.BuildOutputs
import WordMachine.Proofs.FileViews

/-!
One file of a build, step by step: what its steps are, what a file that has come so far has behind
it, what was told of it, and how many steps are left.
-/

namespace WordMachine.Build

/-! ## What a file can come to -/

/-- An output that a file can take the name of. -/
structure Nameable (system : FileSystem) (output : Bytes) : Prop where
  noDirectory : system.isDirectory output = false
  noSlash : output.endsWith "/" = false
  located : ∃ place, system.locate output = .ok place

/-- An output can be replaced where a draft for it can be made and take its name. -/
theorem isOk_replaceFile {system : FileSystem} {output text : Bytes} :
    (system.replaceFile output text).isOk = true ↔
      (system.locate (FileSystem.draftPath output)).isOk = true ∧ Nameable system output := by
  constructor
  · intro replaced
    unfold FileSystem.replaceFile at replaced
    dsimp only at replaced
    split at replaced
    · cases replaced
    · next draft =>
      refine ⟨by rw [draft]; rfl, ?_⟩
      split at replaced
      · cases replaced
      · next noDirectory =>
        split at replaced
        · cases replaced
        · next noSlash =>
          split at replaced
          · cases replaced
          · next place located =>
            exact ⟨Bool.eq_false_iff.2 noDirectory, Bool.eq_false_iff.2 noSlash, place, located⟩
  · rintro ⟨drafted, noDirectory, noSlash, place, located⟩
    rw [FileSystem.replaceFile_of text drafted located noDirectory noSlash]
    rfl

theorem Nameable.congr {first second : FileSystem} {output : Bytes}
    (same : FileSystem.SameDirectories first second) :
    Nameable first output ↔ Nameable second output := by
  constructor
  · rintro ⟨noDirectory, noSlash, place, located⟩
    exact ⟨(same.isDirectory output).symm.trans noDirectory, noSlash, place,
      same.locate.1 located⟩
  · rintro ⟨noDirectory, noSlash, place, located⟩
    exact ⟨(same.isDirectory output).trans noDirectory, noSlash, place, same.locate.2 located⟩

/-- A name that was drawn for a draft made its path too long. -/
def Failure.isOverlong : Failure → Bool
  | .write _ (.create error) => error.cause = .nameTooLong
  | _ => false

/-- The program file at a path gives an assembly, and what was lowered is noted. -/
def Lowers (ready : FileSystem) (result : Result) (assembly : Assembly) : Prop :=
  ∃ program, readProgram ready result.file = .ok program ∧
    (Lowering.outcome program).result = .ok assembly ∧
      result.lowered = some (Lowering.outcome program)

theorem Lowers.gives {ready : FileSystem} {result : Result} {assembly : Assembly}
    (lowers : Lowers ready result assembly) : Gives ready result.file assembly := by
  obtain ⟨program, read, lowered, _⟩ := lowers
  exact ⟨program, read, lowered⟩

/-- What a file comes to: an assembly at its output, or a failure in one of its stages. A file that
could have been built fails at most for the name of its draft. -/
structure Concludes (ready : FileSystem) (result : Result) : Prop where
  stages : result.stages = [.load] ∨ result.stages = [.load, .generate] ∨
    result.stages = [.load, .generate, .write]
  success : result.failure = none → result.stages = [.load, .generate, .write] ∧
    ∃ assembly, Lowers ready result assembly ∧
      (ready.replaceFile result.output assembly.save).isOk = true
  failure : ∀ failure, result.failure = some failure → failure.isOverlong = false →
    ∀ assembly, Gives ready result.file assembly →
      (ready.replaceFile result.output assembly.save).isOk = false

theorem Concludes.of_failure {ready : FileSystem} {result : Result} {failure : Failure}
    (stages : result.stages = [.load] ∨ result.stages = [.load, .generate] ∨
      result.stages = [.load, .generate, .write]) (failed : result.failure = some failure)
    (hopeless : failure.isOverlong = false → ∀ assembly, Gives ready result.file assembly →
      (ready.replaceFile result.output assembly.save).isOk = false) : Concludes ready result := by
  refine ⟨stages, ?_, ?_⟩
  · intro success
    rw [failed] at success
    cases success
  · intro other same
    rw [failed] at same
    cases same
    exact hopeless

namespace Task

variable {task : Task} {system ready : FileSystem} {move : Move}

/-! ## The steps of a file -/

inductive Begins : Phase → Stage → Phase → Prop
  | load : Begins .queued .load .loading
  | generate {program : Program} : Begins (.loaded program) .generate (.generating program)
  | write {assembly : Assembly} : Begins (.generated assembly) .write (.writing assembly)

/-- What a step of a file comes to in a build that is not cancelled. -/
inductive Moves (task : Task) (system : FileSystem) : Move → Prop
  | began {stage : Stage} {phase : Phase} :
      Begins task.phase stage phase → Moves task system (task.enter system stage phase)
  | read {program : Program} :
      task.phase = .loading →
      readProgram system task.result.file = .ok program →
      Moves task system (task.pass system .load (.loaded program))
  | unread {error : ReadError} :
      task.phase = .loading →
      readProgram system task.result.file = .error error →
      Moves task system (task.fail system .load (.read error))
  | lowered {program : Program} {assembly : Assembly} :
      task.phase = .generating program →
      (Lowering.outcome program).result = .ok assembly →
      Moves task system
        ((task.note (Lowering.outcome program)).pass system .generate (.generated assembly))
  | unlowered {program : Program} {error : Lowering.Error} :
      task.phase = .generating program →
      (Lowering.outcome program).result = .error error →
      Moves task system
        ((task.note (Lowering.outcome program)).fail system .generate
          (.read (.lowering task.result.file error)))
  | crashed {program : Program} {error : Lowering.Error} :
      task.phase = .generating program →
      (Lowering.outcome program).result = .error error →
      error.isFatal = true →
      Moves task system { task, system, crashed := true }
  | drafted {assembly : Assembly} {number file : Nat} {place : Location} {after : FileSystem} :
      task.phase = .writing assembly →
      system.createFile (FileSystem.numberedDraft task.result.output number) =
        .ok (place, file, after) →
      Moves task system
        { task :=
            { task with
              phase :=
                .drafted assembly
                  { path := FileSystem.numberedDraft task.result.output number, number := file } }
          system := after
          drafts := [place] }
  | undrafted {assembly : Assembly} {number : Nat} {cause : Errno} :
      task.phase = .writing assembly →
      system.locate (FileSystem.numberedDraft task.result.output number) = .error cause →
      Moves task system
        (task.fail system .write
          (.write task.result.output
            (.create ⟨"open", FileSystem.numberedDraft task.result.output number, cause⟩)))
  | filled {assembly : Assembly} {draft : Draft} :
      task.phase = .drafted assembly draft →
      Moves task system
        { task := { task with phase := .filled assembly draft }
          system := system.setContent draft.number assembly.save }
  | named {assembly : Assembly} {draft : Draft} {after : FileSystem} :
      task.phase = .filled assembly draft →
      system.renameFile draft.path task.result.output = .ok after →
      Moves task system
        { task := { task with phase := .settled assembly draft none }, system := after }
  | unnamed {assembly : Assembly} {draft : Draft} {cause : Errno} :
      task.phase = .filled assembly draft →
      system.renameFile draft.path task.result.output = .error cause →
      Moves task system
        { task :=
            { task with
              phase :=
                .settled assembly draft
                  (some (.write task.result.output
                    (.rename draft.path task.result.output cause))) }
          system }
  | written {assembly : Assembly} {draft : Draft} :
      task.phase = .settled assembly draft none →
      Moves task system
        (task.pass ((system.remove draft.path).toOption.getD system) .write .finished)
  | unwritten {assembly : Assembly} {draft : Draft} {failure : Failure} :
      task.phase = .settled assembly draft (some failure) →
      Moves task system
        (task.fail ((system.remove draft.path).toOption.getD system) .write failure)

theorem moves_of_work (works : task.work system false = some move) : task.Moves system move := by
  unfold work at works
  split at works
  · next queued =>
    cases works
    exact .began (queued ▸ .load)
  · next loading =>
    split at works
    · next error failed =>
      cases works
      exact .unread loading failed
    · next program read =>
      cases works
      exact .read loading read
  · next program loaded =>
    cases works
    exact .began (loaded ▸ .generate)
  · next program generating =>
    dsimp only at works
    split at works
    · next error failed =>
      split at works
      · next fatal =>
        cases works
        exact .crashed generating failed fatal
      · cases works
        exact .unlowered generating failed
    · next assembly lowered =>
      cases works
      exact .lowered generating lowered
  · next assembly generated =>
    cases works
    exact .began (generated ▸ .write)
  · cases works
  · next assembly draft drafted =>
    cases works
    exact .filled drafted
  · next assembly draft filled =>
    dsimp only at works
    split at works
    · next after renamed =>
      cases works
      exact .named filled renamed
    · next cause failed =>
      cases works
      exact .unnamed filled failed
  · next assembly draft failure settled =>
    dsimp only at works
    split at works
    · cases works
      exact .written settled
    · cases works
      exact .unwritten settled
  · cases works

theorem moves_of_draft {number : Nat} (drafts : task.draft system number = some move) :
    task.Moves system move := by
  unfold draft at drafts
  split at drafts
  · next assembly writing =>
    dsimp only at drafts
    split at drafts
    · cases drafts
    · next cause taken failed =>
      rw [← Option.some.inj drafts]
      rcases FileSystem.createFile_eq_error failed with located | isTaken
      · exact .undrafted writing located
      · exact (taken isTaken).elim
    · next place file after created =>
      cases drafts
      exact .drafted writing created
  · cases drafts

theorem Moves.paths_eq (moves : task.Moves system move) :
    move.task.result.file = task.result.file ∧ move.task.result.output = task.result.output := by
  cases moves <;> exact ⟨rfl, rfl⟩

theorem Moves.crashed_iff (moves : task.Moves system move) :
    move.crashed = true → ∃ program error, task.phase = .generating program ∧
      (Lowering.outcome program).result = .error error ∧ error.isFatal = true := by
  intro crashes
  cases moves with
  | crashed generating failed fatal => exact ⟨_, _, generating, failed, fatal⟩
  | _ => cases crashes

/-! ## What a file has behind it -/

def Drafts (ready : FileSystem) (result : Result) (draft : Draft) : Prop :=
  (∃ number, draft.path = FileSystem.numberedDraft result.output number) ∧
    (ready.locate (FileSystem.draftPath result.output)).isOk = true

/-- What a file has behind it, and what it has found in a file system that is ready to be built
in. -/
def Follows (ready : FileSystem) (task : Task) : Prop :=
  let result := task.result
  match task.phase with
  | .queued => result.failure = none ∧ result.stages = []
  | .loading => result.failure = none ∧ result.stages = [.load]
  | .loaded program =>
    result.failure = none ∧ result.stages = [.load] ∧
      readProgram ready result.file = .ok program
  | .generating program =>
    result.failure = none ∧ result.stages = [.load, .generate] ∧
      readProgram ready result.file = .ok program
  | .generated assembly =>
    result.failure = none ∧ result.stages = [.load, .generate] ∧ Lowers ready result assembly
  | .writing assembly =>
    result.failure = none ∧ result.stages = [.load, .generate, .write] ∧
      Lowers ready result assembly
  | .drafted assembly draft =>
    result.failure = none ∧ result.stages = [.load, .generate, .write] ∧
      Lowers ready result assembly ∧ Drafts ready result draft
  | .filled assembly draft =>
    result.failure = none ∧ result.stages = [.load, .generate, .write] ∧
      Lowers ready result assembly ∧ Drafts ready result draft
  | .settled assembly draft failure =>
    result.failure = none ∧ result.stages = [.load, .generate, .write] ∧
      Lowers ready result assembly ∧ Drafts ready result draft ∧
        (failure = none ↔ Nameable ready result.output)
  | .finished => Concludes ready result

/-- A file finds the directories and programs that were there before, and its draft if it has one to
give a name to. -/
structure Finds (ready system : FileSystem) (task : Task) : Prop where
  same : FileSystem.SameDirectories system ready
  reads : ∀ program, readProgram system task.result.file = .ok program ↔
    readProgram ready task.result.file = .ok program
  draft : ∀ assembly draft, task.phase = .filled assembly draft →
    ∃ place number, system.locate draft.path = .ok place ∧
      system.lookup? place = some (.file number)

theorem Moves.follows (moves : task.Moves system move) (finds : task.Finds ready system)
    (follows : task.Follows ready) : move.task.Follows ready := by
  obtain ⟨result, phase⟩ := task
  cases moves with
  | began next =>
    cases next with
    | load =>
      obtain ⟨fine, stages⟩ := follows
      exact ⟨fine, congrArg (· ++ [Stage.load]) stages⟩
    | generate =>
      obtain ⟨fine, stages, read⟩ := follows
      exact ⟨fine, congrArg (· ++ [Stage.generate]) stages, read⟩
    | write =>
      obtain ⟨fine, stages, lowers⟩ := follows
      exact ⟨fine, congrArg (· ++ [Stage.write]) stages, lowers⟩
  | read loading read =>
    cases loading
    obtain ⟨fine, stages⟩ := follows
    exact ⟨fine, stages, (finds.reads _).1 read⟩
  | unread loading failed =>
    cases loading
    obtain ⟨_, stages⟩ := follows
    refine .of_failure (.inl stages) rfl ?_
    rintro _ assembly ⟨program, read, _⟩
    rw [(finds.reads program).2 read] at failed
    cases failed
  | lowered generating lowered =>
    cases generating
    obtain ⟨fine, stages, read⟩ := follows
    exact ⟨fine, stages, _, read, lowered, rfl⟩
  | unlowered generating failed =>
    cases generating
    obtain ⟨_, stages, read⟩ := follows
    refine .of_failure (.inr (.inl stages)) rfl ?_
    rintro _ assembly ⟨program, again, lowered⟩
    change readProgram ready result.file = _ at again
    rw [read] at again
    cases again
    rw [failed] at lowered
    cases lowered
  | crashed generating failed fatal => exact follows
  | drafted writing created =>
    cases writing
    obtain ⟨fine, stages, lowers⟩ := follows
    obtain ⟨located, _⟩ := FileSystem.createFile_eq_ok.1 created
    exact ⟨fine, stages, lowers, ⟨_, rfl⟩,
      FileSystem.isOk_locate_draftPath (finds.same.locate.1 located)⟩
  | undrafted writing failed =>
    cases writing
    obtain ⟨_, stages, _⟩ := follows
    refine .of_failure (.inr (.inr stages)) rfl ?_
    intro fits assembly _
    rw [Bool.eq_false_iff]
    intro replaced
    obtain ⟨drafted, _⟩ := isOk_replaceFile.1 replaced
    have shortest := (finds.same.isOk_locate _).trans drafted
    have overlong := FileSystem.eq_nameTooLong_of_draftPath shortest failed
    exact absurd overlong (of_decide_eq_false fits)
  | filled drafted =>
    cases drafted
    exact follows
  | named filled renamed =>
    cases filled
    obtain ⟨fine, stages, lowers, drafts⟩ := follows
    obtain ⟨place, number, located, found⟩ := finds.draft _ _ rfl
    obtain ⟨noDirectory, noSlash, target, output, _⟩ :=
      (FileSystem.renameFile_eq_ok located found).1 renamed
    have nameable : Nameable system result.output := ⟨noDirectory, noSlash, target, output⟩
    exact ⟨fine, stages, lowers, drafts, iff_of_true rfl ((Nameable.congr finds.same).1 nameable)⟩
  | unnamed filled failed =>
    cases filled
    obtain ⟨fine, stages, lowers, drafts⟩ := follows
    obtain ⟨place, number, located, found⟩ := finds.draft _ _ rfl
    refine ⟨fine, stages, lowers, drafts, iff_of_false (fun none => nomatch none) ?_⟩
    intro nameable
    obtain ⟨noDirectory, noSlash, target, output⟩ := (Nameable.congr finds.same).2 nameable
    have renamed := (FileSystem.renameFile_eq_ok located found).2
      ⟨noDirectory, noSlash, target, output, rfl⟩
    rw [renamed] at failed
    cases failed
  | written settled =>
    cases settled
    obtain ⟨fine, stages, lowers, ⟨_, drafted⟩, nameable⟩ := follows
    refine ⟨.inr (.inr stages), fun _ => ⟨stages, _, lowers, ?_⟩, ?_⟩
    · exact isOk_replaceFile.2 ⟨drafted, nameable.1 rfl⟩
    · intro failure failed
      change result.failure = _ at failed
      rw [fine] at failed
      cases failed
  | unwritten settled =>
    cases settled
    obtain ⟨_, stages, _, _, nameable⟩ := follows
    refine .of_failure (.inr (.inr stages)) rfl ?_
    intro _ assembly _
    rw [Bool.eq_false_iff]
    intro replaced
    cases nameable.2 (isOk_replaceFile.1 replaced).2

/-! ## What was told of a file -/

def passed (task : Task) (stages : List Stage) : List Event :=
  stages.flatMap fun stage => [task.event stage .working, task.event stage .done]

/-- What was told of a file since it was begun. -/
def log (task : Task) : List Event :=
  match task.phase with
  | .queued => []
  | .loading => [task.event .load .working]
  | .loaded _ => task.passed [.load]
  | .generating _ => task.passed [.load] ++ [task.event .generate .working]
  | .generated _ => task.passed [.load, .generate]
  | .finished => task.result.events
  | _ => task.passed [.load, .generate] ++ [task.event .write .working]

theorem Moves.log_eq (moves : task.Moves system move) (follows : task.Follows ready) :
    move.task.log = task.log ++ move.events := by
  obtain ⟨result, phase⟩ := task
  cases moves with
  | began next => cases next <;> rfl
  | read loading _ =>
    cases loading
    rfl
  | unread loading _ =>
    cases loading
    obtain ⟨_, stages⟩ := follows
    change result.stages = _ at stages
    simp [log, fail, Result.events, stages, event]
  | lowered generating _ =>
    cases generating
    rfl
  | unlowered generating _ =>
    cases generating
    obtain ⟨_, stages, _⟩ := follows
    change result.stages = _ at stages
    simp [log, fail, note, Result.events, stages, event, passed]
  | crashed _ _ _ => exact (List.append_nil _).symm
  | drafted writing _ =>
    cases writing
    rfl
  | undrafted writing _ =>
    cases writing
    obtain ⟨_, stages, _⟩ := follows
    change result.stages = _ at stages
    simp [log, fail, Result.events, stages, event, passed]
  | filled drafted =>
    cases drafted
    rfl
  | named filled _ =>
    cases filled
    rfl
  | unnamed filled _ =>
    cases filled
    rfl
  | written settled =>
    cases settled
    obtain ⟨fine, stages, _⟩ := follows
    change result.stages = _ at stages
    change result.failure = _ at fine
    simp [log, pass, Result.events, stages, event, passed, fine]
  | unwritten settled =>
    cases settled
    obtain ⟨_, stages, _⟩ := follows
    change result.stages = _ at stages
    simp [log, fail, Result.events, stages, event, passed]

theorem Moves.told (moves : task.Moves system move) :
    ∀ event ∈ move.events, event.file = task.result.file := by
  cases moves <;> simp [enter, pass, fail, event, note]

/-! ## How many steps are left -/

end Task

/-- How many steps a file may still take. -/
def Phase.rank : Phase → Nat
  | .queued => 9
  | .loading => 8
  | .loaded _ => 7
  | .generating _ => 6
  | .generated _ => 5
  | .writing _ => 4
  | .drafted _ _ => 3
  | .filled _ _ => 2
  | .settled _ _ _ => 1
  | .finished => 0

theorem Task.Moves.rank_lt {task : Task} {system : FileSystem} {move : Move}
    (moves : task.Moves system move) (goesOn : move.crashed = false) :
    move.task.phase.rank < task.phase.rank := by
  obtain ⟨result, phase⟩ := task
  cases moves with
  | began next => cases next <;> exact Nat.le_of_ble_eq_true rfl
  | crashed _ _ _ => cases goesOn
  | read isPhase _ | unread isPhase _ | lowered isPhase _ | unlowered isPhase _
  | drafted isPhase _ | undrafted isPhase _ | filled isPhase | named isPhase _
  | unnamed isPhase _ | written isPhase | unwritten isPhase =>
    cases isPhase
    exact Nat.le_of_ble_eq_true rfl

end WordMachine.Build
