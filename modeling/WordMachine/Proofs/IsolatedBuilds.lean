import Mathlib
import WordMachine.Proofs.BuildTurns

/-!
Files that are built side by side do not get in each other's way. Whatever steps are taken in
whatever order, each file comes to what it comes to alone, what is told of it is told in order, and
the file system is left with the assemblies of the files that were built and is otherwise as it was.
-/

namespace WordMachine.Build

open FileSystem

variable {request : Request} {system ready : FileSystem}

/-! ## A file that is built alone -/

theorem sound_prepare (sound : system.Sound) (prepared : prepare request system = .ok ready) :
    ready.Sound := by
  unfold prepare at prepared
  split at prepared
  · cases prepared
    exact sound
  · exact sound.makeDirectoriesWith _ prepared

theorem widens_prepare (prepared : prepare request system = .ok ready) : Widens system ready := by
  unfold prepare at prepared
  split at prepared
  · cases prepared
    exact .refl system
  · exact widens_makeDirectories prepared

theorem failure_buildFile_eq_none {file : Bytes} (begins : request.cancelled = false) :
    (buildFile request system file).1.failure = none ↔ ∃ assembly, Gives system file assembly ∧
      (system.replaceFile (outputPath file request.directory) assembly.save).isOk = true := by
  cases read : readProgram system file with
  | error error =>
    rw [buildFile_unread begins read]
    refine iff_of_false (fun none => nomatch none) ?_
    rintro ⟨assembly, ⟨program, again, _⟩, _⟩
    rw [read] at again
    cases again
  | ok program =>
    cases lowered : (Lowering.outcome program).result with
    | error error =>
      rw [buildFile_unlowered begins read lowered]
      refine iff_of_false (fun none => nomatch none) ?_
      rintro ⟨assembly, ⟨other, again, gives⟩, _⟩
      rw [read] at again
      cases again
      rw [lowered] at gives
      cases gives
    | ok assembly =>
      have own : Gives system file assembly := ⟨program, read, lowered⟩
      rw [buildFile_lowered begins read lowered]
      delta writeStage
      dsimp only
      constructor
      · intro fine
        refine ⟨assembly, own, ?_⟩
        split at fine
        · next after replaced => rw [replaced]; rfl
        · cases fine
      · rintro ⟨other, gives, replaced⟩
        rw [gives.unique own] at replaced
        split
        · rfl
        · next error failed =>
          rw [failed] at replaced
          cases replaced

def Request.BuildsAlone (request : Request) (system : FileSystem) (file : Bytes) : Prop :=
  (Build.run { request with files := [file] } system).1.message? = none

theorem Request.buildsAlone_iff {file : Bytes} (prepared : prepare request system = .ok ready)
    (uncancelled : request.cancelled = false) :
    request.BuildsAlone system file ↔ ∃ assembly, Gives ready file assembly ∧
      (ready.replaceFile (outputPath file request.directory) assembly.save).isOk = true := by
  let alone : Request := { request with files := [file] }
  have preparedAlone : prepare alone system = .ok ready := prepared
  have results : (Build.run alone system).1.results = [(buildFile alone ready file).1] :=
    (Site.run_eq_of_prepare preparedAlone).1
  have unrefused : (Build.run alone system).1.refused = none := by
    unfold prepare at preparedAlone
    unfold Build.run
    dsimp only
    rw [preparedAlone]
  rw [← @failure_buildFile_eq_none alone _ _ uncancelled]
  unfold BuildsAlone Outcome.message? Outcome.failures
  rw [unrefused, results]
  dsimp only
  cases failure : (buildFile alone ready file).1.failure with
  | none => simp [failure]
  | some failure' => simp [failure]

namespace Yard

/-! ## What a build comes to -/

/-- Files that were built side by side have come to what they come to alone. -/
structure Isolated (request : Request) (system ready : FileSystem) (yard : Yard) : Prop where
  ordered : yard.outcome.results.map (fun result => (result.file, result.output)) = request.paths
  /-- A file that was built can be built alone. -/
  builds : ∀ result ∈ yard.outcome.results, result.failure = none →
    request.BuildsAlone system result.file
  /-- A file that was not built cannot be built alone, unless the name of its draft was too long. -/
  fails : ∀ result ∈ yard.outcome.results, ∀ failure, result.failure = some failure →
    failure.isOverlong = false → ¬ request.BuildsAlone system result.file
  /-- Nothing but directories was made before the first file was begun. -/
  prepared : Widens system ready
  /-- The output of a file that was built is its assembly. -/
  written : ∀ result ∈ yard.outcome.results, result.failure = none →
    ∃ assembly place, Gives ready result.file assembly ∧
      ready.locate result.output = .ok place ∧
      yard.system.view? place = some (.file assembly.save)
  kept : ∀ place, (∀ result ∈ yard.outcome.results, result.failure = none →
      ready.locate result.output ≠ .ok place) →
    yard.system.view? place = ready.view? place
  untouched : ∀ result ∈ yard.outcome.results, result.failure ≠ none → ∀ place,
    ready.locate result.output = .ok place → yard.system.view? place = ready.view? place
  undrafted : ∀ place ∈ yard.drafts, yard.system.view? place = none
  queued : request.files.map queuedEvent <+: yard.events
  /-- What is told of a file is that it is in the queue, and then what its result says. -/
  told : ∀ result ∈ yard.outcome.results,
    yard.events.filter (fun event => event.file == result.file) =
      queuedEvent result.file :: result.events
  /-- A file has gone through its stages up to one that failed, or through all of them. -/
  stages : ∀ result ∈ yard.outcome.results, result.stages ≠ [] ∧
    result.stages <+: [.load, .generate, .write] ∧
      (result.failure = none → result.stages = [.load, .generate, .write])
  /-- What went wrong is told for each file that was not built, in the order of the request. -/
  message : yard.outcome.message? =
    if yard.outcome.results.filterMap Result.failure = [] then none
    else some (Bytes.join "\n"
      ((yard.outcome.results.filterMap Result.failure).map Failure.message))

variable {request : Request} {system ready : FileSystem} {yard : Yard}

theorem Kept.isolated (kept : yard.Kept request ready) (separate : request.Separate ready)
    (uncancelled : request.cancelled = false) (prepared : prepare request system = .ok ready)
    (complete : yard.isComplete = true) : yard.Isolated request system ready := by
  have finished : ∀ task ∈ yard.tasks, task.phase = .finished := by
    intro task present
    have isFinished := List.all_eq_true.1 complete task present
    unfold Task.isFinished at isFinished
    split at isFinished
    · assumption
    · cases isFinished
  have concludes : ∀ task ∈ yard.tasks, Concludes ready task.result := by
    intro task present
    have follows := kept.follows task present
    unfold Task.Follows at follows
    rw [finished task present] at follows
    exact follows
  have outputs := kept.outputs separate
  have unwritten : ∀ place, (∀ result ∈ yard.outcome.results, result.failure = none →
      ready.locate result.output ≠ .ok place) → yard.system.view? place = ready.view? place := by
    intro place apart
    refine kept.stored.kept place ?_
    rintro task present text ⟨path, isPut, leads⟩
    unfold Task.put? at isPut
    rw [finished task present] at isPut
    obtain ⟨assembly, built, same⟩ := Option.map_eq_some_iff.1 isPut
    obtain ⟨rfl, _⟩ := Prod.mk.inj same
    refine apart task.result (List.mem_map_of_mem present) ?_ leads
    unfold Result.built? at built
    split at built
    · cases built
    · next fine => exact Option.isNone_iff_eq_none.1 (by simpa using fine)
  refine ⟨?_, ?_, ?_, widens_prepare prepared, ?_, unwritten, ?_, ?_, kept.queued, ?_, ?_, ?_⟩
  case refine_1 =>
    change (yard.tasks.map Task.result).map _ = _
    rw [List.map_map]
    exact kept.paths
  case refine_2 =>
    intro result among fine
    obtain ⟨task, present, rfl⟩ := List.mem_map.1 among
    obtain ⟨_, assembly, lowers, replaced⟩ := (concludes task present).success fine
    rw [(kept.requested present).2] at replaced
    exact (Request.buildsAlone_iff prepared uncancelled).2 ⟨assembly, lowers.gives, replaced⟩
  case refine_3 =>
    intro result among failure failed fits alone
    obtain ⟨task, present, rfl⟩ := List.mem_map.1 among
    obtain ⟨assembly, gives, replaced⟩ := (Request.buildsAlone_iff prepared uncancelled).1 alone
    have hopeless := (concludes task present).failure failure failed fits assembly gives
    rw [← (kept.requested present).2, hopeless] at replaced
    cases replaced
  case refine_4 =>
    intro result among fine
    obtain ⟨task, present, rfl⟩ := List.mem_map.1 among
    obtain ⟨_, assembly, lowers, replaced⟩ := (concludes task present).success fine
    obtain ⟨_, _, _, place, located⟩ := isOk_replaceFile.1 replaced
    refine ⟨assembly, place, lowers.gives, located, ?_⟩
    refine (kept.stored.put task present place assembly.save ⟨_, ?_, located⟩).1
    unfold Task.put?
    rw [finished task present]
    exact Option.map_eq_some_iff.2 ⟨assembly, lowers.built?_eq fine, rfl⟩
  case refine_5 =>
    intro result among failed place located
    refine unwritten place ?_
    intro other otherAmong fine otherLocated
    obtain ⟨task, present, rfl⟩ := List.mem_map.1 among
    obtain ⟨builder, builderPresent, rfl⟩ := List.mem_map.1 otherAmong
    obtain ⟨first, found⟩ := List.mem_iff_getElem?.1 present
    obtain ⟨second, builderFound⟩ := List.mem_iff_getElem?.1 builderPresent
    refine outputs.apart first second task builder ?_ found builderFound place located otherLocated
    rintro rfl
    rw [found] at builderFound
    cases builderFound
    exact failed fine
  case refine_6 =>
    intro place among
    obtain ⟨free, isDraftPlace⟩ := kept.stored.places place among
    refine (unwritten place ?_).trans (view?_eq_none.2 free)
    intro result resultAmong _ located
    obtain ⟨task, present, rfl⟩ := List.mem_map.1 resultAmong
    exact outputs.undrafted task present place located isDraftPlace
  case refine_7 =>
    intro result among
    obtain ⟨task, present, rfl⟩ := List.mem_map.1 among
    have told := kept.told task present
    unfold Task.log at told
    rw [finished task present] at told
    exact told
  case refine_8 =>
    intro result among
    obtain ⟨task, present, rfl⟩ := List.mem_map.1 among
    have concluded := concludes task present
    refine ⟨?_, ?_, fun fine => (concluded.success fine).1⟩
    · rcases concluded.stages with stages | stages | stages <;> simp [stages]
    · rcases concluded.stages with stages | stages | stages <;> rw [stages] <;> decide
  case refine_9 =>
    unfold Outcome.message? Outcome.failures
    change (if (yard.outcome.results.filterMap Result.failure).isEmpty then none else _) = _
    simp only [List.isEmpty_iff]

/-- Whatever numbers are drawn for drafts and whatever turns the files take, a build that is not
cancelled and whose programs are all answered goes on until all files are finished, and then each
has come to what it comes to alone. -/
theorem files_isolated {jobs : Int} {processors : Nat} {begun : Yard} {steps : List Step}
    (sound : system.Sound) (room : sink < system.contents.size)
    (uncancelled : request.cancelled = false) (some : 0 < processors)
    (prepared : prepare request system = .ok ready) (separate : request.Separate ready)
    (answered : request.Answered ready)
    (starts : Yard.start request jobs processors system = .ok begun)
    (runs : begun.run steps = .some yard) (noCancel : .cancel ∉ steps)
    (fresh : yard.Fresh request ready) :
    yard.crashed = false ∧ steps.length ≤ 9 * request.files.length ∧
      (yard.isComplete = false →
        ∃ step next, step ≠ .cancel ∧ yard.step step = .some next ∧ next.Fresh request ready) ∧
      (yard.isComplete = true → yard.Isolated request system ready) := by
  have roomReady : sink < ready.contents.size := by
    rw [(widens_prepare prepared).contents]
    exact room
  obtain ⟨keptBegun, bound⟩ :=
    Kept.start (sound_prepare sound prepared) separate uncancelled some prepared starts
  obtain ⟨kept, length⟩ := keptBegun.run separate answered roomReady runs noCancel fresh
  refine ⟨kept.goesOn, ?_, kept.exists_step fresh,
    kept.isolated separate uncancelled prepared⟩
  omega

end Yard

/-! ## Two files -/

/-- The file of a program without anything in it. -/
def emptyFile : Bytes :=
  Bytes.ofList ([0x9c, 0xaa] ++ Bytes.toList Program.magic ++
    [0x01, 0xc0, 0xc0, 0xc0, 0xc0, 0xc0, 0xc0, 0xc0, 0xc0, 0xc0, 0xc0])

/-- A file with the given contents and the file of an empty program. -/
def pair (text : Bytes) : FileSystem where
  workingDirectory := ["work"]
  entries :=
    [(["work"], .directory), (["work", "bad.nvp"], .file 1), (["work", "good.nvp"], .file 2)]
  contents := #[ByteArray.empty, text, emptyFile]

def pairRequest : Request where
  files := ["bad.nvp", "good.nvp"]

theorem sound_pair (text : Bytes) : (pair text).Sound := by
  refine .of_entries ?_ ?_
  · intro location number present
    simp only [pair, List.mem_cons, Prod.mk.injEq, reduceCtorEq, and_false, Entry.file.injEq,
      List.not_mem_nil, or_false, false_or] at present
    change number < 3
    omega
  · intro entry present
    simp only [pair, List.mem_cons, List.not_mem_nil, or_false] at present
    rcases present with rfl | rfl | rfl <;> rfl

/-- The outputs of the two are different files and none of the two, whatever the first one holds. -/
theorem separate_pair (text : Bytes) : pairRequest.Separate (pair text) := by
  have same : SameDirectories (pair text) (pair ByteArray.empty) := ⟨rfl, fun _ => Iff.rfl⟩
  have apart : pairRequest.files.Pairwise fun file other =>
      (pair ByteArray.empty).locate (outputPath file pairRequest.directory) ≠
        (pair ByteArray.empty).locate (outputPath other pairRequest.directory) := by
    decide
  have unread : ∀ file ∈ pairRequest.files, ∀ other ∈ pairRequest.files,
      (pair ByteArray.empty).locate (outputPath file pairRequest.directory) ≠
        (pair ByteArray.empty).locate other := by
    decide
  refine ⟨by decide, apart.imp ?_, ?_⟩
  · intro file other different place located otherLocated
    exact different ((same.locate.1 located).trans (same.locate.1 otherLocated).symm)
  · intro file requested other otherRequested place located otherLocated
    exact unread file requested other otherRequested
      ((same.locate.1 located).trans (same.locate.1 otherLocated).symm)

/-- The turns that the two files take. The first one cannot be read. -/
def pairTurns : List Yard.Step :=
  [.work 1, .work 0, .work 1, .work 0, .work 1, .work 1, .work 1, .draft 1 7, .work 1, .work 1,
    .work 1]

/-- Before the first of the two files is begun. -/
def pairYard (text : Bytes) : Yard where
  system := pair text
  tasks := pairRequest.files.map fun file =>
    { result := { file, output := outputPath file pairRequest.directory } }
  slots := 2
  events := pairRequest.files.map queuedEvent

theorem fresh_pair {text : Bytes} {yard : Yard} (drafts : yard.drafts <+: [["work", ".novasm-7"]]) :
    yard.Fresh pairRequest (pair text) := by
  have same : SameDirectories (pair text) (pair ByteArray.empty) := ⟨rfl, fun _ => Iff.rfl⟩
  have unread : ∀ file ∈ pairRequest.files,
      (pair ByteArray.empty).locate file ≠ .ok ["work", ".novasm-7"] := by
    decide
  refine ⟨(List.nodup_singleton _).sublist drafts.sublist, ?_⟩
  intro place among file requested located
  rw [List.mem_singleton.1 (drafts.subset among)] at located
  exact unread file requested (same.locate.1 located)

/-- A file that cannot be read and one that is built meanwhile. -/
theorem files_isolated_pair :
    ∃ yard, Yard.start pairRequest 2 1 (pair ByteArray.empty) =
        .ok (pairYard ByteArray.empty) ∧
      (pairYard ByteArray.empty).run pairTurns = some yard ∧ yard.isComplete = true ∧
        yard.outcome.results.map (fun result => result.failure.isSome) = [true, false] ∧
        yard.Isolated pairRequest (pair ByteArray.empty) (pair ByteArray.empty) := by
  let drawn : List Location := [["work", ".novasm-7"]]
  have ends : ((pairYard ByteArray.empty).run pairTurns).map (fun yard => (yard.isComplete,
      yard.outcome.results.map fun result => result.failure.isSome, yard.drafts)) =
        some (true, [true, false], drawn) := by
    decide +kernel
  obtain ⟨yard, runs, same⟩ := Option.map_eq_some_iff.1 ends
  obtain ⟨complete, rest⟩ := Prod.mk.inj same
  obtain ⟨failures, drafts⟩ := Prod.mk.inj rest
  have unanswered : ∀ file ∈ pairRequest.files, (match readProgram (pair ByteArray.empty) file with
      | .ok program => (Lowering.outcome program).result.isOk
      | .error _ => true) = true := by
    decide +kernel
  have answered : pairRequest.Answered (pair ByteArray.empty) := by
    intro file requested program error read failed
    have answer := unanswered file requested
    rw [read] at answer
    dsimp only at answer
    rw [failed] at answer
    cases answer
  have starts : Yard.start pairRequest 2 1 (pair ByteArray.empty) =
      .ok (pairYard ByteArray.empty) := rfl
  have fresh : yard.Fresh pairRequest (pair ByteArray.empty) :=
    fresh_pair (drafts.symm ▸ List.prefix_refl drawn)
  have isolated := Yard.files_isolated (sound_pair _) (by decide) rfl Nat.one_pos rfl
    (separate_pair _) answered starts runs (by decide) fresh
  exact ⟨yard, starts, runs, complete, failures, isolated.2.2.2 complete⟩

/-- If the lowering of one program is not answered, the other file is never begun. -/
theorem isolation_lost :
    ¬ ∀ (request : Request) (jobs : Int) (processors : Nat) (system ready : FileSystem)
      (begun yard : Yard) (steps : List Yard.Step), system.Sound → sink < system.contents.size →
        request.cancelled = false → 0 < processors → prepare request system = .ok ready →
        request.Separate ready → Yard.start request jobs processors system = .ok begun →
        begun.run steps = some yard → .cancel ∉ steps → yard.Fresh request ready →
        (∀ step, yard.step step = none) → yard.Isolated request system ready := by
  intro promised
  let text := Lowering.undefinedComparison
  let turns : List Yard.Step := [.work 0, .work 0, .work 0, .work 0]
  have ends : ((pairYard text).run turns).map (fun yard => (yard.crashed,
      yard.outcome.results.map Result.stages, yard.drafts)) =
        some (true, [[.load, .generate], []], []) := by
    decide
  obtain ⟨yard, runs, same⟩ := Option.map_eq_some_iff.1 ends
  obtain ⟨crashed, rest⟩ := Prod.mk.inj same
  obtain ⟨stages, drafts⟩ := Prod.mk.inj rest
  have starts : Yard.start pairRequest 2 1 (pair text) = .ok (pairYard text) := rfl
  have fresh : yard.Fresh pairRequest (pair text) := fresh_pair (drafts.symm ▸ List.nil_prefix)
  have stopped : ∀ step, yard.step step = none := by
    intro step
    unfold Yard.step
    rw [if_pos crashed]
  have isolated := promised pairRequest 2 1 (pair text) (pair text) (pairYard text) yard turns
    (sound_pair text) (Nat.succ_pos 2) rfl Nat.one_pos rfl (separate_pair text) starts runs
    (by decide) fresh stopped
  have unbegun : [] ∈ yard.outcome.results.map Result.stages := by
    rw [stages]
    exact List.mem_cons_of_mem _ (List.mem_singleton_self _)
  obtain ⟨result, among, none⟩ := List.mem_map.1 unbegun
  exact (isolated.stages result among).1 none

end WordMachine.Build
