import WordMachine.Proofs.BuildSchedules
import WordMachine.Proofs.CodeFromFiles
import WordMachine.Proofs.FileTrees

/-!
What the outputs of a build hold. Workers run their stages in any order, and each writes to the
place of its own output, so a file is lost only if another file has its output at the same place.
-/

namespace WordMachine.Build

variable {system : FileSystem} {file : Bytes} {bits : UInt32}

/-! ## One worker -/

def Gives (system : FileSystem) (file : Bytes) (assembly : Assembly) : Prop :=
  ∃ program, readProgram system file = .ok program ∧
    (Lowering.outcome program).result = .ok assembly

theorem Gives.unique {first second : Assembly} (gives : Gives system file first)
    (again : Gives system file second) : first = second := by
  obtain ⟨program, read, lowered⟩ := gives
  obtain ⟨other, readAgain, loweredAgain⟩ := again
  rw [read] at readAgain
  cases readAgain
  rw [lowered] at loweredAgain
  cases loweredAgain
  rfl

/-- An output holds the assembly that a program file gave before. -/
def Yields (before after : FileSystem) (file output : Bytes) : Prop :=
  ∃ assembly, Gives before file assembly ∧ after.read output = .ok assembly.save

theorem readProgram_eq_ok {path : Bytes} {program : Program} :
    readProgram system path = .ok program ↔
      ∃ place data, system.locate path = .ok place ∧ system.held? place = some data ∧
        Program.load data = .ok program := by
  unfold readProgram
  constructor
  · intro gives
    split at gives
    · next data read =>
      obtain ⟨place, located, holds⟩ := FileSystem.read_eq_ok.1 read
      refine ⟨place, data, located, holds, ?_⟩
      cases loaded : Program.load data with
      | error error =>
        rw [loaded] at gives
        cases gives
      | ok other =>
        rw [loaded] at gives
        cases gives
        rfl
    · split at gives <;> cases gives
  · rintro ⟨place, data, located, holds, loaded⟩
    rw [FileSystem.read_eq_ok.2 ⟨place, located, holds⟩]
    simp only [loaded]
    rfl

def Worker.Built (worker : Worker) (assembly : Assembly) : Prop :=
  worker.progress = .finished ∧ worker.result.failure = none ∧
    ∃ outcome, worker.result.lowered = some outcome ∧ outcome.result = .ok assembly

/-- What a worker has done so far is what its stages make of a program from a source. -/
def Worker.Follows (source : Program → Prop) (worker : Worker) : Prop :=
  match worker.progress with
  | .queued => worker.result.failure = none
  | .loaded program => worker.result.failure = none ∧ source program
  | .generated assembly =>
    worker.result.failure = none ∧ ∃ program, source program ∧
      (Lowering.outcome program).result = .ok assembly ∧
        worker.result.lowered = some (Lowering.outcome program)
  | .finished =>
    worker.result.failure = none → ∃ program assembly, source program ∧
      (Lowering.outcome program).result = .ok assembly ∧
        worker.result.lowered = some (Lowering.outcome program)

namespace Worker

variable {worker after : Worker} {system systemAfter : FileSystem}
variable {source : Program → Prop}

/-- The file of a worker and where its output goes. -/
def paths (worker : Worker) : Bytes × Bytes :=
  (worker.result.file, worker.result.output)

/-- What the next stage of a worker comes to: it stays as it was, fails, goes on, or writes its
output. -/
inductive Works (worker : Worker) (system : FileSystem) : Worker → FileSystem → Prop
  | failed {result : Result} (failure : Failure) :
      result.file = worker.result.file →
      result.output = worker.result.output →
      Works worker system (worker.fail result failure) system
  | loaded {program : Program} :
      worker.progress = .queued →
      readProgram system worker.result.file = .ok program →
      Works worker system
        { result := { worker.result with stages := [.load] }, progress := .loaded program } system
  | generated {program : Program} {assembly : Assembly} :
      worker.progress = .loaded program →
      (Lowering.outcome program).result = .ok assembly →
      Works worker system
        { result :=
            { worker.result with
              stages := [.load, .generate]
              lowered := some (Lowering.outcome program) }
          progress := .generated assembly } system
  | written {assembly : Assembly} {systemAfter : FileSystem} :
      worker.progress = .generated assembly →
      system.replaceFile worker.result.output assembly.save = .ok systemAfter →
      Works worker system
        { result := { worker.result with stages := [.load, .generate, .write] }
          progress := .finished } systemAfter

theorem works_of_work (unfinished : worker.progress ≠ .finished) :
    worker.Works system (worker.work system).1 (worker.work system).2 := by
  obtain ⟨result, progress⟩ := worker
  cases progress with
  | finished => exact absurd rfl unfinished
  | queued =>
    simp only [work]
    cases read : readProgram system result.file with
    | error error => exact .failed _ rfl rfl
    | ok program => exact .loaded rfl read
  | loaded program =>
    simp only [work]
    cases lowered : (Lowering.outcome program).result with
    | error error => exact .failed _ rfl rfl
    | ok assembly => exact .generated rfl lowered
  | generated assembly =>
    simp only [work]
    delta writeStage
    dsimp only
    cases replaced : system.replaceFile result.output assembly.save with
    | error error =>
      let written := { result with stages := [.load, .generate, .write] }
      change Works _ system (fail ⟨result, .generated assembly⟩ written _) system
      exact .failed (.write result.output error) rfl rfl
    | ok systemAfter => exact .written rfl replaced

theorem Works.paths_eq (works : worker.Works system after systemAfter) :
    after.paths = worker.paths := by
  cases works with
  | failed _ file output => exact Prod.ext file output
  | loaded _ _ => rfl
  | generated _ _ => rfl
  | written _ _ => rfl

theorem Works.follows (works : worker.Works system after systemAfter)
    (follows : worker.Follows source) (reads : ∀ program, worker.progress = .queued →
      readProgram system worker.result.file = .ok program → source program) :
    after.Follows source := by
  unfold Follows at follows
  cases works with
  | failed failure _ _ =>
    intro succeeds
    cases succeeds
  | loaded queued read =>
    rw [queued] at follows
    exact ⟨follows, reads _ queued read⟩
  | generated loaded lowered =>
    rw [loaded] at follows
    exact ⟨follows.1, _, follows.2, lowered, rfl⟩
  | written generated _ =>
    rw [generated] at follows
    obtain ⟨_, program, isSource, lowered, outcome⟩ := follows
    exact fun _ => ⟨program, _, isSource, lowered, outcome⟩

theorem Works.wrote (works : worker.Works system after systemAfter)
    (follows : worker.Follows source) :
    (systemAfter = system ∧ ∀ assembly, ¬ after.Built assembly) ∨
      ∃ assembly, after.Built assembly ∧
        system.replaceFile worker.result.output assembly.save = .ok systemAfter := by
  unfold Follows at follows
  cases works with
  | failed failure _ _ =>
    refine .inl ⟨rfl, fun assembly built => ?_⟩
    cases built.2.1
  | loaded _ _ => exact .inl ⟨rfl, fun assembly built => by cases built.1⟩
  | generated _ _ => exact .inl ⟨rfl, fun assembly built => by cases built.1⟩
  | written generated replaced =>
    rw [generated] at follows
    obtain ⟨succeeds, program, _, lowered, outcome⟩ := follows
    exact .inr ⟨_, ⟨rfl, succeeds, _, outcome, lowered⟩, replaced⟩

theorem Follows.built {assembly : Assembly} (follows : worker.Follows source)
    (built : worker.Built assembly) :
    ∃ program, source program ∧ (Lowering.outcome program).result = .ok assembly := by
  obtain ⟨finished, succeeds, outcome, lowered, result⟩ := built
  unfold Follows at follows
  rw [finished] at follows
  obtain ⟨program, other, isSource, gives, same⟩ := follows succeeds
  rw [lowered] at same
  cases same
  exact ⟨program, isSource, result⟩

theorem Follows.exists_built (follows : worker.Follows source)
    (finished : worker.progress = .finished) (succeeds : worker.result.failure = none) :
    ∃ assembly, worker.Built assembly := by
  unfold Follows at follows
  rw [finished] at follows
  obtain ⟨program, assembly, _, gives, lowered⟩ := follows succeeds
  exact ⟨assembly, finished, succeeds, _, lowered, gives⟩

end Worker

/-! ## Where outputs lie -/

section Places

variable {system : FileSystem} {file other directory : Bytes} {place : Location}

/-- If an output lies where the file of another program is, the output of that file lies there
too. -/
theorem output_shared (sound : system.Sound) (located : system.locate file = .ok place)
    (isFile : system.lookup? place ≠ some .directory)
    (output : system.locate (outputPath other directory) = .ok place) :
    system.locate (outputPath file directory) = .ok place := by
  obtain ⟨before, name, names⟩ := Path.exists_names file
  obtain ⟨otherBefore, otherName, otherNames⟩ := Path.exists_names other
  obtain ⟨stem, rfl⟩ := otherNames.exists_stem
  obtain ⟨above, _, _, rfl⟩ := sound.locate_file names located isFile
  obtain ⟨otherAbove, _, same⟩ := FileSystem.locate_plain (Path.names_outputPath otherNames)
    (Path.isPlain_assembly otherNames.noSlash_stem) output
  obtain ⟨-, named⟩ := List.append_inj' same rfl
  cases named
  have extension : Path.extension file = assemblyExtension :=
    names.extension_eq Path.toList_assemblyExtension (by decide)
  have output_eq : outputPath file directory = _ := Path.outputPath_eq (extension ▸ names)
  rw [output_eq]
  unfold Path.outputPrefix
  split
  · rw [← names.whole]
    exact located
  · next given =>
    rw [Path.outputPath_eq otherNames, Path.outputPrefix, if_neg given] at output
    exact output

theorem toList_programExtension : Bytes.toList programExtension = [46, 110, 118, 112] := by
  decide

theorem output_apart (sound : system.Sound) (isProgram : Path.extension file = programExtension)
    (located : system.locate file = .ok place) (isFile : system.lookup? place ≠ some .directory) :
    system.locate (outputPath other directory) ≠ .ok place := by
  intro output
  obtain ⟨before, name, names⟩ := Path.exists_names file
  obtain ⟨stem, rfl⟩ := names.exists_stem
  obtain ⟨otherBefore, otherName, otherNames⟩ := Path.exists_names other
  obtain ⟨otherStem, rfl⟩ := otherNames.exists_stem
  obtain ⟨above, _, _, rfl⟩ := sound.locate_file names located isFile
  obtain ⟨otherAbove, _, same⟩ := FileSystem.locate_plain (Path.names_outputPath otherNames)
    (Path.isPlain_assembly otherNames.noSlash_stem) output
  obtain ⟨-, named⟩ := List.append_inj' same rfl
  have endings := congrArg Bytes.toList (List.singleton_inj.1 named)
  rw [isProgram, Bytes.toList_append, Bytes.toList_append, toList_programExtension,
    Path.toList_assemblyExtension] at endings
  exact absurd (List.append_inj' endings rfl).2 (by decide)

theorem same_file (sound : system.Sound) {otherPlace output : Location}
    (isProgram : Path.extension file = programExtension)
    (otherIsProgram : Path.extension other = programExtension)
    (located : system.locate file = .ok place) (isFile : system.lookup? place ≠ some .directory)
    (otherLocated : system.locate other = .ok otherPlace)
    (otherIsFile : system.lookup? otherPlace ≠ some .directory) (beside : directory.isEmpty = true)
    (outputs : system.locate (outputPath file directory) = .ok output)
    (otherOutputs : system.locate (outputPath other directory) = .ok output) :
    place = otherPlace := by
  obtain ⟨before, name, names⟩ := Path.exists_names file
  obtain ⟨stem, rfl⟩ := names.exists_stem
  obtain ⟨otherBefore, otherName, otherNames⟩ := Path.exists_names other
  obtain ⟨otherStem, rfl⟩ := otherNames.exists_stem
  obtain ⟨above, found, _, rfl⟩ := sound.locate_file names located isFile
  obtain ⟨otherAbove, otherFound, _, rfl⟩ :=
    sound.locate_file otherNames otherLocated otherIsFile
  obtain ⟨_, outputFound, rfl⟩ := FileSystem.locate_plain (Path.names_outputPath names)
    (Path.isPlain_assembly names.noSlash_stem) outputs
  obtain ⟨_, otherOutputFound, same⟩ := FileSystem.locate_plain (Path.names_outputPath otherNames)
    (Path.isPlain_assembly otherNames.noSlash_stem) otherOutputs
  rw [Path.outputPrefix, if_pos beside, found] at outputFound
  rw [Path.outputPrefix, if_pos beside, otherFound] at otherOutputFound
  cases outputFound
  cases otherOutputFound
  obtain ⟨rfl, named⟩ := List.append_inj' same rfl
  have stems := congrArg Bytes.toList (List.singleton_inj.1 named)
  rw [Bytes.toList_append, Bytes.toList_append] at stems
  have stem : stem = otherStem := Bytes.toList_injective (List.append_inj' stems rfl).1
  rw [isProgram, otherIsProgram, stem]

end Places

/-! ## All workers -/

namespace Site

variable {begun site after : Site} {position : Nat} {worker : Worker} {assembly : Assembly}

theorem step_cases {step : Step} (steps : site.step step = some after) :
    after = { site with cancelled := true } ∨
      ∃ position worker next system,
        site.workers[position]? = some worker ∧ worker.progress ≠ .finished ∧
          worker.Works site.system next system ∧
          after = site.become position next system := by
  cases step with
  | cancel =>
    cases steps
    exact .inl rfl
  | work position =>
    unfold Site.step at steps
    cases found : site.workers[position]? with
    | none => simp [found] at steps
    | some worker =>
      simp only [found] at steps
      split at steps
      · next permits =>
        have unfinished : worker.progress ≠ .finished := by
          intro finished
          simp [Site.permits, finished] at permits
        cases steps
        refine .inr ⟨position, worker, _, _, found, unfinished, ?_, rfl⟩
        split
        · exact .failed .cancelled rfl rfl
        · exact Worker.works_of_work unfinished
      · cases steps

/-- The contents of a place are the assembly that a worker built whose output lies there. -/
def Wrote (begun site : Site) (place : Location) : Prop :=
  ∃ (position : Nat) (worker : Worker) (assembly : Assembly),
    site.workers[position]? = some worker ∧ worker.Built assembly ∧
      begun.system.locate worker.result.output = .ok place ∧
      site.system.held? place = some assembly.save

/-- No other output lies where the file at a position is. -/
def Undisturbed (begun : Site) (position : Nat) : Prop :=
  ∀ worker, begun.workers[position]? = some worker →
    ∀ other otherWorker, other ≠ position → begun.workers[other]? = some otherWorker →
      ∀ place, begun.system.locate worker.result.file = .ok place →
        begun.system.locate otherWorker.result.output ≠ .ok place

/-- What every step of a build keeps. -/
structure Kept (begun site : Site) : Prop where
  sound : site.system.Sound
  located : ∀ path place,
    site.system.locate path = .ok place ↔ begun.system.locate path = .ok place
  names : site.workers.map Worker.paths = begun.workers.map Worker.paths
  /-- A place holds what it held at first, or what was built for it. -/
  held : ∀ place, site.system.held? place = begun.system.held? place ∨ begun.Wrote site place
  written : ∀ (position : Nat) worker assembly, site.workers[position]? = some worker →
    worker.Built assembly →
      ∃ place, begun.system.locate worker.result.output = .ok place ∧ begun.Wrote site place
  /-- A file that no other output replaces is read as it was at first. -/
  follows : ∀ (position : Nat) worker, site.workers[position]? = some worker →
    worker.Follows fun program => begun.Undisturbed position →
      readProgram begun.system worker.result.file = .ok program

theorem Kept.refl (sound : begun.system.Sound) (fresh : ∀ worker ∈ begun.workers,
      worker.progress = .queued ∧ worker.result.failure = none) : begun.Kept begun where
  sound := sound
  located _ _ := Iff.rfl
  names := rfl
  held _ := .inl rfl
  written position worker assembly found built := by
    have queued := (fresh worker (List.mem_of_getElem? found)).1
    rw [built.1] at queued
    cases queued
  follows position worker found := by
    obtain ⟨queued, none⟩ := fresh worker (List.mem_of_getElem? found)
    unfold Worker.Follows
    rw [queued]
    exact none

theorem Kept.paths_at (kept : begun.Kept site) (position : Nat) :
    site.workers[position]?.map Worker.paths = begun.workers[position]?.map Worker.paths := by
  have same := congrArg (fun names => names[position]?) kept.names
  simpa only [List.getElem?_map] using same

theorem Kept.begun_worker (kept : begun.Kept site) (found : site.workers[position]? = some worker) :
    ∃ first, begun.workers[position]? = some first ∧
      first.result.file = worker.result.file ∧ first.result.output = worker.result.output := by
  have same := kept.paths_at position
  rw [found] at same
  obtain ⟨first, isThere, equal⟩ := Option.map_eq_some_iff.1 same.symm
  exact ⟨first, isThere, congrArg Prod.fst equal, congrArg Prod.snd equal⟩

theorem Kept.site_worker (kept : begun.Kept site) (found : begun.workers[position]? = some worker) :
    ∃ later, site.workers[position]? = some later ∧
      later.result.file = worker.result.file ∧ later.result.output = worker.result.output := by
  have same := kept.paths_at position
  rw [found] at same
  obtain ⟨later, isThere, equal⟩ := Option.map_eq_some_iff.1 same
  exact ⟨later, isThere, congrArg Prod.fst equal, congrArg Prod.snd equal⟩

/-- A file is read as it was at first if no other output lies where it is. -/
theorem Kept.reads (kept : begun.Kept site) (found : site.workers[position]? = some worker)
    (unfinished : worker.progress ≠ .finished) (undisturbed : begun.Undisturbed position)
    {program : Program} (read : readProgram site.system worker.result.file = .ok program) :
    readProgram begun.system worker.result.file = .ok program := by
  obtain ⟨place, data, located, holds, loads⟩ := readProgram_eq_ok.1 read
  have begunLocated := (kept.located _ _).1 located
  rcases kept.held place with same | ⟨other, builder, assembly, builderFound, built, output, _⟩
  · exact readProgram_eq_ok.2 ⟨place, data, begunLocated, same ▸ holds, loads⟩
  · obtain ⟨first, firstFound, file, _⟩ := kept.begun_worker found
    obtain ⟨second, secondFound, _, secondOutput⟩ := kept.begun_worker builderFound
    have apart : other ≠ position := by
      rintro rfl
      rw [found] at builderFound
      cases builderFound
      exact unfinished built.1
    exact absurd (secondOutput ▸ output)
      (undisturbed first firstFound other second apart secondFound place (file ▸ begunLocated))

section Steps

variable {next : Worker} {system : FileSystem}

theorem become_cases {other : Nat} {builder : Worker}
    (found : (site.become position next system).workers[other]? = some builder) :
    builder = next ∧ other = position ∨
      site.workers[other]? = some builder ∧ other ≠ position := by
  change (site.workers.set position next)[other]? = some builder at found
  by_cases same : position = other
  · subst same
    obtain ⟨bound, isNext⟩ := List.getElem?_eq_some_iff.1 found
    rw [List.getElem_set_self] at isNext
    exact .inl ⟨isNext.symm, rfl⟩
  · rw [List.getElem?_set_ne same] at found
    exact .inr ⟨found, Ne.symm same⟩

/-- What was built for a place stays built while the workers go on. -/
theorem Wrote.become {place : Location} (wrote : begun.Wrote site place)
    (found : site.workers[position]? = some worker) (unfinished : worker.progress ≠ .finished)
    (same : system.held? place = site.system.held? place) :
    begun.Wrote (site.become position next system) place := by
  obtain ⟨other, builder, assembly, builderFound, built, output, holds⟩ := wrote
  have apart : position ≠ other := by
    rintro rfl
    rw [found] at builderFound
    cases builderFound
    exact unfinished built.1
  exact ⟨other, builder, assembly, (List.getElem?_set_ne apart).trans builderFound, built, output,
    same.trans holds⟩

theorem Kept.names_become (kept : begun.Kept site) (found : site.workers[position]? = some worker)
    (paths : next.paths = worker.paths) :
    (site.become position next system).workers.map Worker.paths =
      begun.workers.map Worker.paths := by
  obtain ⟨bound, isWorker⟩ := List.getElem?_eq_some_iff.1 found
  have mapped : position < (site.workers.map Worker.paths).length := by rwa [List.length_map]
  have isThere : (site.workers.map Worker.paths)[position] = worker.paths := by
    rw [List.getElem_map, isWorker]
  change (site.workers.set position next).map Worker.paths = _
  rw [List.map_set, paths, ← kept.names, ← isThere, List.set_getElem_self]

theorem Kept.follows_become (kept : begun.Kept site)
    (found : site.workers[position]? = some worker) (unfinished : worker.progress ≠ .finished)
    (works : worker.Works site.system next system) {other : Nat} {builder : Worker}
    (builderFound : (site.become position next system).workers[other]? = some builder) :
    builder.Follows fun program => begun.Undisturbed other →
      readProgram begun.system builder.result.file = .ok program := by
  rcases become_cases builderFound with ⟨rfl, rfl⟩ | ⟨builderFound, _⟩
  · have file : builder.result.file = worker.result.file := congrArg Prod.fst works.paths_eq
    rw [file]
    exact works.follows (kept.follows other worker found) fun program _ read undisturbed =>
      kept.reads found unfinished undisturbed read
  · exact kept.follows other builder builderFound

theorem Kept.become_unwritten (kept : begun.Kept site)
    (found : site.workers[position]? = some worker) (unfinished : worker.progress ≠ .finished)
    (works : worker.Works site.system next site.system)
    (nothing : ∀ assembly, ¬ next.Built assembly) :
    begun.Kept (site.become position next site.system) where
  sound := kept.sound
  located := kept.located
  names := kept.names_become found works.paths_eq
  held place := (kept.held place).imp_right fun wrote => wrote.become found unfinished rfl
  written other builder assembly builderFound built := by
    rcases become_cases builderFound with ⟨rfl, _⟩ | ⟨builderFound, _⟩
    · exact absurd built (nothing assembly)
    · obtain ⟨place, output, wrote⟩ := kept.written other builder assembly builderFound built
      exact ⟨place, output, wrote.become found unfinished rfl⟩
  follows _ _ := kept.follows_become found unfinished works

theorem Kept.become_written (kept : begun.Kept site)
    (found : site.workers[position]? = some worker) (unfinished : worker.progress ≠ .finished)
    (works : worker.Works site.system next system) (built : next.Built assembly)
    (replaced : site.system.replaceFile worker.result.output assembly.save = .ok system) :
    begun.Kept (site.become position next system) := by
  have sound := kept.sound.replaceFile replaced
  obtain ⟨place, located, free, rfl⟩ := FileSystem.replaceFile_eq_ok replaced
  have present : place ≠ [] := by
    rintro rfl
    exact free (FileSystem.lookup?_nil _)
  have contents := fun other =>
    FileSystem.Sound.held?_addFile kept.sound assembly.save other present
  have sameOutput : next.result.output = worker.result.output := congrArg Prod.snd works.paths_eq
  have output : begun.system.locate next.result.output = .ok place := by
    rw [sameOutput]
    exact (kept.located _ _).1 located
  let reached : Site := site.become position next (site.system.addFile place assembly.save).2
  have wroteHere : begun.Wrote reached place :=
    ⟨position, next, assembly, worker_become found _ _, built, output,
      (contents place).trans (if_pos rfl)⟩
  have wroteStill : ∀ other, begun.Wrote site other → begun.Wrote reached other := by
    intro other wrote
    by_cases same : other = place
    · exact same ▸ wroteHere
    · exact wrote.become found unfinished ((contents other).trans (if_neg same))
  refine ⟨sound, ?_, kept.names_become found works.paths_eq, ?_, ?_, fun _ _ =>
    kept.follows_become found unfinished works⟩
  · intro path other
    exact (FileSystem.locate_addFile _ free).trans (kept.located path other)
  · intro other
    by_cases same : other = place
    · rw [same]
      exact .inr wroteHere
    · refine (kept.held other).imp ?_ (wroteStill other)
      exact ((contents other).trans (if_neg same)).trans
  · intro other builder otherAssembly builderFound otherBuilt
    rcases become_cases builderFound with ⟨rfl, _⟩ | ⟨builderFound, _⟩
    · exact ⟨place, output, wroteHere⟩
    · obtain ⟨otherPlace, otherOutput, wrote⟩ :=
        kept.written other builder otherAssembly builderFound otherBuilt
      exact ⟨otherPlace, otherOutput, wroteStill otherPlace wrote⟩

end Steps

theorem Kept.step (kept : begun.Kept site) {step : Step} (steps : site.step step = some after) :
    begun.Kept after := by
  obtain rfl | ⟨position, worker, next, system, found, unfinished, works, rfl⟩ := step_cases steps
  · exact ⟨kept.sound, kept.located, kept.names, kept.held, kept.written, kept.follows⟩
  · rcases works.wrote (kept.follows position worker found) with
      ⟨rfl, nothing⟩ | ⟨assembly, built, replaced⟩
    · exact kept.become_unwritten found unfinished works nothing
    · exact kept.become_written found unfinished works built replaced

theorem Kept.run {steps : List Step} (kept : begun.Kept site) (runs : site.run steps = some after) :
    begun.Kept after := by
  induction steps generalizing site with
  | nil =>
    cases runs
    exact kept
  | cons step steps ih =>
    unfold Site.run at runs
    rw [List.foldlM_cons] at runs
    obtain ⟨next, steps, runs⟩ := Option.bind_eq_some_iff.1 runs
    exact ih (kept.step steps) runs

/-! ## Builds in which every file succeeds -/

def Succeeds (site : Site) : Prop :=
  ∀ worker ∈ site.workers, worker.progress = .finished ∧ worker.result.failure = none

theorem Kept.built (kept : begun.Kept site) (succeeds : site.Succeeds)
    (found : site.workers[position]? = some worker) : ∃ assembly, worker.Built assembly := by
  obtain ⟨finished, none⟩ := succeeds worker (List.mem_of_getElem? found)
  exact (kept.follows position worker found).exists_built finished none

/-- A file that lies where no other output does gives what was built from it. -/
theorem Kept.gives (kept : begun.Kept site) (undisturbed : begun.Undisturbed position)
    (found : site.workers[position]? = some worker) (built : worker.Built assembly) :
    Gives begun.system worker.result.file assembly := by
  obtain ⟨program, read, gives⟩ := (kept.follows position worker found).built built
  exact ⟨program, read undisturbed, gives⟩

/-- To see that no other output lies where a file is, only places of files need to be looked at. -/
theorem Kept.undisturbed (kept : begun.Kept site) (succeeds : site.Succeeds)
    (found : site.workers[position]? = some worker)
    (apart : ∀ (other : Nat) otherWorker place, other ≠ position →
      site.workers[other]? = some otherWorker →
      site.system.lookup? place ≠ some .directory →
      site.system.locate worker.result.file = .ok place →
        site.system.locate otherWorker.result.output ≠ .ok place) : begun.Undisturbed position := by
  intro first firstFound other second otherPosition secondFound place located output
  obtain ⟨again, againFound, file, _⟩ := kept.site_worker firstFound
  rw [found] at againFound
  cases againFound
  obtain ⟨otherWorker, otherFound, _, otherOutput⟩ := kept.site_worker secondFound
  rw [← otherOutput] at output
  rw [← file] at located
  obtain ⟨assembly, built⟩ := kept.built succeeds otherFound
  obtain ⟨otherPlace, otherLocated, _, _, _, _, _, _, holds⟩ :=
    kept.written other otherWorker assembly otherFound built
  rw [output] at otherLocated
  cases otherLocated
  exact apart other otherWorker place otherPosition otherFound (FileSystem.lookup?_of_held? holds)
    ((kept.located _ _).2 located) ((kept.located _ _).2 output)

theorem Kept.output_written (kept : begun.Kept site) (succeeds : site.Succeeds)
    (found : site.workers[position]? = some worker) :
    ∃ place, begun.system.locate worker.result.output = .ok place ∧ begun.Wrote site place := by
  obtain ⟨assembly, built⟩ := kept.built succeeds found
  exact kept.written position worker assembly found built

/-- An output at a place of its own holds what the file gave. -/
theorem Kept.yields_alone {directory : Bytes} (kept : begun.Kept site) (succeeds : site.Succeeds)
    (outputs : ∀ worker ∈ site.workers,
      worker.result.output = outputPath worker.result.file directory)
    (found : site.workers[position]? = some worker)
    (alone : ∀ (other : Nat) otherWorker, other ≠ position →
      site.workers[other]? = some otherWorker →
        begun.system.locate otherWorker.result.output ≠
          begun.system.locate worker.result.output) :
    Yields begun.system site.system worker.result.file worker.result.output := by
  obtain ⟨place, output, other, builder, assembly, builderFound, built, builderOutput, holds⟩ :=
    kept.output_written succeeds found
  have same : other = position := by
    by_contra apart
    exact alone other builder apart builderFound (builderOutput.trans output.symm)
  subst same
  rw [found] at builderFound
  cases builderFound
  have undisturbed : begun.Undisturbed other := by
    refine kept.undisturbed succeeds found ?_
    intro another otherWorker filePlace apart otherFound isFile fileLocated otherOutput
    -- An output that replaced the file would lie where the output of the file does.
    refine alone another otherWorker apart otherFound ?_
    rw [outputs otherWorker (List.mem_of_getElem? otherFound)] at otherOutput ⊢
    have shared := output_shared kept.sound fileLocated isFile otherOutput
    rw [← outputs worker (List.mem_of_getElem? found)] at shared
    rw [(kept.located _ _).1 otherOutput, (kept.located _ _).1 shared]
  exact ⟨assembly, kept.gives undisturbed found built,
    FileSystem.read_eq_ok.2 ⟨place, (kept.located _ _).2 output, holds⟩⟩

theorem Kept.yields_beside {directory : Bytes} (kept : begun.Kept site)
    (begunSound : begun.system.Sound) (succeeds : site.Succeeds) (outputs : ∀ worker ∈ site.workers,
      worker.result.output = outputPath worker.result.file directory)
    (beside : directory.isEmpty = true)
    (programs : ∀ worker ∈ site.workers, Path.extension worker.result.file = programExtension)
    (found : site.workers[position]? = some worker) :
    Yields begun.system site.system worker.result.file worker.result.output := by
  have undisturbed : ∀ (other : Nat) builder, site.workers[other]? = some builder →
      begun.Undisturbed other := by
    intro other builder builderFound
    refine kept.undisturbed succeeds builderFound ?_
    intro another otherWorker filePlace _ otherFound isFile fileLocated
    rw [outputs otherWorker (List.mem_of_getElem? otherFound)]
    exact output_apart kept.sound (programs builder (List.mem_of_getElem? builderFound))
      fileLocated isFile
  obtain ⟨place, output, other, builder, assembly, builderFound, built, builderOutput, holds⟩ :=
    kept.output_written succeeds found
  obtain ⟨program, read, gives⟩ :=
    kept.gives (undisturbed other builder builderFound) builderFound built
  obtain ⟨ownAssembly, ownBuilt⟩ := kept.built succeeds found
  obtain ⟨ownProgram, ownRead, ownGives⟩ :=
    kept.gives (undisturbed position worker found) found ownBuilt
  obtain ⟨filePlace, data, fileLocated, fileHolds, loads⟩ := readProgram_eq_ok.1 read
  obtain ⟨ownPlace, ownData, ownLocated, ownHolds, ownLoads⟩ := readProgram_eq_ok.1 ownRead
  have present := List.mem_of_getElem? found
  have builderPresent := List.mem_of_getElem? builderFound
  rw [outputs worker present] at output
  rw [outputs builder builderPresent] at builderOutput
  have samePlace : filePlace = ownPlace :=
    same_file begunSound (programs builder builderPresent) (programs worker present) fileLocated
      (FileSystem.lookup?_of_held? fileHolds) ownLocated (FileSystem.lookup?_of_held? ownHolds)
      beside builderOutput output
  subst samePlace
  rw [fileHolds] at ownHolds
  cases ownHolds
  rw [loads] at ownLoads
  cases ownLoads
  refine ⟨assembly, ⟨program, ownRead, gives⟩, FileSystem.read_eq_ok.2 ⟨place, ?_, holds⟩⟩
  rw [outputs worker present]
  exact (kept.located _ _).2 output

theorem start_eq_ok {request : Request} {jobs : Nat} {system : FileSystem}
    (starts : Site.start request jobs system = .ok begun) (sound : system.Sound) :
    begun.system.Sound ∧ begun.workers = request.files.map (Worker.queue request) := by
  rw [start_eq] at starts
  cases prepared : prepare request system with
  | error error =>
    rw [prepared] at starts
    cases starts
  | ok ready =>
    rw [prepared] at starts
    cases starts
    refine ⟨?_, rfl⟩
    unfold prepare at prepared
    split at prepared
    · cases prepared
      exact sound
    · exact sound.makeDirectoriesWith _ prepared

theorem Kept.start {request : Request} {jobs : Nat} {system : FileSystem}
    (starts : Site.start request jobs system = .ok begun) (sound : system.Sound) :
    begun.Kept begun := by
  obtain ⟨begunSound, workers⟩ := start_eq_ok starts sound
  refine Kept.refl begunSound fun worker present => ?_
  rw [workers] at present
  obtain ⟨file, _, rfl⟩ := List.mem_map.1 present
  exact ⟨rfl, rfl⟩

section Requests

variable {request : Request} {jobs : Nat} {system : FileSystem} {file : Bytes}

theorem Kept.requested (kept : begun.Kept site)
    (starts : Site.start request jobs system = .ok begun) (sound : system.Sound)
    (found : site.workers[position]? = some worker) :
    request.files[position]? = some worker.result.file ∧
      worker.result.output = outputPath worker.result.file request.directory := by
  obtain ⟨first, firstFound, sameFile, sameOutput⟩ := kept.begun_worker found
  rw [(start_eq_ok starts sound).2, List.getElem?_map] at firstFound
  obtain ⟨file, isThere, rfl⟩ := Option.map_eq_some_iff.1 firstFound
  cases sameFile
  exact ⟨isThere, sameOutput.symm⟩

theorem Kept.exists_worker (kept : begun.Kept site)
    (starts : Site.start request jobs system = .ok begun) (sound : system.Sound)
    (requested : request.files[position]? = some file) :
    ∃ worker, site.workers[position]? = some worker ∧ worker.result.file = file := by
  have isThere : begun.workers[position]? = some (Worker.queue request file) := by
    rw [(start_eq_ok starts sound).2, List.getElem?_map, requested]
    rfl
  obtain ⟨worker, found, sameFile, _⟩ := kept.site_worker isThere
  exact ⟨worker, found, sameFile⟩

/-- What the outputs hold once every file was built, in whatever order the workers went on: each
holds an assembly that was built for the same place. Where no other output lies at that place, it is
the assembly that the file itself gave; so it is for every file if program files are built beside
themselves. -/
theorem outputs_kept {begun after : Site} {steps : List Step} (sound : system.Sound)
    (starts : Site.start request jobs system = .ok begun) (runs : begun.run steps = some after)
    (succeeds : after.Succeeds) (requested : request.files[position]? = some file) :
    let output := outputPath file request.directory
    (∃ (other : Nat) (builder : Worker) (assembly : Assembly),
      after.workers[other]? = some builder ∧ builder.Built assembly ∧
        begun.system.locate builder.result.output = begun.system.locate output ∧
        after.system.read output = .ok assembly.save) ∧
    ((∀ (other : Nat) (otherFile : Bytes), other ≠ position →
      request.files[other]? = some otherFile →
        begun.system.locate (outputPath otherFile request.directory) ≠
          begun.system.locate output) →
      Yields begun.system after.system file output) ∧
    (request.directory.isEmpty = true →
      (∀ program ∈ request.files, Path.extension program = programExtension) →
        Yields begun.system after.system file output) := by
  have kept := (Kept.start starts sound).run runs
  obtain ⟨worker, found, rfl⟩ := kept.exists_worker starts sound requested
  have outputs : ∀ worker ∈ after.workers,
      worker.result.output = outputPath worker.result.file request.directory := by
    intro worker present
    obtain ⟨other, found⟩ := List.mem_iff_getElem?.1 present
    exact (kept.requested starts sound found).2
  dsimp only
  rw [← outputs worker (List.mem_of_getElem? found)]
  refine ⟨?_, ?_, ?_⟩
  · obtain ⟨place, output, other, builder, assembly, builderFound, built, builderOutput, holds⟩ :=
      kept.output_written succeeds found
    exact ⟨other, builder, assembly, builderFound, built, builderOutput.trans output.symm,
      FileSystem.read_eq_ok.2 ⟨place, (kept.located _ _).2 output, holds⟩⟩
  · intro alone
    refine kept.yields_alone succeeds outputs found fun other otherWorker apart otherFound => ?_
    obtain ⟨otherRequested, otherOutput⟩ := kept.requested starts sound otherFound
    rw [otherOutput]
    exact alone other otherWorker.result.file apart otherRequested
  · intro beside programs
    refine kept.yields_beside (start_eq_ok starts sound).1 succeeds outputs beside ?_ found
    intro otherWorker present
    obtain ⟨other, otherFound⟩ := List.mem_iff_getElem?.1 present
    exact programs _ (List.mem_of_getElem? (kept.requested starts sound otherFound).1)

end Requests

end Site

/-! ## Programs named alike -/

/-- The file of the program whose only statement is a float. -/
def floatFile (bits : UInt32) : Bytes :=
  match (Lowering.floatProgram bits).save with
  | .ok data => data
  | .error _ => ByteArray.empty

def floatAssembly (bits : UInt32) : Assembly where
  code := Lowering.floatBytes bits
  literals := #[]
  entries := #[0]

theorem load_floatFile (settled : Program.settledSingle bits = bits)
    (short : ((Lowering.floatProgram bits).contents.toOption.any fun file =>
      file.toValue.render.length < 4294967296) = true) :
    ∃ loaded, Program.load (floatFile bits) = .ok loaded ∧
      (Lowering.outcome loaded).result = .ok (floatAssembly bits) := by
  obtain ⟨data, saved, small⟩ := Lowering.save_floatProgram short
  have storable := Lowering.isStorable_of_generate
    (Lowering.built_floatProgram bits).hasDeclaredTables (fun _ none => nomatch none)
    (Lowering.generate_floatProgram bits)
  obtain ⟨loaded, loads, same⟩ := Program.load_save storable saved small
  rw [Lowering.settled_floatProgram, settled] at same
  refine ⟨loaded, ?_, (Lowering.generate_eq same).symm.trans (Lowering.generate_floatProgram bits)⟩
  rw [floatFile, saved]
  exact loads

/-- Programs for a half and for two that are named alike in two directories. -/
def twins : FileSystem where
  workingDirectory := ["work"]
  entries :=
    [(["work"], .directory), (["work", "a"], .directory), (["work", "b"], .directory),
      (["work", "out"], .directory), (["work", "a", "x.nvp"], .file 1),
      (["work", "b", "x.nvp"], .file 2)]
  contents := #[ByteArray.empty, floatFile 0x3f000000, floatFile 0x40000000]

theorem sound_twins : twins.Sound := by
  refine .of_entries ?_ (by decide)
  intro location number present
  simp only [twins, List.mem_cons, Prod.mk.injEq, reduceCtorEq, and_false, List.not_mem_nil,
    or_false, false_or, Entry.file.injEq] at present
  change number < 3
  omega

theorem read_twins :
    twins.read "a/x.nvp" = .ok (floatFile 0x3f000000) ∧
      twins.read "b/x.nvp" = .ok (floatFile 0x40000000) := by
  have first : twins.locate "a/x.nvp" = .ok ["work", "a", "x.nvp"] := by decide
  have second : twins.locate "b/x.nvp" = .ok ["work", "b", "x.nvp"] := by decide
  have firstFound : twins.lookup? ["work", "a", "x.nvp"] = some (.file 1) := by decide
  have secondFound : twins.lookup? ["work", "b", "x.nvp"] = some (.file 2) := by decide
  exact ⟨FileSystem.read_of_lookup? first firstFound,
    FileSystem.read_of_lookup? second secondFound⟩

def twinFiles : List Bytes :=
  ["a/x.nvp", "b/x.nvp"]

theorem expand_eq {arguments files : List Bytes} {parts : List (List Bytes)}
    (named : arguments.mapM (expandOne system) = .ok parts) (once : parts.flatten.eraseDups = files)
    (present : files ≠ [])
    (ordered : files.Pairwise fun left right => (!Bytes.lt right left) = true) :
    expand system arguments = .ok files := by
  have filled : files.isEmpty = false := List.isEmpty_eq_false_iff.2 present
  have sorted : Bytes.sort files = files := List.mergeSort_of_pairwise ordered
  unfold expand
  rw [named]
  change (if (parts.flatten.eraseDups).isEmpty then _ else _) = _
  rw [once, filled, sorted]
  rfl

theorem expand_twins : expand twins ["a", "b"] = .ok twinFiles := by
  have named : [("a" : Bytes), "b"].mapM (expandOne twins) =
      .ok (twinFiles.map fun file => [file]) := by
    decide
  exact expand_eq named (by decide) (by decide) (by decide)

theorem gives_float (read : system.read file = .ok (floatFile bits))
    (settled : Program.settledSingle bits = bits)
    (short : ((Lowering.floatProgram bits).contents.toOption.any fun file =>
      file.toValue.render.length < 4294967296) = true) :
    Gives system file (floatAssembly bits) := by
  obtain ⟨loaded, loads, lowered⟩ := load_floatFile settled short
  obtain ⟨place, located, holds⟩ := FileSystem.read_eq_ok.1 read
  exact ⟨loaded, readProgram_eq_ok.2 ⟨place, _, located, holds, loads⟩, lowered⟩

theorem buildFile_float {request : Request} {after : FileSystem}
    (begins : request.cancelled = false) (read : system.read file = .ok (floatFile bits))
    (settled : Program.settledSingle bits = bits)
    (short : ((Lowering.floatProgram bits).contents.toOption.any fun file =>
      file.toValue.render.length < 4294967296) = true)
    (replaced : system.replaceFile (outputPath file request.directory) (floatAssembly bits).save =
      .ok after) :
    (buildFile request system file).1.failure = none ∧
      (buildFile request system file).2 = after := by
  obtain ⟨loaded, reads, lowered⟩ := gives_float read settled short
  rw [buildFile_lowered begins reads lowered]
  delta writeStage
  simp only [replaced, and_self]

/-- How a build of both succeeds. -/
theorem run_twins {directory : Bytes} {middle last : FileSystem}
    (prepared : prepare { files := twinFiles, directory } twins = .ok twins)
    (first : twins.replaceFile (outputPath "a/x.nvp" directory) (floatAssembly 0x3f000000).save =
      .ok middle)
    (unread : middle.read "b/x.nvp" = .ok (floatFile 0x40000000))
    (second : middle.replaceFile (outputPath "b/x.nvp" directory) (floatAssembly 0x40000000).save =
      .ok last) :
    ∃ begun steps after,
      Site.start { files := twinFiles, directory } 1 twins = .ok begun ∧ begun.system = twins ∧
        begun.run steps = some after ∧ after.Succeeds ∧ after.system = last := by
  let request : Request := { files := twinFiles, directory }
  have files : request.files = twinFiles := rfl
  obtain ⟨begun, steps, after, starts, system, runs, workers, final⟩ :=
    Site.run_build Nat.one_pos prepared
  obtain ⟨results, built⟩ := Site.run_eq_of_prepare prepared
  have begins : request.cancelled = false := rfl
  obtain ⟨firstSucceeds, firstLeaves⟩ := buildFile_float begins read_twins.1
    (by decide +kernel) (by decide +kernel) first
  obtain ⟨secondSucceeds, secondLeaves⟩ := buildFile_float begins unread
    (by decide +kernel) (by decide +kernel) second
  have whole : buildFiles request twins twinFiles =
      ([(buildFile request twins "a/x.nvp").1, (buildFile request middle "b/x.nvp").1], last) := by
    unfold twinFiles
    rw [buildFiles_cons, buildFiles_cons, firstLeaves, secondLeaves]
    rfl
  have succeed : ∀ result ∈ (run request twins).1.results, result.failure = none := by
    rw [results, files, whole]
    exact List.forall_mem_cons.2 ⟨firstSucceeds, List.forall_mem_singleton.2 secondSucceeds⟩
  refine ⟨begun, steps, after, starts, system, runs, ?_, ?_⟩
  · intro worker present
    rw [workers] at present
    obtain ⟨result, isThere, rfl⟩ := List.mem_map.1 present
    exact ⟨rfl, succeed result isThere⟩
  · rw [final, built, files, whole]

/-- Beside their programs, assemblies do not meet. -/
theorem outputs_kept_beside :
    ∃ begun steps after, twins.Sound ∧
      Site.start { files := twinFiles } 1 twins = .ok begun ∧ begun.run steps = some after ∧
        after.Succeeds ∧
        Yields begun.system after.system "a/x.nvp" "a/x.nva" ∧
        Yields begun.system after.system "b/x.nvp" "b/x.nva" := by
  let middle := (twins.addFile ["work", "a", "x.nva"] (floatAssembly 0x3f000000).save).2
  have firstOutput : outputPath "a/x.nvp" ByteArray.empty = "a/x.nva" := by decide
  have secondOutput : outputPath "b/x.nvp" ByteArray.empty = "b/x.nva" := by decide
  have first : twins.replaceFile "a/x.nva" (floatAssembly 0x3f000000).save = .ok middle :=
    FileSystem.replaceFile_of _ (by decide) (by decide) (by decide)
      (by decide)
  have located : middle.locate "b/x.nva" = .ok ["work", "b", "x.nva"] := by decide
  have second := FileSystem.replaceFile_of (floatAssembly 0x40000000).save
    (by decide) located (by decide) (by decide)
  have program : middle.locate "b/x.nvp" = .ok ["work", "b", "x.nvp"] := by decide
  have found : middle.lookup? ["work", "b", "x.nvp"] = some (.file 2) := by decide
  have unread : middle.read "b/x.nvp" = .ok (floatFile 0x40000000) :=
    FileSystem.read_of_lookup? program found
  obtain ⟨begun, steps, after, starts, _, runs, succeeds, _⟩ :=
    run_twins rfl (firstOutput ▸ first) unread (secondOutput ▸ second)
  have programs : ∀ program ∈ twinFiles, Path.extension program = programExtension := by
    decide
  have firstFile : twinFiles[0]? = some ("a/x.nvp" : Bytes) := rfl
  have secondFile : twinFiles[1]? = some ("b/x.nvp" : Bytes) := rfl
  have firstKept := Site.outputs_kept sound_twins starts runs succeeds firstFile
  have secondKept := Site.outputs_kept sound_twins starts runs succeeds secondFile
  refine ⟨begun, steps, after, sound_twins, starts, runs, succeeds, ?_, ?_⟩
  · exact firstOutput ▸ firstKept.2.2 rfl programs
  · exact secondOutput ▸ secondKept.2.2 rfl programs

/-- In one directory, the assembly of the second program takes the place of that of the first. -/
theorem outputs_lost :
    ¬∀ (system : FileSystem) (arguments : List Bytes) (request : Request) (jobs : Nat)
      (begun after : Site) (steps : List Site.Step), system.Sound →
        expand system arguments = .ok request.files →
        Site.start request jobs system = .ok begun → begun.run steps = some after →
        after.Succeeds → ∀ file ∈ request.files,
          Yields begun.system after.system file (outputPath file request.directory) := by
  intro promised
  let place : Location := ["work", "out", "x.nva"]
  let middle := (twins.addFile place (floatAssembly 0x3f000000).save).2
  let last := (middle.addFile place (floatAssembly 0x40000000).save).2
  have firstOutput : outputPath "a/x.nvp" "out" = "out/x.nva" := by decide
  have secondOutput : outputPath "b/x.nvp" "out" = "out/x.nva" := by decide
  have first : twins.replaceFile "out/x.nva" (floatAssembly 0x3f000000).save = .ok middle :=
    FileSystem.replaceFile_of _ (by decide) (by decide) (by decide)
      (by decide)
  have second : middle.replaceFile "out/x.nva" (floatAssembly 0x40000000).save = .ok last :=
    FileSystem.replaceFile_of _ (by decide) (by decide) (by decide)
      (by decide)
  have program : middle.locate "b/x.nvp" = .ok ["work", "b", "x.nvp"] := by decide
  have found : middle.lookup? ["work", "b", "x.nvp"] = some (.file 2) := by decide
  have unread : middle.read "b/x.nvp" = .ok (floatFile 0x40000000) :=
    FileSystem.read_of_lookup? program found
  have isThere : twins.stat "out" = .ok .directory := by decide
  have prepared : prepare { files := twinFiles, directory := "out" } twins = .ok twins :=
    FileSystem.makeDirectories_of_stat isThere
  obtain ⟨begun, steps, after, starts, begins, runs, succeeds, ends⟩ :=
    run_twins prepared (firstOutput ▸ first) unread (secondOutput ▸ second)
  obtain ⟨assembly, gives, holds⟩ :=
    promised twins ["a", "b"] _ 1 begun after steps sound_twins expand_twins starts runs succeeds
      "a/x.nvp" List.mem_cons_self
  have own : Gives twins "a/x.nvp" (floatAssembly 0x3f000000) :=
    gives_float read_twins.1 (by decide +kernel) (by decide +kernel)
  have located : last.locate "out/x.nva" = .ok place := by decide
  have isFile : last.lookup? place = some (.file 4) := by decide
  have other : last.read "out/x.nva" = .ok (floatAssembly 0x40000000).save :=
    FileSystem.read_of_lookup? located isFile
  rw [begins] at gives
  rw [ends, show outputPath "a/x.nvp" _ = _ from firstOutput, other] at holds
  have same : (floatAssembly 0x40000000).save = (floatAssembly 0x3f000000).save :=
    gives.unique own ▸ Except.ok.inj holds
  exact absurd same (by decide)

end WordMachine.Build
