import WordMachine.Build.Workers

/-!
A build of one file after the other is what workers do in one of the orders they can go on in.
-/

namespace WordMachine.Build

section Files

variable {request : Request} {system : FileSystem} {file : Bytes} {program : Program}

theorem buildFile_unread {error : ReadError} (begins : request.cancelled = false)
    (read : readProgram system file = .error error) :
    buildFile request system file =
      ({ file
         output := outputPath file request.directory
         failure := some (.read error)
         stages := [.load] }, system) := by
  simp [buildFile, begins, read]

theorem buildFile_unlowered {error : Lowering.Error} (begins : request.cancelled = false)
    (read : readProgram system file = .ok program)
    (lowered : (Lowering.outcome program).result = .error error) :
    buildFile request system file =
      ({ file
         output := outputPath file request.directory
         failure := some (.read (.lowering file error))
         stages := [.load, .generate]
         lowered := some (Lowering.outcome program) }, system) := by
  simp [buildFile, begins, read, lowered]

theorem buildFile_lowered {assembly : Assembly} (begins : request.cancelled = false)
    (read : readProgram system file = .ok program)
    (lowered : (Lowering.outcome program).result = .ok assembly) :
    buildFile request system file =
      writeStage system
        { file
          output := outputPath file request.directory
          lowered := some (Lowering.outcome program) } assembly := by
  simp [buildFile, begins, read, lowered]

theorem buildFiles_cons (request : Request) (system : FileSystem) (file : Bytes)
    (rest : List Bytes) :
    buildFiles request system (file :: rest) =
      ((buildFile request system file).1 ::
          (buildFiles request (buildFile request system file).2 rest).1,
        (buildFiles request (buildFile request system file).2 rest).2) := by
  simp only [buildFiles]

end Files

def Worker.queue (request : Request) (file : Bytes) : Worker :=
  { result := { file, output := outputPath file request.directory } }

def Worker.finish (result : Result) : Worker :=
  { result, progress := .finished }

theorem Worker.work_generated {worker : Worker} {assembly : Assembly}
    (generated : worker.progress = .generated assembly) (system : FileSystem) :
    worker.work system =
      (Worker.finish (writeStage system worker.result assembly).1,
        (writeStage system worker.result assembly).2) := by
  simp only [Worker.work, generated, Worker.finish]

theorem writeStage_stages (system : FileSystem) (result : Result) (stages : List Stage)
    (assembly : Assembly) :
    writeStage system { result with stages } assembly = writeStage system result assembly := by
  delta writeStage
  dsimp only

/-- Makes the directory for assemblies. -/
def prepare (request : Request) (system : FileSystem) : Except PathError FileSystem :=
  if request.directory.isEmpty then .ok system else system.makeDirectories request.directory

namespace Site

variable {request : Request} {site : Site} {position : Nat} {worker : Worker} {file : Bytes}
variable {system : FileSystem}

theorem start_eq (request : Request) (jobs : Nat) (system : FileSystem) :
    Site.start request jobs system = (prepare request system).map fun ready =>
      { system := ready
        workers := request.files.map (Worker.queue request)
        jobs
        cancelled := request.cancelled } :=
  rfl

def become (site : Site) (position : Nat) (worker : Worker) (system : FileSystem) : Site :=
  { site with system, workers := site.workers.set position worker }

theorem worker_become (found : site.workers[position]? = some worker) (next : Worker)
    (system : FileSystem) : (site.become position next system).workers[position]? = some next :=
  List.getElem?_set_self (List.getElem?_eq_some_iff.1 found).1

@[simp] theorem become_become (site : Site) (position : Nat) (first second : Worker)
    (system after : FileSystem) :
    (site.become position first system).become position second after =
      site.become position second after := by
  simp [become, List.set_set]

/-- A worker that is under way may go on in any case. -/
theorem permits_of_isBusy (site : Site) (busy : worker.isBusy = true) :
    site.permits worker = true := by
  unfold Worker.isBusy at busy
  unfold permits
  cases progress : worker.progress <;> simp_all

theorem step_work {next : Worker} (found : site.workers[position]? = some worker)
    (permits : site.permits worker = true) (begins : site.cancelled = false)
    (working : worker.work site.system = (next, system)) :
    site.step (.work position) = some (site.become position next system) := by
  unfold step
  simp [found, permits, begins, working, become]

theorem step_cancelled (found : site.workers[position]? = some worker)
    (permits : site.permits worker = true) (cancelled : site.cancelled = true) :
    site.step (.work position) =
      some (site.become position (worker.fail worker.result .cancelled) site.system) := by
  unfold step
  simp [found, permits, cancelled, become]

theorem run_cons {next : Site} {step : Step} (steps : List Step)
    (stepped : site.step step = some next) : site.run (step :: steps) = next.run steps := by
  unfold run
  rw [List.foldlM_cons, stepped]
  rfl

theorem run_append (site : Site) (first second : List Step) :
    site.run (first ++ second) = (site.run first).bind fun next => next.run second := by
  unfold run
  exact List.foldlM_append

/-- While no file is under way, a worker can take its file through all stages. -/
theorem run_file (found : site.workers[position]? = some (Worker.queue request file))
    (idle : site.workers.countP Worker.isBusy = 0) (positive : 0 < site.jobs)
    (same : site.cancelled = request.cancelled) :
    ∃ steps, site.run steps =
      some (site.become position (Worker.finish (buildFile request site.system file).1)
        (buildFile request site.system file).2) := by
  have permits : site.permits (Worker.queue request file) = true := by
    simpa [Site.permits, Worker.queue, idle] using positive
  cases cancelled : request.cancelled with
  | true =>
    have ends := step_cancelled found permits (same.trans cancelled)
    refine ⟨[.work position], (run_cons [] ends).trans ?_⟩
    rw [buildFile, if_pos cancelled]
    rfl
  | false =>
    have begins := same.trans cancelled
    cases read : readProgram site.system file with
    | error error =>
      have loads := step_work found permits begins
        (by simp only [Worker.work, Worker.queue, read]; rfl)
      refine ⟨[.work position], (run_cons [] loads).trans ?_⟩
      rw [buildFile_unread cancelled read]
      rfl
    | ok program =>
      have loads := step_work found permits begins
        (by simp only [Worker.work, Worker.queue, read]; rfl)
      let result : Result := { file, output := outputPath file request.directory }
      have loaded := worker_become found
        { result := { result with stages := [.load] }, progress := .loaded program } site.system
      cases lowered : (Lowering.outcome program).result with
      | error error =>
        have generates := step_work loaded (permits_of_isBusy _ rfl) begins
          (by simp only [Worker.work, lowered]; rfl)
        rw [become_become] at generates
        refine ⟨[.work position, .work position],
          (run_cons _ loads).trans ((run_cons [] generates).trans ?_)⟩
        rw [buildFile_unlowered cancelled read lowered]
        rfl
      | ok assembly =>
        have generates := step_work loaded (permits_of_isBusy _ rfl) begins
          (by simp only [Worker.work, lowered]; rfl)
        rw [become_become] at generates
        have generated := worker_become found
          { result :=
              { result with
                stages := [.load, .generate]
                lowered := some (Lowering.outcome program) }
            progress := .generated assembly } site.system
        have writes := step_work generated (permits_of_isBusy _ rfl) begins
          (Worker.work_generated rfl _)
        rw [become_become] at writes
        refine ⟨[.work position, .work position, .work position],
          (run_cons _ loads).trans ((run_cons _ generates).trans
            ((run_cons [] writes).trans ?_))⟩
        rw [buildFile_lowered cancelled read lowered,
          ← writeStage_stages site.system _ [.load, .generate]]
        rfl

theorem countP_isBusy_finished (request : Request) (results : List Result) (rest : List Bytes) :
    (results.map Worker.finish ++ rest.map (Worker.queue request)).countP Worker.isBusy = 0 := by
  rw [List.countP_eq_zero]
  intro worker present
  rcases List.mem_append.1 present with finished | queued
  · obtain ⟨result, _, rfl⟩ := List.mem_map.1 finished
    exact Bool.false_ne_true
  · obtain ⟨file, _, rfl⟩ := List.mem_map.1 queued
    exact Bool.false_ne_true

/-- While no file is under way, workers can take their files through all stages one after the
other. -/
theorem run_files (results : List Result) (files : List Bytes)
    (workers : site.workers = results.map Worker.finish ++ files.map (Worker.queue request))
    (positive : 0 < site.jobs) (same : site.cancelled = request.cancelled) :
    ∃ steps after, site.run steps = some after ∧
      after.workers = (results ++ (buildFiles request site.system files).1).map Worker.finish ∧
      after.system = (buildFiles request site.system files).2 := by
  induction files generalizing results site with
  | nil => exact ⟨[], site, rfl, by simp [workers, buildFiles], rfl⟩
  | cons file files ih =>
    have found : site.workers[results.length]? = some (Worker.queue request file) := by
      rw [workers, List.getElem?_append_right (by simp)]
      simp
    have idle := countP_isBusy_finished request results (file :: files)
    rw [← workers] at idle
    obtain ⟨first, runs⟩ := run_file found idle positive same
    let next := site.become results.length
      (Worker.finish (buildFile request site.system file).1)
      (buildFile request site.system file).2
    have workersNext : next.workers =
        (results ++ [(buildFile request site.system file).1]).map Worker.finish ++
          files.map (Worker.queue request) := by
      change site.workers.set _ _ = _
      rw [workers, List.set_append_right _ _ (by simp)]
      simp
    obtain ⟨rest, after, runsRest, workersAfter, systemAfter⟩ :=
      ih _ workersNext positive same
    refine ⟨first ++ rest, after, ?_, ?_, systemAfter⟩
    · rw [run_append, runs]
      exact runsRest
    · rw [workersAfter, List.append_assoc]
      rfl

theorem run_eq_of_prepare {ready : FileSystem} (prepared : prepare request system = .ok ready) :
    (Build.run request system).1.results = (buildFiles request ready request.files).1 ∧
      (Build.run request system).2 = (buildFiles request ready request.files).2 := by
  unfold prepare at prepared
  unfold Build.run
  dsimp only
  rw [prepared]
  exact ⟨rfl, rfl⟩

/-- Whatever a build of one file after the other comes to, workers can come to. -/
theorem run_build {jobs : Nat} {ready : FileSystem} (positive : 0 < jobs)
    (prepared : prepare request system = .ok ready) :
    ∃ begun steps after, Site.start request jobs system = .ok begun ∧ begun.system = ready ∧
      begun.run steps = some after ∧
      after.workers = (Build.run request system).1.results.map Worker.finish ∧
      after.system = (Build.run request system).2 := by
  obtain ⟨results, final⟩ := run_eq_of_prepare prepared
  let begun : Site :=
    { system := ready
      workers := request.files.map (Worker.queue request)
      jobs
      cancelled := request.cancelled }
  obtain ⟨steps, after, runs, workers, system⟩ := run_files [] request.files
    (show begun.workers = _ from rfl) positive rfl
  refine ⟨begun, steps, after, ?_, rfl, runs, workers.trans ?_, system.trans final.symm⟩
  · rw [start_eq, prepared]
    rfl
  · rw [results]
    rfl

end Site

end WordMachine.Build
