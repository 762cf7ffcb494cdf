import Mathlib
import WordMachine.Proofs.BuildTasks

/-!
What the files of a build have put into the file system. Each has at most one file there: its draft,
or its output once the draft has taken that name. All other places are as they were when the build
began.
-/

namespace WordMachine.Build

open FileSystem

/-! ## What a file has put into the file system -/

def Result.built? (result : Result) : Option Assembly :=
  if result.failure.isSome then none
  else result.lowered.bind fun outcome => outcome.result.toOption

theorem Lowers.built?_eq {ready : FileSystem} {result : Result} {assembly : Assembly}
    (lowers : Lowers ready result assembly) (fine : result.failure = none) :
    result.built? = some assembly := by
  obtain ⟨program, _, lowered, noted⟩ := lowers
  simp [Result.built?, fine, noted, lowered, Except.toOption]

namespace Task

/-- The path and the contents of what a file has put into the file system. -/
def put? (task : Task) : Option (Bytes × Bytes) :=
  match task.phase with
  | .drafted _ draft => some (draft.path, ByteArray.empty)
  | .filled assembly draft => some (draft.path, assembly.save)
  | .settled assembly _ none => some (task.result.output, assembly.save)
  | .settled assembly draft (some _) => some (draft.path, assembly.save)
  | .finished => task.result.built?.map fun assembly => (task.result.output, assembly.save)
  | _ => none

/-- The draft of a file, as long as its name is of use. -/
def draft? (task : Task) : Option Draft :=
  match task.phase with
  | .drafted _ draft => some draft
  | .filled _ draft => some draft
  | .settled _ draft _ => some draft
  | _ => none

def Puts (ready : FileSystem) (task : Task) (place : Location) (text : Bytes) : Prop :=
  ∃ path, task.put? = some (path, text) ∧ ready.locate path = .ok place

theorem put?_cases {task : Task} {path text : Bytes} (puts : task.put? = some (path, text)) :
    (∃ draft, task.draft? = some draft ∧ path = draft.path) ∨ path = task.result.output := by
  obtain ⟨result, phase⟩ := task
  cases phase with
  | drafted assembly draft =>
    cases puts
    exact .inl ⟨draft, rfl, rfl⟩
  | filled assembly draft =>
    cases puts
    exact .inl ⟨draft, rfl, rfl⟩
  | settled assembly draft failure =>
    cases failure with
    | none =>
      cases puts
      exact .inr rfl
    | some failure =>
      cases puts
      exact .inl ⟨draft, rfl, rfl⟩
  | finished =>
    obtain ⟨assembly, _, same⟩ := Option.map_eq_some_iff.1 puts
    cases same
    exact .inr rfl
  | _ => cases puts

end Task

/-! ## What a step does to the file system -/

def Unshared (ready system : FileSystem) : Prop :=
  ∀ number place other, ready.contents.size ≤ number →
    system.lookup? place = some (.file number) → system.lookup? other = some (.file number) →
      place = other

/-- A step of a file changes only what that file has put into the file system. -/
structure Affects (ready system : FileSystem) (task : Task) (move : Move) : Prop where
  sound : move.system.Sound
  working : move.system.workingDirectory = system.workingDirectory
  larger : system.contents.size ≤ move.system.contents.size
  unshared : Unshared ready move.system
  put : ∀ place text, move.task.Puts ready place text →
    move.system.view? place = some (.file text) ∧ ready.lookup? place ≠ some .directory
  cleared : ∀ place text, task.Puts ready place text →
    (∀ after, ¬ move.task.Puts ready place after) → move.system.view? place = ready.view? place
  others : ∀ place, (∀ text, ¬ task.Puts ready place text) →
    (∀ text, ¬ move.task.Puts ready place text) →
      move.system.lookup? place = system.lookup? place ∧
        move.system.view? place = system.view? place

section Effects

variable {ready system : FileSystem} {task : Task} {move : Move}
variable {assembly : Assembly} {draft : Draft}

/-- What a file knows of the file system when it takes a step. -/
structure Task.Holds (ready system : FileSystem) (task : Task) : Prop where
  sound : system.Sound
  same : SameDirectories system ready
  larger : ready.contents.size ≤ system.contents.size
  unshared : Unshared ready system
  put : ∀ place text, task.Puts ready place text →
    system.view? place = some (.file text) ∧ ready.lookup? place ≠ some .directory
  draft : ∀ draft, task.draft? = some draft → ∃ place, ready.locate draft.path = .ok place ∧
    ready.lookup? place = none ∧ IsDraftPlace place
  output : ∀ place, ready.locate task.result.output = .ok place → ¬ IsDraftPlace place
  numbered : ∀ assembly draft, task.phase = .drafted assembly draft → ∀ place,
    ready.locate draft.path = .ok place →
      system.lookup? place = some (.file draft.number) ∧ ready.contents.size ≤ draft.number
  vacant : ∀ assembly draft, task.phase = .settled assembly draft none → ∀ place,
    ready.locate draft.path = .ok place → system.lookup? place = none

variable (holds : task.Holds ready system)
include holds

/-- A step that leaves the file system and what the file has put there. -/
theorem Task.Holds.unchanged (unmoved : move.system = system) (same : move.task.put? = task.put?) :
    Affects ready system task move := by
  have puts : ∀ place text, move.task.Puts ready place text ↔ task.Puts ready place text := by
    intro place text
    unfold Task.Puts
    rw [same]
  refine ⟨unmoved ▸ holds.sound, by rw [unmoved], by rw [unmoved], unmoved ▸ holds.unshared, ?_,
    ?_, ?_⟩
  · intro place text isPut
    rw [unmoved]
    exact holds.put place text ((puts place text).1 isPut)
  · intro place text isPut none
    exact absurd ((puts place text).2 isPut) (none text)
  · intro place _ _
    rw [unmoved]
    exact ⟨rfl, rfl⟩

theorem Task.Holds.drafted {number file : Nat} {place : Location}
    (created : system.createFile (numberedDraft task.result.output number) =
      .ok (place, file, move.system)) (before : task.put? = none) (after : move.task.put? =
      some (numberedDraft task.result.output number, ByteArray.empty)) :
    Affects ready system task move := by
  obtain ⟨located, free, rfl, system'⟩ := createFile_eq_ok.1 created
  obtain ⟨above, _, isDirectory, atDraft⟩ := locate_numberedDraft located
  have present : place ≠ [] := by
    rw [atDraft]
    simp
  have lookup := @lookup?_addFile place system ByteArray.empty
  have isPlace : ∀ other text, move.task.Puts ready other text →
      other = place ∧ text = ByteArray.empty := by
    rintro other text ⟨path, isPut, leads⟩
    rw [after] at isPut
    obtain ⟨rfl, rfl⟩ := Prod.mk.inj (Option.some.inj isPut)
    rw [holds.same.locate.2 leads] at located
    exact ⟨Except.ok.inj located, rfl⟩
  refine ⟨?_, ?_, ?_, ?_, ?_, ?_, ?_⟩
  · rw [system', atDraft]
    exact holds.sound.addFile _ isDirectory (by rw [← atDraft, free]; simp)
  · rw [system']
    rfl
  · rw [system']
    exact (Nat.le_succ _).trans_eq (Array.size_push _).symm
  · intro number first second isNew foundFirst foundSecond
    rw [system', lookup _ present] at foundFirst foundSecond
    -- The number of the new file is that of no file before.
    have fresh : ∀ other, system.lookup? other ≠ some (.file system.contents.size) :=
      fun other found => Nat.lt_irrefl _ (holds.sound.numbered other _ found)
    split at foundFirst <;> split at foundSecond
    · next isFirst isSecond => rw [isFirst, isSecond]
    · cases foundFirst
      exact absurd foundSecond (fresh _)
    · cases foundSecond
      exact absurd foundFirst (fresh _)
    · exact holds.unshared number first second isNew foundFirst foundSecond
  · intro other text isPut
    obtain ⟨rfl, rfl⟩ := isPlace other text isPut
    refine ⟨?_, ?_⟩
    · rw [system', view?_eq_file, holds.sound.held?_addFile _ _ present, if_pos rfl]
    · intro directory
      rw [(holds.same.lookup? other).2 directory] at free
      cases free
  · rintro other text ⟨path, isPut, _⟩
    rw [before] at isPut
    cases isPut
  · intro other _ notPut
    have apart : other ≠ place := by
      rintro rfl
      exact notPut _ ⟨_, after, holds.same.locate.1 located⟩
    have unmoved : move.system.lookup? other = system.lookup? other := by
      rw [system', lookup _ present, if_neg apart]
    refine ⟨unmoved, view?_congr unmoved fun number found => ?_⟩
    have bound := holds.sound.numbered other number found
    rw [system']
    simp [content, addFile, Array.getElem?_push, Nat.ne_of_lt bound]

theorem Task.Holds.file {path text : Bytes} {place : Location}
    (isPut : task.put? = some (path, text)) (located : ready.locate path = .ok place) :
    ∃ number, system.lookup? place = some (.file number) ∧ system.content number = text := by
  have seen := (holds.put place text ⟨path, isPut, located⟩).1
  rw [view?_eq_file, held?] at seen
  split at seen
  · next number found => exact ⟨number, found, Option.some.inj seen⟩
  · cases seen

theorem Task.Holds.filled (kept : sink < ready.contents.size)
    (drafted : task.phase = .drafted assembly draft)
    (system' : move.system = system.setContent draft.number assembly.save)
    (after : move.task.put? = some (draft.path, assembly.save)) :
    Affects ready system task move := by
  have before : task.put? = some (draft.path, ByteArray.empty) := by
    unfold Task.put?
    rw [drafted]
  obtain ⟨place, located, _⟩ := holds.draft draft (by unfold Task.draft?; rw [drafted])
  obtain ⟨found, isNew⟩ := holds.numbered assembly draft drafted place located
  have inside := holds.sound.numbered place draft.number found
  have lookup : ∀ other, move.system.lookup? other = system.lookup? other := by
    intro other
    rw [system', lookup?_setContent]
  have content' := content_setContent assembly.save
    (Nat.ne_of_gt (Nat.lt_of_lt_of_le kept isNew)) inside
  rw [← system'] at content'
  have isPlace : ∀ {current : Task} {text other otherText},
      current.put? = some (draft.path, text) → current.Puts ready other otherText →
        other = place ∧ otherText = text := by
    rintro current text other otherText puts ⟨path, isPut, leads⟩
    rw [puts] at isPut
    obtain ⟨rfl, rfl⟩ := Prod.mk.inj (Option.some.inj isPut)
    rw [leads] at located
    exact ⟨Except.ok.inj located, rfl⟩
  refine ⟨?_, ?_, ?_, ?_, ?_, ?_, ?_⟩
  · rw [system']
    exact holds.sound.setContent _ _
  · rw [system']
    unfold setContent
    split <;> rfl
  · rw [system', size_setContent]
  · intro number first second isNew foundFirst foundSecond
    rw [lookup] at foundFirst foundSecond
    exact holds.unshared number first second isNew foundFirst foundSecond
  · intro other text isPut
    obtain ⟨rfl, rfl⟩ := isPlace after isPut
    refine ⟨?_, (holds.put other _ ⟨_, before, located⟩).2⟩
    rw [view?_of_file ((lookup other).trans found), content', if_pos rfl]
  · intro other text isPut none
    obtain ⟨rfl, rfl⟩ := isPlace before isPut
    exact absurd ⟨_, after, located⟩ (none assembly.save)
  · intro other notPut _
    refine ⟨lookup other, view?_congr (lookup other) fun number here => ?_⟩
    rw [content', if_neg]
    rintro rfl
    have same := holds.unshared draft.number other place isNew here found
    exact notPut _ ⟨_, before, same ▸ located⟩

theorem Task.Holds.named (filled : task.phase = .filled assembly draft)
    (renamed : system.renameFile draft.path task.result.output = .ok move.system)
    (after : move.task.put? = some (task.result.output, assembly.save)) :
    Affects ready system task move := by
  have before : task.put? = some (draft.path, assembly.save) := by
    unfold Task.put?
    rw [filled]
  obtain ⟨origin, located, free, isDraft⟩ :=
    holds.draft draft (by unfold Task.draft?; rw [filled])
  obtain ⟨number, found, holdsText⟩ := holds.file before located
  obtain ⟨noDirectory, _, target, targeted, system'⟩ :=
    (renameFile_eq_ok (holds.same.locate.2 located) found).1 renamed
  have apart : target ≠ origin := by
    rintro rfl
    exact holds.output target (holds.same.locate.1 targeted) isDraft
  have noDirectoryThere : system.lookup? target ≠ some .directory := by
    intro directory
    rw [isDirectory_iff.2 ⟨target, targeted, directory⟩] at noDirectory
    cases noDirectory
  obtain ⟨_, name, names⟩ := Path.exists_names task.result.output
  obtain ⟨above, _, isDirectory, below⟩ :=
    holds.sound.locate_file names targeted noDirectoryThere
  have present : target ≠ [] := by
    rw [below]
    simp
  have lookup : ∀ other, move.system.lookup? other =
      if other = target then some (.file number)
      else if other = origin then none else system.lookup? other := by
    intro other
    rw [system', lookup?_setEntry _ _ _ present, lookup?_eraseEntry _ _ (present_of_file found)]
  have content' : ∀ other, move.system.content other = system.content other := by
    intro other
    rw [system']
    rfl
  refine ⟨?_, ?_, ?_, ?_, ?_, ?_, ?_⟩
  · have erased := @lookup?_eraseEntry origin system
    rw [system', below]
    refine (holds.sound.eraseFile found).setFile (holds.sound.numbered origin number found) ?_ ?_
    · rw [erased _ (present_of_file found), if_neg]
      · exact isDirectory
      · rintro rfl
        rw [found] at isDirectory
        cases isDirectory
    · rw [← below, erased _ (present_of_file found), if_neg apart]
      exact noDirectoryThere
  · rw [system']
    rfl
  · rw [system']
    exact Nat.le_refl _
  · -- What was one name before is one name after, at another place.
    have back : ∀ {place shared}, move.system.lookup? place = some (.file shared) →
        place = target ∧ shared = number ∨
          place ≠ target ∧ place ≠ origin ∧ system.lookup? place = some (.file shared) := by
      intro place shared here
      rw [lookup] at here
      split at here
      · next same =>
        cases here
        exact .inl ⟨same, rfl⟩
      · split at here
        · cases here
        · next other notOrigin => exact .inr ⟨other, notOrigin, here⟩
    intro shared first second isNew foundFirst foundSecond
    rcases back foundFirst with ⟨rfl, rfl⟩ | ⟨_, firstOther, firstHere⟩ <;>
      rcases back foundSecond with ⟨rfl, sameNumber⟩ | ⟨_, secondOther, secondHere⟩
    · rfl
    · exact absurd (holds.unshared _ _ _ isNew secondHere found) secondOther
    · rw [sameNumber] at firstHere isNew
      exact absurd (holds.unshared _ _ _ isNew firstHere found) firstOther
    · exact holds.unshared _ _ _ isNew firstHere secondHere
  · rintro other text ⟨path, isPut, leads⟩
    rw [after] at isPut
    obtain ⟨rfl, rfl⟩ := Prod.mk.inj (Option.some.inj isPut)
    rw [holds.same.locate.2 leads] at targeted
    cases targeted
    refine ⟨?_, fun directory => noDirectoryThere ((holds.same.lookup? _).2 directory)⟩
    rw [view?_of_file (by rw [lookup, if_pos rfl]), content', holdsText]
  · rintro other text ⟨path, isPut, leads⟩ none
    rw [before] at isPut
    obtain ⟨rfl, rfl⟩ := Prod.mk.inj (Option.some.inj isPut)
    rw [leads] at located
    cases located
    rw [view?_eq_none.2 free, view?_eq_none, lookup, if_neg (Ne.symm apart), if_pos rfl]
  · intro other notPut notAfter
    have notTarget : other ≠ target := by
      rintro rfl
      exact notAfter _ ⟨_, after, holds.same.locate.1 targeted⟩
    have notOrigin : other ≠ origin := by
      rintro rfl
      exact notPut _ ⟨_, before, located⟩
    have unmoved : move.system.lookup? other = system.lookup? other := by
      rw [lookup, if_neg notTarget, if_neg notOrigin]
    exact ⟨unmoved, view?_congr unmoved fun _ _ => content' _⟩

/-- A draft that could not take the name of the output is removed. -/
theorem Task.Holds.unwritten {failure : Failure} (drafts : Drafts ready task.result draft)
    (settled : task.phase = .settled assembly draft (some failure))
    (system' : move.system = (system.remove draft.path).toOption.getD system)
    (after : move.task.put? = none) : Affects ready system task move := by
  have before : task.put? = some (draft.path, assembly.save) := by
    unfold Task.put?
    rw [settled]
  obtain ⟨origin, located, free, _⟩ := holds.draft draft (by unfold Task.draft?; rw [settled])
  obtain ⟨number, found, _⟩ := holds.file before located
  obtain ⟨⟨drawn, atDraft⟩, _⟩ := drafts
  have removed : move.system = system.eraseEntry origin := by
    rw [system', remove_file (atDraft ▸ endsHere_numberedDraft _ drawn)
      (holds.same.locate.2 located) found]
    rfl
  have lookup : ∀ other, move.system.lookup? other =
      if other = origin then none else system.lookup? other := by
    intro other
    rw [removed, lookup?_eraseEntry _ _ (present_of_file found)]
  refine ⟨?_, ?_, ?_, ?_, ?_, ?_, ?_⟩
  · rw [removed]
    exact holds.sound.eraseFile found
  · rw [removed]
    rfl
  · rw [removed]
    exact Nat.le_refl _
  · intro shared first second isNew foundFirst foundSecond
    rw [lookup] at foundFirst foundSecond
    split at foundFirst
    · cases foundFirst
    · split at foundSecond
      · cases foundSecond
      · exact holds.unshared _ _ _ isNew foundFirst foundSecond
  · rintro other text ⟨path, isPut, _⟩
    rw [after] at isPut
    cases isPut
  · rintro other text ⟨path, isPut, leads⟩ none
    rw [before] at isPut
    obtain ⟨rfl, rfl⟩ := Prod.mk.inj (Option.some.inj isPut)
    rw [leads] at located
    cases located
    rw [view?_eq_none.2 free, view?_eq_none, lookup, if_pos rfl]
  · intro other notPut _
    have notOrigin : other ≠ origin := by
      rintro rfl
      exact notPut _ ⟨_, before, located⟩
    have unmoved : move.system.lookup? other = system.lookup? other := by
      rw [lookup, if_neg notOrigin]
    refine ⟨unmoved, view?_congr unmoved fun shared _ => ?_⟩
    rw [removed]
    rfl

theorem Task.Holds.remove_eq (drafts : Drafts ready task.result draft)
    (settled : task.phase = .settled assembly draft none) :
    (system.remove draft.path).toOption.getD system = system := by
  obtain ⟨place, located, _⟩ := holds.draft draft (by unfold Task.draft?; rw [settled])
  obtain ⟨⟨drawn, atDraft⟩, _⟩ := drafts
  rw [remove_none (atDraft ▸ endsHere_numberedDraft _ drawn) (holds.same.locate.2 located)
    (holds.vacant assembly draft settled place located)]
  rfl

theorem Task.Moves.affects (moves : task.Moves system move) (kept : sink < ready.contents.size)
    (follows : task.Follows ready) : Affects ready system task move := by
  obtain ⟨result, phase⟩ := task
  cases moves with
  | began next => cases next <;> exact holds.unchanged rfl rfl
  | read isPhase _ | unread isPhase _ | lowered isPhase _ | unlowered isPhase _
  | undrafted isPhase _ =>
    cases isPhase
    exact holds.unchanged rfl rfl
  | crashed _ _ _ => exact holds.unchanged rfl rfl
  | drafted writing created =>
    cases writing
    exact holds.drafted created rfl rfl
  | filled drafted => exact holds.filled kept drafted rfl rfl
  | named filled renamed => exact holds.named filled renamed rfl
  | unnamed filled _ =>
    cases filled
    exact holds.unchanged rfl rfl
  | written settled =>
    cases settled
    obtain ⟨fine, _, lowers, drafts, _⟩ := follows
    refine holds.unchanged (holds.remove_eq drafts rfl) ?_
    simp only [Task.put?, Task.pass, lowers.built?_eq fine, Option.map_some]
  | unwritten settled =>
    cases settled
    obtain ⟨_, _, _, drafts, _⟩ := follows
    exact holds.unwritten drafts rfl rfl rfl

end Effects

/-! ## Drafts and outputs apart -/

section Apart

variable {ready system : FileSystem} {task other : Task} {move : Move} {place : Location}

/-- The drafts of two files are at different places. -/
def Task.DraftsApart (ready : FileSystem) (task other : Task) : Prop :=
  ∀ draft otherDraft place, task.draft? = some draft → other.draft? = some otherDraft →
    ready.locate draft.path = .ok place → ready.locate otherDraft.path ≠ .ok place

/-- Two files have neither a draft nor an output at the same place. -/
structure Task.Apart (ready : FileSystem) (task other : Task) : Prop where
  drafts : task.DraftsApart ready other
  outputs : ∀ place, ready.locate task.result.output = .ok place →
    ready.locate other.result.output ≠ .ok place

structure Task.Placed (ready : FileSystem) (task : Task) : Prop where
  draft : ∀ draft place, task.draft? = some draft → ready.locate draft.path = .ok place →
    IsDraftPlace place
  output : ∀ place, ready.locate task.result.output = .ok place → ¬ IsDraftPlace place

theorem Task.Apart.puts {text otherText : Bytes} (apart : task.Apart ready other)
    (placed : task.Placed ready) (otherPlaced : other.Placed ready)
    (puts : task.Puts ready place text) : ¬ other.Puts ready place otherText := by
  obtain ⟨path, isPut, located⟩ := puts
  rintro ⟨otherPath, otherPut, otherLocated⟩
  rcases Task.put?_cases isPut with ⟨draft, isDraft, rfl⟩ | rfl <;>
    rcases Task.put?_cases otherPut with ⟨otherDraft, otherIsDraft, rfl⟩ | rfl
  · exact apart.drafts draft otherDraft place isDraft otherIsDraft located otherLocated
  · exact otherPlaced.output place otherLocated (placed.draft draft place isDraft located)
  · exact placed.output place located (otherPlaced.draft otherDraft place otherIsDraft otherLocated)
  · exact apart.outputs place located otherLocated

/-- Where a step of a file leaves its draft: where it was before, or at a new place that was
free. -/
inductive Task.Drafted (system : FileSystem) (task : Task) (move : Move) : Prop
  | kept :
      move.drafts = [] →
      (∀ draft, move.task.draft? = some draft → task.draft? = some draft) →
      (∀ assembly draft, move.task.phase = .drafted assembly draft →
        task.phase = .drafted assembly draft ∧ move.system = system) →
      Task.Drafted system task move
  | made {assembly : Assembly} {draft : Draft} {place : Location} :
      move.drafts = [place] →
      move.task.phase = .drafted assembly draft →
      system.locate draft.path = .ok place →
      system.lookup? place = none →
      IsDraftPlace place →
      move.system.lookup? place = some (.file draft.number) →
      draft.number = system.contents.size →
      Task.Drafted system task move

theorem Task.Moves.drafted_cases (moves : task.Moves system move) : task.Drafted system move := by
  obtain ⟨result, phase⟩ := task
  cases moves with
  | began next =>
    cases next <;> exact .kept rfl (fun _ none => nomatch none) fun _ _ none => nomatch none
  | read isPhase _ | unread isPhase _ | lowered isPhase _ | unlowered isPhase _
  | undrafted isPhase _ | written isPhase | unwritten isPhase =>
    cases isPhase
    exact .kept rfl (fun _ none => nomatch none) fun _ _ none => nomatch none
  | crashed _ _ _ => exact .kept rfl (fun _ same => same) fun _ _ same => ⟨same, rfl⟩
  | filled isPhase | named isPhase _ | unnamed isPhase _ =>
    cases isPhase
    exact .kept rfl (fun _ same => same) fun _ _ none => nomatch none
  | drafted writing created =>
    obtain ⟨located, free, same, after⟩ := createFile_eq_ok.1 created
    obtain ⟨above, _, _, rfl⟩ := locate_numberedDraft located
    refine .made rfl rfl located free ⟨above, _, rfl⟩ ?_ same
    rw [after, lookup?_addFile system _ _ (by simp), if_pos rfl, same]

end Apart

/-! ## What all files have put into the file system -/

namespace Yard

variable {ready : FileSystem} {yard : Yard} {position : Nat} {task : Task} {move : Move}

/-- The file system of a build is what it was at the beginning, but for what the files have put into
it. -/
structure Stored (ready : FileSystem) (yard : Yard) : Prop where
  sound : yard.system.Sound
  working : yard.system.workingDirectory = ready.workingDirectory
  larger : ready.contents.size ≤ yard.system.contents.size
  unshared : Unshared ready yard.system
  put : ∀ task ∈ yard.tasks, ∀ place text, task.Puts ready place text →
    yard.system.view? place = some (.file text) ∧ ready.lookup? place ≠ some .directory
  kept : ∀ place, (∀ task ∈ yard.tasks, ∀ text, ¬ task.Puts ready place text) →
    yard.system.view? place = ready.view? place
  draft : ∀ task ∈ yard.tasks, ∀ draft, task.draft? = some draft →
    ∃ place, ready.locate draft.path = .ok place ∧ place ∈ yard.drafts
  places : ∀ place ∈ yard.drafts, ready.lookup? place = none ∧ IsDraftPlace place
  numbered : ∀ task ∈ yard.tasks, ∀ assembly draft, task.phase = .drafted assembly draft →
    ∀ place, ready.locate draft.path = .ok place →
      yard.system.lookup? place = some (.file draft.number) ∧ ready.contents.size ≤ draft.number
  apart : ∀ (first second : Nat) (task other : Task), first ≠ second →
    yard.tasks[first]? = some task → yard.tasks[second]? = some other →
      task.DraftsApart ready other

/-- The outputs of a build are different files and not where drafts are made. -/
structure OutputsApart (ready : FileSystem) (yard : Yard) : Prop where
  apart : ∀ (first second : Nat) (task other : Task), first ≠ second →
    yard.tasks[first]? = some task → yard.tasks[second]? = some other →
      ∀ place, ready.locate task.result.output = .ok place →
        ready.locate other.result.output ≠ .ok place
  undrafted : ∀ task ∈ yard.tasks, ∀ place, ready.locate task.result.output = .ok place →
    ¬ IsDraftPlace place

theorem Stored.same (stored : Stored ready yard) : SameDirectories yard.system ready := by
  refine ⟨stored.working, fun place => ?_⟩
  by_cases isPut : ∃ task ∈ yard.tasks, ∃ text, task.Puts ready place text
  · obtain ⟨task, present, text, puts⟩ := isPut
    obtain ⟨seen, noDirectory⟩ := stored.put task present place text puts
    refine iff_of_false (fun directory => ?_) noDirectory
    rw [view?_eq_directory.2 directory] at seen
    cases seen
  · push Not at isPut
    rw [← view?_eq_directory, ← view?_eq_directory, stored.kept place isPut]

theorem Stored.placed (stored : Stored ready yard) (outputs : OutputsApart ready yard)
    (present : task ∈ yard.tasks) : task.Placed ready := by
  refine ⟨?_, outputs.undrafted task present⟩
  intro draft place isDraft located
  obtain ⟨other, otherLocated, among⟩ := stored.draft task present draft isDraft
  rw [located] at otherLocated
  cases otherLocated
  exact (stored.places place among).2

/-- What has no draft any more is free again, and what never was a draft is not taken by one. -/
theorem Stored.vacant (stored : Stored ready yard) (outputs : OutputsApart ready yard)
    (found : yard.tasks[position]? = some task) {assembly : Assembly} {draft : Draft}
    (settled : task.phase = .settled assembly draft none) {place : Location}
    (located : ready.locate draft.path = .ok place) : yard.system.lookup? place = none := by
  have present := List.mem_of_getElem? found
  have isDraft : task.draft? = some draft := by
    unfold Task.draft?
    rw [settled]
  obtain ⟨drawn, drawnLocated, among⟩ := stored.draft task present draft isDraft
  rw [located] at drawnLocated
  cases drawnLocated
  obtain ⟨free, isDraftPlace⟩ := stored.places place among
  rw [← view?_eq_none, stored.kept place, view?_eq_none]
  · exact free
  · rintro other otherPresent text ⟨path, isPut, leads⟩
    obtain ⟨second, otherFound⟩ := List.mem_iff_getElem?.1 otherPresent
    rcases Task.put?_cases isPut with ⟨otherDraft, otherIsDraft, rfl⟩ | rfl
    · by_cases same : position = second
      · subst same
        rw [found] at otherFound
        cases otherFound
        unfold Task.put? at isPut
        rw [settled] at isPut
        obtain ⟨output, _⟩ := Prod.mk.inj (Option.some.inj isPut)
        rw [isDraft] at otherIsDraft
        cases otherIsDraft
        rw [← output] at leads
        exact outputs.undrafted task present place leads isDraftPlace
      · exact stored.apart position second task other same found otherFound draft otherDraft place
          isDraft otherIsDraft located leads
    · exact outputs.undrafted other otherPresent place leads isDraftPlace

/-- What a file knows of the file system of its build. -/
theorem Stored.holds (stored : Stored ready yard) (outputs : OutputsApart ready yard)
    (found : yard.tasks[position]? = some task) : task.Holds ready yard.system := by
  have present := List.mem_of_getElem? found
  refine ⟨stored.sound, stored.same, stored.larger, stored.unshared, stored.put task present, ?_,
    outputs.undrafted task present, stored.numbered task present,
    fun assembly draft settled place => stored.vacant outputs found settled⟩
  intro draft isDraft
  obtain ⟨place, located, among⟩ := stored.draft task present draft isDraft
  exact ⟨place, located, stored.places place among⟩

/-! ## A step of one file among others -/

theorem become_cases {other : Nat} {builder : Task}
    (found : (yard.become position move).tasks[other]? = some builder) :
    other = position ∧ builder = move.task ∨
      other ≠ position ∧ yard.tasks[other]? = some builder := by
  change (yard.tasks.set position move.task)[other]? = _ at found
  rw [List.getElem?_set] at found
  split at found
  · next same =>
    split at found
    · cases found
      exact .inl ⟨same.symm, rfl⟩
    · cases found
  · next apart => exact .inr ⟨Ne.symm apart, found⟩

theorem mem_become {builder : Task} (present : builder ∈ (yard.become position move).tasks) :
    builder = move.task ∨ ∃ other, other ≠ position ∧ yard.tasks[other]? = some builder := by
  obtain ⟨other, found⟩ := List.mem_iff_getElem?.1 present
  rcases become_cases found with ⟨_, same⟩ | ⟨apart, found⟩
  · exact .inl same
  · exact .inr ⟨other, apart, found⟩

/-- A draft is made where nothing was when the build began. -/
theorem Stored.free (stored : Stored ready yard) {place : Location}
    (free : yard.system.lookup? place = none) : ready.lookup? place = none := by
  by_cases isPut : ∃ builder ∈ yard.tasks, ∃ text, builder.Puts ready place text
  · obtain ⟨builder, present, text, puts⟩ := isPut
    have seen := (stored.put builder present place text puts).1
    rw [view?_eq_none.2 free] at seen
    cases seen
  · push Not at isPut
    rw [← view?_eq_none, ← stored.kept place isPut, view?_eq_none]
    exact free

section Step

variable (stored : Stored ready yard) (outputs : OutputsApart ready yard)
  (found : yard.tasks[position]? = some task) (moves : task.Moves yard.system move)
  (fresh : (yard.drafts ++ move.drafts).Nodup)

include stored found moves in
/-- Where the draft of a file is after a step of that file. -/
theorem Stored.draft_become {draft : Draft} (isDraft : move.task.draft? = some draft) :
    ∃ place, ready.locate draft.path = .ok place ∧ place ∈ yard.drafts ++ move.drafts := by
  cases moves.drafted_cases with
  | kept _ before _ =>
    obtain ⟨place, located, among⟩ :=
      stored.draft task (List.mem_of_getElem? found) draft (before draft isDraft)
    exact ⟨place, located, List.mem_append_left _ among⟩
  | made drafts drafted located free isDraftPlace _ _ =>
    unfold Task.draft? at isDraft
    rw [drafted] at isDraft
    cases isDraft
    refine ⟨_, stored.same.locate.1 located, List.mem_append_right _ ?_⟩
    rw [drafts]
    exact List.mem_singleton_self _

include stored moves in
theorem Stored.places_become {place : Location} (among : place ∈ yard.drafts ++ move.drafts) :
    ready.lookup? place = none ∧ IsDraftPlace place := by
  rcases List.mem_append.1 among with before | new
  · exact stored.places place before
  · cases moves.drafted_cases with
    | kept none _ _ =>
      rw [none] at new
      cases new
    | made drafts _ _ free isDraftPlace _ _ =>
      rw [drafts, List.mem_singleton] at new
      rw [new]
      exact ⟨stored.free free, isDraftPlace⟩

include stored found moves fresh in
theorem Stored.draftsApart_become {second : Nat} {other : Task} (apart : second ≠ position)
    (otherFound : yard.tasks[second]? = some other) :
    move.task.DraftsApart ready other ∧ other.DraftsApart ready move.task := by
  -- Both directions say that no place is that of a draft of both.
  have disjoint : ∀ draft otherDraft place, move.task.draft? = some draft →
      other.draft? = some otherDraft → ready.locate draft.path = .ok place →
        ready.locate otherDraft.path ≠ .ok place := by
    intro draft otherDraft place isDraft otherIsDraft located otherLocated
    cases moves.drafted_cases with
    | kept _ before _ =>
      exact stored.apart position second task other (Ne.symm apart) found otherFound draft
        otherDraft place (before draft isDraft) otherIsDraft located otherLocated
    | made drafts drafted newLocated _ _ _ _ =>
      unfold Task.draft? at isDraft
      rw [drafted] at isDraft
      cases isDraft
      obtain ⟨drawn, drawnLocated, among⟩ :=
        stored.draft other (List.mem_of_getElem? otherFound) otherDraft otherIsDraft
      rw [stored.same.locate.1 newLocated] at located
      rw [otherLocated] at drawnLocated
      cases located
      cases drawnLocated
      rw [drafts] at fresh
      exact List.disjoint_of_nodup_append fresh among (List.mem_singleton_self _)
  exact ⟨disjoint, fun otherDraft draft place otherIsDraft isDraft otherLocated located =>
    disjoint draft otherDraft place isDraft otherIsDraft located otherLocated⟩

include outputs found moves in
include stored outputs found moves fresh in
/-- What other files have put into the file system is not touched by a step of a file. -/
theorem Stored.undisturbed {second : Nat} {other : Task} (apart : second ≠ position)
    (otherFound : yard.tasks[second]? = some other) {place : Location} {text : Bytes}
    (puts : other.Puts ready place text) :
    (∀ before, ¬ task.Puts ready place before) ∧ ∀ after, ¬ move.task.Puts ready place after := by
  have otherPlaced := stored.placed outputs (List.mem_of_getElem? otherFound)
  have taskPlaced := stored.placed outputs (List.mem_of_getElem? found)
  have outputApart := outputs.apart second position other task apart otherFound found
  have movePlaced : move.task.Placed ready := by
    refine ⟨fun draft at' isDraft located => ?_, ?_⟩
    · obtain ⟨drawn, drawnLocated, among⟩ := stored.draft_become found moves isDraft
      rw [located] at drawnLocated
      cases drawnLocated
      exact (stored.places_become moves among).2
    · rw [moves.paths_eq.2]
      exact taskPlaced.output
  have moveApart : other.Apart ready move.task :=
    ⟨(stored.draftsApart_become found moves fresh apart otherFound).2,
      moves.paths_eq.2 ▸ outputApart⟩
  have taskApart : other.Apart ready task :=
    ⟨stored.apart second position other task apart otherFound found, outputApart⟩
  exact ⟨fun _ => taskApart.puts otherPlaced taskPlaced puts,
    fun _ => moveApart.puts otherPlaced movePlaced puts⟩

include stored outputs found moves fresh in
/-- A step of a file keeps the file system of a build in order. -/
theorem Stored.become (affects : Affects ready yard.system task move) :
    Stored ready (yard.become position move) := by
  refine ⟨affects.sound, affects.working.trans stored.working,
    stored.larger.trans affects.larger, affects.unshared, ?_, ?_, ?_, ?_, ?_, ?_⟩
  · intro builder present place text puts
    rcases mem_become present with rfl | ⟨second, apart, otherFound⟩
    · exact affects.put place text puts
    · obtain ⟨seen, noDirectory⟩ :=
        stored.put builder (List.mem_of_getElem? otherFound) place text puts
      obtain ⟨before, after⟩ := stored.undisturbed outputs found moves fresh apart otherFound puts
      exact ⟨(affects.others place before after).2.trans seen, noDirectory⟩
  · intro place none
    have after : ∀ text, ¬ move.task.Puts ready place text := by
      refine none move.task (List.mem_of_getElem? (i := position) ?_)
      exact List.getElem?_set_self (List.getElem?_eq_some_iff.1 found).1
    by_cases before : ∃ text, task.Puts ready place text
    · obtain ⟨text, puts⟩ := before
      exact affects.cleared place text puts after
    · push Not at before
      refine (affects.others place before after).2.trans (stored.kept place ?_)
      intro builder present text puts
      obtain ⟨second, otherFound⟩ := List.mem_iff_getElem?.1 present
      by_cases same : second = position
      · subst same
        rw [found] at otherFound
        cases otherFound
        exact before text puts
      · refine none builder (List.mem_of_getElem? (i := second) ?_) text puts
        exact (List.getElem?_set_ne (Ne.symm same)).trans otherFound
  · intro builder present draft isDraft
    rcases mem_become present with rfl | ⟨second, _, otherFound⟩
    · exact stored.draft_become found moves isDraft
    · obtain ⟨place, located, among⟩ :=
        stored.draft builder (List.mem_of_getElem? otherFound) draft isDraft
      exact ⟨place, located, List.mem_append_left _ among⟩
  · exact fun place among => stored.places_become moves among
  · intro builder present assembly draft drafted place located
    rcases mem_become present with rfl | ⟨second, apart, otherFound⟩
    · cases moves.drafted_cases with
      | kept _ _ before =>
        obtain ⟨isDrafted, unmoved⟩ := before assembly draft drafted
        have numbered := stored.numbered task (List.mem_of_getElem? found) assembly draft
          isDrafted place located
        exact ⟨(congrArg (fun system => system.lookup? place) unmoved).trans numbered.1,
          numbered.2⟩
      | made _ isDrafted newLocated _ _ here isNew =>
        rw [drafted] at isDrafted
        cases isDrafted
        rw [stored.same.locate.1 newLocated] at located
        cases located
        exact ⟨here, isNew ▸ stored.larger⟩
    · obtain ⟨here, isNew⟩ := stored.numbered builder (List.mem_of_getElem? otherFound) assembly
        draft drafted place located
      have puts : builder.Puts ready place ByteArray.empty := by
        refine ⟨draft.path, ?_, located⟩
        unfold Task.put?
        rw [drafted]
      obtain ⟨before, after⟩ := stored.undisturbed outputs found moves fresh apart otherFound puts
      exact ⟨(affects.others place before after).1.trans here, isNew⟩
  · intro first second builder other apart builderFound otherFound
    rcases become_cases builderFound with ⟨rfl, rfl⟩ | ⟨firstApart, builderThere⟩ <;>
      rcases become_cases otherFound with ⟨rfl, rfl⟩ | ⟨secondApart, otherThere⟩
    · exact absurd rfl apart
    · exact (stored.draftsApart_become found moves fresh secondApart otherThere).1
    · exact (stored.draftsApart_become found moves fresh firstApart builderThere).2
    · exact stored.apart first second builder other apart builderThere otherThere

end Step

end Yard

end WordMachine.Build
