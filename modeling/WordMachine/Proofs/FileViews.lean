import WordMachine.Proofs.FileTrees

/-!
What is seen in a file system, place by place, and how that changes when a file is made, filled,
given another name or removed. Paths lead to the same places as long as the directories stay.
-/

namespace WordMachine

namespace FileSystem

variable {system after first second : FileSystem} {location place above : Location} {path : Bytes}
variable {number : Nat} {name : Bytes} {names : List Bytes}

/-! ## What is seen at a place -/

/-- What is seen at a place that is not empty. -/
inductive View where
  | directory
  | file (text : Bytes)
  deriving DecidableEq

def view? (system : FileSystem) (location : Location) : Option View :=
  match system.lookup? location with
  | none => none
  | some .directory => some .directory
  | some (.file number) => some (.file (system.content number))

theorem view?_eq_none : system.view? place = none ↔ system.lookup? place = none := by
  unfold view?
  split <;> simp_all

theorem view?_eq_directory :
    system.view? place = some .directory ↔ system.lookup? place = some .directory := by
  unfold view?
  split <;> simp_all

theorem view?_of_file (found : system.lookup? place = some (.file number)) :
    system.view? place = some (.file (system.content number)) := by
  unfold view?
  rw [found]

theorem view?_eq_file {text : Bytes} :
    system.view? place = some (.file text) ↔ system.held? place = some text := by
  unfold view? held?
  split <;> simp_all

theorem view?_congr (same : first.lookup? place = second.lookup? place)
    (kept : ∀ number, second.lookup? place = some (.file number) →
      first.content number = second.content number) : first.view? place = second.view? place := by
  unfold view?
  rw [same]
  split
  · rfl
  · rfl
  · next number found => rw [kept number found]

/-! ## The same directories -/

structure SameDirectories (first second : FileSystem) : Prop where
  working : first.workingDirectory = second.workingDirectory
  lookup? : ∀ location,
    first.lookup? location = some .directory ↔ second.lookup? location = some .directory

theorem walk_cons_ne_ok (noDirectory : system.lookup? location ≠ some .directory) :
    system.walk location (name :: names) ≠ .ok place := by
  rw [walk]
  cases found : system.lookup? location with
  | none => simp
  | some entry =>
    cases entry with
    | file number => simp
    | directory => exact absurd found noDirectory

theorem SameDirectories.walk (same : SameDirectories first second) {start : Location} :
    first.walk start names = .ok place ↔ second.walk start names = .ok place := by
  induction names generalizing start with
  | nil => exact Iff.rfl
  | cons name names ih =>
    by_cases directory : first.lookup? start = some .directory
    · rw [FileSystem.walk, FileSystem.walk, directory, (same.lookup? start).1 directory]
      dsimp only
      split
      · exact ih
      · split
        · exact ih
        · split
          · exact Iff.rfl
          · exact ih
    · have other : second.lookup? start ≠ some .directory := fun is =>
        directory ((same.lookup? start).2 is)
      exact iff_of_false (walk_cons_ne_ok directory) (walk_cons_ne_ok other)

theorem SameDirectories.locate (same : SameDirectories first second) :
    first.locate path = .ok place ↔ second.locate path = .ok place := by
  unfold FileSystem.locate
  split
  · exact Iff.rfl
  · split
    · exact Iff.rfl
    · split
      · exact Iff.rfl
      · dsimp only
        rw [same.working]
        exact same.walk

theorem isOk_iff {error α : Type} {result : Except error α} :
    result.isOk = true ↔ ∃ value, result = .ok value := by
  cases result with
  | error cause => exact iff_of_false Bool.false_ne_true fun ⟨_, same⟩ => nomatch same
  | ok value => exact iff_of_true rfl ⟨value, rfl⟩

theorem SameDirectories.isOk_locate (same : SameDirectories first second) (path : Bytes) :
    (first.locate path).isOk = (second.locate path).isOk := by
  rw [Bool.eq_iff_iff, isOk_iff, isOk_iff]
  exact exists_congr fun _ => same.locate

theorem isDirectory_iff :
    system.isDirectory path = true ↔
      ∃ place, system.locate path = .ok place ∧ system.lookup? place = some .directory := by
  unfold isDirectory stat
  cases located : system.locate path with
  | error cause => simp [bind, Except.bind]
  | ok place =>
    simp only [bind, Except.bind, Except.ok.injEq, exists_eq_left']
    cases found : system.lookup? place with
    | none => simp
    | some entry => cases entry <;> simp

theorem SameDirectories.isDirectory (same : SameDirectories first second) (path : Bytes) :
    first.isDirectory path = second.isDirectory path := by
  rw [Bool.eq_iff_iff, isDirectory_iff, isDirectory_iff]
  constructor
  · rintro ⟨place, located, directory⟩
    exact ⟨place, same.locate.1 located, (same.lookup? place).1 directory⟩
  · rintro ⟨place, located, directory⟩
    exact ⟨place, same.locate.2 located, (same.lookup? place).2 directory⟩

/-! ## Files come and go -/

theorem createFile_eq_ok :
    system.createFile path = .ok (place, number, after) ↔
      system.locate path = .ok place ∧ system.lookup? place = none ∧
        number = system.contents.size ∧ after = (system.addFile place ByteArray.empty).2 := by
  unfold createFile
  cases located : system.locate path with
  | error cause => simp [bind, Except.bind]
  | ok found =>
    simp only [bind, Except.bind, Except.ok.injEq]
    cases free : system.lookup? found with
    | none =>
      constructor
      · intro created
        cases created
        exact ⟨rfl, free, rfl, rfl⟩
      · rintro ⟨rfl, -, rfl, rfl⟩
        rfl
    | some entry =>
      constructor
      · intro impossible
        cases impossible
      · rintro ⟨rfl, none, -⟩
        rw [free] at none
        cases none

/-- Creating a file fails where a path leads nowhere or something is. -/
theorem createFile_eq_error {cause : Errno} (failed : system.createFile path = .error cause) :
    system.locate path = .error cause ∨ cause = .exists := by
  unfold createFile at failed
  cases located : system.locate path with
  | error other =>
    rw [located] at failed
    cases failed
    exact .inl rfl
  | ok found =>
    simp only [located, bind, Except.bind] at failed
    split at failed
    · cases failed
      exact .inr rfl
    · cases failed

theorem walk_ne_exists {start : Location} : system.walk start names ≠ .error .exists := by
  induction names generalizing start with
  | nil =>
    intro same
    cases same
  | cons name names ih =>
    rw [walk]
    split
    · intro same
      cases same
    · intro same
      cases same
    · split
      · exact ih
      · split
        · exact ih
        · split
          · intro same
            cases same
          · exact ih

/-- A path leads nowhere for other reasons than that something is there. -/
theorem locate_ne_exists : system.locate path ≠ .error .exists := by
  unfold locate
  split
  · exact fun same => nomatch same
  · split
    · exact fun same => nomatch same
    · split
      · exact fun same => nomatch same
      · exact walk_ne_exists

theorem renameFile_eq_ok {source target : Bytes} {origin : Location}
    (begins : system.locate source = .ok origin)
    (found : system.lookup? origin = some (.file number)) :
    system.renameFile source target = .ok after ↔
      system.isDirectory target = false ∧ target.endsWith "/" = false ∧
        ∃ place, system.locate target = .ok place ∧
          after = (system.eraseEntry origin).setEntry place (.file number) := by
  unfold renameFile
  constructor
  · intro renamed
    split at renamed
    · cases renamed
    · next noDirectory =>
      split at renamed
      · cases renamed
      · next plain =>
        rw [begins] at renamed
        cases located : system.locate target with
        | error cause =>
          rw [located] at renamed
          cases renamed
        | ok place =>
          simp only [located, bind, Except.bind, found] at renamed
          cases renamed
          exact ⟨Bool.eq_false_iff.2 noDirectory, Bool.eq_false_iff.2 plain, place, rfl, rfl⟩
  · rintro ⟨noDirectory, plain, place, located, rfl⟩
    simp only [noDirectory, plain, begins, located, found, bind, Except.bind, Bool.false_eq_true,
      if_false]

theorem lookup?_eraseEntry (system : FileSystem) (other : Location) (present : location ≠ []) :
    (system.eraseEntry location).lookup? other =
      if other = location then none else system.lookup? other := by
  unfold lookup? eraseEntry
  by_cases same : other = location
  · subst same
    simp [present]
  · rw [if_neg same]
    split
    · rfl
    · rw [List.find?_filter]
      congr 2
      funext found
      by_cases isOther : found.1 = other
      · simp [isOther, same]
      · simp [isOther]

@[simp]
theorem lookup?_setContent (system : FileSystem) (number : Nat) (text : Bytes)
    (location : Location) :
    (system.setContent number text).lookup? location = system.lookup? location := by
  unfold setContent
  split <;> rfl

theorem content_setContent (text : Bytes) (isKept : number ≠ sink)
    (inside : number < system.contents.size) (other : Nat) :
    (system.setContent number text).content other =
      if other = number then text else system.content other := by
  unfold setContent content
  rw [if_neg isKept]
  change ((system.contents.setIfInBounds number text)[other]?).getD ByteArray.empty = _
  rw [Array.getElem?_setIfInBounds]
  by_cases same : other = number
  · subst same
    simp [inside]
  · simp [same, Ne.symm same]

theorem size_setContent (system : FileSystem) (number : Nat) (text : Bytes) :
    (system.setContent number text).contents.size = system.contents.size := by
  unfold setContent
  split
  · rfl
  · exact Array.size_setIfInBounds

theorem Sound.setContent (sound : system.Sound) (number : Nat) (text : Bytes) :
    (system.setContent number text).Sound := by
  constructor
  · intro location other found
    rw [lookup?_setContent] at found
    rw [size_setContent]
    exact sound.numbered location other found
  · intro location entry found
    rw [lookup?_setContent] at found ⊢
    exact sound.rooted location entry found

theorem present_of_file (found : system.lookup? place = some (.file number)) : place ≠ [] := by
  rintro rfl
  cases found

theorem Sound.eraseFile (sound : system.Sound)
    (found : system.lookup? location = some (.file number)) :
    (system.eraseEntry location).Sound := by
  have present := present_of_file found
  constructor
  · intro other file here
    rw [lookup?_eraseEntry system other present] at here
    split at here
    · cases here
    · exact sound.numbered other file here
  · intro other entry here
    rw [lookup?_eraseEntry system other present] at here
    rw [lookup?_eraseEntry system other.dropLast present]
    split at here
    · cases here
    · have directory := sound.rooted other entry here
      split
      · next same =>
        rw [same, found] at directory
        cases directory
      · exact directory

theorem Sound.setFile (sound : system.Sound) (inside : number < system.contents.size)
    (isDirectory : system.lookup? above = some .directory)
    (free : system.lookup? (above ++ [name]) ≠ some .directory) :
    (system.setEntry (above ++ [name]) (.file number)).Sound := by
  have present : above ++ [name] ≠ [] := by simp
  have apart : ∀ other, system.lookup? other = some .directory → other ≠ above ++ [name] := by
    rintro other directory rfl
    exact free directory
  constructor
  · intro other file found
    rw [lookup?_setEntry system _ other present] at found
    change file < system.contents.size
    split at found
    · cases found
      exact inside
    · exact sound.numbered other file found
  · intro other entry found
    rw [lookup?_setEntry system _ other present] at found
    rw [lookup?_setEntry system _ other.dropLast present]
    split at found
    · next same =>
      rw [same, List.dropLast_concat, if_neg (apart above isDirectory)]
      exact isDirectory
    · have directory := sound.rooted other entry found
      rw [if_neg (apart _ directory)]
      exact directory

theorem remove_file (named : endsHere path = false) (located : system.locate path = .ok place)
    (found : system.lookup? place = some (.file number)) :
    system.remove path = .ok (system.eraseEntry place) := by
  unfold remove
  simp [named, located, found]

theorem remove_none (named : endsHere path = false)
    (located : system.locate path = .ok place) (found : system.lookup? place = none) :
    system.remove path = .error ⟨"remove", path, .notFound⟩ := by
  unfold remove
  simp [named, located, found]

/-! ## Made directories -/

/-- Whether nothing but directories was made. -/
structure Widens (before after : FileSystem) : Prop where
  contents : after.contents = before.contents
  view? : ∀ place, after.view? place = before.view? place ∨
    before.view? place = none ∧ after.view? place = some .directory

theorem Widens.refl (system : FileSystem) : Widens system system :=
  ⟨rfl, fun _ => .inl rfl⟩

theorem Widens.makeDirectory (widens : Widens first second)
    (made : second.makeDirectory path = .ok after) : Widens first after := by
  obtain ⟨place, located, free, rfl⟩ := makeDirectory_eq_ok made
  have present : place ≠ [] := by
    rintro rfl
    cases free
  refine ⟨widens.contents, fun other => ?_⟩
  have lookup := lookup?_setEntry second .directory other present
  by_cases same : other = place
  · subst same
    rw [if_pos rfl] at lookup
    refine .inr ⟨?_, view?_eq_directory.2 lookup⟩
    rcases widens.view? other with kept | ⟨none, _⟩
    · exact kept.symm.trans (view?_eq_none.2 free)
    · exact none
  · rw [if_neg same] at lookup
    rw [view?_congr lookup fun _ _ => rfl]
    exact widens.view? other

theorem widens_makeDirectories (made : system.makeDirectories path = .ok after) :
    Widens system after :=
  makeDirectoriesWith_induction (fun _ _ _ widens created => widens.makeDirectory created) _
    (.refl system) made

/-! ## Names of drafts -/

def draftName (number : Nat) : Bytes :=
  ".novasm-" ++ Bytes.ofNat number

theorem draftName_injective : Function.Injective draftName :=
  fun _ _ same => Bytes.ofNat_injective (Bytes.append_left_cancel same)

theorem toList_draftName (number : Nat) :
    (draftName number).toList =
      [46, 110, 111, 118, 97, 115, 109, 45] ++ (Bytes.ofNat number).toList := by
  rw [draftName, Bytes.toList_append]
  rfl

theorem mem_draftName {byte : UInt8} (present : byte ∈ (draftName number).toList) :
    byte ≠ 47 ∧ byte ≠ 0 := by
  rw [toList_draftName, List.mem_append] at present
  rcases present with fixed | digit
  · have letters : ∀ letter ∈ ([46, 110, 111, 118, 97, 115, 109, 45] : List UInt8),
        letter ≠ 47 ∧ letter ≠ 0 := by simp
    exact letters byte fixed
  · obtain ⟨lower, _⟩ := Bytes.isDigit_ofNat digit
    constructor
    all_goals
      rintro rfl
      exact absurd lower (by decide)

theorem isPlain_draftName (number : Nat) : Path.IsPlain (draftName number) := by
  have long : 3 ≤ (draftName number).toList.length := by
    rw [toList_draftName]
    simp
  refine ⟨fun slash => (mem_draftName slash).1 rfl, ?_, ?_, ?_⟩
  · rw [Path.isEmpty_eq_false]
    intro none
    rw [none] at long
    exact absurd long (by decide)
  · intro same
    rw [same] at long
    exact absurd long (by decide)
  · intro same
    rw [same] at long
    exact absurd long (by decide)

theorem names_numberedDraft (path : Bytes) (number : Nat) :
    Path.Names (numberedDraft path number) (Path.parent path ++ "/") (draftName number) := by
  refine ⟨?_, (isPlain_draftName number).noSlash, .inr ⟨(Path.parent path).toList, ?_⟩⟩
  · refine Bytes.toList_injective ?_
    simp only [numberedDraft, draftName, Bytes.toList_append, List.append_assoc]
    rfl
  · rw [Bytes.toList_append, Path.toList_slash]

theorem draftPath_eq (path : Bytes) : draftPath path = numberedDraft path 0 := by
  refine Bytes.toList_injective ?_
  simp only [draftPath, numberedDraft, Bytes.toList_append, List.append_assoc]
  rfl

def IsDraftPlace (place : Location) : Prop :=
  ∃ above number, place = above ++ [draftName number]

theorem locate_numberedDraft (located : system.locate (numberedDraft path number) = .ok place) :
    ∃ above, system.directoryOf (Path.parent path ++ "/") = .ok above ∧
      system.lookup? above = some .directory ∧ place = above ++ [draftName number] := by
  obtain ⟨above, directory, walks⟩ := locate_eq_ok (names_numberedDraft path number) located
  obtain ⟨isDirectory, below | ⟨_, special⟩⟩ := walk_singleton walks
  · exact ⟨above, directory, isDirectory, below⟩
  · exact absurd (isPlain_draftName number) special

theorem walk_plain (plain : Path.IsPlain name)
    (isDirectory : system.lookup? above = some .directory) :
    system.walk above [name] =
      if 255 < name.size then .error .nameTooLong else .ok (above ++ [name]) := by
  have notHere : (name == ".".toUTF8) = false := beq_eq_false_iff_ne.2 plain.notHere
  have notAbove : (name == "..".toUTF8) = false := beq_eq_false_iff_ne.2 plain.notAbove
  rw [walk, isDirectory]
  simp only [plain.present, notHere, notAbove, Bool.or_false, Bool.false_eq_true, if_false]
  rfl

theorem fit_of_locate (located : system.locate path = .ok place) :
    (0 : UInt8) ∉ path.toList ∧ path.size < pathLimit := by
  unfold locate at located
  split at located
  · cases located
  · split at located
    · cases located
    · next noZero =>
      split at located
      · cases located
      · next short => exact ⟨fun zero => noZero (List.contains_iff_mem.2 zero), Nat.not_le.1 short⟩

/-- Drafts of the same output are as good as each other, but for the length of their names. -/
theorem locate_otherDraft (located : system.locate (numberedDraft path number) = .ok place)
    (other : Nat) :
    system.locate (numberedDraft path other) =
      if pathLimit ≤ (numberedDraft path other).size then .error .nameTooLong
      else if 255 < (draftName other).size then .error .nameTooLong
      else .ok (place.dropLast ++ [draftName other]) := by
  obtain ⟨above, directory, isDirectory, rfl⟩ := locate_numberedDraft located
  have noZero : (0 : UInt8) ∉ (Path.parent path ++ "/").toList := by
    intro zero
    refine (fit_of_locate located).1 ?_
    rw [(names_numberedDraft path number).whole, Bytes.toList_append]
    exact List.mem_append_left _ zero
  have names := names_numberedDraft path other
  have isEmpty : (numberedDraft path other).isEmpty = false := by
    rw [Path.isEmpty_eq_false, names.whole, Bytes.toList_append]
    exact List.append_ne_nil_of_right_ne_nil _
      (Path.isEmpty_eq_false.1 (isPlain_draftName other).present)
  have contains : (numberedDraft path other).toList.contains 0 = false := by
    rw [Bool.eq_false_iff]
    intro zero
    rw [List.contains_iff_mem, names.whole, Bytes.toList_append, List.mem_append] at zero
    rcases zero with inParent | inName
    · exact noZero inParent
    · exact (mem_draftName inName).2 rfl
  rw [locate_eq names, isEmpty, contains, directory, List.dropLast_concat]
  simp only [Bool.false_eq_true, if_false]
  split
  · rfl
  · exact walk_plain (isPlain_draftName other) isDirectory

/-- Where a draft can be made, one with the shortest name can be. -/
theorem isOk_locate_draftPath (located : system.locate (numberedDraft path number) = .ok place) :
    (system.locate (draftPath path)).isOk = true := by
  have isShort : (numberedDraft path 0).size < pathLimit := by
    refine Nat.lt_of_le_of_lt ?_ (fit_of_locate located).2
    unfold numberedDraft
    rw [ByteArray.size_append, ByteArray.size_append (b := Bytes.ofNat number)]
    exact Nat.add_le_add_left (Bytes.size_ofNat_pos number) _
  rw [draftPath_eq, locate_otherDraft located, if_neg (Nat.not_le.2 isShort), if_neg (by decide)]
  rfl

/-- If a draft with the shortest name can be made, others fail only for the length of theirs. -/
theorem eq_nameTooLong_of_draftPath {cause : Errno}
    (drafted : (system.locate (draftPath path)).isOk = true)
    (failed : system.locate (numberedDraft path number) = .error cause) : cause = .nameTooLong := by
  cases located : system.locate (draftPath path) with
  | error other =>
    rw [located] at drafted
    cases drafted
  | ok place =>
    rw [draftPath_eq] at located
    rw [locate_otherDraft located] at failed
    split at failed
    · cases failed
      rfl
    · split at failed
      · cases failed
        rfl
      · cases failed

theorem draftName_ne_assembly (number : Nat) (stem : Bytes) :
    draftName number ≠ stem ++ Build.assemblyExtension := by
  intro same
  have lists := congrArg (fun name => name.toList.getLast?) same
  obtain ⟨before, last, split⟩ : ∃ before last, (Bytes.ofNat number).toList = before ++ [last] := by
    have present : (Bytes.ofNat number).toList ≠ [] :=
      List.length_pos_iff.1 (Bytes.size_ofNat_pos number)
    exact ⟨_, _, (List.dropLast_append_getLast present).symm⟩
  have digit : last ∈ (Bytes.ofNat number).toList := by simp [split]
  rw [toList_draftName, split, ← List.append_assoc, List.getLast?_concat, Bytes.toList_append,
    Path.toList_assemblyExtension, List.getLast?_append] at lists
  cases lists
  exact absurd (Bytes.isDigit_ofNat digit).2 (by decide)

theorem not_isDraftPlace_output {file directory : Bytes}
    (located : system.locate (Build.outputPath file directory) = .ok place) :
    ¬ IsDraftPlace place := by
  obtain ⟨before, name, names⟩ := Path.exists_names file
  obtain ⟨stem, rfl⟩ := names.exists_stem
  obtain ⟨above, _, rfl⟩ := locate_plain (Path.names_outputPath names)
    (Path.isPlain_assembly names.noSlash_stem) located
  rintro ⟨other, number, same⟩
  have names := List.singleton_inj.1 (List.append_inj_right' same rfl)
  exact draftName_ne_assembly number stem names.symm

theorem endsHere_numberedDraft (path : Bytes) (number : Nat) :
    endsHere (numberedDraft path number) = false := by
  have names := names_numberedDraft path number
  have plain := isPlain_draftName number
  have whole : withoutFinalSlashes (numberedDraft path number) = numberedDraft path number := by
    unfold withoutFinalSlashes
    rw [names.no_final_slashes plain, List.reverse_reverse]
    dsimp only
    rw [Bytes.ofList_toList, ite_self]
  unfold endsHere
  rw [whole, names.split_eq, List.getLast?_concat]
  exact beq_eq_false_iff_ne.2 fun same => plain.notHere (Option.some.inj same)

end FileSystem

end WordMachine
