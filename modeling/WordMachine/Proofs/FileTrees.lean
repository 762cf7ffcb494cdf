import Mathlib
import WordMachine.Proofs.PathNames

/-!
What paths name in a file system in which everything lies in a directory, and how that changes when
a file takes a name.
-/

namespace WordMachine

namespace FileSystem

variable {path name before : Bytes}

/-- A file system in which files have contents and everything lies in a directory. -/
structure Sound (system : FileSystem) : Prop where
  numbered : ∀ location number, system.lookup? location = some (.file number) →
    number < system.contents.size
  rooted : ∀ location entry, system.lookup? location = some entry →
    system.lookup? location.dropLast = some .directory

variable {system after : FileSystem} {location place above : Location}

theorem lookup?_nil (system : FileSystem) : system.lookup? [] = some .directory := rfl

theorem mem_of_lookup? {entry : Entry} (found : system.lookup? location = some entry) :
    location = [] ∧ entry = .directory ∨ (location, entry) ∈ system.entries := by
  unfold lookup? at found
  split at found
  · next root =>
    cases found
    exact .inl ⟨List.isEmpty_iff.1 root, rfl⟩
  · obtain ⟨⟨other, _⟩, first, rfl⟩ := Option.map_eq_some_iff.1 found
    have named := List.find?_some first
    have same : other = location := eq_of_beq named
    exact .inr (same ▸ List.mem_of_find?_eq_some first)

theorem Sound.of_entries (numbered : ∀ location number, (location, .file number) ∈ system.entries →
      number < system.contents.size)
    (rooted : ∀ entry ∈ system.entries, system.lookup? entry.1.dropLast = some .directory) :
    system.Sound := by
  constructor
  · intro location number found
    rcases mem_of_lookup? found with ⟨_, isDirectory⟩ | present
    · cases isDirectory
    · exact numbered location number present
  · intro location entry found
    rcases mem_of_lookup? found with ⟨rfl, _⟩ | present
    · exact system.lookup?_nil
    · exact rooted _ present

/-! ## Following names -/

theorem walk_append (system : FileSystem) (location : Location) (first second : List Bytes) :
    system.walk location (first ++ second) =
      (system.walk location first).bind fun place => system.walk place second := by
  induction first generalizing location with
  | nil => rfl
  | cons name first ih =>
    rw [List.cons_append, walk, walk]
    cases system.lookup? location with
    | none => rfl
    | some entry =>
      cases entry with
      | file number => rfl
      | directory =>
        dsimp only
        split
        · exact ih _
        · split
          · exact ih _
          · split
            · rfl
            · exact ih _

/-- Following one name leads to what has that name below a directory, except for the names that
stand for the directory itself or the one above it. -/
theorem walk_singleton (walks : system.walk above [name] = .ok place) :
    system.lookup? above = some .directory ∧
      (place = above ++ [name] ∨
        (place = above ∨ place = above.dropLast) ∧ ¬ Path.IsPlain name) := by
  rw [walk] at walks
  cases isThere : system.lookup? above with
  | none => simp [isThere] at walks
  | some entry =>
    cases entry with
    | file number => simp [isThere] at walks
    | directory =>
      refine ⟨rfl, ?_⟩
      simp only [isThere] at walks
      split at walks
      · next here =>
        cases walks
        refine .inr ⟨.inl rfl, fun plain => ?_⟩
        rcases Bool.or_eq_true_iff.1 here with none | same
        · rw [plain.present] at none
          cases none
        · exact plain.notHere (eq_of_beq same)
      · split at walks
        · next up =>
          cases walks
          exact .inr ⟨.inr rfl, fun plain => plain.notAbove (eq_of_beq up)⟩
        · split at walks
          · cases walks
          · cases walks
            exact .inl rfl

/-- Where a path starts depends only on what stands before its last name. -/
def startOf (system : FileSystem) (before : Bytes) : Location :=
  if before[0]? == some 47 then [] else system.workingDirectory

/-- The directory that the names of a path before the last one lead to. -/
def directoryOf (system : FileSystem) (before : Bytes) : Except Errno Location :=
  system.walk (system.startOf before) (Path.partsAbove before)

/-- A path that is fit to be one is followed through its directory to its last name. -/
theorem locate_eq (names : Path.Names path before name) :
    system.locate path =
      if path.isEmpty then .error .notFound
      else if path.toList.contains 0 then .error .invalid
      else if pathLimit ≤ path.size then .error .nameTooLong
      else (system.directoryOf before).bind fun above => system.walk above [name] := by
  have start : (path[0]? == some (47 : UInt8)) = (before[0]? == some 47) := by
    obtain ⟨rfl, plain, above⟩ := names
    rw [Bytes.getElem?_eq, Bytes.getElem?_eq, Bytes.toList_append]
    rcases above with none | ⟨directory, some⟩
    · rw [none, List.nil_append, List.getElem?_nil]
      refine beq_eq_false_iff_ne.2 fun slash => plain (List.mem_of_getElem? slash)
    · rw [some, List.getElem?_append_left (by simp)]
  unfold locate
  dsimp only
  rw [names.split_eq, walk_append, start]
  rfl

theorem locate_eq_ok (names : Path.Names path before name)
    (located : system.locate path = .ok place) :
    ∃ above, system.directoryOf before = .ok above ∧ system.walk above [name] = .ok place := by
  rw [locate_eq names] at located
  split at located
  · cases located
  · split at located
    · cases located
    · split at located
      · cases located
      · cases directory : system.directoryOf before with
        | error cause =>
          rw [directory] at located
          cases located
        | ok above =>
          rw [directory] at located
          exact ⟨above, rfl, located⟩

theorem locate_plain (names : Path.Names path before name) (plain : Path.IsPlain name)
    (located : system.locate path = .ok place) :
    ∃ above, system.directoryOf before = .ok above ∧ place = above ++ [name] := by
  obtain ⟨above, directory, walks⟩ := locate_eq_ok names located
  rcases (walk_singleton walks).2 with below | ⟨_, special⟩
  · exact ⟨above, directory, below⟩
  · exact absurd plain special

theorem Sound.locate_file (sound : system.Sound) (names : Path.Names path before name)
    (located : system.locate path = .ok place) (isFile : system.lookup? place ≠ some .directory) :
    ∃ above, system.directoryOf before = .ok above ∧ system.lookup? above = some .directory ∧
      place = above ++ [name] := by
  obtain ⟨above, directory, walks⟩ := locate_eq_ok names located
  obtain ⟨isDirectory, below | ⟨rfl | rfl, _⟩⟩ := walk_singleton walks
  · exact ⟨above, directory, isDirectory, below⟩
  · exact absurd isDirectory isFile
  · exact absurd (sound.rooted above _ isDirectory) isFile

/-! ## A file takes a name -/

theorem lookup?_setEntry (system : FileSystem) (entry : Entry) (other : Location)
    (present : location ≠ []) :
    (system.setEntry location entry).lookup? other =
      if other = location then some entry else system.lookup? other := by
  by_cases same : other = location
  · subst same
    simp [lookup?, setEntry, present]
  · rw [if_neg same]
    unfold lookup? setEntry
    split
    · rfl
    · congr 1
      rw [List.find?_cons_of_neg (by simpa using Ne.symm same), List.find?_filter]
      congr 1
      funext found
      by_cases isOther : found.1 = other
      · simp [isOther, same]
      · simp [isOther]

theorem lookup?_addFile (system : FileSystem) (text : Bytes) (other : Location)
    (present : location ≠ []) :
    (system.addFile location text).2.lookup? other =
      if other = location then some (.file system.contents.size) else system.lookup? other :=
  system.lookup?_setEntry (.file system.contents.size) other present

/-- A new file where no directory was leaves every other path where it led. -/
theorem walk_addFile {start : Location} {names : List Bytes} (text : Bytes)
    (free : system.lookup? location ≠ some .directory) :
    (system.addFile location text).2.walk start names = .ok place ↔
      system.walk start names = .ok place := by
  have present : location ≠ [] := by
    rintro rfl
    exact free rfl
  induction names generalizing start with
  | nil => exact Iff.rfl
  | cons name names ih =>
    rw [walk, walk, lookup?_addFile system text start present]
    by_cases same : start = location
    · subst same
      rw [if_pos rfl]
      cases found : system.lookup? start with
      | none => simp
      | some entry =>
        cases entry with
        | file number => simp
        | directory => exact absurd found free
    · rw [if_neg same]
      cases system.lookup? start with
      | none => exact Iff.rfl
      | some entry =>
        cases entry with
        | file number => exact Iff.rfl
        | directory =>
          dsimp only
          split
          · exact ih
          · split
            · exact ih
            · split
              · exact Iff.rfl
              · exact ih

theorem locate_addFile (text : Bytes) (free : system.lookup? location ≠ some .directory) :
    (system.addFile location text).2.locate path = .ok place ↔ system.locate path = .ok place := by
  unfold locate
  split
  · exact Iff.rfl
  · split
    · exact Iff.rfl
    · split
      · exact Iff.rfl
      · exact walk_addFile text free

theorem Sound.addFile (sound : system.Sound) (text : Bytes)
    (isDirectory : system.lookup? above = some .directory)
    (free : system.lookup? (above ++ [name]) ≠ some .directory) :
    (system.addFile (above ++ [name]) text).2.Sound := by
  have present : above ++ [name] ≠ [] := by simp
  have apart : ∀ other, system.lookup? other = some .directory → other ≠ above ++ [name] := by
    rintro other directory rfl
    exact free directory
  constructor
  · intro other number found
    rw [lookup?_addFile system text other present] at found
    change number < (system.contents.push text).size
    rw [Array.size_push]
    split at found
    · cases found
      exact Nat.lt_succ_self _
    · exact Nat.lt_succ_of_lt (sound.numbered other number found)
  · intro other entry found
    rw [lookup?_addFile system text other present] at found
    rw [lookup?_addFile system text other.dropLast present]
    split at found
    · next same =>
      rw [same, List.dropLast_concat, if_neg (apart above isDirectory)]
      exact isDirectory
    · have directory := sound.rooted other entry found
      rw [if_neg (apart _ directory)]
      exact directory

theorem replaceFile_eq_ok {text : Bytes} (replaced : system.replaceFile path text = .ok after) :
    ∃ place, system.locate path = .ok place ∧ system.lookup? place ≠ some .directory ∧
      after = (system.addFile place text).2 := by
  unfold replaceFile at replaced
  dsimp only at replaced
  split at replaced
  · cases replaced
  · split at replaced
    · cases replaced
    · next noDirectory =>
      split at replaced
      · cases replaced
      · split at replaced
        · cases replaced
        · next place located =>
          cases replaced
          refine ⟨place, located, ?_, rfl⟩
          intro isDirectory
          refine noDirectory ?_
          unfold FileSystem.isDirectory stat
          rw [located]
          simp [bind, Except.bind, isDirectory]

/-- A file can be replaced wherever a new one could be and no directory is. -/
theorem replaceFile_of (text : Bytes) (drafted : (system.locate (draftPath path)).isOk = true)
    (located : system.locate path = .ok place) (free : system.isDirectory path = false)
    (ends : path.endsWith "/" = false) :
    system.replaceFile path text = .ok (system.addFile place text).2 := by
  unfold FileSystem.replaceFile
  cases draft : system.locate (draftPath path) with
  | error cause =>
    rw [draft] at drafted
    cases drafted
  | ok _ => simp only [draft, located, free, ends, Bool.false_eq_true, if_false]

theorem Sound.replaceFile (sound : system.Sound) {text : Bytes}
    (replaced : system.replaceFile path text = .ok after) : after.Sound := by
  obtain ⟨place, located, free, rfl⟩ := replaceFile_eq_ok replaced
  obtain ⟨before, name, names⟩ := Path.exists_names path
  obtain ⟨above, _, isDirectory, rfl⟩ := sound.locate_file names located free
  exact sound.addFile text isDirectory free

/-! ## What files hold -/

def held? (system : FileSystem) (location : Location) : Option Bytes :=
  match system.lookup? location with
  | some (.file number) => some (system.content number)
  | _ => none

theorem read_eq_ok {data : Bytes} :
    system.read path = .ok data ↔
      ∃ place, system.locate path = .ok place ∧ system.held? place = some data := by
  unfold read stat held?
  cases located : system.locate path with
  | error cause => simp [bind, Except.bind]
  | ok place =>
    simp only [bind, Except.bind, Except.ok.injEq, exists_eq_left']
    cases found : system.lookup? place with
    | none => simp
    | some entry => cases entry <;> simp

theorem read_of_lookup? {number : Nat} (located : system.locate path = .ok place)
    (found : system.lookup? place = some (.file number)) :
    system.read path = .ok (system.content number) :=
  read_eq_ok.2 ⟨place, located, by simp [held?, found]⟩

theorem lookup?_of_held? {data : Bytes} (holds : system.held? place = some data) :
    system.lookup? place ≠ some .directory := by
  intro isDirectory
  rw [held?, isDirectory] at holds
  cases holds

theorem Sound.held?_addFile (sound : system.Sound) (text : Bytes) (other : Location)
    (present : location ≠ []) :
    (system.addFile location text).2.held? other =
      if other = location then some text else system.held? other := by
  unfold held?
  rw [lookup?_addFile system text other present]
  by_cases same : other = location
  · rw [if_pos same, if_pos same]
    simp [FileSystem.addFile, content]
  · rw [if_neg same, if_neg same]
    cases found : system.lookup? other with
    | none => rfl
    | some entry =>
      cases entry with
      | directory => rfl
      | file number =>
        have bound := sound.numbered other number found
        have kept : (system.contents.push text)[number]? = system.contents[number]? :=
          (Array.getElem?_push ..).trans (if_neg (Nat.ne_of_lt bound))
        change some ((system.contents.push text)[number]?.getD ByteArray.empty) = _
        rw [kept]
        rfl

/-! ## New directories -/

theorem makeDirectory_eq_ok (made : system.makeDirectory path = .ok after) :
    ∃ place, system.locate (withoutFinalSlashes path) = .ok place ∧
      system.lookup? place = none ∧ after = system.setEntry place .directory := by
  unfold FileSystem.makeDirectory at made
  cases located : system.locate (withoutFinalSlashes path) with
  | error cause => simp [located, bind, Except.bind] at made
  | ok place =>
    simp only [located, bind, Except.bind] at made
    split at made
    · cases made
    · next free =>
      cases made
      exact ⟨place, rfl, free, rfl⟩

theorem Sound.makeDirectory (sound : system.Sound) (made : system.makeDirectory path = .ok after) :
    after.Sound := by
  obtain ⟨place, located, free, rfl⟩ := makeDirectory_eq_ok made
  obtain ⟨before, name, names⟩ := Path.exists_names (withoutFinalSlashes path)
  obtain ⟨above, _, isDirectory, rfl⟩ := sound.locate_file names located (by simp [free])
  have present : above ++ [name] ≠ [] := by simp
  have kept : ∀ other, system.lookup? other = some .directory →
      (system.setEntry (above ++ [name]) .directory).lookup? other = some .directory := by
    intro other directory
    rw [lookup?_setEntry system .directory other present]
    split
    · rfl
    · exact directory
  constructor
  · intro other number found
    rw [lookup?_setEntry system .directory other present] at found
    split at found
    · cases found
    · exact sound.numbered other number found
  · intro other entry found
    rw [lookup?_setEntry system .directory other present] at found
    split at found
    · next same =>
      rw [same, List.dropLast_concat]
      exact kept above isDirectory
    · exact kept _ (sound.rooted other entry found)

theorem makeDirectories_of_stat (isThere : system.stat path = .ok .directory) :
    system.makeDirectories path = .ok system := by
  unfold makeDirectories FileSystem.makeDirectoriesWith
  rw [isThere]

theorem bind_eq_ok {error α β : Type} {first : Except error α} {next : α → Except error β}
    {result : β} (ends : first >>= next = .ok result) :
    ∃ value, first = .ok value ∧ next value = .ok result := by
  cases first with
  | error cause => cases ends
  | ok value => exact ⟨value, rfl, ends⟩

theorem makeDirectoriesWith_induction {motive : FileSystem → Prop}
    (step : ∀ between made path, motive between → between.makeDirectory path = .ok made →
      motive made) (fuel : Nat) (begins : motive system)
    (made : makeDirectoriesWith fuel system path = .ok after) : motive after := by
  induction fuel generalizing system path after with
  | zero =>
    cases made
    exact begins
  | succ fuel ih =>
    unfold FileSystem.makeDirectoriesWith at made
    split at made
    · cases made
      exact begins
    · cases made
    · dsimp only at made
      -- Whether or not directories above had to be made, the last one is made as the others are.
      obtain ⟨between, holds, made⟩ : ∃ between : FileSystem, motive between ∧
          (between.makeDirectory path = .ok after ∨ between = after) := by
        split at made
        all_goals
          obtain ⟨between, made, last⟩ := bind_eq_ok made
          refine ⟨between, ?_, ?_⟩
        case' isTrue.refine_1 =>
          cases made
          exact begins
        case' isFalse.refine_1 => exact ih begins made
        all_goals
          split at last
          · next created =>
            cases last
            exact .inl created
          · split at last
            · cases last
              exact .inr rfl
            · cases last
      rcases made with created | rfl
      · exact step _ _ _ holds created
      · exact holds

theorem Sound.makeDirectoriesWith (sound : system.Sound) (fuel : Nat)
    (made : FileSystem.makeDirectoriesWith fuel system path = .ok after) : after.Sound :=
  makeDirectoriesWith_induction (fun _ _ _ isSound created => isSound.makeDirectory created) fuel
    sound made

end FileSystem

end WordMachine
