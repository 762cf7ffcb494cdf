import WordMachine.Storage.FileSystem
import WordMachine.Storage.Path

/-!
Operations on whole trees of a file system: making directories with those above them, replacing a
file in one step, the files below a directory, and what differs between two states.
-/

namespace WordMachine.FileSystem

def isDirectory (system : FileSystem) (path : Bytes) : Bool :=
  match system.stat path with
  | .ok .directory => true
  | _ => false

/-- The part of a path up to the slash before its last name. -/
def aboveText (path : Bytes) : Bytes :=
  Bytes.ofList
    (((path.toList.reverse.dropWhile (· == 47)).dropWhile (· != 47)).reverse)

def makeDirectoriesWith : Nat → FileSystem → Bytes → Except PathError FileSystem
  | 0, system, _ => .ok system
  | fuel + 1, system, path =>
    match system.stat path with
    | .ok .directory => .ok system
    | .ok (.file _) => .error ⟨"mkdir", path, .notDirectory⟩
    | .error _ => do
      let above := aboveText path
      let system ← if above.isEmpty then .ok system else makeDirectoriesWith fuel system above
      match system.makeDirectory path with
      | .ok system => .ok system
      | .error cause =>
        if system.isDirectory path then .ok system else .error ⟨"mkdir", path, cause⟩

def makeDirectories (system : FileSystem) (path : Bytes) : Except PathError FileSystem :=
  makeDirectoriesWith (path.size + 1) system path

/-- Name of the file that takes the new contents before it gets its name. -/
def draftPath (path : Bytes) : Bytes :=
  Path.parent path ++ "/.novasm-0"

/-- Why a file could not be replaced. -/
inductive ReplaceError where
  /-- The new contents have no place to be written. -/
  | create (error : PathError)
  /-- The new file cannot take the name. -/
  | rename (source target : Bytes) (cause : Errno)
  deriving DecidableEq

def ReplaceError.message : ReplaceError → Bytes
  | create error => error.message
  | rename source target cause =>
    "rename " ++ source ++ " " ++ target ++ ": " ++ cause.message

/-- Gives a name to a new file with the given contents, in one step: the old file stays as it is
for those who have it open. -/
def replaceFile (system : FileSystem) (path text : Bytes) : Except ReplaceError FileSystem :=
  let draft := draftPath path
  let rename (cause : Errno) : Except ReplaceError FileSystem := .error (.rename draft path cause)
  match system.locate draft with
  | .error cause => .error (.create ⟨"open", draft, cause⟩)
  | .ok _ =>
    if system.isDirectory path then rename .exists
    else if path.endsWith "/" then rename .notDirectory
    else
      match system.locate path with
      | .error cause => rename cause
      | .ok location => .ok (system.addFile location text).2

/-- Name of a file that takes new contents before it gets its name, with the number drawn for it. -/
def numberedDraft (path : Bytes) (number : Nat) : Bytes :=
  Path.parent path ++ "/.novasm-" ++ Bytes.ofNat number

/-- Creates an empty file where nothing is: its place, and its number to write to it. -/
def createFile (system : FileSystem) (path : Bytes) :
    Except Errno (Location × Nat × FileSystem) := do
  let location ← system.locate path
  match system.lookup? location with
  | some _ => .error .exists
  | none => .ok (location, system.addFile location ByteArray.empty)

/-- Gives a file another name, in one step and whatever file had that name. -/
def renameFile (system : FileSystem) (source target : Bytes) : Except Errno FileSystem :=
  if system.isDirectory target then .error .exists
  else if target.endsWith "/" then .error .notDirectory
  else do
    let origin ← system.locate source
    let location ← system.locate target
    match system.lookup? origin with
    | some (.file number) =>
      .ok ((system.eraseEntry origin).setEntry location (.file number))
    | _ => .error .notFound

def filesBelow (system : FileSystem) (directory : Location) : List (List Bytes × Bytes) :=
  system.entries.filterMap fun (location, entry) =>
    match entry with
    | .directory => none
    | .file number =>
      if location.take directory.length == directory then
        some (location.drop directory.length, system.content number)
      else none

/-- The files in and below the working directory, by path. -/
def files (system : FileSystem) : List (Bytes × Bytes) :=
  (system.filesBelow system.workingDirectory).map fun (names, text) => (Bytes.join "/" names, text)

def changes (before after : FileSystem) : List (Bytes × Bytes) :=
  after.files.filter fun (path, text) =>
    !before.files.any fun (oldPath, oldText) => oldPath == path && oldText == text

def pathOf (location : Location) : Bytes :=
  "/" ++ Bytes.join "/" location

def newDirectories (before after : FileSystem) : List Bytes :=
  after.entries.filterMap fun (location, entry) =>
    if entry = .directory && (before.lookup? location).isNone then some (pathOf location) else none

/-- The files anywhere that are new or have other contents than before. -/
def updates (before after : FileSystem) : List (Bytes × Bytes) :=
  let old := before.filesBelow []
  ((after.filesBelow []).filter fun file => !old.contains file).map fun (location, text) =>
    (pathOf location, text)

def removals (before after : FileSystem) : List (Bytes × Entry) :=
  before.entries.filterMap fun (location, entry) =>
    if (after.lookup? location).isNone then some (pathOf location, entry) else none

def plant (system : FileSystem) (path text : Bytes) : FileSystem :=
  let above := aboveText path
  let system :=
    if above.isEmpty then system else (system.makeDirectories above).toOption.getD system
  (system.write path text).toOption.getD system

end WordMachine.FileSystem
