import WordMachine.Text.Bytes

/-!
A file system as a value: directories and files by location, and the contents of files by number,
so that an open file outlives its name. Paths are resolved as a process with a working directory
resolves them.
-/

namespace WordMachine

/-- Why an operation on the file system failed. -/
inductive Errno where
  | notFound | notDirectory | isDirectory | exists | notEmpty | invalid | nameTooLong | busy
  deriving DecidableEq, Repr

def Errno.message : Errno → String
  | .notFound => "no such file or directory"
  | .notDirectory => "not a directory"
  | .isDirectory => "is a directory"
  | .exists => "file exists"
  | .notEmpty => "directory not empty"
  | .invalid => "invalid argument"
  | .nameTooLong => "file name too long"
  | .busy => "device or resource busy"

/-- A failed operation with its subject. -/
structure PathError where
  action : Bytes
  path : Bytes
  cause : Errno
  deriving DecidableEq

def PathError.message (error : PathError) : Bytes :=
  error.action ++ " " ++ error.path ++ ": " ++ error.cause.message

/-- A place in the file system: the names from the root down. -/
abbrev Location := List Bytes

/-- What a location holds. -/
inductive Entry where
  | directory
  | file (number : Nat)
  deriving DecidableEq, Repr

structure FileSystem where
  workingDirectory : Location
  entries : List (Location × Entry)
  contents : Array Bytes
  deriving Inhabited

namespace FileSystem

/-- The number of the file that keeps nothing of what is written to it. -/
def sink : Nat := 0

/-- A file system with nothing but the directories above the working directory, and the sink. -/
def empty (workingDirectory : Location) : FileSystem where
  workingDirectory
  entries :=
    (["dev"], .directory) :: (["dev", "null"], .file sink) ::
      (List.range workingDirectory.length).map fun depth =>
        (workingDirectory.take (depth + 1), .directory)
  contents := #[ByteArray.empty]

def workingPath (system : FileSystem) : Bytes :=
  "/" ++ Bytes.join "/" system.workingDirectory

def lookup? (system : FileSystem) (location : Location) : Option Entry :=
  if location.isEmpty then some .directory
  else (system.entries.find? fun (found, _) => found == location).map (·.2)

/-- Follows names downwards from a location. Every location passed through must be a directory;
the last one need not exist. -/
def walk (system : FileSystem) : Location → List Bytes → Except Errno Location
  | location, [] => .ok location
  | location, name :: rest =>
    match system.lookup? location with
    | none => .error .notFound
    | some (.file _) => .error .notDirectory
    | some .directory =>
      if name.isEmpty || name == ".".toUTF8 then walk system location rest
      else if name == "..".toUTF8 then walk system location.dropLast rest
      else if 255 < name.size then .error .nameTooLong
      else walk system (location ++ [name]) rest

def pathLimit : Nat := 4096

def locate (system : FileSystem) (path : Bytes) : Except Errno Location :=
  if path.isEmpty then .error .notFound
  else if path.toList.contains 0 then .error .invalid
  else if pathLimit ≤ path.size then .error .nameTooLong
  else
    let start := if path[0]? == some 47 then [] else system.workingDirectory
    walk system start (Bytes.split path 47)

def stat (system : FileSystem) (path : Bytes) : Except Errno Entry := do
  let location ← system.locate path
  match system.lookup? location with
  | some entry => .ok entry
  | none => .error .notFound

def setEntry (system : FileSystem) (location : Location) (entry : Entry) : FileSystem :=
  { system with
    entries := (location, entry) :: system.entries.filter fun (found, _) => found != location }

def eraseEntry (system : FileSystem) (location : Location) : FileSystem :=
  { system with entries := system.entries.filter fun (found, _) => found != location }

def addFile (system : FileSystem) (location : Location) (text : Bytes) : Nat × FileSystem :=
  let number := system.contents.size
  (number,
    { system.setEntry location (.file number) with contents := system.contents.push text })

def content (system : FileSystem) (number : Nat) : Bytes :=
  system.contents[number]?.getD ByteArray.empty

def setContent (system : FileSystem) (number : Nat) (text : Bytes) : FileSystem :=
  if number = sink then system
  else { system with contents := system.contents.setIfInBounds number text }

def read (system : FileSystem) (path : Bytes) : Except PathError Bytes :=
  match system.stat path with
  | .ok (.file number) => .ok (system.content number)
  | .ok .directory => .error ⟨"read", path, .isDirectory⟩
  | .error cause => .error ⟨"open", path, cause⟩

def withoutFinalSlashes (path : Bytes) : Bytes :=
  let front := (path.toList.reverse.dropWhile (· == 47)).reverse
  if front.isEmpty then path else Bytes.ofList front

/-- Opens a file for writing. A missing file is created when `create` is set, and an existing one
emptied when `truncate` is. A slash at the end asks for a directory, which cannot be created. -/
def openFile (system : FileSystem) (path : Bytes) (create truncate : Bool) :
    Except Errno (Nat × FileSystem) := do
  if create && path.endsWith "/" then
    let _ ← system.locate (withoutFinalSlashes path)
    .error .isDirectory
  let location ← system.locate path
  match system.lookup? location with
  | some .directory => .error .isDirectory
  | some (.file number) =>
    .ok (number, if truncate then system.setContent number ByteArray.empty else system)
  | none => if create then .ok (system.addFile location ByteArray.empty) else .error .notFound

def write (system : FileSystem) (path text : Bytes) : Except PathError FileSystem :=
  match system.openFile path true true with
  | .ok (number, system) => .ok (system.setContent number text)
  | .error cause => .error ⟨"open", path, cause⟩

def names (system : FileSystem) (location : Location) : List Bytes :=
  Bytes.sort <| system.entries.filterMap fun (found, _) =>
    if !found.isEmpty && found.dropLast == location then found.getLast? else none

/-- Whether the last name of a path says "here". -/
def endsHere (path : Bytes) : Bool :=
  (Bytes.split (withoutFinalSlashes path) 47).getLast? == some ".".toUTF8

/-- Removes a file or an empty directory. A directory cannot be removed by the name it has for
itself. -/
def remove (system : FileSystem) (path : Bytes) : Except PathError FileSystem :=
  let place := if endsHere path then .error .invalid else system.locate path
  match place with
  | .error cause => .error ⟨"remove", path, cause⟩
  | .ok location =>
    match system.lookup? location with
    | none => .error ⟨"remove", path, .notFound⟩
    | some (.file _) => .ok (system.eraseEntry location)
    | some .directory =>
      if location.isEmpty then .error ⟨"remove", path, .busy⟩
      else if (system.names location).isEmpty then .ok (system.eraseEntry location)
      else .error ⟨"remove", path, .notEmpty⟩

def makeDirectory (system : FileSystem) (path : Bytes) : Except Errno FileSystem := do
  let location ← system.locate (withoutFinalSlashes path)
  match system.lookup? location with
  | some _ => .error .exists
  | none => .ok (system.setEntry location .directory)

end FileSystem

end WordMachine
