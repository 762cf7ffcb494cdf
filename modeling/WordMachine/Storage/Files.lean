import WordMachine.Storage.FileSystem

/-!
The files a program can reach: either a plain table from names to files, where creating a file
replaces the name's file by a new one, or a file system, where creating a file empties it.
-/

namespace WordMachine

/-- How a program opens a file. -/
inductive FileMode where
  | create
  | existing
  /-- Create if missing, and write at the end. -/
  | append
  deriving DecidableEq, Repr

def FileMode.ofCode? (code : Nat) : Option FileMode :=
  match code with
  | 0 => some .create
  | 1 => some .existing
  | 2 => some .append
  | _ => none

/-- Files by name without directories. -/
structure FileTable where
  names : List (Bytes × Nat) := []
  contents : Array Bytes := #[]
  deriving Inhabited

namespace FileTable

def find? (table : FileTable) (path : Bytes) : Option Nat :=
  (table.names.find? fun (name, _) => name == path).map (·.2)

def erase (table : FileTable) (path : Bytes) : FileTable :=
  { table with names := table.names.filter fun (name, _) => name != path }

/-- Gives a name a new file, whatever it named before. -/
def create (table : FileTable) (path text : Bytes) : Nat × FileTable :=
  let number := table.contents.size
  (number,
    { names := (path, number) :: (table.erase path).names, contents := table.contents.push text })

def read? (table : FileTable) (path : Bytes) : Option Bytes :=
  match table.find? path with
  | some number => table.contents[number]?
  | none => none

def openFile (table : FileTable) (path : Bytes) (mode : FileMode) : Option (Nat × FileTable) :=
  match mode, table.find? path with
  | .create, _ => some (table.create path ByteArray.empty)
  | .existing, some number => some (number, table)
  | .existing, none => none
  | .append, some number => some (number, table)
  | .append, none => some (table.create path ByteArray.empty)

end FileTable

inductive Files where
  | table (files : FileTable)
  | system (files : FileSystem)
  deriving Inhabited

namespace Files

def openFile : Files → Bytes → FileMode → Option (Nat × Files)
  | .table files, path, mode =>
    (files.openFile path mode).map fun (number, files) => (number, .table files)
  | .system files, path, mode =>
    match files.openFile path (mode != .existing) (mode == .create) with
    | .ok (number, files) => some (number, .system files)
    | .error _ => none

def remove? : Files → Bytes → Option Files
  | .table files, path =>
    if (files.find? path).isSome then some (.table (files.erase path)) else none
  | .system files, path =>
    match files.remove path with
    | .ok files => some (.system files)
    | .error _ => none

def content : Files → Nat → Bytes
  | .table files, number => files.contents[number]?.getD ByteArray.empty
  | .system files, number => files.content number

def setContent : Files → Nat → Bytes → Files
  | .table files, number, text =>
    .table { files with contents := files.contents.setIfInBounds number text }
  | .system files, number, text => .system (files.setContent number text)

/-- Whether reads of an open file can be made not to wait. -/
def canUnblock : Files → Bool
  | .table _ => false
  | .system _ => true

/-- Writes into a text at a position, filling a gap with zeros. -/
def overwrite (text : Bytes) (position : Nat) (data : Bytes) : Bytes :=
  Bytes.padRight (Bytes.take text position) position 0 ++ data ++
    Bytes.drop text (position + data.size)

/-- Whether writing no bytes at all has no effect. In a table it still moves to the end of a file
that is written at its end. -/
def ignoresEmpty : Files → Bool
  | .table _ => false
  | .system _ => true

/-- Writes to a file at a position, or at its end, and gives the position behind what was
written. -/
def write (files : Files) (number position : Nat) (append : Bool) (data : Bytes) : Nat × Files :=
  if data.isEmpty && files.ignoresEmpty then (position, files)
  else
    let text := files.content number
    let start := if append then text.size else position
    (start + data.size, files.setContent number (overwrite text start data))

end Files

end WordMachine
