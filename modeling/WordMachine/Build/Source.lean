import WordMachine.Assembly.File
import WordMachine.Lowering.Program
import WordMachine.Program.File
import WordMachine.Storage.Tree

/-!
Programs and assemblies as files.
-/

namespace WordMachine.Build

def programExtension : Bytes := ".nvp"

def assemblyExtension : Bytes := ".nva"

/-- Why a file gives no program or assembly. -/
inductive ReadError where
  | access (error : PathError)
  | program (path : Bytes) (error : Program.FileError)
  | assembly (path : Bytes) (error : Assembly.FileError)
  | lowering (path : Bytes) (error : Lowering.Error)
  deriving DecidableEq

def ReadError.message : ReadError → Bytes
  | access error => error.message
  | program path error => path ++ ": " ++ error.message
  | assembly path error => path ++ ": " ++ error.message
  | lowering path error => path ++ ": " ++ error.message

/-- The program in a file. A directory can be opened and is only then found to hold nothing. -/
def readProgram (system : FileSystem) (path : Bytes) : Except ReadError Program :=
  match system.read path with
  | .ok data => (Program.load data).mapError (.program path)
  | .error error =>
    if error.cause = .isDirectory then .error (.program path (.malformed error.message))
    else .error (.access error)

def readAssembly (system : FileSystem) (path : Bytes) : Except ReadError Assembly :=
  match system.read path with
  | .ok data => (Assembly.load data).mapError (.assembly path)
  | .error error =>
    if error.cause = .isDirectory then .error (.assembly path (.malformed error.message))
    else .error (.access error)

/-- The assembly of a file: a program is lowered, anything else must be an assembly. What was
lowered is told too. -/
def readCode (system : FileSystem) (path : Bytes) :
    Option Lowering.Outcome × Except ReadError Assembly :=
  if Path.extension path == programExtension then
    match readProgram system path with
    | .error error => (none, .error error)
    | .ok program =>
      let outcome := Lowering.outcome program
      (some outcome, outcome.result.mapError (.lowering path))
  else (none, readAssembly system path)

/-- Where the assembly of a program file is written: beside it, or in the given directory. -/
def outputPath (file directory : Bytes) : Bytes :=
  let target := Bytes.take file (file.size - (Path.extension file).size) ++ assemblyExtension
  if directory.isEmpty then target else Path.join [directory, Path.base target]

/-- Why arguments name no files to build. -/
inductive ExpandError where
  | access (error : PathError)
  | noFiles
  deriving DecidableEq

def ExpandError.message : ExpandError → Bytes
  | access error => error.message
  | noFiles => "no " ++ programExtension ++ " files found"

/-- The files an argument names: itself, or the program files below it. -/
def expandOne (system : FileSystem) (argument : Bytes) : Except ExpandError (List Bytes) :=
  match system.stat argument, system.locate argument with
  | .error cause, _ => .error (.access ⟨"stat", argument, cause⟩)
  | .ok .directory, .ok location =>
    let paths := (system.filesBelow location).map fun (names, _) => Path.join (argument :: names)
    .ok (paths.filter fun path => Path.extension path == programExtension)
  | .ok _, _ => .ok [Path.clean argument]

def expand (system : FileSystem) (arguments : List Bytes) : Except ExpandError (List Bytes) := do
  let files ← arguments.mapM (expandOne system)
  let files := files.flatten.eraseDups
  if files.isEmpty then .error .noFiles else .ok (Bytes.sort files)

end WordMachine.Build
