import Std.Time.DateTime.Timestamp
import WordMachine.CommandLine.Basic

/-!
The command line as a process. The files that a command can reach are read before it starts: the
working directory with all below it, the places that arguments name, and the settings files above.
What the command leaves behind is written back when it ends.
-/

namespace WordMachine

def textBytes (text : String) : Bytes :=
  text.toUTF8

def pathText (path : Bytes) : String :=
  path.toString?.getD "?"

/-- Adds a file, or a directory and all below it. What cannot be read is left out. -/
partial def loadTree (system : FileSystem) (path : String) : IO FileSystem := do
  try
    let place ← IO.FS.realPath path
    if ← place.isDir then
      let mut system := (system.makeDirectories (textBytes place.toString)).toOption.getD system
      for entry in ← place.readDir do
        system ← loadTree system entry.path.toString
      return system
    else
      return system.plant (textBytes place.toString) (← IO.FS.readBinFile place)
  catch _ => return system

/-- Adds the settings files of the directories above a place. -/
def loadSettings (system : FileSystem) (location : Location) : IO FileSystem :=
  (List.range location.length).foldlM
    (fun system depth =>
      loadTree system (pathText
        (Path.join [FileSystem.pathOf (location.take depth), Config.fileName])))
    system

def loadFiles (arguments : List String) : IO FileSystem := do
  let here := (← IO.currentDir).toString
  let location := (Bytes.split (textBytes here) 47).filter fun name => !name.isEmpty
  let system ← loadTree (.empty location) here
  let system ← loadSettings system location
  let elsewhere := arguments.filter fun argument =>
    argument.startsWith "/" || argument.startsWith ".."
  elsewhere.foldlM loadTree system

def storeFiles (before after : FileSystem) : IO Unit := do
  for path in before.newDirectories after do
    IO.FS.createDirAll (pathText path)
  for (path, text) in before.updates after do
    IO.FS.writeBinFile (pathText path) text
  for (path, entry) in before.removals after do
    match entry with
    | .file _ => IO.FS.removeFile (pathText path)
    | .directory => IO.FS.removeDir (pathText path)

def loadEnvironment : IO (List (Bytes × Bytes)) := do
  try
    let block ← IO.FS.readBinFile "/proc/self/environ"
    return CommandLine.variables (Bytes.split block 0)
  catch _ => return []

partial def readAll (stream : IO.FS.Stream) (text : Bytes) : IO Bytes := do
  let part ← stream.read 65536
  if part.isEmpty then return text else readAll stream (text ++ part)

/-- Whether a command line can ask for console input. -/
def wantsInput (arguments : List Bytes) : Bool :=
  match CommandLine.plan arguments with
  | .ok (.perform .run _ _) => true
  | _ => false

end WordMachine

open WordMachine in
def main (arguments : List String) : IO UInt32 := do
  let files ← loadFiles arguments
  let texts := arguments.map textBytes
  let input ← if wantsInput texts then readAll (← IO.getStdin) ByteArray.empty
    else pure ByteArray.empty
  let now := (← Std.Time.Timestamp.now).toNanosecondsSinceUnixEpoch.toInt.toNat / 1000
  let environment ← loadEnvironment
  let outcome := CommandLine.execute { arguments := texts, environment, input, files, now }
  (← IO.getStdout).write outcome.output
  (← IO.getStderr).write outcome.errors
  storeFiles files outcome.files
  return outcome.status
