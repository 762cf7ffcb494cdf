import WordMachine.Config.Quantity
import WordMachine.Machine.Settings
import WordMachine.Storage.FileSystem
import WordMachine.Storage.Path
import WordMachine.Toml.Document

/-!
The settings file. It is a TOML document with the sections `vm`, `net` and `build`; what it does
not mention keeps its standard value.
-/

namespace WordMachine

structure Config where
  /-- Where the settings come from; empty without a file. -/
  path : Bytes := ByteArray.empty
  machine : Settings := .standard
  /-- Number of files built at a time; the machine decides when it is zero. -/
  jobs : Int := 0
  deriving Inhabited

/-- Why there are no settings. -/
inductive ConfigError where
  | unreadable (path : Bytes) (error : PathError)
  /-- The file is not TOML, or has a value of the wrong type. -/
  | malformed (path : Bytes)
  | unknownKey (path : Bytes) (key : Toml.Key)
  | size (path : Bytes) (name : String) (error : SizeError)
  | notPositive (path : Bytes) (name : String) (value : Int)
  | timeout (path text : Bytes)
  | negativeJobs (path : Bytes)
  | search (path : Bytes) (error : PathError)
  deriving DecidableEq

def ConfigError.message : ConfigError → Bytes
  | unreadable path error => path ++ ": failed to parse TOML: " ++ error.message
  | malformed path => path ++ ": failed to parse TOML: malformed document"
  | unknownKey path key => path ++ ": unknown key " ++ Toml.keyText key
  | size path name error => path ++ ": [vm]." ++ name ++ ": " ++ error.message
  | notPositive path name value =>
    path ++ ": [vm]." ++ name ++ " must be positive, got " ++ Bytes.ofInt value
  | timeout path text =>
    path ++ ": [net].connect_timeout: invalid duration " ++ Text.quote text
  | negativeJobs path => path ++ ": [build].jobs must not be negative"
  | search path error => "failed to stat " ++ Text.quote path ++ ": " ++ error.message

namespace Config

/-- Type of a setting. -/
inductive Kind where
  | text
  | integer
  deriving DecidableEq, Repr

def sections : List (Bytes × List (Bytes × Kind)) :=
  [("vm", [("gc_interval", .text), ("heap_limit", .text), ("eval_stack", .integer),
      ("const_stack", .integer), ("call_stack", .integer)]),
    ("net", [("connect_timeout", .text)]),
    ("build", [("jobs", .integer)])]

/-- A character as it counts when the case of letters does not. Two letters beyond ASCII are other
forms of ASCII letters. -/
def foldScalar (code : Nat) : Nat :=
  if 65 ≤ code && code ≤ 90 then code + 32
  else if code == 0x17f then 0x73
  else if code == 0x212a then 0x6b
  else code

def fold (name : Bytes) : Bytes :=
  Text.ofGlyphs ((Text.glyphs name).map fun
    | .scalar code => .scalar (foldScalar code)
    | stray => stray)

/-- What a name stands for; names match without regard to case. -/
def lookup? {α : Type} (table : List (Bytes × α)) (name : Bytes) : Option α :=
  (table.find? fun (found, _) => found == fold name).map (·.2)

def Kind.admits : Kind → Toml.Node → Bool
  | .text, .text _ => true
  | .integer, .integer _ => true
  | _, _ => false

/-- Whether every known key has a value of its type. -/
def wellTyped (root : Toml.Table) : Bool :=
  root.all fun (name, node) =>
    match lookup? sections name, node with
    | none, _ => true
    | some settings, .table members =>
      members.all fun (name, node) => (lookup? settings name).all (·.admits node)
    | some _, _ => false

def setting? (root : Toml.Table) (area name : Bytes) : Option Toml.Node :=
  match root.find? area with
  | some (.table members) => Toml.Table.find? members name
  | _ => none

/-- Whether a key names a section or a setting that is still in the document. A key that an array
has given way to can take others out of it. -/
def isKnown (root : Toml.Table) : Toml.Key → Bool
  | [area] => (lookup? sections area).isSome && (root.find? area).isSome
  | [area, name] =>
    ((lookup? sections area).bind (lookup? · name)).isSome && (setting? root area name).isSome
  | _ => false

def textSetting? (root : Toml.Table) (area name : Bytes) : Option Bytes :=
  match setting? root area name with
  | some (.text value) => some value
  | _ => none

def integerSetting? (root : Toml.Table) (area name : Bytes) : Option Int :=
  match setting? root area name with
  | some (.integer value) => some value
  | _ => none

def sizeSetting (path : Bytes) (root : Toml.Table) (name : String) (standard : Int64) :
    Except ConfigError Int64 :=
  match textSetting? root "vm" name with
  | none => .ok standard
  | some text => (Size.parse text).mapError (.size path name)

def capacitySetting (path : Bytes) (root : Toml.Table) (name : String) (standard : Int) :
    Except ConfigError Int :=
  match integerSetting? root "vm" name with
  | none => .ok standard
  | some value => if value ≤ 0 then .error (.notPositive path name value) else .ok value

def timeoutSetting (path : Bytes) (root : Toml.Table) (standard : Int) : Except ConfigError Int :=
  match textSetting? root "net" "connect_timeout" with
  | none => .ok standard
  | some text =>
    match Duration.parse text with
    | .ok nanos => if nanos ≤ 0 then .error (.timeout path text) else .ok nanos
    | .error _ => .error (.timeout path text)

def jobsSetting (path : Bytes) (root : Toml.Table) : Except ConfigError Int :=
  match integerSetting? root "build" "jobs" with
  | none => .ok 0
  | some jobs => if jobs < 0 then .error (.negativeJobs path) else .ok jobs

def ofDocument (path : Bytes) (document : Toml.Document) : Except ConfigError Config := do
  let root := document.root
  if !wellTyped root then .error (.malformed path)
  if let some key := document.keys.find? fun key => !isKnown root key then
    .error (.unknownKey path key)
  let base := Settings.standard
  let gcInterval ← sizeSetting path root "gc_interval" base.gcInterval
  let heapLimit ← sizeSetting path root "heap_limit" base.heapLimit
  let evalStack ← capacitySetting path root "eval_stack" base.evalStack
  let constStack ← capacitySetting path root "const_stack" base.constStack
  let callStack ← capacitySetting path root "call_stack" base.callStack
  let connectTimeout ← timeoutSetting path root base.connectTimeout
  let jobs ← jobsSetting path root
  let machine : Settings :=
    { gcInterval, heapLimit, evalStack, constStack, callStack, connectTimeout }
  .ok { path, machine, jobs }

def load (system : FileSystem) (path : Bytes) : Except ConfigError Config :=
  match system.read path with
  | .error error => .error (.unreadable path error)
  | .ok text =>
    match Toml.Document.parse text with
    | none => .error (.malformed path)
    | some document => ofDocument path document

def fileName : Bytes :=
  "novus.toml"

/-- Looks for a settings file in a directory and the directories above it. -/
def findFrom (system : FileSystem) : Nat → Bytes → Except ConfigError (Option Bytes)
  | 0, _ => .ok none
  | fuel + 1, directory =>
    let candidate := Path.join [directory, fileName]
    match system.stat candidate with
    | .ok _ => .ok (some candidate)
    | .error .notFound =>
      let above := Path.parent directory
      if above == directory then .ok none else findFrom system fuel above
    | .error cause => .error (.search candidate ⟨"stat", candidate, cause⟩)

def find (system : FileSystem) (start : Bytes) : Except ConfigError (Option Bytes) :=
  let start := Path.absolute system.workingPath (if start.isEmpty then "." else start)
  findFrom system (start.size + 1) start

def discover (system : FileSystem) (start : Bytes) : Except ConfigError Config := do
  match ← find system start with
  | some path => load system path
  | none => .ok {}

end Config

end WordMachine
