import WordMachine.Platform.Input
import WordMachine.Platform.Network
import WordMachine.Storage.Files

/-!
The world outside the machine: console, arguments, environment, files, network, terminal and
clock, and the byte channels a program opens to it.
-/

namespace WordMachine

inductive FileEvent where
  /-- It was opened, and may have to be removed when it is closed. -/
  | opened (handle : Nat) (path : Bytes) (autoRemove : Bool)
  | closed (handle : Nat)
  | discarded (handle : Nat) (path : Bytes)
  deriving DecidableEq

/-- Everything a program can reach outside the machine. -/
structure Platform where
  input : Input := { source := ByteArray.empty }
  output : Bytes := ByteArray.empty
  errors : Bytes := ByteArray.empty
  arguments : Array Bytes := #[]
  environment : List (Bytes × Bytes) := []
  files : Files := .table {}
  network : Network := {}
  /-- The options set on the terminal; nothing without a terminal. -/
  terminal : Option UInt32 := some 0
  /-- Nanoseconds since the platform was made. -/
  clock : Nat := 1
  epochMicros : Nat := 1735689600000000
  /-- The number of files opened so far, which numbers the next one. -/
  handles : Nat := 0
  /-- What happened to opened files, the last event first. -/
  record : List FileEvent := []
  deriving Inhabited

/-- Why an operation of the platform failed. -/
inductive PlatformError where
  | openMissing (path : Bytes)
  | removeMissing (path : Bytes)
  | unsupported
  | unknownHost (host : Bytes)
  | refused (host : Bytes) (port : Int)
  | portInUse (port : Int)
  | timeout
  | listenerClosed
  | endOfInput
  | closedPipe
  deriving DecidableEq

def PlatformError.message : PlatformError → Bytes
  | .openMissing path => "open " ++ path ++ ": file does not exist"
  | .removeMissing path => "remove " ++ path ++ ": file does not exist"
  | .unsupported => "unsupported operation"
  | .unknownHost host => "lookup " ++ host ++ ": no such host"
  | .refused host port => "dial " ++ host ++ ":" ++ Bytes.ofInt port ++ ": connection refused"
  | .portInUse port => "listen :" ++ Bytes.ofInt port ++ ": address already in use"
  | .timeout => "context deadline exceeded"
  | .listenerClosed => "listener closed"
  | .endOfInput => "EOF"
  | .closedPipe => "io: read/write on closed pipe"

/-- The standard streams. -/
inductive ConsoleKind where
  | input | output | errors
  deriving DecidableEq, Repr

def ConsoleKind.ofCode? (code : Int32) : Option ConsoleKind :=
  if code == 0 then some .input
  else if code == 1 then some .output
  else if code == 2 then some .errors
  else none

/-- An open channel for bytes. -/
inductive Channel where
  | file (handle number position : Nat) (append : Bool)
  | console (kind : ConsoleKind)
  | pipe (pipeEnd : Nat)
  deriving DecidableEq, Repr, Inhabited

def Channel.handle? : Channel → Option Nat
  | .file handle _ _ _ => some handle
  | _ => none

/-- How an operation on a channel went. -/
inductive Outcome (α : Type) where
  | done (result : α)
  | failed (error : PlatformError)
  /-- It has to wait for the other end of the channel. -/
  | wait

namespace Platform

def writeOutput (platform : Platform) (text : Bytes) : Platform :=
  { platform with output := platform.output ++ text }

def writeErrors (platform : Platform) (text : Bytes) : Platform :=
  { platform with errors := platform.errors ++ text }

def envVar? (platform : Platform) (name : Bytes) : Option Bytes :=
  (platform.environment.find? fun (found, _) => found == name).map (·.2)

def setEnvVar (platform : Platform) (name value : Bytes) : Platform :=
  { platform with
    environment :=
      (name, value) :: platform.environment.filter fun (found, _) => found != name }

/-! ## Files -/

def note (platform : Platform) (handle : Option Nat) (event : Nat → FileEvent) : Platform :=
  match handle with
  | some handle => { platform with record := event handle :: platform.record }
  | none => platform

def openFile (platform : Platform) (path : Bytes) (mode : FileMode) :
    Except PlatformError (Channel × Platform) :=
  match platform.files.openFile path mode with
  | some (number, files) =>
    .ok (.file platform.handles number 0 (mode == .append),
      { platform with files, handles := platform.handles + 1 })
  | none => .error (.openMissing path)

def removeFile (platform : Platform) (path : Bytes) : Except PlatformError Platform :=
  match platform.files.remove? path with
  | some files => .ok { platform with files }
  | none => .error (.removeMissing path)

def withoutFile (platform : Platform) (path : Bytes) : Platform :=
  match platform.removeFile path with
  | .ok platform => platform
  | .error _ => platform

/-! ## Channels -/

/-- Reads up to `count` bytes, at least one unless none was asked for. -/
def read (platform : Platform) (channel : Channel) (count : Nat) :
    Outcome Bytes × Channel × Platform :=
  match channel with
  | .file handle number position append =>
    let text := platform.files.content number
    if text.size ≤ position then (.failed .endOfInput, channel, platform)
    else
      let data := text.extract position (min (position + count) text.size)
      (.done data, .file handle number (position + data.size) append, platform)
  | .console .input =>
    let (data, input) := platform.input.read count
    (if data.isEmpty then .failed .endOfInput else .done data, channel, { platform with input })
  | .console _ => (.failed .unsupported, channel, platform)
  | .pipe pipeEnd =>
    match platform.network.read pipeEnd count with
    | .data data network => (.done data, channel, { platform with network })
    | .ended => (.failed .endOfInput, channel, platform)
    | .closed => (.failed .closedPipe, channel, platform)
    | .wait => (.wait, channel, platform)

/-- Writes all of `data`. `offered` tells whether an earlier attempt of the same write has offered
its data to the other end of a pipe; the result tells whether this one has. -/
def write (platform : Platform) (channel : Channel) (data : Bytes) (offered : Bool) :
    Outcome Unit × Channel × Bool × Platform :=
  match channel with
  | .file handle number position append =>
    let (position, files) := platform.files.write number position append data
    (.done (), .file handle number position append, false, { platform with files })
  | .console .input => (.failed .unsupported, channel, false, platform)
  | .console .output => (.done (), channel, false, platform.writeOutput data)
  | .console .errors => (.done (), channel, false, platform.writeErrors data)
  | .pipe pipeEnd =>
    let (attempt, offered, network) := platform.network.write pipeEnd data offered
    let outcome := match attempt with
      | .done () => Outcome.done ()
      | .closed => .failed .closedPipe
      | .wait => .wait
    (outcome, channel, offered, { platform with network })

def close (platform : Platform) : Channel → Platform
  | .pipe pipeEnd => { platform with network := platform.network.close pipeEnd }
  | channel => platform.note channel.handle? .closed

/-- Whether reads of a channel can be made not to wait. -/
def canUnblock (platform : Platform) : Channel → Bool
  | .file _ _ _ _ => platform.files.canUnblock
  | _ => false

/-! ## Network -/

def lookup (platform : Platform) (host : Bytes) : Except PlatformError Bytes :=
  match platform.network.lookup? host with
  | some address => .ok address
  | none => .error (.unknownHost host)

def listen (platform : Platform) (port : Int) (backlog : Nat) :
    Except PlatformError (Nat × Platform) :=
  match platform.network.listen? port backlog with
  | some (number, network) => .ok (number, { platform with network })
  | none => .error (.portInUse port)

def unlisten (platform : Platform) (number : Nat) : Platform :=
  { platform with network := platform.network.unlisten number }

def accept (platform : Platform) (number : Nat) : Outcome (Channel × Platform) :=
  match platform.network.accept number with
  | .done (pipeEnd, network) => .done (.pipe pipeEnd, { platform with network })
  | .closed => .failed .listenerClosed
  | .wait => .wait

def target (platform : Platform) (host : Bytes) (port : Int) : Except PlatformError Nat := do
  let _ ← platform.lookup host
  match platform.network.listener? port with
  | some number => .ok number
  | none => .error (.refused host port)

def connect (platform : Platform) (number : Nat) (host : Bytes) (port : Int) :
    Outcome (Channel × Platform) :=
  match platform.network.connect number with
  | .done (pipeEnd, network) => .done (.pipe pipeEnd, { platform with network })
  | .closed => .failed (.refused host port)
  | .wait => .wait

/-! ## Terminal -/

def changeTerminal? (platform : Platform) (options : UInt32) (set : Bool) : Option Platform :=
  match platform.terminal with
  | none => none
  | some current =>
    some { platform with
      terminal := some (if set then current ||| options else current &&& ~~~options) }

/-- Columns and rows of the terminal; zero without one. -/
def terminalSize (platform : Platform) : Int32 × Int32 :=
  if platform.terminal.isSome then (80, 24) else (0, 0)

end Platform

end WordMachine
