import WordMachine.Isa.PlatformCall
import WordMachine.Machine.Waiting

/-!
Platform calls: console, streams, files, network, terminal, environment, clocks and assertions.
-/

namespace WordMachine.Exec

/-! ## Console: what is written stays on the stack -/

def writeConsole (text : Bytes) : Exec Unit :=
  modifyPlatform (·.writeOutput text)

def openConsole : Exec Unit := do
  match ConsoleKind.ofCode? (← popInt) with
  | some kind => pushStream (.ofChannel (.console kind))
  | none => pushStream .invalid

/-! ## Streams -/

def readString : Exec Unit := do
  let limit := (← popInt).toInt.toNat
  let _ ← peekStream 0
  match ← allocate? (.blank limit) with
  | none => fail .allocFailed
  | some word =>
    push word
    stay (.readString limit)

def writeStream (data : Bytes) : Exec Unit := do
  let _ ← peekStream 1
  stay (.write data false)

/-- Writes the low byte of an int, which is first replaced by that byte. -/
def writeStreamChar : Exec Unit := do
  let byte := (← pop).toByte
  pushInt (Int32.ofNat byte.toNat)
  writeStream (Bytes.singleton byte)

/-- The only option is the low bit: reads that do not wait. -/
def changeStream : Exec Unit := do
  let options ← popInt
  let stream ← popStream
  let platform ← platform
  let agreed := options.toUInt32 &&& 1 == 0 || stream.setUnblocked platform
  pushBool (agreed && stream.isValid)

/-! ## Files -/

/-- Opens a file; a file that cannot be opened gives an invalid stream. The only flag, the low
bit, asks to remove the file when its stream is closed. -/
def openFileStream (path : Bytes) (mode flags : Nat) : Exec Stream := do
  match FileMode.ofCode? mode with
  | none => return .invalid
  | some mode =>
    match (← platform).openFile path mode with
    | .error _ => return .invalid
    | .ok (channel, platform) =>
      setPlatform (platform.note channel.handle? (.opened · path (flags % 2 = 1)))
      let removeOnClose := if flags % 2 = 0 ∨ path.isEmpty then none else some path
      return { Stream.ofChannel channel with removeOnClose }

/-- The low byte of the options is the mode, the next one holds the flags. -/
def openFile : Exec Unit := do
  let options := (← popInt).toUInt32
  let path ← popText
  pushStream (← openFileStream path (options &&& 0xff).toNat ((options >>> 8) &&& 0xff).toNat)

def removeFile : Exec Unit := do
  let path ← popText
  match (← platform).removeFile path with
  | .ok platform =>
    setPlatform platform
    pushBool true
  | .error _ => pushBool false

/-! ## Network -/

def port? (value : Int32) : Option Nat :=
  if 0 ≤ value.toInt ∧ value.toInt ≤ 65535 then some value.toInt.toNat else none

def connect : Exec Unit := do
  let port ← popInt
  let host ← text (← peek)
  match port? port with
  | none => takeConnection .invalid
  | some port =>
    let session ← get
    let timeout := session.shared.settings.connectTimeout.toNat
    stay (.dial host port (session.shared.platform.clock + timeout))

def listen : Exec Unit := do
  let backlog ← popInt
  let port ← popInt
  match port? port with
  | none => pushStream .invalid
  | some port =>
    match (← platform).listen port backlog.toInt.toNat with
    | .ok (number, platform) =>
      setPlatform platform
      pushStream (.ofListener number)
    | .error _ => pushStream .invalid

/-- Replaces a host name by its address, or by nothing. -/
def lookupAddress : Exec Unit := do
  stay (.address (← text (← peek)))

/-! ## Terminal -/

def changeTerminal (set : Bool) : Exec Unit := do
  let options ← popInt
  match (← platform).changeTerminal? options.toUInt32 set with
  | some platform =>
    setPlatform platform
    pushBool true
  | none => pushBool false

/-! ## Environment and clocks -/

def argument : Exec Unit := do
  let arguments := (← platform).arguments
  let number := (← popInt).toInt
  pushString (if number < 0 then ByteArray.empty else arguments[number.toNat]?.getD ByteArray.empty)

def environmentVariable : Exec Unit := do
  let name ← popText
  pushString (((← platform).envVar? name).getD ByteArray.empty)

/-- The time a reading of the clock takes, in nanoseconds. -/
def clockTick : Nat := 100

def readClock : Exec Nat := do
  let platform ← platform
  modifyPlatform fun platform => { platform with clock := platform.clock + clockTick }
  return platform.clock

/-- Waits for the number of nanoseconds on top of the stack, which stays there. -/
def sleep : Exec Unit := do
  let time ← long (← peek)
  let platform ← platform
  stay (.sleep (platform.clock + time.toInt.toNat))

/-- Ends execution with a message on the error output unless the condition below the message
holds. -/
def assert : Exec Unit := do
  let message ← popText
  let condition ← peek
  if !condition.toBool then
    modifyPlatform (·.writeErrors ("Assertion failed: " ++ message ++ "\n"))
    fail .assertFailed

def platformCall : PlatformCall → Exec Unit
  | .writeChar => do writeConsole (Bytes.singleton (← peek).toByte)
  | .writeString => do writeConsole (← text (← peek))
  | .writeLine => do writeConsole ((← text (← peek)).push 10)
  | .readChar => stay .consoleChar
  | .readLine => stay .consoleLine
  | .streamValid => do pushBool (← popStream).isValid
  | .streamReadString => readString
  | .streamReadChar => do
    let _ ← peekStream 0
    stay .readChar
  | .streamWriteString => do writeStream (← text (← peek))
  | .streamWriteChar => writeStreamChar
  | .streamFlush => do
    let _ ← peekStream 0
    stay .flush
  | .streamSetOptions => changeStream
  | .streamUnsetOptions => changeStream
  | .fileOpen => openFile
  | .fileRemove => removeFile
  | .tcpConnect => connect
  | .tcpListen => listen
  | .tcpAccept => do
    let _ ← peekStream 0
    stay .accept
  | .lookupAddress => lookupAddress
  | .consoleOpen => openConsole
  | .termSetOptions => changeTerminal true
  | .termUnsetOptions => changeTerminal false
  | .termWidth => do pushInt (← platform).terminalSize.1
  | .termHeight => do pushInt (← platform).terminalSize.2
  | .envArg => argument
  | .envArgCount => do pushInt (Int32.ofNat (← platform).arguments.size)
  | .envVar => environmentVariable
  | .clockMicro => do
    pushLong (Int64.ofNat ((← platform).epochMicros + (← readClock) / 1000))
  | .clockNano => do pushLong (Int64.ofNat (← readClock))
  | .sleep => sleep
  | .assert => assert

end WordMachine.Exec
