import WordMachine.Machine.Session

/-!
Waiting. An instruction that may have to wait pauses its executor, which then makes an attempt;
while that cannot succeed the executor stays paused and the attempt is made again later. An
executor that is told to stop while it waits makes no further attempt.
-/

namespace WordMachine.Exec

/-- Lets a paused executor go on. -/
def resume : Exec Unit :=
  modifyExecutor fun executor => { executor with state := .running, wait := none }

def stay (wait : Wait) : Exec Unit :=
  modifyExecutor fun executor => { executor with state := .paused, wait := some wait }

/-- Replaces the future on top of the stack by its value. A call that failed passes its state
on. -/
def takeOutcome (outcome : Word × ExecState) : Exec Unit := do
  resume
  let _ ← pop
  if outcome.2 == .success then push outcome.1 else fail outcome.2

def attemptFuture : Exec Unit := do
  let word ← peek
  match ← look (·.outcome word) with
  | some outcome => takeOutcome outcome
  | none => stay .future

def attemptFutureUntil (deadline : Nat) : Exec Unit := do
  let word ← peek
  let outcome ← look (·.outcome word)
  let platform ← platform
  if outcome.isSome || deadline ≤ platform.clock then
    resume
    let _ ← pop
    pushBool outcome.isSome
  else stay (.futureUntil deadline)

def attemptSleep (wake : Nat) : Exec Unit := do
  let platform ← platform
  if wake ≤ platform.clock then resume else stay (.sleep wake)

def attemptConsoleChar : Exec Unit := do
  let platform ← platform
  let (byte, input) := platform.input.readByte
  modifyPlatform fun platform => { platform with input }
  resume
  pushInt (match byte with
    | some byte => Int32.ofNat byte.toNat
    | none => 0)

def attemptConsoleLine : Exec Unit := do
  let platform ← platform
  let (line, input) := platform.input.readLine
  modifyPlatform fun platform => { platform with input }
  resume
  pushString line

/-- Reads from the stream `depth` places below the top; nothing while the read has to wait. -/
def readStream (depth count : Nat) : Exec (Option Bytes) := do
  let word ← peekBehind depth
  let stream ← look (·.stream word)
  let (data, stream, platform) := stream.read (← platform) count
  setStream word stream
  setPlatform platform
  return data

/-- Reads into the string on top of the stack and removes the stream below it. -/
def attemptReadString (limit : Nat) : Exec Unit := do
  match ← readStream 1 limit with
  | none => stay (.readString limit)
  | some data =>
    resume
    let word ← peek
    let heap ← look (·.fill word data)
    modifyHeap fun _ => heap
    let _ ← popAt 1

/-- Replaces the stream on top of the stack by a byte of it, or by zero. -/
def attemptReadChar : Exec Unit := do
  match ← readStream 0 1 with
  | none => stay .readChar
  | some data =>
    resume
    let _ ← pop
    pushInt (match data[0]? with
      | some byte => Int32.ofNat byte.toNat
      | none => 0)

/-- Writes to the stream below the top of the stack and replaces both by whether that worked. -/
def attemptWrite (data : Bytes) (offered : Bool) : Exec Unit := do
  let word ← peekBehind 1
  let stream ← look (·.stream word)
  let (written, offered, stream, platform) := stream.write (← platform) data offered
  setStream word stream
  setPlatform platform
  match written with
  | none => stay (.write data offered)
  | some written =>
    resume
    let _ ← pop
    let _ ← pop
    pushBool written

/-- Replaces the stream on top of the stack by whether it could be flushed. -/
def attemptFlush : Exec Unit := do
  let stream ← peekStream 0
  resume
  let _ ← pop
  pushBool stream.flush

/-- Replaces the listening stream on top of the stack by a connection to it. -/
def attemptAccept : Exec Unit := do
  let stream ← peekStream 0
  match stream.accept (← platform) with
  | none => stay .accept
  | some (connection, platform) =>
    setPlatform platform
    resume
    let _ ← pop
    pushStream connection

/-- Replaces the host name on top of the stack by a stream. -/
def takeConnection (stream : Stream) : Exec Unit := do
  resume
  let _ ← pop
  pushStream stream

def attemptConnect (listener : Nat) (host : Bytes) (port deadline : Nat) : Exec Unit := do
  let platform ← platform
  match platform.connect listener host port with
  | .done (channel, platform) =>
    setPlatform platform
    takeConnection (.ofChannel channel)
  | .failed _ => takeConnection .invalid
  | .wait =>
    if deadline ≤ platform.clock then takeConnection .invalid
    else stay (.connect listener host port deadline)

def attemptDial (host : Bytes) (port deadline : Nat) : Exec Unit := do
  match (← platform).target host port with
  | .error _ => takeConnection .invalid
  | .ok listener => attemptConnect listener host port deadline

/-- Replaces the host name on top of the stack by its address, or by nothing. -/
def attemptAddress (host : Bytes) : Exec Unit := do
  let address := match (← platform).lookup host with
    | .ok address => address
    | .error _ => ByteArray.empty
  resume
  let _ ← pop
  pushString address

def attempt : Wait → Exec Unit
  | .sleep wake => attemptSleep wake
  | .future => attemptFuture
  | .futureUntil deadline => attemptFutureUntil deadline
  | .consoleChar => attemptConsoleChar
  | .consoleLine => attemptConsoleLine
  | .readString limit => attemptReadString limit
  | .readChar => attemptReadChar
  | .write data offered => attemptWrite data offered
  | .flush => attemptFlush
  | .accept => attemptAccept
  | .dial host port deadline => attemptDial host port deadline
  | .connect listener host port deadline => attemptConnect listener host port deadline
  | .address host => attemptAddress host

/-- Makes the attempt of an executor that waits. -/
def settle : Exec Unit :=
  fun session =>
    match session.executor.wait with
    | some wait => attempt wait session
    | none => .ok () session

end WordMachine.Exec
