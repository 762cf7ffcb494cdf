import WordMachine.Platform.Basic

/-!
Streams: what a stream object of a program refers to. A stream is valid until an operation on it
fails or it is closed, and never again after that; an invalid stream refuses every operation
without touching the platform.
-/

namespace WordMachine

inductive Endpoint where
  /-- Nothing: the stream could not be opened. -/
  | none
  | channel (channel : Channel)
  | listener (number : Nat)
  deriving DecidableEq, Repr, Inhabited

structure Stream where
  endpoint : Endpoint
  sound : Bool
  closed : Bool := false
  removeOnClose : Option Bytes := none
  deriving DecidableEq, Inhabited

namespace Stream

def invalid : Stream where
  endpoint := .none
  sound := false

def ofChannel (channel : Channel) : Stream where
  endpoint := .channel channel
  sound := true

def ofListener (number : Nat) : Stream where
  endpoint := .listener number
  sound := true

def isValid (stream : Stream) : Bool :=
  stream.sound && !stream.closed

def invalidate (stream : Stream) : Stream :=
  { stream with sound := false }

def channel? (stream : Stream) : Option Channel :=
  match stream.endpoint with
  | .channel channel => if stream.isValid then some channel else none
  | _ => none

def listener? (stream : Stream) : Option Nat :=
  match stream.endpoint with
  | .listener number => if stream.isValid then some number else none
  | _ => none

def withChannel (stream : Stream) (channel : Channel) : Stream :=
  { stream with endpoint := .channel channel }

/-- Reads up to `count` bytes. A read of at least one byte that fails invalidates the stream;
nothing is returned while the read has to wait. -/
def read (stream : Stream) (platform : Platform) (count : Nat) :
    Option Bytes × Stream × Platform :=
  match stream.channel? with
  | none => (some ByteArray.empty, stream, platform)
  | some channel =>
    if count = 0 then (some ByteArray.empty, stream, platform)
    else
      match platform.read channel count with
      | (.done data, channel, platform) => (some data, stream.withChannel channel, platform)
      | (.failed _, channel, platform) =>
        (some ByteArray.empty, (stream.withChannel channel).invalidate, platform)
      | (.wait, _, platform) => (none, stream, platform)

/-- Writes all of `data` and tells whether that worked, and whether the data was offered to a
reader that has yet to take it; nothing is told while the write has to wait. -/
def write (stream : Stream) (platform : Platform) (data : Bytes) (offered : Bool) :
    Option Bool × Bool × Stream × Platform :=
  match stream.channel? with
  | none => (some false, false, stream, platform)
  | some channel =>
    match platform.write channel data offered with
    | (.done (), channel, _, platform) => (some true, false, stream.withChannel channel, platform)
    | (.failed _, channel, _, platform) =>
      (some false, false, (stream.withChannel channel).invalidate, platform)
    | (.wait, _, offered, platform) => (none, offered, stream, platform)

def flush (stream : Stream) : Bool :=
  stream.channel?.isSome

/-- Whether the stream agrees to reads that do not wait. -/
def setUnblocked (stream : Stream) (platform : Platform) : Bool :=
  match stream.channel? with
  | some channel => platform.canUnblock channel
  | none => false

/-- Accepts a connection; nothing is returned while there is none. -/
def accept (stream : Stream) (platform : Platform) : Option (Stream × Platform) :=
  match stream.listener? with
  | none => some (invalid, platform)
  | some number =>
    match platform.accept number with
    | .done (channel, platform) => some (ofChannel channel, platform)
    | .failed _ => some (invalid, platform)
    | .wait => none

/-- The number under which the stream's file was opened. -/
def handle? (stream : Stream) : Option Nat :=
  match stream.endpoint with
  | .channel channel => channel.handle?
  | _ => none

def release (stream : Stream) (platform : Platform) : Platform :=
  match stream.endpoint with
  | .none => platform
  | .channel channel => platform.close channel
  | .listener number => platform.unlisten number

/-- Tries to remove the file that goes with a stream. -/
def discard (stream : Stream) (platform : Platform) : Platform :=
  match stream.removeOnClose with
  | none => platform
  | some path => (platform.withoutFile path).note stream.handle? (.discarded · path)

/-- Releases what the stream holds of the platform. Closing again does nothing. -/
def close (stream : Stream) (platform : Platform) : Stream × Platform :=
  if stream.closed then (stream, platform)
  else ({ stream with closed := true }, stream.discard (stream.release platform))

end Stream

end WordMachine
