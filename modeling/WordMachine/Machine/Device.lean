import WordMachine.Machine.Stream

/-!
Streams to devices that may fail at any time. A stream asks its device for something only while it
is valid, and a failure of the device decides whether it stays so. The streams of the machine are
such streams, with the channels of the platform as their devices.
-/

namespace WordMachine

/-- Why a device did not do what it was asked for. -/
inductive Trouble where
  | wouldBlock
  | failure
  deriving DecidableEq, Repr, Inhabited

/-- A device with states of its own. What it answers is up to it. -/
structure Device (State : Type) where
  /-- Up to as many bytes as were asked for, possibly with trouble after them. -/
  read : State → Nat → Bytes × Option Trouble × State
  write : State → Bytes → Option Trouble × State
  flush : State → Option Trouble × State
  /-- Whether reads are not to wait; nothing if that cannot be chosen. -/
  setUnblocked : State → Bool → Option (Option Trouble × State)
  close : State → State

inductive DeviceRequest where
  | read (count : Nat)
  | write (data : Bytes)
  | flush
  | setUnblocked (on : Bool)
  | close
  deriving DecidableEq, Inhabited

structure DeviceStream (State : Type) where
  sound : Bool
  closed : Bool := false
  device : Option State
  requests : List DeviceRequest := []

namespace DeviceStream

variable {State : Type}

def opened (state : State) : DeviceStream State where
  sound := true
  device := some state

def isValid (stream : DeviceStream State) : Bool :=
  stream.sound && !stream.closed

def invalidate (stream : DeviceStream State) : DeviceStream State :=
  { stream with sound := false }

def device? (stream : DeviceStream State) : Option State :=
  if stream.isValid then stream.device else none

def asked (stream : DeviceStream State) (request : DeviceRequest) (state : State) :
    DeviceStream State :=
  { stream with device := some state, requests := stream.requests ++ [request] }

/-- Reads up to `count` bytes; `alive` tells whether the reader is still there afterwards. Trouble
without data invalidates the stream, unless there only was nothing to read. -/
def read (device : Device State) (stream : DeviceStream State) (count : Nat) (alive : Bool) :
    Bytes × DeviceStream State :=
  match stream.device? with
  | none => (ByteArray.empty, stream)
  | some state =>
    if count = 0 then (ByteArray.empty, stream)
    else
      let (data, trouble, state) := device.read state count
      let stream := stream.asked (.read count) state
      if alive && trouble == some .failure && data.isEmpty then (data, stream.invalidate)
      else (data, stream)

def readChar (device : Device State) (stream : DeviceStream State) (alive : Bool) :
    Option UInt8 × DeviceStream State :=
  let (data, stream) := stream.read device 1 alive
  (data[0]?, stream)

def write (device : Device State) (stream : DeviceStream State) (data : Bytes) :
    Bool × DeviceStream State :=
  match stream.device? with
  | none => (false, stream)
  | some state =>
    let (trouble, state) := device.write state data
    let stream := stream.asked (.write data) state
    if trouble.isSome then (false, stream.invalidate) else (true, stream)

def flush (device : Device State) (stream : DeviceStream State) : Bool × DeviceStream State :=
  match stream.device? with
  | none => (false, stream)
  | some state =>
    let (trouble, state) := device.flush state
    let stream := stream.asked .flush state
    if trouble.isSome then (false, stream.invalidate) else (true, stream)

/-- Asks for reads that do not wait, or for reads that do. A device that refuses stays valid. -/
def setUnblocked (device : Device State) (stream : DeviceStream State) (on : Bool) :
    Bool × DeviceStream State :=
  match stream.device? with
  | none => (false, stream)
  | some state =>
    match device.setUnblocked state on with
    | none => (false, stream)
    | some (trouble, state) => (trouble.isNone, stream.asked (.setUnblocked on) state)

def close (device : Device State) (stream : DeviceStream State) : DeviceStream State :=
  if stream.closed then stream
  else
    let stream := { stream with closed := true }
    match stream.device with
    | none => stream
    | some state =>
      (stream.asked .flush (device.flush state).2).asked .close
        (device.close (device.flush state).2)

end DeviceStream

/-! ## The streams of the machine -/

def Platform.device : Device (Channel × Platform) where
  read := fun (channel, platform) count =>
    match platform.read channel count with
    | (.done data, channel, platform) => (data, none, channel, platform)
    | (.failed _, channel, platform) => (ByteArray.empty, some .failure, channel, platform)
    | (.wait, channel, platform) => (ByteArray.empty, some .wouldBlock, channel, platform)
  write := fun (channel, platform) data =>
    match platform.write channel data false with
    | (.done (), channel, _, platform) => (none, channel, platform)
    | (.failed _, channel, _, platform) => (some .failure, channel, platform)
    | (.wait, channel, _, platform) => (some .wouldBlock, channel, platform)
  flush := fun state => (none, state)
  setUnblocked := fun (channel, platform) _ =>
    if platform.canUnblock channel then some (none, channel, platform) else none
  close := fun (channel, platform) => (channel, platform.close channel)

def Stream.onDevice (stream : Stream) (platform : Platform) :
    DeviceStream (Channel × Platform) where
  sound := stream.sound
  closed := stream.closed
  device := match stream.endpoint with
    | .channel channel => some (channel, platform)
    | _ => none

end WordMachine
