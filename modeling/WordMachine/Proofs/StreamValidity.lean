import WordMachine.Machine.Device

/-!
When streams are valid. However its device behaves, a stream that became invalid stays so, refuses
whatever it is asked for and asks its device for nothing more; and it becomes invalid by nothing but
a failure of the device that leaves it without a result, or by being closed.
-/

namespace WordMachine

inductive StreamOperation where
  | read (count : Nat) (alive : Bool)
  | readChar (alive : Bool)
  | write (data : Bytes)
  | flush
  | setUnblocked (on : Bool)
  | isValid
  | close
  deriving DecidableEq, Inhabited

inductive StreamAnswer where
  | bytes (data : Bytes)
  | char (byte : Option UInt8)
  | flag (value : Bool)
  | closed
  deriving DecidableEq, Inhabited

/-- Whether an answer tells of no success. -/
def StreamAnswer.IsRefusal : StreamAnswer → Prop
  | .bytes data => data.isEmpty = true
  | .char found => found = none
  | .flag value => value = false
  | .closed => False

namespace DeviceStream

variable {State : Type} {device : Device State} {stream : DeviceStream State}

def perform (device : Device State) (stream : DeviceStream State) :
    StreamOperation → StreamAnswer × DeviceStream State
  | .read count alive =>
    (.bytes (stream.read device count alive).1, (stream.read device count alive).2)
  | .readChar alive => (.char (stream.readChar device alive).1, (stream.readChar device alive).2)
  | .write data => (.flag (stream.write device data).1, (stream.write device data).2)
  | .flush => (.flag (stream.flush device).1, (stream.flush device).2)
  | .setUnblocked on => (.flag (stream.setUnblocked device on).1, (stream.setUnblocked device on).2)
  | .isValid => (.flag stream.isValid, stream)
  | .close => (.closed, stream.close device)

def performAll (device : Device State) (stream : DeviceStream State)
    (operations : List StreamOperation) : DeviceStream State :=
  operations.foldl (fun stream operation => (stream.perform device operation).2) stream

/-- Whether a device answers a read with neither data nor hope for it. -/
def FailsToRead (device : Device State) (state : State) (count : Nat) : Prop :=
  (device.read state count).2.1 = some .failure ∧ (device.read state count).1.isEmpty = true

def Spoils (device : Device State) (stream : DeviceStream State) : StreamOperation → Prop
  | .read count alive =>
    0 < count ∧ alive = true ∧ ∃ state ∈ stream.device, FailsToRead device state count
  | .readChar alive => alive = true ∧ ∃ state ∈ stream.device, FailsToRead device state 1
  | .write data => ∃ state ∈ stream.device, (device.write state data).1.isSome = true
  | .flush => ∃ state ∈ stream.device, (device.flush state).1.isSome = true
  | .setUnblocked _ => False
  | .isValid => False
  | .close => True

/-! ## Invalid streams -/

theorem device?_of_invalid (invalid : stream.isValid = false) : stream.device? = none := by
  rw [device?, invalid, if_neg Bool.false_ne_true]

theorem read_of_invalid (invalid : stream.isValid = false) (count : Nat) (alive : Bool) :
    stream.read device count alive = (ByteArray.empty, stream) := by
  rw [read, device?_of_invalid invalid]

theorem perform_of_invalid (invalid : stream.isValid = false) {operation : StreamOperation}
    (open_ : operation ≠ .close) :
    (stream.perform device operation).2 = stream ∧
      (stream.perform device operation).1.IsRefusal := by
  have gone := device?_of_invalid invalid
  cases operation with
  | read count alive =>
    rw [perform, read_of_invalid invalid]
    exact ⟨rfl, rfl⟩
  | readChar alive =>
    rw [perform, readChar, read_of_invalid invalid]
    exact ⟨rfl, rfl⟩
  | write data =>
    rw [perform, write, gone]
    exact ⟨rfl, rfl⟩
  | flush =>
    rw [perform, flush, gone]
    exact ⟨rfl, rfl⟩
  | setUnblocked on =>
    rw [perform, setUnblocked, gone]
    exact ⟨rfl, rfl⟩
  | isValid => exact ⟨rfl, invalid⟩
  | close => exact absurd rfl open_

theorem isValid_asked (request : DeviceRequest) (state : State) :
    (stream.asked request state).isValid = stream.isValid := rfl

theorem isValid_invalidate : stream.invalidate.isValid = false := rfl

theorem isValid_close : (stream.close device).isValid = false := by
  unfold close
  split
  · next closed => rw [DeviceStream.isValid, closed, Bool.not_true, Bool.and_false]
  · have closed : ({ stream with closed := true } : DeviceStream State).isValid = false := by
      rw [DeviceStream.isValid, Bool.not_true, Bool.and_false]
    dsimp only
    split
    · exact closed
    · exact closed

theorem isValid_perform (invalid : stream.isValid = false) (operation : StreamOperation) :
    (stream.perform device operation).2.isValid = false := by
  by_cases closing : operation = .close
  · subst closing
    exact isValid_close
  · rw [(perform_of_invalid invalid closing).1, invalid]

theorem isValid_performAll (invalid : stream.isValid = false) (operations : List StreamOperation) :
    (stream.performAll device operations).isValid = false := by
  induction operations generalizing stream with
  | nil => exact invalid
  | cons operation rest ih =>
    exact ih (isValid_perform invalid operation)

/-! ## Valid streams -/

theorem read_eq {state next : State} {count : Nat} {data : Bytes} {trouble : Option Trouble}
    (connected : stream.device? = some state) (positive : count ≠ 0)
    (answered : device.read state count = (data, trouble, next)) (alive : Bool) :
    stream.read device count alive =
      (data, if alive && trouble == some .failure && data.isEmpty
        then (stream.asked (.read count) next).invalidate
        else stream.asked (.read count) next) := by
  unfold read
  simp only [connected, if_neg positive, answered]
  split <;> rfl

theorem write_eq {state next : State} {data : Bytes} {trouble : Option Trouble}
    (connected : stream.device? = some state)
    (answered : device.write state data = (trouble, next)) :
    stream.write device data =
      (trouble.isNone, if trouble.isSome then (stream.asked (.write data) next).invalidate
        else stream.asked (.write data) next) := by
  unfold write
  simp only [connected, answered]
  cases trouble <;> rfl

theorem device?_of_valid (valid : stream.isValid = true) : stream.device? = stream.device := by
  rw [device?, if_pos valid]

/-- A read leaves a valid stream invalid exactly if the device fails to give anything. -/
theorem isValid_read_iff (valid : stream.isValid = true) (count : Nat) (alive : Bool) :
    (stream.read device count alive).2.isValid = false ↔
      0 < count ∧ alive = true ∧ ∃ state ∈ stream.device, FailsToRead device state count := by
  unfold read
  rw [device?_of_valid valid]
  cases stream.device with
  | none => simp [valid]
  | some state =>
    dsimp only
    by_cases nothing : count = 0
    · simp [nothing, valid]
    · rw [if_neg nothing]
      have fails_iff : (alive && (device.read state count).2.1 == some .failure &&
          (device.read state count).1.isEmpty) = true ↔
            alive = true ∧ FailsToRead device state count := by
        rw [Bool.and_eq_true, Bool.and_eq_true, beq_iff_eq, and_assoc, FailsToRead]
      have asked : 0 < count ∧ alive = true ∧
          (∃ other ∈ some state, FailsToRead device other count) ↔
            alive = true ∧ FailsToRead device state count := by
        simp [Nat.pos_of_ne_zero nothing]
      rw [asked, ← fails_iff]
      split
      · next fails => exact ⟨fun _ => fails, fun _ => isValid_invalidate⟩
      · next works =>
          refine ⟨fun invalid => ?_, fun fails => absurd fails works⟩
          have still : stream.isValid = false := invalid
          rw [valid] at still
          cases still

theorem isValid_read_of_data {count : Nat} {alive : Bool}
    (some : (stream.read device count alive).1.isEmpty = false) :
    (stream.read device count alive).2.isValid = stream.isValid := by
  cases valid : stream.isValid with
  | false => rw [read_of_invalid valid, valid]
  | true =>
    rw [← Bool.not_eq_false, isValid_read_iff valid]
    rintro ⟨positive, rfl, state, connected, _, nothing⟩
    have given : (stream.read device count true).1 = (device.read state count).1 := by
      unfold read
      rw [device?_of_valid valid, Option.mem_def.1 connected]
      dsimp only
      rw [if_neg (Nat.pos_iff_ne_zero.1 positive)]
      split <;> rfl
    rw [given, nothing] at some
    cases some

theorem isValid_write_iff (valid : stream.isValid = true) (data : Bytes) :
    ((stream.write device data).2.isValid = false ↔
      ∃ state ∈ stream.device, (device.write state data).1.isSome = true) := by
  unfold write
  rw [device?_of_valid valid]
  cases stream.device with
  | none => simp [valid]
  | some state =>
    dsimp only
    split
    · next fails => simp [fails, isValid_invalidate]
    · next works => simp [works, isValid_asked, valid]

theorem isValid_flush_iff (valid : stream.isValid = true) :
    ((stream.flush device).2.isValid = false ↔
      ∃ state ∈ stream.device, (device.flush state).1.isSome = true) := by
  unfold flush
  rw [device?_of_valid valid]
  cases stream.device with
  | none => simp [valid]
  | some state =>
    dsimp only
    split
    · next fails => simp [fails, isValid_invalidate]
    · next works => simp [works, isValid_asked, valid]

theorem isValid_setUnblocked (on : Bool) :
    (stream.setUnblocked device on).2.isValid = stream.isValid := by
  unfold setUnblocked
  split
  · rfl
  · split <;> rfl

theorem isValid_perform_iff (valid : stream.isValid = true) (operation : StreamOperation) :
    (stream.perform device operation).2.isValid = false ↔ stream.Spoils device operation := by
  cases operation with
  | read count alive => exact isValid_read_iff valid count alive
  | readChar alive =>
    rw [perform, readChar]
    exact (isValid_read_iff valid 1 alive).trans (by simp [Spoils])
  | write data => exact isValid_write_iff valid data
  | flush => exact isValid_flush_iff valid
  | setUnblocked on =>
    rw [perform, isValid_setUnblocked, valid]
    exact ⟨nofun, False.elim⟩
  | isValid =>
    rw [perform, valid]
    exact ⟨nofun, False.elim⟩
  | close => exact ⟨fun _ => trivial, fun _ => isValid_close⟩

end DeviceStream

/-! ## The streams of the machine -/

namespace Stream

variable {stream after : Stream} {platform later : Platform}

theorem device?_onDevice (stream : Stream) (platform : Platform) :
    (stream.onDevice platform).device? = stream.channel?.map (·, platform) := by
  obtain ⟨endpoint, sound, closed, removal⟩ := stream
  cases endpoint with
  | channel channel => cases sound <;> cases closed <;> rfl
  | none => cases sound <;> cases closed <;> rfl
  | listener number => cases sound <;> cases closed <;> rfl

theorem device_of_channel? {channel : Channel} (connected : stream.channel? = some channel) :
    (stream.onDevice platform).device = some (channel, platform) := by
  obtain ⟨endpoint, sound, closed, removal⟩ := stream
  unfold channel? at connected
  cases endpoint with
  | channel other =>
    rw [Option.ite_none_right_eq_some] at connected
    cases connected.2
    rfl
  | none => cases connected
  | listener number => cases connected

/-- Whether what the machine does with a stream is what is done with one to its channel. -/
structure RunsOnDevice (stream : Stream) (platform : Platform) : Prop where
  isValid : (stream.onDevice platform).isValid = stream.isValid
  read : ∀ count data after later, stream.read platform count = (some data, after, later) →
    ∃ requests, (stream.onDevice platform).read Platform.device count true =
      (data, { after.onDevice later with requests })
  write : ∀ data written offered after later,
    stream.write platform data false = (some written, offered, after, later) →
      ∃ requests, (stream.onDevice platform).write Platform.device data =
        (written, { after.onDevice later with requests })
  flush : ∃ requests, (stream.onDevice platform).flush Platform.device =
    (stream.flush, { stream.onDevice platform with requests })
  setUnblocked : ∀ on, ∃ requests, (stream.onDevice platform).setUnblocked Platform.device on =
    (stream.setUnblocked platform, { stream.onDevice platform with requests })
  close : ((stream.onDevice platform).close Platform.device).sound =
      (stream.close platform).1.sound ∧
    ((stream.onDevice platform).close Platform.device).closed = (stream.close platform).1.closed

theorem read_onDevice {count : Nat} {data : Bytes}
    (reads : stream.read platform count = (some data, after, later)) :
    ∃ requests, (stream.onDevice platform).read Platform.device count true =
      (data, { after.onDevice later with requests }) := by
  have device? := device?_onDevice stream platform
  unfold Stream.read at reads
  cases connected : stream.channel? with
  | none =>
    rw [connected] at reads device?
    cases reads
    refine ⟨[], ?_⟩
    unfold DeviceStream.read
    rw [device?]
    rfl
  | some channel =>
    rw [connected] at reads device?
    dsimp only at reads
    by_cases nothing : count = 0
    · rw [if_pos nothing] at reads
      cases reads
      refine ⟨[], ?_⟩
      unfold DeviceStream.read
      rw [device?]
      exact if_pos nothing
    · rw [if_neg nothing] at reads
      refine ⟨[.read count], ?_⟩
      split at reads
      · next bytes changed rest found =>
        cases reads
        have answered : Platform.device.read (channel, platform) count =
            (data, none, changed, later) := by
          simp only [Platform.device, found]
        exact DeviceStream.read_eq device? nothing answered true
      · next error changed rest found =>
        cases reads
        have answered : Platform.device.read (channel, platform) count =
            (ByteArray.empty, some .failure, changed, later) := by
          simp only [Platform.device, found]
        exact DeviceStream.read_eq device? nothing answered true
      · cases reads

theorem write_onDevice {data : Bytes} {written offered : Bool}
    (writes : stream.write platform data false = (some written, offered, after, later)) :
    ∃ requests, (stream.onDevice platform).write Platform.device data =
      (written, { after.onDevice later with requests }) := by
  have device? := device?_onDevice stream platform
  unfold Stream.write at writes
  cases connected : stream.channel? with
  | none =>
    rw [connected] at writes device?
    cases writes
    refine ⟨[], ?_⟩
    unfold DeviceStream.write
    rw [device?]
    rfl
  | some channel =>
    rw [connected] at writes device?
    dsimp only at writes
    refine ⟨[.write data], ?_⟩
    split at writes
    · next changed taken rest found =>
      cases writes
      have answered : Platform.device.write (channel, platform) data =
          (none, changed, later) := by
        simp only [Platform.device, found]
      exact DeviceStream.write_eq device? answered
    · next error changed taken rest found =>
      cases writes
      have answered : Platform.device.write (channel, platform) data =
          (some .failure, changed, later) := by
        simp only [Platform.device, found]
      exact DeviceStream.write_eq device? answered
    · cases writes

theorem flush_onDevice (stream : Stream) (platform : Platform) :
    ∃ requests, (stream.onDevice platform).flush Platform.device =
      (stream.flush, { stream.onDevice platform with requests }) := by
  unfold DeviceStream.flush
  rw [device?_onDevice, Stream.flush]
  cases connected : stream.channel? with
  | none => exact ⟨[], rfl⟩
  | some channel =>
    refine ⟨[.flush], ?_⟩
    simp only [Option.map_some, Platform.device, Option.isSome_none, Option.isSome_some,
      Bool.false_eq_true, if_false, DeviceStream.asked, device_of_channel? connected]
    rfl

theorem setUnblocked_onDevice (stream : Stream) (platform : Platform) (on : Bool) :
    ∃ requests, (stream.onDevice platform).setUnblocked Platform.device on =
      (stream.setUnblocked platform, { stream.onDevice platform with requests }) := by
  unfold DeviceStream.setUnblocked
  rw [device?_onDevice, Stream.setUnblocked]
  cases connected : stream.channel? with
  | none => exact ⟨[], rfl⟩
  | some channel =>
    simp only [Option.map_some, Platform.device]
    cases platform.canUnblock channel with
    | false => exact ⟨[], rfl⟩
    | true =>
      refine ⟨[.setUnblocked on], ?_⟩
      simp only [if_true, Option.isNone_none, DeviceStream.asked,
        device_of_channel? connected]
      rfl

theorem close_onDevice (stream : Stream) (platform : Platform) :
    ((stream.onDevice platform).close Platform.device).sound = (stream.close platform).1.sound ∧
      ((stream.onDevice platform).close Platform.device).closed =
        (stream.close platform).1.closed := by
  unfold DeviceStream.close Stream.close
  rw [show (stream.onDevice platform).closed = stream.closed from rfl]
  split
  · exact ⟨rfl, rfl⟩
  · dsimp only
    split <;> exact ⟨rfl, rfl⟩

theorem runsOnDevice (stream : Stream) (platform : Platform) : stream.RunsOnDevice platform where
  isValid := rfl
  read := fun _ _ _ _ => read_onDevice
  write := fun _ _ _ _ _ => write_onDevice
  flush := flush_onDevice stream platform
  setUnblocked := setUnblocked_onDevice stream platform
  close := close_onDevice stream platform

end Stream

namespace DeviceStream

variable {State : Type}

/--
Whatever is done with a stream, and however its device behaves: once the stream is invalid it stays
so, and every operation but closing is refused and leaves everything as it is, the requests to the
device included. A valid stream becomes invalid exactly by a write or flush that the device fails
at, by a read of at least one byte that gives no data although the device did not only have nothing
to read and the reader is still there, or by being closed. A read that gives data, or one byte,
leaves it as valid as before. The streams of the machine are such streams, to channels.
-/
theorem validity_monotone (device : Device State) (start : DeviceStream State)
    (operations : List StreamOperation) :
    let stream := start.performAll device operations
    (stream.isValid = false → ∀ later,
      let after := stream.performAll device later
      after.isValid = false ∧ ∀ operation, operation ≠ .close →
        (after.perform device operation).2 = after ∧
          (after.perform device operation).1.IsRefusal) ∧
    (stream.isValid = true → ∀ operation,
      (stream.perform device operation).2.isValid = false ↔ stream.Spoils device operation) ∧
    (∀ count alive, (stream.read device count alive).1.isEmpty = false →
      (stream.read device count alive).2.isValid = stream.isValid) ∧
    (∀ alive, (stream.readChar device alive).1.isSome = true →
      (stream.readChar device alive).2.isValid = stream.isValid) ∧
    ∀ (stream : Stream) (platform : Platform), stream.RunsOnDevice platform := by
  intro stream
  refine ⟨fun invalid later => ?_, isValid_perform_iff, fun _ _ => isValid_read_of_data,
    fun alive found => ?_, Stream.runsOnDevice⟩
  · have still : (stream.performAll device later).isValid = false :=
      isValid_performAll invalid later
    exact ⟨still, fun operation => perform_of_invalid still⟩
  · apply isValid_read_of_data
    obtain ⟨byte, first⟩ := Option.isSome_iff_exists.1 found
    obtain ⟨inside, _⟩ := getElem?_eq_some_iff.1 first
    exact beq_eq_false_iff_ne.2 (Nat.ne_of_gt inside)

/-- A device that works but for its first flush. -/
def flushless : Device Nat where
  read := fun state count => (Bytes.replicate count 7, none, state)
  write := fun state _ => (none, state)
  flush := fun state => (if state = 0 then some .failure else none, state + 1)
  setUnblocked := fun _ _ => none
  close := id

/-- A stream is read from and flushed without success; a second flush is not even tried. -/
theorem validity_monotone_flushless :
    let stream := (opened 0).performAll flushless [.read 2 true, .flush]
    ((opened 0).performAll flushless [.read 2 true]).isValid = true ∧ stream.isValid = false ∧
      (stream.perform flushless .flush).2 = stream := by
  intro stream
  obtain ⟨_, becomes, _⟩ := validity_monotone flushless (opened 0) [.read 2 true]
  have valid : ((opened 0).performAll flushless [.read 2 true]).isValid = true := by decide
  have invalid : stream.isValid = false := (becomes valid .flush).2 ⟨0, rfl, rfl⟩
  obtain ⟨stays, _⟩ := validity_monotone flushless (opened 0) [.read 2 true, .flush]
  exact ⟨valid, invalid, ((stays invalid []).2 .flush (by decide)).1⟩

end DeviceStream

end WordMachine
