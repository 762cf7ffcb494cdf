import WordMachine.Machine.Schedule
import WordMachine.Proofs.Computations
import WordMachine.Proofs.References
import Mathlib.Logic.Relation

/-!
What an instruction can do to an executor and to the state it shares, as a chain of elementary
effects. An invariant of the machine needs to be looked at effect by effect, not instruction by
instruction.
-/

namespace WordMachine

def Platform.SameRecord (before after : Platform) : Prop :=
  after.handles = before.handles ∧ after.record = before.record

/-- An object of a kind that every instruction may make. A lazy call has a permitted target; a
future comes with an executor and the stream of a file with the opening of the file. -/
def Payload.Plain (target : UInt32 → Prop) : Payload → Prop
  | .future _ => False
  | .lazy (.pending start _) => target start
  | .lazy (.forced _) => False
  | .stream held => held.handle? = none
  | _ => True

/-- How the contents of an object may change. -/
inductive Payload.Rewrites : Payload → Payload → Prop
  | text {payload : Payload} (text : Bytes) :
      payload.kind = .string → Rewrites payload (.string text)
  | link (previous : Word) (byte : UInt8) (flat : Option Bytes) (text : Bytes) :
      Rewrites (.link previous byte flat) (.link previous byte (some text))
  | lazy (start : UInt32) (arguments : Array Word) (value : Word) :
      Rewrites (.lazy (.pending start arguments)) (.lazy (.forced value))
  | stream {before after : Stream} :
      after.handle? = before.handle? → after.closed = before.closed →
      after.removeOnClose = before.removeOnClose →
      Rewrites (.stream before) (.stream after)

/-- The file that goes with a stream that was opened for a path. An empty path is no file to
remove. -/
def Stream.removal (path : Bytes) (autoRemove : Bool) : Option Bytes :=
  if autoRemove = false ∨ path.isEmpty then none else some path

/-- The stream of a file that was just opened on a platform. -/
structure Stream.Opens (stream : Stream) (before after : Platform) (path : Bytes)
    (autoRemove : Bool) : Prop where
  handle : stream.handle? = some before.handles
  closed : stream.closed = false
  removal : stream.removeOnClose = Stream.removal path autoRemove
  handles : after.handles = before.handles + 1
  record : after.record = .opened before.handles path autoRemove :: before.record

/-- Starts a forked call, whose future is made with it. -/
def Shared.forked (shared : Shared) (start : UInt32) (arguments : Array Word) : Shared :=
  let (future, heap) := shared.heap.allocate (.future none)
  let child := Executor.start shared.settings start
  let id := shared.started + 1
  { shared with
    heap
    started := id
    spawned :=
      { child with id, eval := ⟨child.eval.capacity, arguments⟩, promise := some future } ::
        shared.spawned }

theorem Shared.log_around (shared : Shared) (line : Unit → Bytes) :
    ∃ platform journal, shared.platform.SameRecord platform ∧
      shared.log line = { shared with platform, journal } := by
  unfold Shared.log
  split <;>
    · refine ⟨_, _, ?_, rfl⟩
      exact ⟨rfl, rfl⟩

namespace Session

/-- An elementary change. Calls and jumps go to permitted targets. -/
inductive Effect (target : UInt32 → Prop) : Session → Session → Prop
  /-- The executor works on its stacks, waits, or goes on. -/
  | own (session : Session) {executor : Executor} :
      executor.id = session.executor.id → executor.ip = session.executor.ip →
      executor.calls = session.executor.calls → executor.promise = session.executor.promise →
      Effect target session { session with executor }
  | jump (session : Session) {ip : UInt32} :
      target ip → Effect target session { session with executor := { session.executor with ip } }
  /-- It goes on where a lazy call says. -/
  | delayed {session : Session} {word : Word} {ip : UInt32} {arguments : Array Word} :
      session.shared.heap.delayed word = .ok (.pending ip arguments) →
      Effect target session { session with executor := { session.executor with ip } }
  | enter (session : Session) (frame : Frame) :
      frame.returnTo = session.executor.ip →
      Effect target session
        { session with
          executor := { session.executor with
            calls := ⟨session.executor.calls.limit, session.executor.calls.frames.push frame⟩ } }
  | leave {session : Session} {frame : Frame} :
      session.executor.calls.frames.back? = some frame →
      Effect target session
        { session with
          executor := { session.executor with
            calls := ⟨session.executor.calls.limit, session.executor.calls.frames.pop⟩
            ip := frame.returnTo } }
  /-- What lies around the heap changes, but for the record of files. -/
  | around (session : Session) (platform : Platform) (journal : Journal) (aborting : Bool)
      (fault : Option Report) (milestones : Array (Milestone × Nat)) :
      session.shared.platform.SameRecord platform →
      Effect target session
        { session with
          shared := { session.shared with platform, journal, aborting, fault, milestones } }
  | make (session : Session) (payload : Payload) :
      payload.Plain target →
      Effect target session
        { session with
          shared := { session.shared with heap := (session.shared.heap.allocate payload).2 } }
  | rewrite (session : Session) (word : Word) (object : Object) (change : Object → Object)
      (bytes : Int) :
      session.shared.heap.lookup? word.toHandle = some object →
      object.payload.Rewrites (change object).payload →
      Effect target session
        { session with
          shared := { session.shared with
            heap := { session.shared.heap with
              bytes
              slots := session.shared.heap.slots.modify (word.toHandle.index.toNat - 1) fun slot =>
                { slot with object := slot.object.map change } } } }
  | fork (session : Session) {start : UInt32} (arguments : Array Word) :
      target start →
      Effect target session { session with shared := session.shared.forked start arguments }
  /-- A file is opened, and its stream made. -/
  | opened {session : Session} {stream : Stream} {platform : Platform} {path : Bytes}
      {autoRemove : Bool} :
      stream.Opens session.shared.platform platform path autoRemove →
      Effect target session
        { session with
          shared := { session.shared with
            platform, heap := (session.shared.heap.allocate (.stream stream)).2 } }
  /-- A file is opened, and closed as there is no room for its stream. -/
  | refused {session : Session} {stream : Stream} {platform : Platform} {path : Bytes}
      {autoRemove : Bool} :
      stream.Opens session.shared.platform platform path autoRemove →
      Effect target session
        { session with
          shared := { session.shared with platform := (stream.close platform).2 } }

abbrev Effects (target : UInt32 → Prop) : Session → Session → Prop :=
  Relation.ReflTransGen (Effect target)

variable {target : UInt32 → Prop} {before after : Session}

theorem Effect.slots_size (effect : Effect target before after) :
    before.shared.heap.slots.size ≤ after.shared.heap.slots.size := by
  have allocated : ∀ (heap : Heap) (payload : Payload),
      heap.slots.size ≤ (heap.allocate payload).2.slots.size := by
    intro heap payload
    rw [Heap.allocate_eq, ← heap.charged_slots (Heap.headerSize + payload.size)]
    unfold Heap.place
    split <;> simp
  cases effect with
  | make payload plain => exact allocated _ _
  | rewrite word object change bytes found rewrites =>
    exact (Array.size_modify ..).ge
  | fork arguments permitted => exact allocated _ _
  | opened opens => exact allocated _ _
  | _ => exact Nat.le_refl _

theorem Effect.wellFormed (effect : Effect target before after)
    (wellFormed : before.shared.heap.WellFormed)
    (room : before.shared.heap.slots.size + 1 < 2 ^ 32) : after.shared.heap.WellFormed := by
  cases effect with
  | make payload plain => exact wellFormed.allocate room _
  | rewrite word object change bytes found rewrites =>
    refine @Heap.WellFormed.of_modify _ _ _
      (fun slot => { slot with object := slot.object.map change }) wellFormed rfl
      (fun slot => ?_) (fun _ => rfl) rfl rfl
    cases slot with
    | mk generation object next marked => cases object <;> rfl
  | fork arguments permitted => exact wellFormed.allocate room _
  | opened opens => exact wellFormed.allocate room _
  | _ => exact wellFormed

/-- What every effect keeps while there are numbers for slots, a chain keeps that leaves some. -/
theorem Effects.keeps {holds : Session → Prop}
    (each : ∀ before after, holds before → before.shared.heap.WellFormed →
      before.shared.heap.slots.size + 1 < 2 ^ 32 → Effect target before after → holds after)
    (effects : Effects target before after) (wellFormed : before.shared.heap.WellFormed)
    (room : after.shared.heap.slots.size + 1 < 2 ^ 32) (start : holds before) : holds after := by
  suffices both : holds after ∧ after.shared.heap.WellFormed from both.1
  induction effects with
  | refl => exact ⟨start, wellFormed⟩
  | tail _ effect ih =>
    have grown := effect.slots_size
    have left := Nat.lt_of_le_of_lt (Nat.add_le_add_right grown 1) room
    obtain ⟨held, formed⟩ := ih left
    exact ⟨each _ _ held formed left effect, effect.wellFormed formed left⟩

theorem Effects.own (session : Session) (executor : Executor)
    (id : executor.id = session.executor.id)
    (ip : executor.ip = session.executor.ip) (calls : executor.calls = session.executor.calls)
    (promise : executor.promise = session.executor.promise) :
    session.Effects target { session with executor } :=
  .single (.own session id ip calls promise)

theorem Effects.log (session : Session) (line : Unit → Bytes) :
    session.Effects target { session with shared := session.shared.log line } := by
  obtain ⟨platform, journal, same, logged⟩ := session.shared.log_around line
  rw [logged]
  exact .single (.around session platform journal session.shared.aborting session.shared.fault
    session.shared.milestones same)

theorem Effects.raise (session : Session) (fault : Fault) :
    session.Effects target (session.raise fault) := by
  have stopped : session.Effects target { session with
      executor :=
        { session.executor with state := .invalidAssembly, faulted := true, wait := none } } :=
    .own session _ rfl rfl rfl rfl
  unfold Session.raise
  cases recorded : session.shared.fault with
  | some report => exact stopped
  | none =>
    exact stopped.tail (.around _ session.shared.platform session.shared.journal _ _
      session.shared.milestones ⟨rfl, rfl⟩)

end Session

namespace Exec

open Session (Effect Effects)

variable {α β : Type} {target : UInt32 → Prop} {session : Session}
variable {next : α → Exec β} {word : Word}

/-- A computation that comes to a chain of effects from a session. -/
def Runs (target : UInt32 → Prop) (session : Session) (computation : Exec α) : Prop :=
  session.Effects target (ending (computation session))

/-- A computation that comes to a chain of effects from every session. -/
def Within (target : UInt32 → Prop) (computation : Exec α) : Prop :=
  ∀ session, Runs target session computation

/-! ## Composition -/

theorem Runs.bind {first : Exec α} (before : Runs target session first)
    (rest : ∀ value middle, first session = .ok value middle → Runs target middle (next value)) :
    Runs target session (first >>= next) := by
  change session.Effects target (ending (EStateM.bind first next session))
  unfold Runs at before
  unfold EStateM.bind
  cases ran : first session with
  | ok value middle =>
    rw [ran] at before
    exact before.trans (rest value middle ran)
  | error fault middle =>
    rw [ran] at before
    exact before

theorem Within.bind {first : Exec α} (before : Within target first)
    (rest : ∀ value, Within target (next value)) : Within target (first >>= next) :=
  fun session => (before session).bind fun value middle _ => rest value middle

theorem Within.ite {condition : Prop} [Decidable condition] {yes no : Exec α}
    (whenTrue : condition → Within target yes) (whenFalse : ¬condition → Within target no) :
    Within target (if condition then yes else no) := by
  by_cases holds : condition
  · rw [if_pos holds]
    exact whenTrue holds
  · rw [if_neg holds]
    exact whenFalse holds

theorem within_read {computation : Exec α}
    (reads : ∀ session, ending (computation session) = session) : Within target computation := by
  intro session
  unfold Runs
  rw [reads]

theorem within_pure (value : α) : Within target (pure value) :=
  within_read fun _ => rfl

theorem within_throw (fault : Fault) : Within target (throw fault : Exec α) :=
  within_read fun _ => rfl

theorem within_get : Within target (get : Exec Session) :=
  within_read fun _ => rfl

theorem within_platform : Within target platform :=
  within_read fun _ => rfl

theorem within_isRunning : Within target isRunning :=
  within_read fun _ => rfl

/-- What is read of the heap is known of the same session afterwards. -/
theorem look_eq_ok {view : Heap → Except Fault α} {value : α} {middle : Session}
    (looked : look view session = .ok value middle) :
    middle = session ∧ view session.shared.heap = .ok value := by
  unfold look at looked
  split at looked
  · next seen =>
    cases looked
    exact ⟨rfl, seen⟩
  · cases looked

theorem within_look (view : Heap → Except Fault α) : Within target (look view) := by
  refine within_read fun session => ?_
  unfold look
  split <;> rfl

theorem Runs.look {view : Heap → Except Fault α}
    (each : ∀ value, view session.shared.heap = .ok value → Runs target session (next value)) :
    Runs target session (look view >>= next) := by
  refine (within_look view session).bind fun value middle looked => ?_
  obtain ⟨rfl, seen⟩ := look_eq_ok looked
  exact each value seen

theorem within_peekBehind (depth : Nat) : Within target (peekBehind depth) := by
  refine within_read fun session => ?_
  unfold peekBehind
  split <;> rfl

theorem within_peek : Within target peek :=
  within_peekBehind 0

theorem Runs.peekBehind {depth : Nat} {next : Word → Exec β}
    (each : ∀ word, Runs target session (next word)) :
    Runs target session (peekBehind depth >>= next) := by
  refine (within_peekBehind depth session).bind fun word middle peeked => ?_
  unfold Exec.peekBehind at peeked
  split at peeked
  · cases peeked
    exact each word
  · cases peeked

/-! ## The executor -/

/-- A change of the executor that leaves its place, its frames and its future alone. -/
theorem within_modifyExecutor {change : Executor → Executor}
    (id : ∀ executor, (change executor).id = executor.id)
    (ip : ∀ executor, (change executor).ip = executor.ip)
    (calls : ∀ executor, (change executor).calls = executor.calls)
    (promise : ∀ executor, (change executor).promise = executor.promise) :
    Within target (modifyExecutor change) :=
  fun session => .own session _ (id session.executor) (ip session.executor) (calls session.executor)
    (promise session.executor)

theorem within_fail (state : ExecState) : Within target (fail state) := by
  refine within_modifyExecutor ?_ ?_ ?_ ?_ <;>
    · intro executor
      rw [Executor.fail_eq]

theorem within_push (word : Word) : Within target (push word) := by
  refine within_modifyExecutor ?_ ?_ ?_ ?_ <;>
    · intro executor
      unfold Executor.push
      split
      · rfl
      · rw [Executor.fail_eq]

theorem within_onEval (operation : EvalStack → Except Fault (α × EvalStack)) :
    Within target (onEval operation) := by
  rintro ⟨executor, shared⟩
  unfold Runs onEval
  dsimp only
  cases operation executor.eval with
  | ok result => exact .own ⟨executor, shared⟩ _ rfl rfl rfl rfl
  | error fault => exact .refl

theorem within_pop : Within target pop :=
  within_onEval _

theorem within_popAt (depth : Nat) : Within target (popAt depth) :=
  within_onEval _

theorem within_popMany (count : Nat) : Within target (popMany count) :=
  within_onEval _

theorem within_popInt : Within target popInt :=
  within_pop.bind fun _ => within_pure _

theorem within_pushInt (value : Int32) : Within target (pushInt value) :=
  within_push _

theorem within_pushBool (value : Bool) : Within target (pushBool value) :=
  within_push _

theorem within_pushAll (words : Array Word) : Within target (words.forM push) := by
  obtain ⟨items⟩ := words
  rw [Array.forM_eq_forM, List.forM_toArray]
  induction items with
  | nil => exact within_pure _
  | cons word items ih =>
    exact (within_push word).bind fun _ => ih

/-- Pushing leaves everything but the executor as it is. -/
theorem pushAll_shared (words : Array Word) {middle : Session}
    (pushed : (words.forM push : Exec Unit) session = .ok () middle) :
    middle.shared = session.shared := by
  obtain ⟨items⟩ := words
  rw [Array.forM_eq_forM, List.forM_toArray] at pushed
  induction items generalizing session with
  | nil =>
    cases pushed
    rfl
  | cons word items ih =>
    change (push word >>= fun _ => items.forM push) session = _ at pushed
    obtain ⟨_, between, first, rest⟩ := bind_eq_ok pushed
    cases first
    have kept := ih rest
    exact kept

/-! ## What is shared -/

theorem within_modifyPlatform {change : Platform → Platform}
    (same : ∀ platform : Platform, platform.SameRecord (change platform)) :
    Within target (modifyPlatform change) :=
  fun session => .single (.around session _ session.shared.journal session.shared.aborting
    session.shared.fault session.shared.milestones (same _))

theorem runs_setPlatform {platform : Platform}
    (same : session.shared.platform.SameRecord platform) :
    Runs target session (setPlatform platform) :=
  .single (.around session _ session.shared.journal session.shared.aborting
    session.shared.fault session.shared.milestones same)

theorem Runs.platform {next : Platform → Exec β}
    (runs : Runs target session (next session.shared.platform)) :
    Runs target session (platform >>= next) :=
  runs

theorem within_allocate? (payload : Payload) (plain : payload.Plain target) :
    Within target (allocate? payload) := by
  rintro ⟨executor, shared⟩
  unfold Runs allocate?
  dsimp only
  split
  · have made : Effects target ⟨executor, shared⟩
        ⟨executor, { shared with heap := (shared.heap.allocate payload).2 }⟩ :=
      .single (.make ⟨executor, shared⟩ payload plain)
    change Effects target _ ⟨executor, (shared.allocate payload).2⟩
    unfold Shared.allocate
    dsimp only
    exact made.trans (Effects.log _ _)
  · exact .refl

theorem within_pushNew (payload : Payload) (plain : payload.Plain target) :
    Within target (pushNew payload) := by
  refine (within_allocate? payload plain).bind fun made => ?_
  cases made with
  | some word => exact within_push word
  | none => exact within_fail _

theorem within_long (word : Word) : Within target (long word) :=
  within_look _

theorem within_popLong : Within target popLong :=
  within_pop.bind fun word => within_long word

theorem runs_setPayload {object : Object} {payload : Payload}
    (found : session.shared.heap.lookup? word.toHandle = some object)
    (rewrites : object.payload.Rewrites payload) :
    Runs target session (modifyHeap (·.setPayload word payload)) :=
  .single (.rewrite session word object (fun object => { object with payload })
    session.shared.heap.bytes found rewrites)

theorem within_text (word : Word) : Within target (text word) := by
  intro session
  refine Runs.look fun object found => ?_
  split
  · exact within_pure _ _
  · next previous byte link =>
    refine Runs.look fun text _ => ?_
    refine Runs.bind ?_ fun _ middle _ => within_pure _ middle
    refine .single (.rewrite session word object _ session.shared.heap.bytes ?_ ?_)
    · exact Heap.deref_lookup? found
    · rw [link]
      exact .link _ _ _ _
  · exact within_look _ _

theorem within_popText : Within target popText :=
  within_pop.bind fun word => within_text word

/-! ## Streams -/

theorem exists_stream {heap : Heap} {stream : Stream} (found : heap.stream word = .ok stream) :
    ∃ object, heap.lookup? word.toHandle = some object ∧ object.payload = .stream stream := by
  obtain ⟨object, objectFound, selected⟩ := Heap.view_eq_ok found
  split at selected
  · next holds =>
    cases selected
    exact ⟨object, objectFound, holds⟩
  · cases selected

/-- A stream changes, but keeps what it holds of the platform. -/
theorem runs_setStream {before after : Stream}
    (found : session.shared.heap.stream word = .ok before) (handle : after.handle? = before.handle?)
    (closed : after.closed = before.closed) (removal : after.removeOnClose = before.removeOnClose) :
    Runs target session (setStream word after) := by
  obtain ⟨object, objectFound, holds⟩ := exists_stream found
  refine runs_setPayload objectFound ?_
  rw [holds]
  exact .stream handle closed removal

theorem within_peekStream (depth : Nat) : Within target (peekStream depth) :=
  (within_peekBehind depth).bind fun _ => within_look _

theorem close_keeps {stream : Stream} (nobody : stream.handle? = none) (platform : Platform) :
    platform.SameRecord (stream.close platform).2 := by
  have released : platform.SameRecord (stream.release platform) := by
    unfold Stream.release
    unfold Stream.handle? at nobody
    cases connected : stream.endpoint with
    | none => exact ⟨rfl, rfl⟩
    | listener number => exact ⟨rfl, rfl⟩
    | channel channel =>
      rw [connected] at nobody
      cases channel with
      | file handle number position append => cases nobody
      | console kind => exact ⟨rfl, rfl⟩
      | pipe pipeEnd => exact ⟨rfl, rfl⟩
  have discarded : ∀ platform : Platform, platform.SameRecord (stream.discard platform) := by
    intro platform
    unfold Stream.discard
    rw [nobody]
    cases stream.removeOnClose with
    | none => exact ⟨rfl, rfl⟩
    | some path =>
      change platform.SameRecord (platform.withoutFile path)
      unfold Platform.withoutFile Platform.removeFile
      cases platform.files.remove? path <;> exact ⟨rfl, rfl⟩
  unfold Stream.close
  split
  · exact ⟨rfl, rfl⟩
  · exact ⟨(discarded _).1.trans released.1, (discarded _).2.trans released.2⟩

theorem within_pushStream (stream : Stream) (nobody : stream.handle? = none) :
    Within target (pushStream stream) := by
  refine (within_allocate? (.stream stream) nobody).bind fun made => ?_
  cases made with
  | some word => exact within_push word
  | none =>
    refine Within.bind ?_ fun _ => within_fail _
    intro session
    exact .single (.around session _ session.shared.journal session.shared.aborting
      session.shared.fault session.shared.milestones (close_keeps nobody _))

end Exec

end WordMachine
