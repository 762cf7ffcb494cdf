import WordMachine.Proofs.InstructionPlans

/-!
Every instruction, and every attempt of a waiting executor, comes to a chain of effects. Calls and
jumps go where their operands say, except that a dynamic call may go anywhere.
-/

namespace WordMachine

/-! ## Streams and the platform -/

theorem Platform.SameRecord.refl (platform : Platform) : platform.SameRecord platform :=
  ⟨rfl, rfl⟩

namespace Platform

variable {platform after : Platform}

theorem read_keeps (platform : Platform) (channel : Channel) (count : Nat) :
    (platform.read channel count).2.1.handle? = channel.handle? ∧
      platform.SameRecord (platform.read channel count).2.2 := by
  unfold read
  cases channel with
  | file handle number position append => dsimp only; split <;> exact ⟨rfl, rfl, rfl⟩
  | console kind => cases kind <;> exact ⟨rfl, rfl, rfl⟩
  | pipe pipeEnd => dsimp only; split <;> exact ⟨rfl, rfl, rfl⟩

theorem write_keeps (platform : Platform) (channel : Channel) (data : Bytes) (offered : Bool) :
    (platform.write channel data offered).2.1.handle? = channel.handle? ∧
      platform.SameRecord (platform.write channel data offered).2.2.2 := by
  unfold write
  cases channel with
  | file handle number position append => exact ⟨rfl, rfl, rfl⟩
  | console kind => cases kind <;> exact ⟨rfl, rfl, rfl⟩
  | pipe pipeEnd => exact ⟨rfl, rfl, rfl⟩

theorem removeFile_keeps {path : Bytes} (removed : platform.removeFile path = .ok after) :
    platform.SameRecord after := by
  unfold removeFile at removed
  split at removed
  · cases removed
    exact ⟨rfl, rfl⟩
  · cases removed

theorem listen_keeps {port : Int} {backlog number : Nat}
    (listens : platform.listen port backlog = .ok (number, after)) : platform.SameRecord after := by
  unfold listen at listens
  split at listens
  · cases listens
    exact ⟨rfl, rfl⟩
  · cases listens

theorem connect_keeps {number : Nat} {host : Bytes} {port : Int} {channel : Channel}
    (connects : platform.connect number host port = .done (channel, after)) :
    channel.handle? = none ∧ platform.SameRecord after := by
  unfold connect at connects
  split at connects
  · cases connects
    exact ⟨rfl, rfl, rfl⟩
  · cases connects
  · cases connects

theorem changeTerminal_keeps {options : UInt32} {set : Bool}
    (changed : platform.changeTerminal? options set = some after) : platform.SameRecord after := by
  unfold changeTerminal? at changed
  split at changed
  · cases changed
  · cases changed
    exact ⟨rfl, rfl⟩

theorem openFile_handle {path : Bytes} {mode : FileMode} {channel : Channel}
    (opened : platform.openFile path mode = .ok (channel, after)) :
    channel.handle? = some platform.handles ∧ after.handles = platform.handles + 1 ∧
      after.record = platform.record := by
  unfold openFile at opened
  split at opened
  · cases opened
    exact ⟨rfl, rfl, rfl⟩
  · cases opened

end Platform

namespace Stream

/-- What is left of a stream by an operation that does not close it. -/
structure Keeps (before after : Stream) : Prop where
  handle : after.handle? = before.handle?
  closed : after.closed = before.closed
  removal : after.removeOnClose = before.removeOnClose

theorem keeps_withChannel {stream : Stream} {channel after : Channel}
    (connected : stream.channel? = some channel) (same : after.handle? = channel.handle?) :
    stream.Keeps (stream.withChannel after) := by
  refine ⟨?_, rfl, rfl⟩
  change after.handle? = _
  rw [same]
  unfold channel? at connected
  unfold handle?
  split at connected
  · split at connected
    · cases connected
      rfl
    · cases connected
  · cases connected

theorem Keeps.refl (stream : Stream) : stream.Keeps stream :=
  ⟨rfl, rfl, rfl⟩

theorem Keeps.invalidate {before after : Stream} (keeps : before.Keeps after) :
    before.Keeps after.invalidate :=
  ⟨keeps.handle, keeps.closed, keeps.removal⟩

theorem read_keeps (stream : Stream) (platform : Platform) (count : Nat) :
    stream.Keeps (stream.read platform count).2.1 ∧
      platform.SameRecord (stream.read platform count).2.2 := by
  unfold read
  cases connected : stream.channel? with
  | none => exact ⟨.refl stream, .refl platform⟩
  | some channel =>
    dsimp only
    by_cases nothing : count = 0
    · rw [if_pos nothing]
      exact ⟨.refl stream, .refl platform⟩
    · rw [if_neg nothing]
      obtain ⟨handle, record⟩ := platform.read_keeps channel count
      split
      · next found =>
        rw [found] at handle record
        exact ⟨keeps_withChannel connected handle, record⟩
      · next found =>
        rw [found] at handle record
        exact ⟨(keeps_withChannel connected handle).invalidate, record⟩
      · next found =>
        rw [found] at record
        exact ⟨.refl stream, record⟩

theorem write_keeps (stream : Stream) (platform : Platform) (data : Bytes) (offered : Bool) :
    stream.Keeps (stream.write platform data offered).2.2.1 ∧
      platform.SameRecord (stream.write platform data offered).2.2.2 := by
  unfold write
  cases connected : stream.channel? with
  | none => exact ⟨.refl stream, .refl platform⟩
  | some channel =>
    dsimp only
    obtain ⟨handle, record⟩ := platform.write_keeps channel data offered
    split
    · next found =>
      rw [found] at handle record
      exact ⟨keeps_withChannel connected handle, record⟩
    · next found =>
      rw [found] at handle record
      exact ⟨(keeps_withChannel connected handle).invalidate, record⟩
    · next found =>
      rw [found] at record
      exact ⟨.refl stream, record⟩

theorem accept_keeps {stream connection : Stream} {platform after : Platform}
    (accepted : stream.accept platform = some (connection, after)) :
    connection.handle? = none ∧ platform.SameRecord after := by
  unfold accept at accepted
  split at accepted
  · cases accepted
    exact ⟨rfl, .refl platform⟩
  · unfold Platform.accept at accepted
    split at accepted
    · next found =>
      split at found
      · cases found
        cases accepted
        exact ⟨rfl, rfl, rfl⟩
      · cases found
      · cases found
    · cases accepted
      exact ⟨rfl, .refl platform⟩
    · cases accepted

end Stream

namespace Exec

open Session (Effect Effects)

variable {target : UInt32 → Prop} {session : Session}

/-! ## Waiting -/

theorem within_resume : Within target resume :=
  within_modifyExecutor (fun _ => rfl) (fun _ => rfl) (fun _ => rfl) fun _ => rfl

theorem within_stay (wait : Wait) : Within target (stay wait) :=
  within_modifyExecutor (fun _ => rfl) (fun _ => rfl) (fun _ => rfl) fun _ => rfl

/-! ## Plans -/

/-- What a plan may do that leaves streams and files alone. -/
def alone (target : UInt32 → Prop) : Course.Rights where
  target
  pauses := True
  shares := False
  adopts := True

theorem within_jump {ip : UInt32} (permitted : target ip) : Within target (jump ip) :=
  fun session => .single (.jump session permitted)

/-- What is put together from chains of effects is one, unless it works on streams and files, which
depend on each other. -/
theorem Course.Plan.within {rights : Course.Rights} {α : Type} {computation : Exec α}
    {course : Course computation} {stops : Bool} {start stop : Nat}
    (plan : Course.Plan rights course stops start stop) (own : ¬rights.shares) :
    Within rights.target computation := by
  induction plan with
  | done value => exact within_pure value
  | bind _ _ first next => exact first.bind next
  | ite _ _ whenTrue whenFalse => exact .ite (fun _ => whenTrue) fun _ => whenFalse
  | @of _ _ _ _ same _ _ _ _ other => exact same ▸ other
  | get _ _ each => exact within_get.bind each
  | pop => exact within_pop
  | popAt _ => exact within_popAt _
  | popMany => exact within_popMany _
  | peekBehind _ => exact within_peekBehind _
  | push => exact within_push _
  | fail _ => exact within_fail _
  | resume => exact within_resume
  | stay _ => exact within_stay _
  | jump permitted => exact within_jump permitted
  | look => exact within_look _
  | text => exact within_text _
  | allocate plain => exact within_allocate? _ plain
  | pushStream held => exact within_pushStream _ (held.resolve_right own)
  | platform => exact within_platform
  | modifyPlatform same => exact within_modifyPlatform same
  | modifyHeap shares | setStream shares | setPlatform shares | openFileStream shares =>
    exact absurd shares own

theorem within_readStream (depth count : Nat) : Within target (readStream depth count) := by
  intro session
  refine Runs.peekBehind fun word => Runs.look fun stream found => Runs.platform ?_
  obtain ⟨keeps, record⟩ := stream.read_keeps session.shared.platform count
  refine (runs_setStream found keeps.handle keeps.closed keeps.removal).bind
    fun _ middle changed => ?_
  cases changed
  refine Runs.bind (runs_setPlatform ?_) fun _ middle _ => within_pure _ middle
  exact record

/-- The text of a string object is replaced. -/
theorem runs_fill {word : Word} {data : Bytes} {heap : Heap}
    (fills : session.shared.heap.fill word data = .ok heap) :
    Runs target session (modifyHeap fun _ => heap) := by
  unfold Heap.fill at fills
  split at fills
  · cases fills
  · next object dereferenced =>
    have found := Heap.deref_lookup? dereferenced
    split at fills
    · next current holds =>
      cases fills
      refine .single (.rewrite session word object (fun object => ⟨_, .string data⟩) _ found ?_)
      exact .text data (by rw [holds]; rfl)
    · next length holds =>
      cases fills
      refine .single (.rewrite session word object (fun object => ⟨_, .string data⟩) _ found ?_)
      exact .text data (by rw [holds]; rfl)
    · cases fills

theorem within_attemptReadString (limit : Nat) : Within target (attemptReadString limit) := by
  refine (within_readStream 1 limit).bind fun data => ?_
  cases data with
  | none => exact within_stay _
  | some data =>
    refine within_resume.bind fun _ => within_peek.bind fun word session => ?_
    refine Runs.look fun heap fills => (runs_fill fills).bind fun _ middle _ => ?_
    exact (within_popAt 1).bind (fun _ => within_pure _) middle

theorem within_attemptReadChar : Within target attemptReadChar := by
  refine (within_readStream 0 1).bind fun data => ?_
  cases data with
  | none => exact within_stay _
  | some data => exact within_resume.bind fun _ => within_pop.bind fun _ => within_pushInt _

theorem within_attemptWrite (data : Bytes) (offered : Bool) :
    Within target (attemptWrite data offered) := by
  intro session
  refine Runs.peekBehind fun word => Runs.look fun stream found => Runs.platform ?_
  obtain ⟨keeps, record⟩ := stream.write_keeps session.shared.platform data offered
  refine (runs_setStream found keeps.handle keeps.closed keeps.removal).bind
    fun _ middle changed => ?_
  cases changed
  refine Runs.bind (runs_setPlatform ?_) fun _ middle _ => ?_
  · exact record
  split
  · exact within_stay _ middle
  · exact within_resume.bind (fun _ => within_pop.bind fun _ => within_pop.bind fun _ =>
      within_pushBool _) middle

theorem within_attemptAccept : Within target attemptAccept := by
  refine (within_peekStream 0).bind fun stream session => Runs.platform ?_
  cases accepted : stream.accept session.shared.platform with
  | none => exact within_stay _ session
  | some result =>
    obtain ⟨connection, platform⟩ := result
    obtain ⟨nobody, record⟩ := Stream.accept_keeps accepted
    refine (runs_setPlatform record).bind fun _ middle _ => ?_
    exact within_resume.bind (fun _ => within_pop.bind fun _ => within_pushStream _ nobody) middle

theorem within_takeConnection (stream : Stream) (nobody : stream.handle? = none) :
    Within target (takeConnection stream) :=
  within_resume.bind fun _ => within_pop.bind fun _ => within_pushStream _ nobody

theorem within_attemptConnect (listener : Nat) (host : Bytes) (port deadline : Nat) :
    Within target (attemptConnect listener host port deadline) := by
  intro session
  refine Runs.platform ?_
  split
  · next channel platform connected =>
    obtain ⟨nobody, record⟩ := Platform.connect_keeps connected
    exact (runs_setPlatform record).bind fun _ middle _ =>
      within_takeConnection (.ofChannel channel) nobody middle
  · exact within_takeConnection _ rfl session
  · exact Within.ite (fun _ => within_takeConnection _ rfl) (fun _ => within_stay _) session

theorem within_attemptDial (host : Bytes) (port deadline : Nat) :
    Within target (attemptDial host port deadline) := by
  refine within_platform.bind fun platform => ?_
  split
  · exact within_takeConnection _ rfl
  · exact within_attemptConnect _ _ _ _

theorem within_attempt (wait : Wait) : Within target (attempt wait) := by
  by_cases shares : wait.changesPlatform = true
  · cases wait with
    | readString limit => exact within_attemptReadString limit
    | readChar => exact within_attemptReadChar
    | write data offered => exact within_attemptWrite data offered
    | accept => exact within_attemptAccept
    | dial host port deadline => exact within_attemptDial host port deadline
    | connect listener host port deadline =>
      exact within_attemptConnect listener host port deadline
    | _ => cases shares
  · have plan := @Course.plan_attempt (alone target) 0 trivial wait
      (fun changes => absurd changes shares) fun _ => trivial
    exact plan.within id

theorem within_settle : Within target settle := by
  intro session
  unfold Runs settle
  split
  · next wait _ => exact within_attempt wait session
  · exact .refl

/-! ## Constants -/

theorem within_reserveConsts (count : Nat) : Within target (reserveConsts count) := by
  refine within_modifyExecutor ?_ ?_ ?_ ?_ <;>
    · intro executor
      split
      · rfl
      · rw [Executor.fail_eq]

theorem within_storeConst (slot : UInt8) : Within target (storeConst slot) := by
  refine within_pop.bind fun word => ?_
  rintro ⟨executor, shared⟩
  unfold Runs
  dsimp only
  cases executor.consts.store slot word with
  | ok consts => exact .own ⟨executor, shared⟩ _ rfl rfl rfl rfl
  | error fault => exact .refl

theorem within_loadConst (slot : UInt8) : Within target (loadConst slot) := by
  refine within_get.bind fun session => ?_
  split
  · exact within_push _
  · exact within_throw _

/-! ## Calls -/

theorem within_enter (lazy : Bool) : Within target (enter lazy) := by
  rintro ⟨executor, shared⟩
  unfold Runs enter
  dsimp only
  by_cases room : executor.calls.frames.size < executor.calls.limit
  · rw [if_pos room]
    have entered : Effects target ⟨executor, shared⟩ _ := .single (.enter ⟨executor, shared⟩
      { returnTo := executor.ip, base := executor.consts.base, top := executor.consts.top, lazy }
      rfl)
    exact entered.tail (.own _ rfl rfl rfl rfl)
  · rw [if_neg room]
    refine .own ⟨executor, shared⟩ _ ?_ ?_ ?_ ?_ <;> rw [Executor.fail_eq]

theorem within_fork {start : UInt32} (permitted : target start) (arguments : Array Word) :
    Within target (fork start arguments) := by
  rintro ⟨executor, shared⟩
  change Runs target _ (if _ < _ then _ else _ : Exec Unit)
  by_cases full : (Executor.start shared.settings start).eval.capacity < arguments.size
  · rw [if_pos full]
    exact within_fail _ _
  · rw [if_neg full]
    unfold Runs
    change Effects target _ (ending (EStateM.bind _ _ _))
    unfold EStateM.bind allocate? Shared.allocate
    dsimp only
    by_cases room : shared.heap.hasRoom (Heap.headerSize + (Payload.future none).size) = true
    · rw [if_pos room]
      obtain ⟨platform, journal, same, logged⟩ := Shared.log_around
        { shared with heap := (shared.heap.allocate (.future none)).2 } fun _ =>
          "[heap] alloc " ++ (Payload.future none).kind.name.toUTF8 ++ "#" ++
            Bytes.ofNat (shared.heap.allocate (.future none)).1.toHandle.index.toNat
      rw [logged]
      have forked : Effects target ⟨executor, shared⟩ ⟨executor, shared.forked start arguments⟩ :=
        .single (.fork ⟨executor, shared⟩ arguments permitted)
      exact (forked.tail (.around _ platform journal shared.aborting shared.fault _ same)).trans
        (within_push _ _)
    · rw [if_neg room]
      exact within_fail _ _

theorem within_call {start : UInt32} (permitted : target start) (count : Nat) (mode : UInt8) :
    Within target (call start count mode) := by
  unfold call
  split
  · exact (within_enter false).bind fun entered =>
      .ite (fun _ => within_jump permitted) fun _ => within_pure _
  · intro session
    have released : session.Effects target { session with
        executor := { session.executor with consts := session.executor.consts.release } } :=
      .own session _ rfl rfl rfl rfl
    exact released.tail (.jump _ permitted)
  · exact (within_popMany count).bind fun arguments => within_fork permitted arguments
  · exact (within_popMany count).bind fun arguments => within_pushNew _ permitted
  · exact within_fail _

theorem within_callDynamic (every : ∀ start, target start) (count : Nat) (mode : UInt8) :
    Within target (callDynamic count mode) := by
  refine within_pop.bind fun callee => .ite (fun _ => ?_) fun _ => within_call (every _) _ _
  refine (within_look _).bind fun fields => ?_
  split
  · exact within_fail _
  · refine (within_pushAll _).bind fun _ => within_isRunning.bind fun running => ?_
    exact .ite (fun _ => within_call (every _) _ _) fun _ => within_pure _

theorem within_finish : Within target finish := by
  have succeed : Within target
      (modifyExecutor fun executor => { executor with state := .success }) :=
    within_modifyExecutor (fun _ => rfl) (fun _ => rfl) (fun _ => rfl) fun _ => rfl
  have emptied : Within target (do
      let session ← get
      let left := session.executor.eval.size
      if left ≠ 0 then throw (.valuesLeft left)
      modifyExecutor fun executor => { executor with state := .success }) :=
    within_get.bind fun session =>
      .ite (fun _ => (within_throw _).bind fun _ => succeed) fun _ => succeed
  refine within_get.bind fun session => .ite (fun _ => ?_) fun _ => emptied
  refine within_pop.bind fun result => Within.bind ?_ fun _ => emptied
  exact within_modifyExecutor (fun _ => rfl) (fun _ => rfl) (fun _ => rfl) fun _ => rfl

/-- The return of a lazy call stores its value, unless it has one. -/
theorem runs_force {word result value : Word} {heap : Heap}
    (forced : session.shared.heap.force word result = .ok (value, heap)) :
    Runs target session (modifyHeap fun _ => heap) := by
  unfold Heap.force at forced
  split at forced
  · cases forced
  · cases forced
    exact .refl
  · next start arguments pending =>
    cases forced
    obtain ⟨object, found, holds⟩ := Heap.delayed_eq_ok pending
    refine runs_setPayload found ?_
    rw [holds]
    exact .lazy start arguments result

theorem within_ret : Within target ret := by
  rintro ⟨executor, shared⟩
  unfold Runs ret
  change Effects target _ (ending (EStateM.bind _ _ _))
  unfold EStateM.bind
  dsimp only
  cases last : executor.calls.frames.back? with
  | none =>
    have nothing : executor.calls.frames = #[] := by simpa using last
    have calls : (⟨executor.calls.limit, executor.calls.frames.pop⟩ : CallStack) =
        executor.calls := by
      rw [nothing, Array.pop_empty, ← nothing]
    have released : Effects target ⟨executor, shared⟩
        ⟨{ executor with
            consts := executor.consts.release
            calls := ⟨executor.calls.limit, executor.calls.frames.pop⟩ }, shared⟩ :=
      .own ⟨executor, shared⟩ _ rfl rfl calls rfl
    exact released.trans (within_finish _)
  | some frame =>
    have left : Effects target ⟨executor, shared⟩
        ⟨{ executor with
            calls := ⟨executor.calls.limit, executor.calls.frames.pop⟩
            ip := frame.returnTo }, shared⟩ :=
      .single (.leave last)
    have returned : Effects target ⟨executor, shared⟩
        ⟨{ executor with
            consts := executor.consts.release.leave frame.base frame.top
            calls := ⟨executor.calls.limit, executor.calls.frames.pop⟩
            ip := frame.returnTo }, shared⟩ :=
      left.tail (.own _ rfl rfl rfl rfl)
    refine returned.trans (Within.ite (fun _ => ?_) (fun _ => within_pure _) _)
    refine within_pop.bind fun result => within_pop.bind fun word session => ?_
    exact Runs.look fun _ forced => (runs_force forced).bind fun _ middle _ => within_push _ middle

theorem enter_shared (lazy : Bool) (session : Session) :
    ∃ opened after, enter lazy session = .ok opened after ∧ after.shared = session.shared := by
  by_cases room : session.executor.calls.frames.size < session.executor.calls.limit
  · refine ⟨true, _, if_pos room, rfl⟩
  · refine ⟨false, _, if_neg room, rfl⟩

theorem within_force : Within target force := by
  refine within_peek.bind fun word session => Runs.look fun call found => ?_
  cases call with
  | forced value => exact within_pop.bind (fun _ => within_push _) session
  | pending start arguments =>
    refine (within_enter true session).bind fun opened middle entered => ?_
    have same : middle.shared = session.shared := by
      obtain ⟨_, after, enters, kept⟩ := enter_shared true session
      rw [enters] at entered
      cases entered
      exact kept
    by_cases room : opened = true
    · rw [if_pos room]
      refine (within_pushAll arguments middle).bind fun _ last pushed => ?_
      have pending : last.shared.heap.delayed word = .ok (.pending start arguments) := by
        rw [pushAll_shared arguments pushed, same]
        exact found
      exact .single (.delayed pending)
    · rw [if_neg room]
      exact within_pure _ middle

/-! ## Platform calls -/

theorem within_readString : Within target readString := by
  refine within_popInt.bind fun limit => (within_peekStream 0).bind fun _ => ?_
  refine (within_allocate? (.blank _) trivial).bind fun made => ?_
  cases made with
  | none => exact within_fail _
  | some word => exact (within_push word).bind fun _ => within_stay _

theorem opened_pushStream {stream : Stream} {platform : Platform} {path : Bytes} {autoRemove : Bool}
    (opens : stream.Opens session.shared.platform platform path autoRemove) :
    session.Effects target
      (ending (pushStream stream
        { session with shared := { session.shared with platform } })) := by
  obtain ⟨executor, shared⟩ := session
  unfold pushStream
  change Effects target _ (ending (EStateM.bind _ _ _))
  unfold EStateM.bind allocate?
  dsimp only
  by_cases room : shared.heap.hasRoom (Heap.headerSize + (Payload.stream stream).size) = true
  · rw [if_pos room]
    unfold Shared.allocate
    dsimp only
    have made : Effects target ⟨executor, shared⟩
        ⟨executor, { shared with platform, heap := (shared.heap.allocate (.stream stream)).2 }⟩ :=
      .single (.opened opens)
    exact (made.trans (Effects.log _ _)).trans (within_push _ _)
  · rw [if_neg room]
    have closed : Effects target ⟨executor, shared⟩
        ⟨executor, { shared with platform := (stream.close platform).2 }⟩ :=
      .single (.refused opens)
    exact closed.trans (within_fail _ _)

theorem opens_ofChannel {before after : Platform} {path : Bytes} {mode : FileMode}
    {channel : Channel} (flags : Nat) (opened : before.openFile path mode = .ok (channel, after)) :
    Stream.Opens
      { Stream.ofChannel channel with
        removeOnClose := if flags % 2 = 0 ∨ path.isEmpty then none else some path }
      before (after.note channel.handle? (.opened · path (flags % 2 = 1)))
        path (flags % 2 = 1) := by
  obtain ⟨handle, handles, record⟩ := Platform.openFile_handle opened
  have odd : decide (flags % 2 = 1) = false ↔ flags % 2 = 0 := by
    rw [decide_eq_false_iff_not]
    omega
  refine ⟨handle, rfl, ?_, ?_, ?_⟩
  · unfold Stream.removal
    simp only [odd]
  · rw [handle]
    exact handles
  · rw [handle]
    exact congrArg _ record

theorem within_openFile : Within target openFile := by
  refine within_popInt.bind fun options => within_popText.bind fun path session => ?_
  unfold Runs openFileStream
  split
  · exact within_pushStream _ rfl session
  · next mode _ =>
    change Effects target session (ending (EStateM.bind (EStateM.bind platform _) _ session))
    unfold EStateM.bind platform
    dsimp only
    cases opened : session.shared.platform.openFile path mode with
    | error failure => exact within_pushStream _ rfl session
    | ok result =>
      obtain ⟨channel, after⟩ := result
      exact opened_pushStream (opens_ofChannel _ opened)

theorem within_removeFile : Within target removeFile := by
  refine within_popText.bind fun path session => Runs.platform ?_
  split
  · next platform removed =>
    refine (runs_setPlatform (Platform.removeFile_keeps removed)).bind fun _ middle _ => ?_
    exact within_pushBool _ middle
  · exact within_pushBool _ session

theorem within_listen : Within target listen := by
  refine within_popInt.bind fun backlog => within_popInt.bind fun port => ?_
  split
  · exact within_pushStream _ rfl
  · intro session
    refine Runs.platform ?_
    split
    · next number platform listens =>
      refine (runs_setPlatform (Platform.listen_keeps listens)).bind fun _ middle _ => ?_
      exact within_pushStream _ rfl middle
    · exact within_pushStream _ rfl session

theorem within_changeTerminal (set : Bool) : Within target (changeTerminal set) := by
  refine within_popInt.bind fun options session => Runs.platform ?_
  split
  · next platform changed =>
    refine (runs_setPlatform (Platform.changeTerminal_keeps changed)).bind fun _ middle _ => ?_
    exact within_pushBool _ middle
  · exact within_pushBool _ session

theorem within_platformCall (call : PlatformCall) : Within target (platformCall call) := by
  have plain {call : PlatformCall} (late : call.pushesEarly = false)
      (own : call.changesPlatform = false) : Within target (platformCall call) :=
    (@Course.plan_platformCall (alone target) 0 trivial call late
      fun shares => nomatch own.symm.trans shares).within id
  cases call with
  | streamReadString => exact within_readString
  | streamWriteChar =>
    exact within_pop.bind fun _ => (within_pushInt _).bind fun _ =>
      (within_peekStream 1).bind fun _ => within_stay _
  | fileOpen => exact within_openFile
  | fileRemove => exact within_removeFile
  | tcpListen => exact within_listen
  | termSetOptions => exact within_changeTerminal true
  | termUnsetOptions => exact within_changeTerminal false
  | _ => exact plain rfl rfl

/-! ## Instructions -/

/-- The places that an instruction names: where its operand says, or anywhere. -/
def Permits (target : UInt32 → Prop) (code : Bytes) (op : Opcode) (operands : Nat) : Prop :=
  match op with
  | .jump | .jumpIf | .call => target (code.u32At operands)
  | .callDynamic => ∀ start, target start
  | _ => True

theorem permits_anywhere (code : Bytes) (op : Opcode) (operands : Nat) :
    Permits (fun _ => True) code op operands := by
  cases op with
  | callDynamic => exact fun _ => trivial
  | _ => trivial

theorem within_perform (assembly : Assembly) (op : Opcode) (operands : Nat)
    (permitted : Permits target assembly.code op operands) :
    Within target (perform assembly op operands) := by
  have plain {op : Opcode} (alone : op.usesFrames = false) (other : op ≠ .platformCall)
      (permitted : Permits target assembly.code op operands) :
      Within target (perform assembly op operands) := by
    refine (@Course.plan_perform (Exec.alone target) 0 assembly op operands alone
      (fun _ => trivial) (fun _ => trivial) (fun same => absurd same other) ?_).within id
    rintro (rfl | rfl) <;> exact permitted
  cases op with
  | reserveConsts => exact within_reserveConsts _
  | storeConst => exact within_storeConst _
  | loadConst => exact within_loadConst _
  | call => exact within_call permitted _ _
  | callDynamic => exact within_callDynamic permitted _ _
  | ret => exact within_ret
  | force => exact within_force
  | platformCall =>
    unfold perform
    dsimp only
    split
    · exact within_platformCall _
    · exact within_fail _
  | _ => exact plain rfl nofun permitted

/-- The instruction that comes next is a chain of effects once it was fetched. -/
theorem runs_issue (next : ∀ op size, session.instruction? = some (op, size) →
    target (session.executor.ip + UInt32.ofNat size) ∧
      Permits target session.shared.assembly.code op (session.executor.ip.toNat + 1)) :
    Runs target session issue := by
  unfold Runs
  cases found : session.instruction? with
  | none =>
    rw [issue_none session found]
    exact .own session _ rfl rfl rfl rfl
  | some instruction =>
    obtain ⟨op, size⟩ := instruction
    obtain ⟨goesOn, permitted⟩ := next op size found
    rw [issue_some session found]
    have placed : session.Effects target { session with
        executor := { session.executor with
          current := session.executor.ip
          ip := session.executor.ip + UInt32.ofNat size } } :=
      (Effects.own session { session.executor with current := session.executor.ip }
        rfl rfl rfl rfl).tail (.jump _ goesOn)
    exact (placed.trans (Effects.log _ _)).trans (within_perform _ op _ permitted _)

end Exec

theorem Session.Effects.carry {target : UInt32 → Prop} {session : Session}
    {computation : Exec Unit} (runs : Exec.Runs target session computation) :
    session.Effects target (session.carry computation) := by
  unfold Exec.Runs at runs
  unfold Session.carry
  cases ran : computation session with
  | ok value after =>
    rw [ran] at runs
    exact runs
  | error fault after =>
    rw [ran] at runs
    exact runs.trans (Effects.raise after fault)

end WordMachine
