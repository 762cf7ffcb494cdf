import WordMachine.Proofs.SafeExecution

/-!
Every instruction, and every attempt of a waiting executor, keeps references leading to objects.
-/

namespace WordMachine.Exec

variable {heap : Heap}
variable {word : Word} {consts : ConstStack} {arguments : Array Word}

/-! ## Waiting -/

theorem safe_resume : Safe 0 heap resume Anything :=
  safe_modifyControl (fun _ => rfl) (fun _ => rfl) (fun _ => rfl) fun _ => rfl

theorem safe_stay (wait : Wait) : Safe 0 heap (stay wait) Anything :=
  safe_modifyControl (fun _ => rfl) (fun _ => rfl) (fun _ => rfl) fun _ => rfl

/-- An outcome whose value leads to an object if the call succeeded. -/
def OutcomeResolves (later : Heap) (outcome : Option (Word × ExecState)) : Prop :=
  ∀ value, outcome = some (value, .success) → later.Resolves value

theorem safe_lookOutcome (resolves : heap.Resolves word) :
    Safe 0 heap (look (·.outcome word)) OutcomeResolves := by
  refine safe_look ?_ fun _ _ grown _ failed => Heap.view_permitted (grown.resolves resolves) failed
  rintro later outcome _ intact viewed value rfl
  exact Heap.outcome_resolves intact.closed viewed

theorem safe_takeOutcome {outcome : Word × ExecState}
    (resolves : OutcomeResolves heap (some outcome)) :
    Safe 0 heap (takeOutcome outcome) Anything := by
  refine safe_resume.bind fun _ _ grown _ => ?_
  refine safe_pop.bind fun _ _ more _ => ?_
  refine Safe.ite (fun succeeded => ?_) fun _ => safe_fail _
  obtain ⟨value, state⟩ := outcome
  obtain rfl : state = .success := by simpa using succeeded
  exact safe_push ((grown.trans more).resolves (resolves value rfl))

theorem safe_attemptFuture : Safe 0 heap attemptFuture Anything := by
  refine safe_peek.bind fun word _ _ resolves => ?_
  refine (safe_lookOutcome resolves).bind fun outcome _ _ leads => ?_
  cases outcome with
  | some outcome => exact safe_takeOutcome leads
  | none => exact safe_stay _

theorem safe_attemptFutureUntil (deadline : Nat) :
    Safe 0 heap (attemptFutureUntil deadline) Anything := by
  refine safe_peek.bind fun word _ _ resolves => ?_
  refine (safe_lookOutcome resolves).bind fun outcome _ _ _ => ?_
  refine safe_platform.bind fun platform _ _ _ => ?_
  refine Safe.ite (fun _ => ?_) fun _ => safe_stay _
  refine safe_resume.bind fun _ _ _ _ => ?_
  exact safe_pop.bind fun _ _ _ _ => safe_pushBool _

theorem safe_attemptSleep (wake : Nat) : Safe 0 heap (attemptSleep wake) Anything :=
  safe_platform.bind fun _ _ _ _ => Safe.ite (fun _ => safe_resume) fun _ => safe_stay _

theorem safe_attemptConsoleChar : Safe 0 heap attemptConsoleChar Anything := by
  refine safe_platform.bind fun platform _ _ _ => ?_
  refine (safe_modifyPlatform _).bind fun _ _ _ _ => ?_
  exact safe_resume.bind fun _ _ _ _ => safe_pushInt _

theorem safe_attemptConsoleLine : Safe 1 heap attemptConsoleLine Anything := by
  refine safe_platform.bind fun platform _ _ _ => ?_
  refine (safe_modifyPlatform _).bind fun _ _ _ _ => ?_
  exact safe_resume.bind fun _ _ _ _ => safe_pushString _

theorem safe_readStream (depth count : Nat) : Safe 0 heap (readStream depth count) Anything := by
  refine (safe_peekBehind depth).bind fun word _ _ resolves => ?_
  refine (safe_lookStream resolves).bind fun stream _ _ found => ?_
  refine safe_platform.bind fun platform _ grown _ => ?_
  obtain ⟨object, objectFound⟩ := found
  obtain ⟨other, otherFound⟩ := grown _ object objectFound
  refine (safe_setStream otherFound _).bind fun _ _ _ _ => ?_
  exact (safe_setPlatform _).bind fun _ _ _ _ => Safe.pure fun _ _ => trivial

theorem safe_attemptReadString (limit : Nat) : Safe 0 heap (attemptReadString limit) Anything := by
  refine (safe_readStream 1 limit).bind fun data _ _ _ => ?_
  cases data with
  | none => exact safe_stay _
  | some data =>
    refine safe_resume.bind fun _ _ _ _ => ?_
    refine safe_peek.bind fun word _ _ resolves => ?_
    refine Safe.replaceHeap ?_ fun _ _ grown _ failed =>
      Heap.fill_permitted (grown.resolves resolves) failed
    intro later filled _ intact fills
    obtain ⟨now, extended, size⟩ := intact.fill fills
    refine ⟨now, extended, size, ?_⟩
    exact (safe_popAt 1).bind fun _ _ _ _ => Safe.pure fun _ _ => trivial

theorem safe_attemptReadChar : Safe 0 heap attemptReadChar Anything := by
  refine (safe_readStream 0 1).bind fun data _ _ _ => ?_
  cases data with
  | none => exact safe_stay _
  | some data =>
    refine safe_resume.bind fun _ _ _ _ => ?_
    exact safe_pop.bind fun _ _ _ _ => safe_pushInt _

theorem safe_attemptWrite (data : Bytes) (offered : Bool) :
    Safe 0 heap (attemptWrite data offered) Anything := by
  refine (safe_peekBehind 1).bind fun word _ _ resolves => ?_
  refine (safe_lookStream resolves).bind fun stream _ _ found => ?_
  refine safe_platform.bind fun platform _ grown _ => ?_
  obtain ⟨object, objectFound⟩ := found
  obtain ⟨other, otherFound⟩ := grown _ object objectFound
  refine (safe_setStream otherFound _).bind fun _ _ _ _ => ?_
  refine (safe_setPlatform _).bind fun _ _ _ _ => ?_
  split
  · exact safe_stay _
  · refine safe_resume.bind fun _ _ _ _ => ?_
    refine safe_pop.bind fun _ _ _ _ => ?_
    exact safe_pop.bind fun _ _ _ _ => safe_pushBool _

theorem safe_attemptFlush : Safe 0 heap attemptFlush Anything := by
  refine (safe_peekStream 0).bind fun stream _ _ _ => ?_
  refine safe_resume.bind fun _ _ _ _ => ?_
  exact safe_pop.bind fun _ _ _ _ => safe_pushBool _

theorem safe_attemptAccept : Safe 1 heap attemptAccept Anything := by
  refine (safe_peekStream 0).bind fun stream _ _ _ => ?_
  refine safe_platform.bind fun platform _ _ _ => ?_
  split
  · exact (safe_stay _).spared
  · refine (safe_setPlatform _).bind fun _ _ _ _ => ?_
    refine safe_resume.bind fun _ _ _ _ => ?_
    exact safe_pop.bind fun _ _ _ _ => safe_pushStream _

theorem safe_takeConnection (stream : Stream) : Safe 1 heap (takeConnection stream) Anything := by
  refine safe_resume.bind fun _ _ _ _ => ?_
  exact safe_pop.bind fun _ _ _ _ => safe_pushStream _

theorem safe_attemptConnect (listener : Nat) (host : Bytes) (port deadline : Nat) :
    Safe 1 heap (attemptConnect listener host port deadline) Anything := by
  refine safe_platform.bind fun platform _ _ _ => ?_
  split
  · exact (safe_setPlatform _).bind fun _ _ _ _ => safe_takeConnection _
  · exact safe_takeConnection _
  · exact Safe.ite (fun _ => safe_takeConnection _) fun _ => (safe_stay _).spared

theorem safe_attemptDial (host : Bytes) (port deadline : Nat) :
    Safe 1 heap (attemptDial host port deadline) Anything := by
  refine safe_platform.bind fun platform _ _ _ => ?_
  split
  · exact safe_takeConnection _
  · exact safe_attemptConnect _ _ _ _

theorem safe_attemptAddress (host : Bytes) : Safe 1 heap (attemptAddress host) Anything := by
  refine safe_platform.bind fun platform _ _ _ => ?_
  refine safe_resume.bind fun _ _ _ _ => ?_
  exact safe_pop.bind fun _ _ _ _ => safe_pushString _

theorem safe_attempt (wait : Wait) : Safe 1 heap (attempt wait) Anything := by
  cases wait with
  | sleep wake => exact (safe_attemptSleep wake).spared
  | future => exact safe_attemptFuture.spared
  | futureUntil deadline => exact (safe_attemptFutureUntil deadline).spared
  | consoleChar => exact safe_attemptConsoleChar.spared
  | consoleLine => exact safe_attemptConsoleLine
  | readString limit => exact (safe_attemptReadString limit).spared
  | readChar => exact safe_attemptReadChar.spared
  | write data offered => exact (safe_attemptWrite data offered).spared
  | flush => exact safe_attemptFlush.spared
  | accept => exact safe_attemptAccept
  | dial host port deadline => exact safe_attemptDial host port deadline
  | connect listener host port deadline => exact safe_attemptConnect listener host port deadline
  | address host => exact safe_attemptAddress host

theorem safe_settle : Safe 1 heap settle Anything := by
  intro session safe grown room
  unfold settle
  split
  · next wait _ => exact safe_attempt wait session safe grown room
  · exact ⟨.refl safe 1, trivial⟩

/-! ## Constants -/

theorem mem_grow {slots : Array Word} {count : Nat} (member : word ∈ ConstStack.grow slots count) :
    word ∈ slots ∨ word = 0 := by
  induction count generalizing slots with
  | zero => exact Or.inl member
  | succ count ih =>
    rcases ih member with inSlots | zero
    · exact Array.mem_push.1 inSlots
    · exact Or.inr zero

/-- A change of the constants that keeps words leading to objects. -/
theorem rooted_consts {executor : Executor} (rooted : executor.Rooted heap)
    (resolve : ∀ word ∈ consts.slots, heap.Resolves word) :
    ({ executor with consts } : Executor).Rooted heap :=
  ⟨rooted.eval, resolve, rooted.promise⟩

theorem rooted_shrink {executor : Executor} (rooted : executor.Rooted heap) {count : Nat} :
    ∀ word ∈ executor.consts.slots.shrink count, heap.Resolves word :=
  fun word member => rooted.consts word (mem_of_mem_shrink member)

theorem safe_reserveConsts (count : Nat) : Safe 0 heap (reserveConsts count) Anything := by
  refine safe_modifyExecutor fun later executor _ rooted => ?_
  split
  · refine rooted_consts rooted fun word member => ?_
    rcases mem_grow member with before | rfl
    · exact rooted_shrink rooted word before
    · exact Heap.resolves_of_isRef rfl
  · exact rooted.fail .stackOverflow

theorem safe_storeConst (slot : UInt8) : Safe 0 heap (storeConst slot) Anything := by
  refine safe_pop.bind fun word later _ resolves => ?_
  intro session safe grown _
  obtain ⟨executor, shared⟩ := session
  unfold ConstStack.store
  by_cases inside : executor.consts.base + slot.toNat < executor.consts.slots.size
  · simp only [inside, if_true]
    refine ⟨⟨⟨safe.intact, rooted_consts safe.own ?_, safe.spawned, safe.fault⟩, ?_, ?_⟩, trivial⟩
    · intro other member
      rcases Array.mem_or_eq_of_mem_setIfInBounds member with before | rfl
      · exact safe.own.consts other before
      · exact grown.resolves resolves
    · exact Heap.Extends.refl _
    · exact Nat.le_refl _
  · simp only [inside, if_false]
    exact ⟨.refl safe 0, Fault.permitted_of_code (show 1005 ≠ 1001 by decide)⟩

theorem mem_of_load {slot : UInt8} (loaded : consts.load slot = .ok word) :
    word ∈ consts.slots := by
  unfold ConstStack.load at loaded
  simp only at loaded
  split at loaded
  · next found =>
    cases loaded
    exact Array.mem_of_getElem? found
  · cases loaded

theorem load_permitted {slot : UInt8} {fault : Fault} (failed : consts.load slot = .error fault) :
    fault.Permitted := by
  unfold ConstStack.load at failed
  simp only at failed
  split at failed
  · cases failed
  · cases failed
    exact Fault.permitted_of_code (show 1005 ≠ 1001 by decide)

theorem safe_loadConst (slot : UInt8) : Safe 0 heap (loadConst slot) Anything := by
  intro session safe grown room
  cases loaded : session.executor.consts.load slot with
  | ok word =>
    have runs : loadConst slot session = push word session := by
      simp only [loadConst, bind, EStateM.bind, get, getThe, MonadStateOf.get, EStateM.get, loaded]
    have resolves := safe.own.consts word (mem_of_load loaded)
    rw [runs]
    exact safe_push resolves session safe (Heap.Extends.refl _) room
  | error fault =>
    have runs : loadConst slot session = .error fault session := by
      simp only [loadConst, bind, EStateM.bind, get, getThe, MonadStateOf.get, EStateM.get, loaded]
      rfl
    rw [runs]
    exact ⟨.refl safe 0, load_permitted loaded⟩

/-! ## Calls -/

theorem safe_jump (target : UInt32) : Safe 0 heap (jump target) Anything :=
  safe_modifyControl (fun _ => rfl) (fun _ => rfl) (fun _ => rfl) fun _ => rfl

theorem safe_enter (lazy : Bool) : Safe 0 heap (enter lazy) Anything := by
  intro session safe _ _
  obtain ⟨executor, shared⟩ := session
  unfold enter
  simp only
  split
  · exact ⟨⟨⟨safe.intact, ⟨safe.own.eval, safe.own.consts, safe.own.promise⟩,
      safe.spawned, safe.fault⟩, Heap.Extends.refl _, Nat.le_refl _⟩, trivial⟩
  · exact ⟨⟨⟨safe.intact, safe.own.fail .stackOverflow, safe.spawned, safe.fault⟩,
      Heap.Extends.refl _, Nat.le_refl _⟩, trivial⟩

/-- A forked call takes its arguments along. -/
theorem rooted_child (settings : Settings) (target : UInt32) (id : Nat) {future : Word}
    (resolve : ∀ word ∈ arguments, heap.Resolves word) (leads : heap.Leads future) :
    Executor.Rooted heap
      { Executor.start settings target with
        id, eval := ⟨settings.evalStack.toNat, arguments⟩, promise := some future } where
  eval := resolve
  consts := by
    intro word member
    simp [Executor.start] at member
  promise := by
    rintro word ⟨⟩
    refine ⟨leads, ?_⟩
    change heap.Resolves 0
    exact Heap.resolves_of_isRef rfl

/-- A new executor whose words lead to objects joins the forked ones. -/
theorem safe_spawn {change : Shared → Shared} {child : Shared → Executor}
    (rooted : ∀ shared, (child shared).Rooted heap)
    (sameHeap : ∀ shared, (change shared).heap = shared.heap)
    (joined : ∀ shared, (change shared).spawned = child shared :: shared.spawned)
    (sameFault : ∀ shared, (change shared).fault = shared.fault) :
    Safe 0 heap (modifyShared change) Anything := by
  intro session safe grown _
  refine ⟨⟨⟨?_, ?_, ?_, ?_⟩, ?_, ?_⟩, trivial⟩
  · change (change session.shared).heap.Intact
    rw [sameHeap]
    exact safe.intact
  · change session.executor.Rooted (change session.shared).heap
    rw [sameHeap]
    exact safe.own
  · change ∀ other ∈ (change session.shared).spawned, other.Rooted (change session.shared).heap
    rw [sameHeap, joined]
    intro other member
    rcases List.mem_cons.1 member with rfl | before
    · exact (rooted session.shared).mono grown
    · exact safe.spawned other before
  · change ∀ report, (change session.shared).fault = some report → _
    rw [sameFault]
    exact safe.fault
  · change session.shared.heap.Extends (change session.shared).heap
    rw [sameHeap]
    exact Heap.Extends.refl _
  · change (change session.shared).heap.slots.size ≤ _
    rw [sameHeap]
    exact Nat.le_refl _

theorem safe_fork (target : UInt32) (resolve : ∀ word ∈ arguments, heap.Resolves word) :
    Safe 1 heap (fork target arguments) Anything := by
  refine safe_get.bind fun session later grown _ => ?_
  refine Safe.ite (fun _ => (safe_fail _).spared) fun _ => ?_
  have refers : ∀ next, (Payload.future none).Refers next → later.Resolves next :=
    fun _ held => by cases held
  refine (safe_allocate? refers).bindLast fun made afterwards more leads => ?_
  cases made with
  | none => exact safe_fail _
  | some future =>
    have futureLeads := leads future rfl
    have resolveNow : ∀ word ∈ arguments, afterwards.Resolves word :=
      fun word member => (grown.trans more).resolves (resolve word member)
    have rooted := fun shared : Shared =>
      rooted_child session.shared.settings target (shared.started + 1) resolveNow futureLeads
    refine Safe.bind (safe_spawn rooted (fun _ => rfl) (fun _ => rfl) fun _ => rfl) ?_
    exact fun _ _ last _ => safe_push (last.resolves futureLeads.resolves)

theorem safe_pushLazy (target : UInt32) (resolve : ∀ word ∈ arguments, heap.Resolves word) :
    Safe 1 heap (pushNew (.lazy (.pending target arguments))) Anything := by
  refine safe_pushNew ?_
  rintro next ⟨⟩
  exact resolve next ‹_›

theorem safe_call (target : UInt32) (count : Nat) (mode : UInt8) :
    Safe 1 heap (call target count mode) Anything := by
  unfold call
  split
  · refine Safe.spared ((safe_enter false).bind fun entered _ _ _ => ?_)
    exact Safe.ite (fun _ => safe_jump _) fun _ => Safe.pure fun _ _ => trivial
  · refine Safe.spared (safe_modifyExecutor fun later executor _ rooted => ?_)
    exact ⟨rooted.eval, rooted_shrink rooted, rooted.promise⟩
  · exact (safe_popMany count).bind fun arguments _ _ resolve => safe_fork target resolve
  · exact (safe_popMany count).bind fun arguments _ _ resolve => safe_pushLazy target resolve
  · exact (safe_fail _).spared

theorem safe_callDynamic (count : Nat) (mode : UInt8) :
    Safe 1 heap (callDynamic count mode) Anything := by
  refine safe_pop.bind fun callee later _ resolves => ?_
  refine Safe.ite (fun _ => ?_) fun _ => safe_call _ _ _
  have looked : Safe 0 later (look (·.fields callee)) fun afterwards fields =>
      ∀ field ∈ fields, afterwards.Resolves field :=
    safe_look (fun _ _ _ intact viewed => Heap.fields_resolve intact.closed viewed)
      fun _ _ grown _ failed => Heap.view_permitted (grown.resolves resolves) failed
  refine looked.bind fun fields _ _ resolve => ?_
  split
  · exact (safe_fail _).spared
  · refine (safe_pushAll fun word member => resolve word (mem_of_mem_pop member)).bind
      fun _ _ _ _ => ?_
    refine safe_isRunning.bind fun running _ _ _ => ?_
    exact Safe.ite (fun _ => safe_call _ _ _) fun _ => Safe.pure fun _ _ => trivial

theorem safe_finishEmpty :
    Safe 0 heap
      (do
        let session ← get
        let left := session.executor.eval.size
        if left ≠ 0 then throw (.valuesLeft left)
        modifyExecutor fun executor => { executor with state := .success })
      Anything := by
  have succeed : ∀ later : Heap, Safe 0 later
      (modifyExecutor fun executor => { executor with state := .success }) Anything :=
    fun _ => safe_modifyControl (fun _ => rfl) (fun _ => rfl) (fun _ => rfl) fun _ => rfl
  have leftover : ∀ count, Safe 0 heap (throw (.valuesLeft count) : Exec Unit) Anything :=
    fun count => Safe.throw (Fault.permitted_of_code (show 1002 ≠ 1001 by decide))
  intro session safe grown room
  exact Safe.ite (fun _ => (leftover _).bind fun _ later _ _ => succeed later)
    (fun _ => succeed heap) session safe grown room

theorem safe_finish : Safe 0 heap finish Anything := by
  refine safe_get.bind fun session _ _ _ => ?_
  refine Safe.ite (fun _ => ?_) fun _ => safe_finishEmpty
  refine safe_pop.bind fun result _ _ resolves => ?_
  refine Safe.bind (safe_modifyExecutor fun later executor grown rooted => ?_) fun _ _ _ _ =>
    safe_finishEmpty
  exact ⟨rooted.eval, rooted.consts,
    fun word promised => ⟨(rooted.promise word promised).1, grown.resolves resolves⟩⟩

theorem safe_storeForced {result : Word} (wordResolves : heap.Resolves word)
    (resultResolves : heap.Resolves result) :
    Safe 0 heap
      (do
        let (value, changed) ← look (·.force word result)
        modifyHeap fun _ => changed
        push value)
      Anything := by
  have replaced : Safe 0 heap
      (look (·.force word result) >>= fun pair =>
        modifyHeap (fun _ => pair.2) >>= fun _ => push pair.1) Anything := by
    refine Safe.replaceHeap ?_ fun _ _ grown _ failed =>
      Heap.force_permitted (grown.resolves wordResolves) failed
    rintro later ⟨value, changed⟩ grown intact forced
    obtain ⟨now, extended, size, resolves⟩ := intact.force (grown.resolves resultResolves) forced
    exact ⟨now, extended, size, safe_push (extended.resolves resolves)⟩
  exact replaced

theorem safe_popFrame :
    Safe 0 heap
      (fun ⟨executor, shared⟩ =>
        let frame := executor.calls.frames.back?
        .ok frame
          ⟨{ executor with
              consts := executor.consts.release
              calls := ⟨executor.calls.limit, executor.calls.frames.pop⟩ },
            shared⟩)
      Anything := by
  intro session safe _ _
  exact ⟨⟨⟨safe.intact,
    ⟨safe.own.eval, rooted_shrink safe.own, safe.own.promise⟩,
    safe.spawned, safe.fault⟩, Heap.Extends.refl _, Nat.le_refl _⟩, trivial⟩

theorem safe_ret : Safe 0 heap ret Anything := by
  refine safe_popFrame.bind fun frame _ _ _ => ?_
  cases frame with
  | none => exact safe_finish
  | some frame =>
    refine Safe.bind (safe_modifyExecutor fun later executor _ rooted => ?_) fun _ _ _ _ => ?_
    · exact ⟨rooted.eval, rooted_shrink rooted, rooted.promise⟩
    · refine Safe.ite (fun _ => ?_) fun _ => Safe.pure fun _ _ => trivial
      refine safe_pop.bind fun result _ _ resultResolves => ?_
      refine safe_pop.bind fun word _ grown wordResolves => ?_
      exact safe_storeForced wordResolves (grown.resolves resultResolves)

theorem safe_await : Safe 0 heap await Anything := by
  refine safe_peek.bind fun word _ _ resolves => ?_
  refine (safe_lookOutcome resolves).bind fun outcome _ _ leads => ?_
  cases outcome with
  | some outcome => exact safe_takeOutcome leads
  | none => exact safe_stay _

theorem safe_awaitFor : Safe 0 heap awaitFor Anything := by
  refine safe_popLong.bind fun limit _ _ _ => ?_
  refine safe_peek.bind fun word _ _ resolves => ?_
  refine (safe_lookOutcome resolves).bind fun outcome _ _ _ => ?_
  refine Safe.ite (fun _ => ?_) fun _ => ?_
  · exact safe_pop.bind fun _ _ _ _ => safe_pushBool _
  · exact safe_platform.bind fun _ _ _ _ => safe_stay _

theorem safe_force : Safe 0 heap force Anything := by
  refine safe_peek.bind fun word later _ resolves => ?_
  have looked : Safe 0 later (look (·.delayed word)) fun afterwards call =>
      ∀ value, (Payload.lazy call).Refers value → afterwards.Resolves value :=
    safe_look (fun _ _ _ intact viewed _ held => Heap.delayed_resolve intact.closed viewed held)
      fun _ _ grown _ failed => Heap.view_permitted (grown.resolves resolves) failed
  refine looked.bind fun call _ _ resolve => ?_
  cases call with
  | forced value =>
    exact safe_pop.bind fun _ _ grown _ => safe_push (grown.resolves (resolve value .value))
  | pending target arguments =>
    refine (safe_enter true).bind fun entered _ grown _ => ?_
    refine Safe.ite (fun _ => ?_) fun _ => Safe.pure fun _ _ => trivial
    have resolveNow := fun word (member : word ∈ arguments) =>
      grown.resolves (resolve word (.argument member))
    exact (safe_pushAll resolveNow).bind fun _ _ _ _ => safe_jump _

/-! ## Platform calls -/

theorem safe_readString : Safe 1 heap readString Anything := by
  refine safe_popInt.bind fun limit _ _ _ => ?_
  refine (safe_peekStream 0).bind fun _ later _ _ => ?_
  have refers : ∀ next, (Payload.blank limit.toInt.toNat).Refers next → later.Resolves next :=
    fun _ held => by cases held
  refine (safe_allocate? refers).bindLast fun made _ _ leads => ?_
  cases made with
  | none => exact safe_fail _
  | some word =>
    exact (safe_push (leads word rfl).resolves).bind fun _ _ _ _ => safe_stay _

theorem safe_writeStream (data : Bytes) : Safe 0 heap (writeStream data) Anything :=
  (safe_peekStream 1).bind fun _ _ _ _ => safe_stay _

theorem safe_writeStreamChar : Safe 0 heap writeStreamChar Anything := by
  refine safe_pop.bind fun word _ _ _ => ?_
  exact (safe_pushInt _).bind fun _ _ _ _ => safe_writeStream _

theorem safe_changeStream : Safe 0 heap changeStream Anything := by
  refine safe_popInt.bind fun options _ _ _ => ?_
  refine safe_popStream.bind fun stream _ _ _ => ?_
  exact safe_platform.bind fun _ _ _ _ => safe_pushBool _

theorem safe_openConsole : Safe 1 heap openConsole Anything := by
  refine safe_popInt.bind fun code _ _ _ => ?_
  split
  · exact safe_pushStream _
  · exact safe_pushStream _

theorem safe_openFileStream (path : Bytes) (mode flags : Nat) :
    Safe 0 heap (openFileStream path mode flags) Anything := by
  unfold openFileStream
  split
  · exact Safe.pure fun _ _ => trivial
  · refine safe_platform.bind fun platform _ _ _ => ?_
    split
    · exact Safe.pure fun _ _ => trivial
    · exact (safe_setPlatform _).bind fun _ _ _ _ => Safe.pure fun _ _ => trivial

theorem safe_openFile : Safe 1 heap openFile Anything := by
  refine safe_popInt.bind fun options _ _ _ => ?_
  refine safe_popText.bind fun path _ _ _ => ?_
  exact (safe_openFileStream _ _ _).bind fun _ _ _ _ => safe_pushStream _

theorem safe_removeFile : Safe 0 heap removeFile Anything := by
  refine safe_popText.bind fun path _ _ _ => ?_
  refine safe_platform.bind fun platform _ _ _ => ?_
  split
  · exact (safe_setPlatform _).bind fun _ _ _ _ => safe_pushBool _
  · exact safe_pushBool _

theorem safe_connect : Safe 1 heap connect Anything := by
  refine safe_popInt.bind fun port _ _ _ => ?_
  refine safe_peek.bind fun word _ _ resolves => ?_
  refine (safe_text resolves).bind fun host _ _ _ => ?_
  split
  · exact safe_takeConnection _
  · exact Safe.spared (safe_get.bind fun _ _ _ _ => safe_stay _)

theorem safe_listen : Safe 1 heap listen Anything := by
  refine safe_popInt.bind fun backlog _ _ _ => ?_
  refine safe_popInt.bind fun port _ _ _ => ?_
  split
  · exact safe_pushStream _
  · refine safe_platform.bind fun platform _ _ _ => ?_
    split
    · exact (safe_setPlatform _).bind fun _ _ _ _ => safe_pushStream _
    · exact safe_pushStream _

theorem safe_lookupAddress : Safe 0 heap lookupAddress Anything := by
  refine safe_peek.bind fun word _ _ resolves => ?_
  exact (safe_text resolves).bind fun _ _ _ _ => safe_stay _

theorem safe_changeTerminal (set : Bool) : Safe 0 heap (changeTerminal set) Anything := by
  refine safe_popInt.bind fun options _ _ _ => ?_
  refine safe_platform.bind fun platform _ _ _ => ?_
  split
  · exact (safe_setPlatform _).bind fun _ _ _ _ => safe_pushBool _
  · exact safe_pushBool _

theorem safe_argument : Safe 1 heap argument Anything := by
  refine safe_platform.bind fun platform _ _ _ => ?_
  exact safe_popInt.bind fun _ _ _ _ => safe_pushString _

theorem safe_environmentVariable : Safe 1 heap environmentVariable Anything := by
  refine safe_popText.bind fun name _ _ _ => ?_
  exact safe_platform.bind fun _ _ _ _ => safe_pushString _

theorem safe_readClock : Safe 0 heap readClock Anything := by
  refine safe_platform.bind fun platform _ _ _ => ?_
  exact (safe_modifyPlatform _).bind fun _ _ _ _ => Safe.pure fun _ _ => trivial

theorem safe_sleep : Safe 0 heap sleep Anything := by
  refine safe_peek.bind fun word _ _ resolves => ?_
  refine (safe_long resolves).bind fun time _ _ _ => ?_
  exact safe_platform.bind fun _ _ _ _ => safe_stay _

theorem safe_assert : Safe 0 heap assert Anything := by
  refine safe_popText.bind fun message _ _ _ => ?_
  refine safe_peek.bind fun condition _ _ _ => ?_
  refine Safe.ite (fun _ => ?_) fun _ => Safe.pure fun _ _ => trivial
  exact (safe_modifyPlatform _).bind fun _ _ _ _ => safe_fail _

theorem safe_platformCall (call : PlatformCall) : Safe 1 heap (platformCall call) Anything := by
  cases call with
  | writeChar =>
    exact Safe.spared (safe_peek.bind fun _ _ _ _ => safe_modifyPlatform _)
  | writeString =>
    refine Safe.spared (safe_peek.bind fun word _ _ resolves => ?_)
    exact (safe_text resolves).bind fun _ _ _ _ => safe_modifyPlatform _
  | writeLine =>
    refine Safe.spared (safe_peek.bind fun word _ _ resolves => ?_)
    exact (safe_text resolves).bind fun _ _ _ _ => safe_modifyPlatform _
  | readChar => exact (safe_stay _).spared
  | readLine => exact (safe_stay _).spared
  | streamValid => exact Safe.spared (safe_popStream.bind fun _ _ _ _ => safe_pushBool _)
  | streamReadString => exact safe_readString
  | streamReadChar => exact Safe.spared ((safe_peekStream 0).bind fun _ _ _ _ => safe_stay _)
  | streamWriteString =>
    refine Safe.spared (safe_peek.bind fun word _ _ resolves => ?_)
    exact (safe_text resolves).bind fun _ _ _ _ => safe_writeStream _
  | streamWriteChar => exact safe_writeStreamChar.spared
  | streamFlush => exact Safe.spared ((safe_peekStream 0).bind fun _ _ _ _ => safe_stay _)
  | streamSetOptions => exact safe_changeStream.spared
  | streamUnsetOptions => exact safe_changeStream.spared
  | fileOpen => exact safe_openFile
  | fileRemove => exact safe_removeFile.spared
  | tcpConnect => exact safe_connect
  | tcpListen => exact safe_listen
  | tcpAccept => exact Safe.spared ((safe_peekStream 0).bind fun _ _ _ _ => safe_stay _)
  | lookupAddress => exact safe_lookupAddress.spared
  | consoleOpen => exact safe_openConsole
  | termSetOptions => exact (safe_changeTerminal true).spared
  | termUnsetOptions => exact (safe_changeTerminal false).spared
  | termWidth => exact Safe.spared (safe_platform.bind fun _ _ _ _ => safe_pushInt _)
  | termHeight => exact Safe.spared (safe_platform.bind fun _ _ _ _ => safe_pushInt _)
  | envArg => exact safe_argument
  | envArgCount => exact Safe.spared (safe_platform.bind fun _ _ _ _ => safe_pushInt _)
  | envVar => exact safe_environmentVariable
  | clockMicro =>
    refine safe_platform.bind fun platform _ _ _ => ?_
    exact safe_readClock.bind fun _ _ _ _ => safe_pushLong _
  | clockNano => exact safe_readClock.bind fun _ _ _ _ => safe_pushLong _
  | sleep => exact safe_sleep.spared
  | assert => exact safe_assert.spared

/-! ## Instructions -/

theorem safe_intBinary (operation : Int32 → Int32 → Int32) :
    Safe 0 heap (intBinary operation) Anything := by
  refine safe_popInt.bind fun right _ _ _ => ?_
  exact safe_popInt.bind fun _ _ _ _ => safe_pushInt _

theorem safe_intDivision (operation : Int32 → Int32 → Int32) :
    Safe 0 heap (intDivision operation) Anything := by
  refine safe_popInt.bind fun right _ _ _ => ?_
  refine safe_popInt.bind fun left _ _ _ => ?_
  exact Safe.ite (fun _ => safe_fail _) fun _ => safe_pushInt _

theorem safe_intTest (test : Int32 → Int32 → Bool) : Safe 0 heap (intTest test) Anything := by
  refine safe_popInt.bind fun right _ _ _ => ?_
  exact safe_popInt.bind fun _ _ _ _ => safe_pushBool _

theorem safe_longBinary (operation : Int64 → Int64 → Int64) :
    Safe 1 heap (longBinary operation) Anything := by
  refine safe_popLong.bind fun right _ _ _ => ?_
  exact safe_popLong.bind fun _ _ _ _ => safe_pushLong _

theorem safe_longDivision (operation : Int64 → Int64 → Int64) :
    Safe 1 heap (longDivision operation) Anything := by
  refine safe_popLong.bind fun right _ _ _ => ?_
  refine safe_popLong.bind fun left _ _ _ => ?_
  exact Safe.ite (fun _ => (safe_fail _).spared) fun _ => safe_pushLong _

theorem safe_longTest (test : Int64 → Int64 → Bool) : Safe 0 heap (longTest test) Anything := by
  refine safe_popLong.bind fun right _ _ _ => ?_
  exact safe_popLong.bind fun _ _ _ _ => safe_pushBool _

theorem safe_floatBinary (operation : Number.Single → Number.Single → Number.Single) :
    Safe 0 heap (floatBinary operation) Anything := by
  refine safe_popFloat.bind fun right _ _ _ => ?_
  exact safe_popFloat.bind fun _ _ _ _ => safe_pushFloat _

theorem safe_floatDivision (operation : Number.Single → Number.Single → Number.Single) :
    Safe 0 heap (floatDivision operation) Anything := by
  refine safe_popFloat.bind fun right _ _ _ => ?_
  refine safe_popFloat.bind fun left _ _ _ => ?_
  exact Safe.ite (fun _ => safe_fail _) fun _ => safe_pushFloat _

theorem safe_floatTest (test : Number.Single → Number.Single → Bool) :
    Safe 0 heap (floatTest test) Anything := by
  refine safe_popFloat.bind fun right _ _ _ => ?_
  exact safe_popFloat.bind fun _ _ _ _ => safe_pushBool _

theorem safe_floatUnary (operation : Number.Single → Number.Single) :
    Safe 0 heap (floatUnary operation) Anything :=
  safe_popFloat.bind fun _ _ _ _ => safe_pushFloat _

theorem safe_loadString (assembly : Assembly) (number : UInt32) :
    Safe 1 heap (loadString assembly number) Anything := by
  unfold loadString
  split
  · exact safe_pushString _
  · exact (safe_fail _).spared

theorem safe_slice : Safe 1 heap slice Anything := by
  refine safe_popInt.bind fun last _ _ _ => ?_
  refine safe_popInt.bind fun first _ _ _ => ?_
  refine safe_pop.bind fun word _ _ resolves => ?_
  refine (safe_text resolves).bind fun whole _ grown _ => ?_
  refine Safe.ite (fun _ => ?_) fun _ => safe_pushString _
  exact (safe_push (grown.resolves resolves)).spared

theorem safe_loadField (index : UInt8) : Safe 0 heap (loadField index) Anything := by
  refine safe_pop.bind fun word later _ resolves => ?_
  have looked : Safe 0 later (look (·.fields word)) fun afterwards fields =>
      ∀ field ∈ fields, afterwards.Resolves field :=
    safe_look (fun _ _ _ intact viewed => Heap.fields_resolve intact.closed viewed)
      fun _ _ grown _ failed => Heap.view_permitted (grown.resolves resolves) failed
  refine looked.bind fun fields _ _ resolve => ?_
  split
  · next field found => exact safe_push (resolve field (Array.mem_of_getElem? found))
  · exact safe_fail _

theorem safe_twoTexts {next : Bytes → Bytes → Exec Unit} {spare : Nat}
    (safe : ∀ later left right, Safe spare later (next left right) Anything) :
    Safe spare heap (do
      let right ← popText
      let left ← popText
      next left right) Anything := by
  refine safe_popText.bind fun right _ _ _ => ?_
  exact safe_popText.bind fun left _ _ _ => safe _ left right

theorem safe_appendChar :
    Safe 1 heap (do
      let byte := (← pop).toByte
      let word ← pop
      pushNew (.link word byte none)) Anything := by
  refine safe_pop.bind fun byte _ _ _ => ?_
  refine safe_pop.bind fun word _ _ resolves => safe_pushNew ?_
  rintro next ⟨⟩
  exact resolves

theorem safe_makeStruct (count : Nat) :
    Safe 1 heap (do
      let fields ← popMany count
      pushNew (.struct fields)) Anything := by
  refine (safe_popMany count).bind fun fields _ _ resolve => safe_pushNew ?_
  rintro next ⟨⟩
  exact resolve next ‹_›

theorem safe_perform (assembly : Assembly) (op : Opcode) (operands : Nat) :
    Safe 1 heap (perform assembly op operands) Anything := by
  cases op with
  | loadInt => exact (safe_pushInt _).spared
  | loadLong => exact safe_pushLong _
  | loadFloat => exact (safe_pushFloat _).spared
  | loadString => exact safe_loadString _ _
  | loadAddress => exact (safe_pushInt _).spared
  | reserveConsts => exact (safe_reserveConsts _).spared
  | storeConst => exact (safe_storeConst _).spared
  | loadConst => exact (safe_loadConst _).spared
  | dup => exact Safe.spared (safe_peek.bind fun _ _ _ resolves => safe_push resolves)
  | pop => exact Safe.spared (safe_pop.bind fun _ _ _ _ => Safe.pure fun _ _ => trivial)
  | addInt => exact (safe_intBinary _).spared
  | subInt => exact (safe_intBinary _).spared
  | mulInt => exact (safe_intBinary _).spared
  | divInt => exact (safe_intDivision _).spared
  | remInt => exact (safe_intDivision _).spared
  | negInt => exact Safe.spared (safe_popInt.bind fun _ _ _ _ => safe_pushInt _)
  | notInt => exact Safe.spared (safe_popInt.bind fun _ _ _ _ => safe_pushBool _)
  | shiftLeft => exact (safe_intBinary _).spared
  | shiftRight => exact (safe_intBinary _).spared
  | andInt => exact (safe_intBinary _).spared
  | orInt => exact (safe_intBinary _).spared
  | xorInt => exact (safe_intBinary _).spared
  | complement => exact Safe.spared (safe_popInt.bind fun _ _ _ _ => safe_pushInt _)
  | addLong => exact safe_longBinary _
  | subLong => exact safe_longBinary _
  | mulLong => exact safe_longBinary _
  | divLong => exact safe_longDivision _
  | remLong => exact safe_longDivision _
  | negLong => exact safe_popLong.bind fun _ _ _ _ => safe_pushLong _
  | addFloat => exact (safe_floatBinary _).spared
  | subFloat => exact (safe_floatBinary _).spared
  | mulFloat => exact (safe_floatBinary _).spared
  | divFloat => exact (safe_floatDivision _).spared
  | modFloat => exact (safe_floatDivision _).spared
  | powFloat => exact (safe_floatBinary _).spared
  | sqrtFloat => exact (safe_floatUnary _).spared
  | sinFloat => exact (safe_floatUnary _).spared
  | cosFloat => exact (safe_floatUnary _).spared
  | tanFloat => exact (safe_floatUnary _).spared
  | asinFloat => exact (safe_floatUnary _).spared
  | acosFloat => exact (safe_floatUnary _).spared
  | atanFloat => exact (safe_floatUnary _).spared
  | atan2Float => exact (safe_floatBinary _).spared
  | negFloat => exact (safe_floatUnary _).spared
  | concat => exact safe_twoTexts fun _ _ _ => safe_pushString _
  | appendChar => exact safe_appendChar
  | length => exact Safe.spared (safe_popText.bind fun _ _ _ _ => safe_pushInt _)
  | index =>
    refine Safe.spared (safe_popInt.bind fun position _ _ _ => ?_)
    exact safe_popText.bind fun _ _ _ _ => safe_pushInt _
  | slice => exact safe_slice
  | combineChars =>
    refine safe_pop.bind fun right _ _ _ => ?_
    exact safe_pop.bind fun _ _ _ _ => safe_pushString _
  | eqInt => exact (safe_intTest _).spared
  | eqLong => exact (safe_longTest _).spared
  | eqFloat => exact (safe_floatTest _).spared
  | eqString => exact Safe.spared (safe_twoTexts fun _ _ _ => safe_pushBool _)
  | gtInt => exact (safe_intTest _).spared
  | gtLong => exact (safe_longTest _).spared
  | gtFloat => exact (safe_floatTest _).spared
  | ltInt => exact (safe_intTest _).spared
  | ltLong => exact (safe_longTest _).spared
  | ltFloat => exact (safe_floatTest _).spared
  | isNull => exact Safe.spared (safe_pop.bind fun _ _ _ _ => safe_pushBool _)
  | intToLong => exact safe_popInt.bind fun _ _ _ _ => safe_pushLong _
  | intToFloat => exact Safe.spared (safe_popInt.bind fun _ _ _ _ => safe_pushFloat _)
  | longToInt => exact Safe.spared (safe_popLong.bind fun _ _ _ _ => safe_pushInt _)
  | floatToInt => exact Safe.spared (safe_popFloat.bind fun _ _ _ _ => safe_pushInt _)
  | intToString => exact safe_popInt.bind fun _ _ _ _ => safe_pushString _
  | longToString => exact safe_popLong.bind fun _ _ _ _ => safe_pushString _
  | floatToString => exact safe_popFloat.bind fun _ _ _ _ => safe_pushString _
  | boolToString => exact safe_popInt.bind fun _ _ _ _ => safe_pushString _
  | charToString => exact safe_pop.bind fun _ _ _ _ => safe_pushString _
  | intToChar => exact Safe.spared (safe_pop.bind fun _ _ _ _ => safe_pushInt _)
  | floatToChar => exact Safe.spared (safe_popFloat.bind fun _ _ _ _ => safe_pushInt _)
  | makeStruct => exact safe_makeStruct _
  | makeNull => exact (safe_push (Heap.resolves_null heap)).spared
  | loadField => exact (safe_loadField _).spared
  | jump => exact (safe_jump _).spared
  | jumpIf =>
    refine Safe.spared (safe_popInt.bind fun condition _ _ _ => ?_)
    exact Safe.ite (fun _ => safe_jump _) fun _ => Safe.pure fun _ _ => trivial
  | call => exact safe_call _ _ _
  | callDynamic => exact safe_callDynamic _ _
  | platformCall =>
    unfold perform
    simp only
    split
    · exact safe_platformCall _
    · exact (safe_fail _).spared
  | ret => exact safe_ret.spared
  | fail => exact (safe_fail _).spared
  | awaitFor => exact safe_awaitFor.spared
  | await => exact safe_await.spared
  | force => exact safe_force.spared

/-- The next instruction of an executor is safe, whatever bytes it is read from. -/
theorem safe_issue : Safe 1 heap issue Anything := by
  refine safe_get.bind fun session _ _ _ => ?_
  simp only
  split
  · exact Safe.spared
      (safe_modifyControl (fun _ => rfl) (fun _ => rfl) (fun _ => rfl) fun _ => rfl)
  · next op size _ =>
    refine Safe.bind (safe_modifyControl (fun _ => rfl) (fun _ => rfl) (fun _ => rfl) fun _ => rfl)
      fun _ _ _ _ => ?_
    exact (safe_log _).bind fun _ _ _ _ => safe_perform _ op _

end WordMachine.Exec
