import WordMachine.Proofs.IndifferentInstructions

/-!
What lies beneath a call. A call does not reach the constants and frames it was made on, so on two
grounds the same call goes on alike until it returns. Only the room that is left may differ.
-/

namespace WordMachine

/-! ## Stacks in two parts -/

/-- The constants and frames that a call was made on. -/
structure Ground where
  slots : Array Word
  frames : Array Frame

/-- What a call has put on its ground: its constants and the frames of the calls it waits for,
innermost first. Positions are counted from where the call began. -/
structure Growth where
  base : Nat := 0
  slots : Array Word := #[]
  frames : List Frame := []

/-- A frame whose window lies higher. -/
def Frame.raise (frame : Frame) (height : Nat) : Frame :=
  { frame with base := height + frame.base, top := height + frame.top }

namespace Growth

def consts (growth : Growth) (ground : Ground) (capacity : Nat) : ConstStack :=
  ⟨capacity, ground.slots.size + growth.base, ground.slots ++ growth.slots⟩

def calls (growth : Growth) (ground : Ground) (limit : Nat) : CallStack :=
  ⟨limit, ground.frames ++ (growth.frames.map (·.raise ground.slots.size)).reverse.toArray⟩

theorem size_calls (growth : Growth) (ground : Ground) (limit : Nat) :
    (growth.calls ground limit).frames.size = ground.frames.size + growth.frames.length := by
  simp [calls]

theorem frames_cons (base : Nat) (slots : Array Word) (frame : Frame) (rest : List Frame)
    (ground : Ground) (limit : Nat) :
    ((mk base slots (frame :: rest)).calls ground limit).frames =
      ((mk base slots rest).calls ground limit).frames.push (frame.raise ground.slots.size) := by
  simp [calls]

/-- Where the window of the call itself begins, given that of the innermost call. -/
def lowest : Nat → List Frame → Nat
  | base, [] => base
  | _, frame :: rest => lowest frame.base rest

/-- Whether the window of the call begins right above its ground. -/
def Grounded (growth : Growth) : Prop :=
  lowest growth.base growth.frames = 0

/-- A further call, not yet with constants of its own. -/
def entered (growth : Growth) (returnTo : UInt32) (lazy : Bool) : Growth where
  base := growth.slots.size
  slots := growth.slots
  frames := { returnTo, base := growth.base, top := growth.slots.size, lazy } :: growth.frames

end Growth

/-- A session whose constants and frames are those of a call on a ground. -/
def Session.on (session : Session) (ground : Ground) (growth : Growth) : Session :=
  session.under (growth.consts ground session.executor.consts.capacity)
    (growth.calls ground session.executor.calls.limit)

namespace ConstStack

theorem shrink_above {α : Type} (low high : Array α) (count : Nat) :
    (low ++ high).shrink (low.size + count) = low ++ high.shrink count := by
  apply Array.ext'
  rw [Array.toList_shrink, Array.toList_append, Array.toList_append, Array.toList_shrink]
  exact List.take_length_add_append count

theorem grow_above (low high : Array Word) (count : Nat) :
    grow (low ++ high) count = low ++ grow high count := by
  induction count generalizing high with
  | zero => rfl
  | succ count ih =>
    unfold grow
    rw [← Array.append_push]
    exact ih _

end ConstStack

/-! ## Two grounds -/

/-- Sessions in which the same call goes on, on two grounds. -/
def Session.Twins (below other : Ground) (first second : Session) : Prop :=
  ∃ (session : Session) (growth : Growth), growth.Grounded ∧ session.Settled ∧
    first = session.on below growth ∧ second = session.on other growth

theorem Session.twins_on {below other : Ground} (session : Session) (growth : Growth)
    (grounded : growth.Grounded) (settled : session.Settled) :
    Session.Twins below other (session.on below growth) (session.on other growth) :=
  ⟨session, growth, grounded, settled, rfl, rfl⟩

namespace Exec

inductive Twins (below other : Ground) {α : Type} :
    EStateM.Result Fault Session α → EStateM.Result Fault Session α → Prop
  | ok {value : α} {first second : Session} :
      Session.Twins below other first second →
        Twins below other (.ok value first) (.ok value second)
  | error {fault : Fault} {session : Session} {growth : Growth} :
      growth.Grounded →
      Twins below other (.error fault (session.on below growth))
        (.error fault (session.on other growth))

/-- Whether a stack of an executor is full that has no room for more. -/
def Overflows {α : Type} : EStateM.Result Fault Session α → Prop
  | .ok _ after => after.executor.state = .stackOverflow ∧ after.executor.wait = none
  | .error _ _ => False

/-- Results that differ by the ground only, unless the second one had no room. -/
def Abreast (below other : Ground) {α : Type}
    (result otherResult : EStateM.Result Fault Session α) : Prop :=
  Twins below other result otherResult ∨ Overflows otherResult

variable {α β : Type} {below other : Ground} {first second : Session}

/-- An indifferent operation leaves constants and frames alone. -/
theorem Indifferent.keeps {operation : Exec α} (indifferent : Indifferent operation)
    (session : Session) :
    (ending (operation session)).executor.consts = session.executor.consts ∧
      (ending (operation session)).executor.calls = session.executor.calls := by
  have commutes : Commutes (·.under session.executor.consts session.executor.calls) operation :=
    fun session => indifferent.under session _ _
  rw [← commutes.fixed (show session.under _ _ = session from rfl)]
  exact ⟨rfl, rfl⟩

theorem Indifferent.twins {operation : Exec α} (indifferent : Indifferent operation)
    (twins : Session.Twins below other first second) :
    Twins below other (operation first) (operation second) := by
  obtain ⟨session, growth, grounded, settled, rfl, rfl⟩ := twins
  obtain ⟨consts, calls⟩ := indifferent.keeps session
  unfold Session.on
  rw [indifferent.under, indifferent.under, ← consts, ← calls]
  cases ran : operation session with
  | ok value after =>
    exact .ok ⟨after, growth, grounded, indifferent.settled settled ran, rfl, rfl⟩
  | error fault after => exact .error grounded

theorem Indifferent.abreast {operation : Exec α} (indifferent : Indifferent operation)
    (twins : Session.Twins below other first second) :
    Abreast below other (operation first) (operation second) :=
  Or.inl (indifferent.twins twins)

theorem Indifferent.thenAbreast {operation : Exec α} {next : α → Exec β}
    (indifferent : Indifferent operation) (twins : Session.Twins below other first second)
    (rest : ∀ value after otherAfter, operation second = .ok value otherAfter →
      Session.Twins below other after otherAfter →
      Abreast below other (next value after) (next value otherAfter)) :
    Abreast below other ((operation >>= next) first) ((operation >>= next) second) := by
  have both := indifferent.twins twins
  change Abreast below other (EStateM.bind operation next first)
    (EStateM.bind operation next second)
  unfold EStateM.bind
  generalize operation first = result at both
  generalize done : operation second = otherResult at both rest
  cases both with
  | ok after => exact rest _ _ _ rfl after
  | error grounded => exact Or.inl (.error grounded)

/-! ## Constants -/

section

variable (growth : Growth) (ground : Ground) (capacity : Nat) (slot : UInt8)

theorem store_above (word : Word) :
    (growth.consts ground capacity).store slot word =
      if growth.base + slot.toNat < growth.slots.size then
        .ok
          ({ growth with
            slots :=
              growth.slots.setIfInBounds (growth.base + slot.toNat) word }.consts ground capacity)
      else .error (.slotOutOfRange slot (growth.slots.size - growth.base)) := by
  unfold ConstStack.store Growth.consts
  dsimp only
  rw [Array.size_append, Nat.add_assoc, Nat.add_sub_add_left]
  by_cases inside : growth.base + slot.toNat < growth.slots.size
  · rw [if_pos (Nat.add_lt_add_left inside _), if_pos inside,
      Array.setIfInBounds_append_right (Nat.le_add_right _ _), Nat.add_sub_cancel_left]
  · rw [if_neg (fun less => inside (Nat.lt_of_add_lt_add_left less)), if_neg inside]

theorem load_above :
    (growth.consts ground capacity).load slot =
      match growth.slots[growth.base + slot.toNat]? with
      | some word => .ok word
      | none => .error (.slotOutOfRange slot (growth.slots.size - growth.base)) := by
  have above : (ground.slots ++ growth.slots)[ground.slots.size + growth.base + slot.toNat]? =
      growth.slots[growth.base + slot.toNat]? := by
    rw [Nat.add_assoc, Array.getElem?_append_right (Nat.le_add_right _ _), Nat.add_sub_cancel_left]
  unfold ConstStack.load Growth.consts
  dsimp only
  cases found : growth.slots[growth.base + slot.toNat]? with
  | some word =>
    rw [found] at above
    simp only [above]
  | none =>
    rw [found] at above
    simp only [above, Array.size_append, Nat.add_sub_add_left]

theorem reserve_above (count : Nat) :
    (growth.consts ground capacity).reserve count =
      { growth with slots := ConstStack.grow (growth.slots.shrink growth.base) count }.consts
        ground capacity := by
  unfold ConstStack.reserve Growth.consts
  dsimp only
  rw [ConstStack.shrink_above, ConstStack.grow_above]

theorem release_above :
    (growth.consts ground capacity).release =
      { growth with slots := growth.slots.shrink growth.base }.consts ground capacity := by
  unfold ConstStack.release Growth.consts
  dsimp only
  rw [ConstStack.shrink_above]

theorem leave_above (base top : Nat) :
    (growth.consts ground capacity).leave (ground.slots.size + base) (ground.slots.size + top) =
      { growth with base, slots := growth.slots.shrink top }.consts ground capacity := by
  unfold ConstStack.leave Growth.consts
  dsimp only
  rw [ConstStack.shrink_above]

end

theorem reserveConsts_abreast (lower : below.slots.size ≤ other.slots.size)
    (twins : Session.Twins below other first second) (running : second.executor.state = .running)
    (count : Nat) :
    Abreast below other (reserveConsts count first) (reserveConsts count second) := by
  obtain ⟨session, growth, grounded, settled, rfl, rfl⟩ := twins
  have room : ∀ ground : Ground,
      ground.slots.size + growth.base + count ≤ session.executor.consts.capacity →
        reserveConsts count (session.on ground growth) = .ok () (session.on ground
          { growth with
            slots := ConstStack.grow (growth.slots.shrink growth.base) count }) := by
    intro ground fits
    change EStateM.Result.ok () (Session.mk (if ground.slots.size + growth.base + count ≤
      session.executor.consts.capacity then _ else _) session.shared) = _
    rw [if_pos fits, reserve_above]
    rfl
  by_cases fits : other.slots.size + growth.base + count ≤ session.executor.consts.capacity
  · rw [room below (by omega), room other fits]
    exact Or.inl (.ok (session.twins_on _ grounded settled))
  · refine Or.inr ?_
    change Overflows (EStateM.Result.ok () (Session.mk (if other.slots.size + growth.base + count ≤
      session.executor.consts.capacity then _ else _) session.shared))
    rw [if_neg fits, Executor.fail_eq]
    exact ⟨if_pos running, settled running⟩

theorem storeConst_abreast (twins : Session.Twins below other first second) (slot : UInt8) :
    Abreast below other (storeConst slot first) (storeConst slot second) := by
  refine indifferent_pop.thenAbreast twins fun word _ _ _ twins => ?_
  obtain ⟨session, growth, grounded, settled, rfl, rfl⟩ := twins
  unfold Session.on Session.under
  dsimp only
  rw [store_above, store_above]
  by_cases inside : growth.base + slot.toNat < growth.slots.size
  · rw [if_pos inside, if_pos inside]
    exact Or.inl (.ok (session.twins_on
      { growth with slots := growth.slots.setIfInBounds (growth.base + slot.toNat) word }
      grounded settled))
  · rw [if_neg inside, if_neg inside]
    exact Or.inl (.error grounded)

theorem loadConst_abreast (twins : Session.Twins below other first second) (slot : UInt8) :
    Abreast below other (loadConst slot first) (loadConst slot second) := by
  have again := twins
  obtain ⟨session, growth, grounded, settled, rfl, rfl⟩ := twins
  have consts : ∀ ground : Ground, (session.on ground growth).executor.consts =
      growth.consts ground session.executor.consts.capacity := fun _ => rfl
  unfold loadConst
  rw [get_bind, get_bind, consts, consts, load_above, load_above]
  cases growth.slots[growth.base + slot.toNat]? with
  | some word => exact (indifferent_push word).abreast again
  | none => exact Or.inl (.error grounded)

/-! ## Frames -/

section

variable (session : Session) (ground : Ground) (growth : Growth)

theorem enter_on (lazy : Bool)
    (room : ground.frames.size + growth.frames.length < session.executor.calls.limit) :
    enter lazy (session.on ground growth) =
      .ok true (session.on ground (growth.entered session.executor.ip lazy)) := by
  have consts : (growth.consts ground session.executor.consts.capacity).enter =
      (growth.entered session.executor.ip lazy).consts ground session.executor.consts.capacity := by
    unfold ConstStack.enter Growth.consts Growth.entered
    dsimp only
    rw [Array.size_append]
  have calls : CallStack.mk session.executor.calls.limit
      ((growth.calls ground session.executor.calls.limit).frames.push
        { returnTo := session.executor.ip, base := ground.slots.size + growth.base,
          top := (ground.slots ++ growth.slots).size, lazy }) =
      (growth.entered session.executor.ip lazy).calls ground session.executor.calls.limit := by
    unfold Growth.calls Growth.entered
    simp [Frame.raise]
  unfold Session.on
  rw [← consts, ← calls]
  unfold enter
  change (if (growth.calls ground session.executor.calls.limit).frames.size <
    session.executor.calls.limit then _ else _ : EStateM.Result Fault Session Bool) = _
  rw [Growth.size_calls, if_pos room]
  rfl

theorem enter_full (lazy : Bool)
    (full : session.executor.calls.limit ≤ ground.frames.size + growth.frames.length) :
    enter lazy (session.on ground growth) =
      .ok false ⟨(session.on ground growth).executor.fail .stackOverflow, session.shared⟩ := by
  unfold enter
  change (if (growth.calls ground session.executor.calls.limit).frames.size <
    session.executor.calls.limit then _ else _ : EStateM.Result Fault Session Bool) = _
  rw [Growth.size_calls, if_neg (Nat.not_lt.2 full)]
  rfl

end

/-- A further call begins on both grounds, unless the second one has no room for its frame. -/
theorem enter_abreast (fewer : below.frames.size ≤ other.frames.size) {next : Exec Unit}
    (indifferent : Indifferent next) (twins : Session.Twins below other first second)
    (running : second.executor.state = .running) (lazy : Bool) :
    Abreast below other ((do if ← enter lazy then next : Exec Unit) first)
      ((do if ← enter lazy then next : Exec Unit) second) := by
  obtain ⟨session, growth, grounded, settled, rfl, rfl⟩ := twins
  have opened : ∀ ground : Ground,
      ground.frames.size + growth.frames.length < session.executor.calls.limit →
        (do if ← enter lazy then next : Exec Unit) (session.on ground growth) =
          next (session.on ground (growth.entered session.executor.ip lazy)) := by
    intro ground room
    change EStateM.bind (enter lazy) _ _ = _
    unfold EStateM.bind
    rw [enter_on session ground growth lazy room]
    rfl
  by_cases room : other.frames.size + growth.frames.length < session.executor.calls.limit
  · rw [opened below (by omega), opened other room]
    exact indifferent.abreast (session.twins_on _ grounded settled)
  · refine Or.inr ?_
    change Overflows (EStateM.bind (enter lazy) _ _)
    unfold EStateM.bind
    rw [enter_full session other growth lazy (Nat.le_of_not_lt room), Executor.fail_eq]
    exact ⟨if_pos running, settled running⟩

theorem release_abreast (twins : Session.Twins below other first second) (target : UInt32) :
    Abreast below other
      (modifyExecutor (fun executor =>
        { executor with consts := executor.consts.release, ip := target }) first)
      (modifyExecutor (fun executor =>
        { executor with consts := executor.consts.release, ip := target }) second) := by
  obtain ⟨session, growth, grounded, settled, rfl, rfl⟩ := twins
  have released : ∀ ground : Ground,
      modifyExecutor (fun executor =>
        { executor with consts := executor.consts.release, ip := target })
          (session.on ground growth) =
        .ok () (Session.on { session with executor := { session.executor with ip := target } }
          ground { growth with slots := growth.slots.shrink growth.base }) := by
    intro ground
    unfold Session.on
    rw [← release_above]
    rfl
  rw [released, released]
  exact Or.inl (.ok (Session.twins_on _ _ grounded settled))

theorem call_abreast (fewer : below.frames.size ≤ other.frames.size)
    (twins : Session.Twins below other first second) (running : second.executor.state = .running)
    (target : UInt32) (count : Nat) (mode : UInt8) :
    Abreast below other (call target count mode first) (call target count mode second) := by
  unfold call
  cases CallMode.ofCode? mode with
  | none => exact (indifferent_fail _).abreast twins
  | some mode =>
    cases mode with
    | normal => exact enter_abreast fewer (indifferent_jump target) twins running false
    | tail => exact release_abreast twins target
    | forked =>
      exact ((indifferent_popMany count).bind fun arguments =>
        indifferent_fork target arguments).abreast twins
    | lazy =>
      exact ((indifferent_popMany count).bind fun _ => indifferent_pushNew _).abreast twins

/-- Taking operands off does not end execution. -/
theorem onEval_running {operation : EvalStack → Except Fault (α × EvalStack)}
    {session after : Session} {value : α} (ran : onEval operation session = .ok value after) :
    after.executor.state = session.executor.state := by
  unfold onEval at ran
  cases taken : operation session.executor.eval with
  | ok result =>
    simp only [taken] at ran
    cases ran
    rfl
  | error fault =>
    simp only [taken] at ran
    cases ran

theorem peekBehind_keeps {depth : Nat} {session after : Session} {word : Word}
    (ran : peekBehind depth session = .ok word after) : after = session := by
  unfold peekBehind at ran
  cases peeked : session.executor.eval.peekBehind depth with
  | ok word =>
    rw [peeked] at ran
    cases ran
    rfl
  | error fault =>
    rw [peeked] at ran
    cases ran

theorem look_keeps {view : Heap → Except Fault α} {session after : Session} {value : α}
    (ran : look view session = .ok value after) : after = session := by
  unfold look at ran
  cases looked : view session.shared.heap with
  | ok value =>
    rw [looked] at ran
    cases ran
    rfl
  | error fault =>
    rw [looked] at ran
    cases ran

theorem callDynamic_abreast (fewer : below.frames.size ≤ other.frames.size)
    (twins : Session.Twins below other first second) (running : second.executor.state = .running)
    (count : Nat) (mode : UInt8) :
    Abreast below other (callDynamic count mode first) (callDynamic count mode second) := by
  refine indifferent_pop.thenAbreast twins fun callee _ otherAfter popped twins => ?_
  by_cases isRef : callee.isRef = true
  · rw [if_pos isRef]
    refine (indifferent_look _).thenAbreast twins fun fields _ _ _ twins => ?_
    cases fields.back? with
    | none => exact (indifferent_fail _).abreast twins
    | some target =>
      refine (indifferent_pushAll _).thenAbreast twins fun _ _ _ _ twins => ?_
      refine indifferent_isRunning.thenAbreast twins fun runs _ final asked twins => ?_
      cases runs with
      | false => exact (indifferent_pure ()).abreast twins
      | true =>
        refine call_abreast fewer twins ?_ _ _ _
        injection asked with runs same
        rw [← same]
        exact eq_of_beq runs
  · rw [if_neg isRef]
    exact call_abreast fewer twins ((onEval_running popped).trans running) _ _ _

theorem force_abreast (fewer : below.frames.size ≤ other.frames.size)
    (twins : Session.Twins below other first second) (running : second.executor.state = .running) :
    Abreast below other (force first) (force second) := by
  refine indifferent_peek.thenAbreast twins fun word _ otherAfter peeked twins => ?_
  refine (indifferent_look _).thenAbreast twins fun delayed _ otherFinal looked twins => ?_
  cases delayed with
  | forced value => exact (indifferent_pop.bind fun _ => indifferent_push value).abreast twins
  | pending target arguments =>
    refine enter_abreast fewer ((indifferent_pushAll arguments).bind fun _ =>
      indifferent_jump target) twins ?_ true
    rw [look_keeps looked, peekBehind_keeps peeked]
    exact running

/-! ## Returns -/

/-- What a return does with its result: that of a lazy value is stored. -/
def deliver (lazy : Bool) : Exec Unit := do
  if lazy then
    let result ← pop
    let word ← pop
    let (value, heap) ← look (·.force word result)
    modifyHeap fun _ => heap
    push value

theorem indifferent_deliver (lazy : Bool) : Indifferent (deliver lazy) :=
  .ite
    (indifferent_pop.bind fun _ => indifferent_pop.bind fun _ => (indifferent_look _).bind fun _ =>
      (indifferent_modifyHeap _).bind fun _ => indifferent_push _)
    (indifferent_pure ())

/-- A return opens the window of its frame again. -/
theorem ret_some {session : Session} {frame : Frame}
    (last : session.executor.calls.frames.back? = some frame) :
    ret session = deliver frame.lazy
      { session with
        executor := { session.executor with
          consts := session.executor.consts.release.leave frame.base frame.top
          calls := ⟨session.executor.calls.limit, session.executor.calls.frames.pop⟩
          ip := frame.returnTo } } := by
  unfold ret
  change EStateM.bind _ _ session = _
  unfold EStateM.bind
  dsimp only
  rw [last]
  rfl

theorem ret_none {session : Session} (last : session.executor.calls.frames.back? = none) :
    ret session = finish
      { session with
        executor := { session.executor with
          consts := session.executor.consts.release
          calls := ⟨session.executor.calls.limit, session.executor.calls.frames.pop⟩ } } := by
  unfold ret
  change EStateM.bind _ _ session = _
  unfold EStateM.bind
  dsimp only
  rw [last]

theorem ret_abreast (twins : Session.Twins below other first second)
    (inside : below.frames.size < first.executor.calls.frames.size) :
    Abreast below other (ret first) (ret second) := by
  obtain ⟨session, ⟨base, slots, frames⟩, grounded, settled, rfl, rfl⟩ := twins
  cases frames with
  | nil =>
    have none : (Session.on session below ⟨base, slots, []⟩).executor.calls.frames.size =
        below.frames.size := Growth.size_calls _ _ _
    exact absurd inside (by rw [none]; exact Nat.lt_irrefl _)
  | cons frame rest =>
    have returned : ∀ ground : Ground,
      ret (Session.on session ground ⟨base, slots, frame :: rest⟩) =
        deliver frame.lazy
          (Session.on { session with executor := { session.executor with ip := frame.returnTo } }
            ground ⟨frame.base, (slots.shrink base).shrink frame.top, rest⟩) := by
      intro ground
      have frames := Growth.frames_cons base slots frame rest ground session.executor.calls.limit
      have last :
          (Session.on session ground ⟨base, slots, frame :: rest⟩).executor.calls.frames.back? =
            some (frame.raise ground.slots.size) := by
        change ((Growth.mk base slots (frame :: rest)).calls ground _).frames.back? = _
        rw [frames, Array.back?_push]
      rw [ret_some last]
      unfold Session.on Session.under
      dsimp only
      rw [frames, Array.pop_push, release_above]
      unfold Frame.raise
      dsimp only
      rw [leave_above]
      rfl
    rw [returned, returned]
    exact (indifferent_deliver frame.lazy).abreast
      (Session.twins_on _ ⟨frame.base, _, rest⟩ grounded settled)

/-! ## Steps -/

/-- Any instruction but the return of the call itself. -/
theorem perform_abreast (lower : below.slots.size ≤ other.slots.size)
    (fewer : below.frames.size ≤ other.frames.size)
    (twins : Session.Twins below other first second) (running : second.executor.state = .running)
    {op : Opcode} (inside : op = .ret → below.frames.size < first.executor.calls.frames.size)
    (assembly : Assembly) (operands : Nat) :
    Abreast below other (perform assembly op operands first)
      (perform assembly op operands second) := by
  cases op with
  | reserveConsts => exact reserveConsts_abreast lower twins running _
  | storeConst => exact storeConst_abreast twins _
  | loadConst => exact loadConst_abreast twins _
  | call => exact call_abreast fewer twins running _ _ _
  | callDynamic => exact callDynamic_abreast fewer twins running _ _
  | ret => exact ret_abreast twins (inside rfl)
  | force => exact force_abreast fewer twins running
  | _ => exact (indifferent_perform rfl assembly operands).abreast twins

end Exec

namespace Exec

theorem issue_abreast (lower : below.slots.size ≤ other.slots.size)
    (fewer : below.frames.size ≤ other.frames.size)
    (twins : Session.Twins below other first second) (running : second.executor.state = .running)
    (inside : ∀ size, first.instruction? = some (.ret, size) →
      below.frames.size < first.executor.calls.frames.size) :
    Abreast below other (issue first) (issue second) := by
  have together := twins
  obtain ⟨session, growth, grounded, settled, rfl, rfl⟩ := twins
  cases found : session.instruction? with
  | none =>
    rw [issue_none (session.on below growth) found,
      issue_none (session.on other growth) found]
    exact Or.inl (.ok (Session.twins_on
      { session with executor := { session.executor with state := .invalidAssembly } } growth
      grounded nofun))
  | some instruction =>
    obtain ⟨op, size⟩ := instruction
    rw [issue_some (session.on below growth) found,
      issue_some (session.on other growth) found]
    refine perform_abreast lower fewer (Session.twins_on
      (session.fetched op (session.executor.ip + UInt32.ofNat size)) growth grounded settled)
      running ?_ _ _
    rintro rfl
    exact inside size found

theorem step_abreast (lower : below.slots.size ≤ other.slots.size)
    (fewer : below.frames.size ≤ other.frames.size)
    (twins : Session.Twins below other first second) (running : second.executor.state = .running)
    (inside : ∀ size, first.instruction? = some (.ret, size) →
      below.frames.size < first.executor.calls.frames.size) :
    Abreast below other (step first) (step second) := by
  have issued := issue_abreast lower fewer twins running inside
  change Abreast below other (EStateM.bind issue (fun _ => settle) first)
    (EStateM.bind issue (fun _ => settle) second)
  unfold EStateM.bind
  rcases issued with twins | full
  · generalize issue first = result at twins
    generalize issue second = otherResult at twins
    cases twins with
    | ok after => exact indifferent_settle.abreast after
    | error grounded => exact Or.inl (.error grounded)
  · cases ran : issue second with
    | error fault after =>
      rw [ran] at full
      exact full.elim
    | ok value after =>
      rw [ran] at full
      have settles : settle after = .ok () after := by
        unfold settle
        rw [full.2]
      refine Or.inr ?_
      change Overflows (settle after)
      rw [settles]
      exact full

end Exec

end WordMachine
