import WordMachine.Proofs.RenamedSessions
import Mathlib

/-!
Instructions do not tell references apart. An instruction that forks no call, uses no stream and no
clock and reads no reference as a number does the same in two sessions that are the same up to the
references they hold.
-/

namespace WordMachine

/-! ## What instructions read as numbers -/

/-- The depths of the operands that an instruction reads as numbers. -/
def Opcode.numerals : Opcode → List Nat
  | .addInt | .subInt | .mulInt | .divInt | .remInt => [0, 1]
  | .shiftLeft | .shiftRight | .andInt | .orInt | .xorInt => [0, 1]
  | .negInt | .notInt | .complement => [0]
  | .addFloat | .subFloat | .mulFloat | .divFloat | .modFloat | .powFloat | .atan2Float => [0, 1]
  | .sqrtFloat | .sinFloat | .cosFloat | .tanFloat | .asinFloat | .acosFloat | .atanFloat => [0]
  | .negFloat => [0]
  | .slice | .combineChars => [0, 1]
  | .appendChar | .index => [0]
  | .eqInt | .gtInt | .ltInt | .eqFloat | .gtFloat | .ltFloat => [0, 1]
  | .intToLong | .intToFloat | .intToString | .boolToString | .charToString | .intToChar => [0]
  | .floatToInt | .floatToString | .floatToChar => [0]
  | .jumpIf => [0]
  | _ => []

/-- The same for platform calls; the condition of an assertion is below its message. -/
def PlatformCall.numerals : PlatformCall → List Nat
  | .writeChar | .termSetOptions | .termUnsetOptions | .envArg => [0]
  | _ => []

namespace Session

/-- The target of the closure on top of the stack, if its bound values fit on the stack. -/
def boundTarget? (session : Session) : Option Word :=
  match session.operands with
  | [] => none
  | callee :: rest =>
    match session.shared.heap.fields callee with
    | .error _ => none
    | .ok fields =>
      let bound := fields.pop.size
      if bound = 0 ∨ rest.length + bound ≤ session.executor.eval.capacity then fields.back?
      else none

/-- The condition of an assertion, if its message can be read. -/
def condition? (session : Session) : Option Word :=
  match session.operands with
  | message :: condition :: _ =>
    match session.shared.heap.text message with
    | .ok _ => some condition
    | .error _ => none
  | _ => none

/-- The words that an instruction reads as numbers. -/
def numerals (session : Session) (assembly : Assembly) (op : Opcode) (position : Nat) : List Word :=
  match op with
  | .callDynamic => session.boundTarget?.toList
  | .platformCall =>
    match PlatformCall.ofCode? (assembly.code.byteAt position) with
    | some .assert => session.condition?.toList
    | some target => target.numerals.filterMap (session.operands[·]?)
    | none => []
  | op => op.numerals.filterMap (session.operands[·]?)

end Session

def PlatformCall.usesStreams : PlatformCall → Bool
  | .streamValid | .streamReadString | .streamReadChar | .streamWriteString
  | .streamWriteChar => true
  | .streamFlush | .streamSetOptions | .streamUnsetOptions => true
  | .fileOpen | .tcpConnect | .tcpListen | .tcpAccept | .consoleOpen => true
  | _ => false

/-- Whether a platform call reads a clock or waits for one. -/
def PlatformCall.usesClock : PlatformCall → Bool
  | .clockMicro | .clockNano | .sleep => true
  | _ => false

/-- Whether an instruction forks no call, uses no stream and no clock. -/
def Assembly.isPlain (assembly : Assembly) (op : Opcode) (position : Nat) : Bool :=
  match op with
  | .call => CallMode.ofCode? (assembly.code.byteAt (position + 5)) != some .forked
  | .callDynamic => CallMode.ofCode? (assembly.code.byteAt (position + 1)) != some .forked
  | .platformCall =>
    match PlatformCall.ofCode? (assembly.code.byteAt position) with
    | some target => !target.usesStreams && !target.usesClock
    | none => true
  | _ => true

/-- The first part of a return: the innermost frame is taken off, if there is one. -/
def Exec.dropFrame : Exec (Option Frame) :=
  fun ⟨executor, shared⟩ =>
    let frame := executor.calls.frames.back?
    .ok frame
      ⟨{ executor with
          consts := executor.consts.release
          calls := ⟨executor.calls.limit, executor.calls.frames.pop⟩ },
        shared⟩

namespace Session.Mirrors

open Exec

variable {spare : Nat} {numbers : List Nat} {pairs : Renaming} {first second : Session}
variable {session after : Session} {others : Array Word} {α : Type} {words : List Word}
variable {word : Word} {mode : UInt8}

/-! ## Arithmetic -/

/-- An operand is read alike, then what is done with it ends alike. -/
theorem takeOne {take : Exec α} {next : α → Exec Unit} {later : List Nat} (takes : Agree
      (fun value after other otherAfter => value = other ∧
        after.Mirrors spare later pairs otherAfter)
      (take first) (take second)) {post : Unit → Session → Unit → Session → Prop}
    (finishes : ∀ {after otherAfter : Session} (value : α),
      after.Mirrors spare later pairs otherAfter →
      Agree post (next value after) (next value otherAfter)) :
    Agree post ((take >>= next) first) ((take >>= next) second) := by
  refine takes.bind ?_
  rintro value _ _ _ ⟨rfl, mirrors⟩
  exact finishes value mirrors

theorem takeTwo {take : Exec α} {finish : α → α → Exec Unit} {later last : List Nat} (takes : Agree
      (fun value after other otherAfter => value = other ∧
        after.Mirrors spare later pairs otherAfter)
      (take first) (take second))
    (takesAgain : ∀ {after otherAfter : Session}, after.Mirrors spare later pairs otherAfter →
      Agree
        (fun value after other otherAfter => value = other ∧
          after.Mirrors spare last pairs otherAfter)
        (take after) (take otherAfter)) {post : Unit → Session → Unit → Session → Prop}
    (finishes : ∀ {after otherAfter : Session} (left right : α),
      after.Mirrors spare last pairs otherAfter →
      Agree post (finish left right after) (finish left right otherAfter)) :
    Agree post
      ((take >>= fun right => take >>= fun left => finish left right) first)
      ((take >>= fun right => take >>= fun left => finish left right) second) :=
  takeOne takes fun right mirrors =>
    takeOne (takesAgain mirrors) fun left mirrors => finishes left right mirrors

theorem intBinary (mirrors : first.Mirrors (spare + 1) [0, 1] pairs second)
    (operation : Int32 → Int32 → Int32) :
    Agree (Ends spare) (Exec.intBinary operation first) (Exec.intBinary operation second) :=
  takeTwo mirrors.popInt popInt fun _ _ mirrors => mirrors.pushInt _

theorem intDivision (mirrors : first.Mirrors (spare + 1) [0, 1] pairs second)
    (operation : Int32 → Int32 → Int32) :
    Agree (Ends spare) (Exec.intDivision operation first) (Exec.intDivision operation second) :=
  takeTwo mirrors.popInt popInt fun _ _ mirrors =>
    Agree.ite (fun _ => mirrors.failEnds _) fun _ => mirrors.pushInt _

theorem intTest (mirrors : first.Mirrors (spare + 1) [0, 1] pairs second)
    (test : Int32 → Int32 → Bool) :
    Agree (Ends spare) (Exec.intTest test first) (Exec.intTest test second) :=
  takeTwo mirrors.popInt popInt fun _ _ mirrors => mirrors.pushBool _

theorem longBinary (mirrors : first.Mirrors (spare + 1) [] pairs second)
    (operation : Int64 → Int64 → Int64) :
    Agree (Ends spare) (Exec.longBinary operation first) (Exec.longBinary operation second) :=
  takeTwo mirrors.popLong popLong fun _ _ mirrors => mirrors.pushLong _

theorem longDivision (mirrors : first.Mirrors (spare + 1) [] pairs second)
    (operation : Int64 → Int64 → Int64) :
    Agree (Ends spare) (Exec.longDivision operation first) (Exec.longDivision operation second) :=
  takeTwo mirrors.popLong popLong fun _ _ mirrors =>
    Agree.ite (fun _ => mirrors.failEnds _) fun _ => mirrors.pushLong _

theorem longTest (mirrors : first.Mirrors (spare + 1) [] pairs second)
    (test : Int64 → Int64 → Bool) :
    Agree (Ends spare) (Exec.longTest test first) (Exec.longTest test second) :=
  takeTwo mirrors.popLong popLong fun _ _ mirrors => mirrors.pushBool _

theorem floatBinary (mirrors : first.Mirrors (spare + 1) [0, 1] pairs second)
    (operation : Number.Single → Number.Single → Number.Single) :
    Agree (Ends spare) (Exec.floatBinary operation first) (Exec.floatBinary operation second) :=
  takeTwo mirrors.popFloat popFloat fun _ _ mirrors => mirrors.pushFloat _

theorem floatDivision (mirrors : first.Mirrors (spare + 1) [0, 1] pairs second)
    (operation : Number.Single → Number.Single → Number.Single) :
    Agree (Ends spare) (Exec.floatDivision operation first)
      (Exec.floatDivision operation second) :=
  takeTwo mirrors.popFloat popFloat fun _ _ mirrors =>
    Agree.ite (fun _ => mirrors.failEnds _) fun _ => mirrors.pushFloat _

theorem floatTest (mirrors : first.Mirrors (spare + 1) [0, 1] pairs second)
    (test : Number.Single → Number.Single → Bool) :
    Agree (Ends spare) (Exec.floatTest test first) (Exec.floatTest test second) :=
  takeTwo mirrors.popFloat popFloat fun _ _ mirrors => mirrors.pushBool _

theorem floatUnary (mirrors : first.Mirrors (spare + 1) [0] pairs second)
    (operation : Number.Single → Number.Single) :
    Agree (Ends spare) (Exec.floatUnary operation first) (Exec.floatUnary operation second) :=
  takeOne mirrors.popFloat fun _ mirrors => mirrors.pushFloat _

/-! ## Constants -/

theorem grow_related {slots : Array Word}
    (related : List.Forall₂ pairs.Relates slots.toList others.toList) (count : Nat) :
    List.Forall₂ pairs.Relates (ConstStack.grow slots count).toList
      (ConstStack.grow others count).toList := by
  induction count generalizing slots others with
  | zero => exact related
  | succ count ih =>
    refine ih ?_
    rw [Array.toList_push, Array.toList_push]
    exact List.rel_append related (.cons (.same (Or.inl rfl)) .nil)

theorem shrink_related {slots : Array Word}
    (related : List.Forall₂ pairs.Relates slots.toList others.toList) (size : Nat) :
    List.Forall₂ pairs.Relates (slots.shrink size).toList (others.shrink size).toList := by
  rw [Array.toList_shrink, Array.toList_shrink]
  exact List.forall₂_take _ related

theorem getElem?_related {others : List Word} (related : List.Forall₂ pairs.Relates words others)
    (position : Nat) : Option.Rel pairs.Relates words[position]? others[position]? := by
  induction related generalizing position with
  | nil => exact .none
  | cons head _ ih =>
    cases position with
    | zero => exact .some head
    | succ position => simpa using ih position

theorem set_related {others : List Word} (related : List.Forall₂ pairs.Relates words others)
    {twin : Word} (relates : pairs.Relates word twin) (position : Nat) :
    List.Forall₂ pairs.Relates (words.set position word) (others.set position twin) := by
  induction related generalizing position with
  | nil => exact .nil
  | cons head tail ih =>
    cases position with
    | zero => exact .cons relates tail
    | succ position => exact .cons head (ih position)

/-- The constants of the current frames are dropped. -/
theorem released {own other : Executor} (mirrors : own.Mirrors pairs other) :
    Executor.Mirrors pairs { own with consts := own.consts.release }
      { other with consts := other.consts.release } := by
  rw [mirrors.consts_eq]
  exact mirrors.withSlots _ (shrink_related mirrors.slots _)

theorem reserveConsts (mirrors : first.Mirrors (spare + 1) numbers pairs second) (count : Nat) :
    Agree (Ends spare) (Exec.reserveConsts count first) (Exec.reserveConsts count second) := by
  refine agree_ends (mirrors.modifyExecutor ?_)
  have executor := mirrors.executor
  rw [executor.consts_eq]
  split
  · exact executor.withSlots _ (grow_related (shrink_related executor.slots _) count)
  · exact executor.fail _

theorem storeConst (mirrors : first.Mirrors (spare + 1) numbers pairs second) (slot : UInt8) :
    Agree (Ends spare) (Exec.storeConst slot first) (Exec.storeConst slot second) := by
  refine mirrors.pop.bind ?_
  rintro word ⟨own, shared⟩ twin ⟨other, otherShared⟩ ⟨relates, mirrors, _, _⟩
  have executor : own.Mirrors pairs other := mirrors.executor
  have size := executor.slotsSize
  simp only [ConstStack.store]
  rw [executor.consts_eq]
  simp only [size]
  by_cases inside : own.consts.base + slot.toNat < own.consts.slots.size
  · simp only [inside, if_true]
    have related : List.Forall₂ pairs.Relates
        (own.consts.slots.setIfInBounds (own.consts.base + slot.toNat) word).toList
        (other.consts.slots.setIfInBounds (own.consts.base + slot.toNat) twin).toList := by
      rw [Array.toList_setIfInBounds, Array.toList_setIfInBounds]
      exact set_related executor.slots relates _
    exact .ok (mirrors.withExecutors (executor.withSlots _ related)).ends
  · simp only [inside, if_false]
    exact mirrors.fault _

theorem loadConst (mirrors : first.Mirrors (spare + 1) numbers pairs second) (slot : UInt8) :
    Agree (Ends spare) (Exec.loadConst slot first) (Exec.loadConst slot second) := by
  have executor := mirrors.executor
  have size := executor.slotsSize
  have related := getElem?_related executor.slots (first.executor.consts.base + slot.toNat)
  rw [Array.getElem?_toList, Array.getElem?_toList] at related
  simp only [Exec.loadConst, bind, EStateM.bind, get, getThe, MonadStateOf.get, EStateM.get,
    ConstStack.load]
  rw [executor.consts_eq]
  simp only [size]
  generalize first.executor.consts.slots[first.executor.consts.base + slot.toNat]? = loaded
    at related ⊢
  generalize second.executor.consts.slots[first.executor.consts.base + slot.toNat]? = otherLoaded
    at related ⊢
  cases related with
  | some relates => exact mirrors.pushEnds relates
  | none => exact mirrors.fault _

/-! ## Strings and structs -/

theorem loadString (mirrors : first.Mirrors (spare + 1) numbers pairs second) (assembly : Assembly)
    (number : UInt32) :
    Agree (Ends spare) (Exec.loadString assembly number first)
      (Exec.loadString assembly number second) := by
  unfold Exec.loadString
  cases assembly.literal? number with
  | some text => exact mirrors.pushString text
  | none => exact mirrors.failEnds _

theorem slice (mirrors : first.Mirrors (spare + 1) [0, 1] pairs second) :
    Agree (Ends spare) (Exec.slice first) (Exec.slice second) := by
  refine mirrors.popInt.bind ?_
  rintro last _ _ _ ⟨rfl, mirrors⟩
  refine mirrors.popInt.bind ?_
  rintro start _ _ _ ⟨rfl, mirrors⟩
  refine mirrors.pop.bind ?_
  rintro word _ twin _ ⟨relates, mirrors, _, _⟩
  refine (mirrors.text relates).bind ?_
  rintro whole _ _ _ ⟨rfl, mirrors⟩
  exact Agree.ite (fun _ => mirrors.pushEnds relates) fun _ => mirrors.pushString _

theorem loadField (mirrors : first.Mirrors (spare + 1) numbers pairs second) (index : UInt8) :
    Agree (Ends spare) (Exec.loadField index first) (Exec.loadField index second) := by
  refine mirrors.pop.bind ?_
  rintro word _ twin _ ⟨relates, mirrors, _, _⟩
  refine (mirrors.look (mirrors.heaps.fields relates)).bind ?_
  rintro fields _ others _ ⟨related, rfl, rfl⟩
  have found := getElem?_related related index.toNat
  rw [Array.getElem?_toList, Array.getElem?_toList] at found
  generalize fields[index.toNat]? = field at found ⊢
  generalize others[index.toNat]? = other at found ⊢
  cases found with
  | some relates => exact mirrors.pushEnds relates
  | none => exact mirrors.failEnds _

/-! ## Calls -/

theorem enter (mirrors : first.Mirrors spare numbers pairs second) (lazy : Bool) :
    Agree
      (fun entered after other otherAfter => entered = other ∧
        after.Mirrors spare [] pairs otherAfter)
      (Exec.enter lazy first) (Exec.enter lazy second) := by
  obtain ⟨own, shared⟩ := first
  obtain ⟨other, otherShared⟩ := second
  have executor : own.Mirrors pairs other := mirrors.executor
  have size := executor.slotsSize
  cases executor with
  | @intro items slots related kept alone brief =>
    have same : slots.size = own.consts.slots.size := size
    simp only [Exec.enter, Executor.withWords, ConstStack.top, ConstStack.enter, same]
    by_cases space : own.calls.frames.size < own.calls.limit
    · simp only [space, if_true]
      refine .ok ⟨rfl, mirrors.withExecutors ?_⟩
      exact @Executor.Mirrors.intro pairs
        { own with
          calls := ⟨own.calls.limit, own.calls.frames.push
            { returnTo := own.ip, base := own.consts.base, top := own.consts.slots.size, lazy }⟩
          consts := own.consts.enter }
        items slots related kept alone brief
    · simp only [space, if_false]
      exact .ok ⟨rfl, mirrors.withExecutors (mirrors.executor.fail _)⟩

theorem call (mirrors : first.Mirrors (spare + 1) numbers pairs second) (target : UInt32)
    (count : Nat) (plain : CallMode.ofCode? mode ≠ some .forked) :
    Agree (Ends spare) (Exec.call target count mode first)
      (Exec.call target count mode second) := by
  unfold Exec.call
  cases known : CallMode.ofCode? mode with
  | none => exact mirrors.failEnds _
  | some mode =>
    cases mode with
    | forked => exact absurd known plain
    | normal =>
      refine (mirrors.enter false).bind ?_
      rintro entered _ _ _ ⟨rfl, mirrors⟩
      exact Agree.ite (fun _ => mirrors.jump target) fun _ => .ok mirrors.ends
    | tail =>
      refine agree_ends (mirrors.modifyExecutor ?_)
      exact (released mirrors.executor).control (fun executor => { executor with ip := target })
        (fun _ _ _ => rfl) (fun _ => rfl) (fun _ => rfl) (fun _ => rfl)
        fun _ before => Or.inl before
    | lazy =>
      refine (mirrors.popMany count).bind ?_
      rintro arguments _ others _ ⟨related, mirrors⟩
      exact mirrors.pushNew (.pending target related)

theorem isRunning (mirrors : first.Mirrors spare numbers pairs second) :
    Agree
      (fun running after other otherAfter => running = other ∧
        (running = true → first.executor.state = .running) ∧ after = first ∧ otherAfter = second)
      (Exec.isRunning first) (Exec.isRunning second) := by
  refine .ok ⟨?_, fun running => ?_, rfl, rfl⟩
  · rw [mirrors.executor.state_eq]
  · simpa using running

theorem push_eq_ok (ran : Exec.push word session = .ok () after)
    (running : after.executor.state = .running) :
    session.executor.eval.items.size < session.executor.eval.capacity ∧
      session.executor.state = .running ∧
      after.executor.eval.items.size = session.executor.eval.items.size + 1 ∧
      after.executor.eval.capacity = session.executor.eval.capacity := by
  obtain ⟨executor, shared⟩ := session
  simp only [Exec.push, Exec.modifyExecutor, Executor.push, EStateM.Result.ok.injEq, true_and]
    at ran
  subst ran
  by_cases space : executor.eval.items.size < executor.eval.capacity
  · simp only [space, if_true] at running ⊢
    exact ⟨trivial, running, Array.size_push _, trivial⟩
  · simp only [space, if_false, Executor.fail] at running
    split at running
    · cases running
    · next other => exact absurd running other

/-- An executor that still runs after words were put on its stack had room for them. -/
theorem room_of_pushAll (ran : (words.forM Exec.push : Exec Unit) session = .ok () after)
    (running : after.executor.state = .running) :
    session.executor.state = .running ∧
      (words = [] ∨ session.executor.eval.items.size + words.length ≤
        session.executor.eval.capacity) := by
  induction words generalizing session with
  | nil =>
    cases ran
    exact ⟨running, Or.inl rfl⟩
  | cons word words ih =>
    have pushed : ∃ middle, Exec.push word session = .ok () middle ∧
        (words.forM Exec.push : Exec Unit) middle = .ok () after := ⟨_, rfl, ran⟩
    obtain ⟨middle, ranFirst, ranRest⟩ := pushed
    obtain ⟨middleRunning, fits⟩ := ih ranRest
    obtain ⟨space, start, size, capacity⟩ := push_eq_ok ranFirst middleRunning
    refine ⟨start, Or.inr ?_⟩
    rcases fits with rfl | fits
    · simpa using space
    · rw [size, capacity] at fits
      rw [List.length_cons]
      omega

/-- The bound values of closures are put on top and their targets called, if these are the same
number. -/
theorem callBound (mirrors : first.Mirrors (spare + 1) numbers pairs second) {bound : Array Word}
    (related : List.Forall₂ pairs.Relates bound.toList others.toList) {target twin : Word}
    (targets : pairs.Relates target twin) (count : Nat)
    (plain : CallMode.ofCode? mode ≠ some .forked)
    (numeral : bound.size = 0 ∨ first.executor.eval.items.size + bound.size ≤
      first.executor.eval.capacity → target.isRef = false) :
    Agree (Ends spare)
      ((do
        bound.forM Exec.push
        if ← Exec.isRunning then Exec.call target.bits32 (count + bound.size) mode : Exec Unit)
        first)
      ((do
        others.forM Exec.push
        if ← Exec.isRunning then Exec.call twin.bits32 (count + others.size) mode : Exec Unit)
        second) := by
  have size : others.size = bound.size := by simpa using related.length_eq.symm
  obtain ⟨items⟩ := bound
  refine (mirrors.pushAll related).bindRan ?_
  intro _ after _ otherAfter ran mirrors
  refine mirrors.isRunning.bind ?_
  rintro running _ _ _ ⟨rfl, runs, rfl, rfl⟩
  refine Agree.ite (fun isRunning => ?_) fun _ => .ok mirrors.ends
  rw [Array.forM_eq_forM, List.forM_toArray] at ran
  have fits := (room_of_pushAll ran (runs isRunning)).2
  have noRef : target.isRef = false := by
    refine numeral ?_
    simpa using fits
  rw [mirrors.heaps.eq_of_isRef targets noRef, size]
  exact mirrors.call _ _ plain

theorem look_eq_ok {view : Heap → Except Fault α} {value : α}
    (looked : Exec.look view session = .ok value after) :
    view session.shared.heap = .ok value ∧ after = session := by
  unfold Exec.look at looked
  split at looked
  · next seen =>
    cases looked
    exact ⟨seen, rfl⟩
  · cases looked

theorem back?_related {words : Array Word}
    (related : List.Forall₂ pairs.Relates words.toList others.toList) :
    Option.Rel pairs.Relates words.back? others.back? := by
  have size : others.size = words.size := by simpa using related.length_eq.symm
  have last := getElem?_related related (words.size - 1)
  rw [Array.getElem?_toList, Array.getElem?_toList] at last
  rw [Array.back?_eq_getElem?, Array.back?_eq_getElem?, size]
  exact last

theorem callDynamic (mirrors : first.Mirrors (spare + 1) numbers pairs second) (count : Nat)
    (plain : CallMode.ofCode? mode ≠ some .forked)
    (numeral : ∀ word, first.boundTarget? = some word → word.isRef = false) :
    Agree (Ends spare) (Exec.callDynamic count mode first)
      (Exec.callDynamic count mode second) := by
  refine mirrors.pop.bind ?_
  rintro callee after twin otherAfter ⟨relates, mirrors, operands, same⟩
  have heap : after.shared.heap = first.shared.heap := by
    rw [same]
    rfl
  have capacity : after.executor.eval.capacity = first.executor.eval.capacity := by
    rw [same]
    rfl
  have length : after.operands.length = after.executor.eval.items.size := by
    simp [Session.operands]
  rw [mirrors.heaps.isRef_eq relates]
  refine Agree.ite (fun isRef => ?_) fun noRef => ?_
  · refine (mirrors.look (mirrors.heaps.fields relates)).bindRan ?_
    rintro fields _ others _ looked ⟨related, rfl, rfl⟩
    have found := (look_eq_ok looked).1
    rw [heap] at found
    have back := back?_related related
    generalize last : fields.back? = target at back ⊢
    generalize others.back? = otherTarget at back ⊢
    cases back with
    | none => exact mirrors.failEnds _
    | some targets =>
      refine mirrors.callBound ?_ targets count plain fun fits => numeral _ ?_
      · rw [Array.toList_pop, Array.toList_pop, List.dropLast_eq_take, List.dropLast_eq_take,
          related.length_eq]
        exact List.forall₂_take _ related
      · simp only [Session.boundTarget?, operands, found, length, ← capacity, fits, if_true]
        exact last
  · rw [mirrors.heaps.eq_of_isRef relates (by simpa using noRef)]
    exact mirrors.call _ count plain

theorem finish_eq (alone : session.executor.promise = none) :
    Exec.finish session =
      if session.executor.eval.items.size ≠ 0 then
        .error (.valuesLeft session.executor.eval.items.size) session
      else .ok () { session with executor := { session.executor with state := .success } } := by
  simp only [Exec.finish, bind, EStateM.bind, get, getThe, MonadStateOf.get, EStateM.get, alone,
    Option.isSome_none, Bool.false_eq_true, if_false]
  by_cases left : session.executor.eval.items.size = 0
  · simp [EvalStack.size, left, alone, Exec.modifyExecutor]
  · simp [EvalStack.size, left, throw, throwThe, MonadExceptOf.throw, EStateM.bind, EStateM.throw]

/-- The end of an executor: nothing may be left on its stack. -/
theorem finish (mirrors : first.Mirrors (spare + 1) numbers pairs second) :
    Agree (Ends spare) (Exec.finish first) (Exec.finish second) := by
  have executor := mirrors.executor
  obtain ⟨alone, otherAlone⟩ := executor.promises
  rw [finish_eq alone, finish_eq otherAlone, executor.itemsSize]
  by_cases left : first.executor.eval.items.size ≠ 0
  · rw [if_pos left, if_pos left]
    exact mirrors.fault _
  · rw [if_neg left, if_neg left]
    have ended := executor.control (fun executor => { executor with state := .success })
      (fun _ _ _ => rfl) (fun _ => rfl) (fun _ => rfl) (fun _ => rfl) fun _ before => Or.inl before
    exact .ok (mirrors.withExecutors ended).ends

theorem dropFrame (mirrors : first.Mirrors spare numbers pairs second) :
    Agree
      (fun frame after other otherAfter => frame = other ∧
        after.Mirrors spare [] pairs otherAfter)
      (Exec.dropFrame first) (Exec.dropFrame second) := by
  have executor := mirrors.executor
  have dropped := (released executor).control
    (fun executor => { executor with calls := ⟨executor.calls.limit, executor.calls.frames.pop⟩ })
    (fun _ _ _ => rfl) (fun _ => rfl) (fun _ => rfl) (fun _ => rfl) fun _ before => Or.inl before
  have calls : second.executor.calls = first.executor.calls := by
    rw [executor.rest]
    rfl
  refine .ok ⟨?_, mirrors.withExecutors dropped⟩
  rw [calls]

/-- The callers' windows of constants are opened again. -/
theorem left {own other : Executor} (mirrors : own.Mirrors pairs other) (base top : Nat)
    (ip : UInt32) : Executor.Mirrors pairs { own with consts := own.consts.leave base top, ip }
      { other with consts := other.consts.leave base top, ip } := by
  rw [mirrors.consts_eq]
  exact (mirrors.withSlots base (shrink_related mirrors.slots top)).control
    (fun executor => { executor with ip })
    (fun _ _ _ => rfl) (fun _ => rfl) (fun _ => rfl) (fun _ => rfl) fun _ before => Or.inl before

theorem ret (mirrors : first.Mirrors (spare + 1) numbers pairs second) :
    Agree (Ends spare) (Exec.ret first) (Exec.ret second) := by
  refine mirrors.dropFrame.bind ?_
  rintro frame _ _ _ ⟨rfl, mirrors⟩
  cases frame with
  | none => exact mirrors.finish
  | some frame =>
    refine (mirrors.modifyExecutor (left mirrors.executor frame.base frame.top _)).bind ?_
    intro _ _ _ _ mirrors
    refine Agree.ite (fun _ => ?_) fun _ => .ok mirrors.ends
    refine mirrors.pop.bind ?_
    rintro result _ other _ ⟨results, mirrors, _, _⟩
    refine mirrors.pop.bind ?_
    rintro word _ twin _ ⟨relates, mirrors, _, _⟩
    refine (mirrors.look (mirrors.heaps.force relates results)).bind ?_
    rintro ⟨value, heap⟩ _ ⟨otherValue, otherHeap⟩ _ ⟨⟨values, heaps, size, otherSize⟩, rfl, rfl⟩
    exact (mirrors.withHeaps heaps size otherSize).pushEnds values

theorem await (mirrors : first.Mirrors (spare + 1) numbers pairs second) :
    Agree (Ends spare) (Exec.await first) (Exec.await second) := by
  refine mirrors.peek.bind ?_
  rintro word _ twin _ ⟨relates, _, rfl, rfl⟩
  refine (mirrors.look (mirrors.heaps.outcome relates)).bind ?_
  rintro _ _ _ _ ⟨impossible, _⟩
  exact impossible.elim

theorem awaitFor (mirrors : first.Mirrors (spare + 1) numbers pairs second) :
    Agree (Ends spare) (Exec.awaitFor first) (Exec.awaitFor second) := by
  refine mirrors.popLong.bind ?_
  rintro limit _ _ _ ⟨rfl, mirrors⟩
  refine mirrors.peek.bind ?_
  rintro word _ twin _ ⟨relates, _, rfl, rfl⟩
  refine (mirrors.look (mirrors.heaps.outcome relates)).bind ?_
  rintro _ _ _ _ ⟨impossible, _⟩
  exact impossible.elim

theorem force (mirrors : first.Mirrors (spare + 1) numbers pairs second) :
    Agree (Ends spare) (Exec.force first) (Exec.force second) := by
  refine mirrors.peek.bind ?_
  rintro word _ twin _ ⟨relates, _, rfl, rfl⟩
  refine (mirrors.look (mirrors.heaps.delayed relates)).bind ?_
  rintro call _ other _ ⟨calls, rfl, rfl⟩
  cases calls with
  | forced value =>
    refine mirrors.pop.bind ?_
    rintro _ _ _ _ ⟨_, mirrors, _, _⟩
    exact mirrors.pushEnds value
  | pending target arguments =>
    refine (mirrors.enter true).bind ?_
    rintro entered _ _ _ ⟨rfl, mirrors⟩
    refine Agree.ite (fun _ => ?_) fun _ => .ok mirrors.ends
    refine (mirrors.pushAll arguments).bind ?_
    exact fun _ _ _ _ mirrors => mirrors.jump target

/-! ## Platform calls -/

theorem writeConsole (mirrors : first.Mirrors (spare + 1) numbers pairs second) (text : Bytes) :
    Agree (Ends spare) (Exec.writeConsole text first) (Exec.writeConsole text second) :=
  agree_ends (mirrors.modifyPlatform _)

theorem writeText (mirrors : first.Mirrors (spare + 1) numbers pairs second)
    (finish : Bytes → Bytes) :
    Agree (Ends spare)
      ((do Exec.writeConsole (finish (← Exec.text (← Exec.peek))) : Exec Unit) first)
      ((do Exec.writeConsole (finish (← Exec.text (← Exec.peek))) : Exec Unit) second) := by
  refine mirrors.peek.bind ?_
  rintro word _ twin _ ⟨relates, _, rfl, rfl⟩
  refine (mirrors.text relates).bind ?_
  rintro text _ _ _ ⟨rfl, mirrors⟩
  exact mirrors.writeConsole _

theorem removeFile (mirrors : first.Mirrors (spare + 1) numbers pairs second) :
    Agree (Ends spare) (Exec.removeFile first) (Exec.removeFile second) := by
  refine mirrors.popText.bind ?_
  rintro path _ _ _ ⟨rfl, mirrors⟩
  refine mirrors.platform.bind ?_
  rintro platform _ _ _ ⟨rfl, rfl, rfl⟩
  cases platform.removeFile path with
  | error error => exact mirrors.pushBool false
  | ok platform =>
    refine (mirrors.setPlatform platform).bind ?_
    exact fun _ _ _ _ mirrors => mirrors.pushBool true

theorem lookupAddress (mirrors : first.Mirrors (spare + 1) numbers pairs second) :
    Agree (Ends spare) (Exec.lookupAddress first) (Exec.lookupAddress second) := by
  refine mirrors.peek.bind ?_
  rintro word _ twin _ ⟨relates, _, rfl, rfl⟩
  refine (mirrors.text relates).bind ?_
  rintro host _ _ _ ⟨rfl, mirrors⟩
  exact agree_ends (mirrors.stay rfl)

theorem changeTerminal (mirrors : first.Mirrors (spare + 1) [0] pairs second) (set : Bool) :
    Agree (Ends spare) (Exec.changeTerminal set first) (Exec.changeTerminal set second) := by
  refine mirrors.popInt.bind ?_
  rintro options _ _ _ ⟨rfl, mirrors⟩
  refine mirrors.platform.bind ?_
  rintro platform _ _ _ ⟨rfl, rfl, rfl⟩
  cases platform.changeTerminal? options.toUInt32 set with
  | none => exact mirrors.pushBool false
  | some platform =>
    refine (mirrors.setPlatform platform).bind ?_
    exact fun _ _ _ _ mirrors => mirrors.pushBool true

theorem argument (mirrors : first.Mirrors (spare + 1) [0] pairs second) :
    Agree (Ends spare) (Exec.argument first) (Exec.argument second) := by
  refine mirrors.platform.bind ?_
  rintro platform _ _ _ ⟨rfl, rfl, rfl⟩
  refine mirrors.popInt.bind ?_
  rintro number _ _ _ ⟨rfl, mirrors⟩
  exact mirrors.pushString _

theorem environmentVariable (mirrors : first.Mirrors (spare + 1) numbers pairs second) :
    Agree (Ends spare) (Exec.environmentVariable first) (Exec.environmentVariable second) := by
  refine mirrors.popText.bind ?_
  rintro name _ _ _ ⟨rfl, mirrors⟩
  refine mirrors.platform.bind ?_
  rintro platform _ _ _ ⟨rfl, rfl, rfl⟩
  exact mirrors.pushString _

theorem text_eq_ok {value : Bytes} (ran : Exec.text word session = .ok value after) :
    session.shared.heap.text word = .ok value ∧ after.executor = session.executor := by
  obtain ⟨⟨size, payload⟩, middle, looked, rest⟩ := bind_eq_ok ran
  obtain ⟨found, same⟩ := look_eq_ok looked
  rw [same] at rest
  have whole : ∀ {value after}, Exec.look (·.text word) session = .ok value after →
      session.shared.heap.text word = .ok value ∧ after.executor = session.executor := by
    intro value after looked
    obtain ⟨seen, rfl⟩ := look_eq_ok looked
    exact ⟨seen, rfl⟩
  cases payload with
  | string text =>
    cases rest
    exact ⟨by simp [Heap.text, found], rfl⟩
  | link previous byte flat =>
    cases flat with
    | some text => exact whole rest
    | none =>
      obtain ⟨text, middle, read, last⟩ := bind_eq_ok rest
      obtain ⟨seen, unchanged⟩ := whole read
      cases last
      exact ⟨seen, unchanged⟩
  | _ => exact whole rest

theorem popText_eq_ok {value : Bytes} (ran : Exec.popText session = .ok value after) :
    ∃ word, session.operands = word :: after.operands ∧
      session.shared.heap.text word = .ok value := by
  obtain ⟨word, middle, popped, read⟩ := bind_eq_ok ran
  obtain ⟨text, executor⟩ := text_eq_ok read
  cases operands : session.operands with
  | nil =>
    rw [pop_nil operands] at popped
    cases popped
  | cons top rest =>
    rw [pop_cons operands] at popped
    cases popped
    refine ⟨word, ?_, text⟩
    simp [Session.operands, executor, Evaluation.withOperands]

theorem assert (mirrors : first.Mirrors (spare + 1) numbers pairs second)
    (numeral : ∀ word, first.condition? = some word → word.isRef = false) :
    Agree (Ends spare) (Exec.assert first) (Exec.assert second) := by
  refine mirrors.popText.bindRan ?_
  rintro message after _ otherAfter ran ⟨rfl, mirrors⟩
  obtain ⟨word, operands, read⟩ := popText_eq_ok ran
  refine mirrors.peek.bind ?_
  rintro condition _ twin _ ⟨relates, top, rfl, rfl⟩
  obtain ⟨rest, others⟩ := List.head?_eq_some_iff.1 top
  rw [others] at operands
  have plain := numeral condition (by simp [Session.condition?, operands, read])
  rw [mirrors.heaps.eq_of_isRef relates plain]
  refine Agree.ite (fun _ => ?_) fun _ => .ok mirrors.ends
  refine (mirrors.modifyPlatform _).bind ?_
  exact fun _ _ _ _ mirrors => mirrors.failEnds _

theorem platformCall (mirrors : first.Mirrors (spare + 1) [] pairs second) {call : PlatformCall}
    (streams : call.usesStreams = false) (clock : call.usesClock = false)
    (plain : ∀ depth ∈ call.numerals, ∀ word, first.operands[depth]? = some word →
      word.isRef = false)
    (numeral : call = .assert → ∀ word, first.condition? = some word → word.isRef = false) :
    Agree (Ends spare) (Exec.platformCall call first) (Exec.platformCall call second) := by
  have known : first.Mirrors (spare + 1) call.numerals pairs second :=
    ⟨mirrors.executor, mirrors.shared, mirrors.room, mirrors.otherRoom, plain⟩
  cases call with
  | writeChar =>
    refine known.peek.bind ?_
    rintro word _ twin _ ⟨relates, top, rfl, rfl⟩
    have noRef := known.plain 0 List.mem_cons_self word (by
      rw [← List.head?_eq_getElem?]
      exact top)
    rw [mirrors.heaps.eq_of_isRef relates noRef]
    exact mirrors.writeConsole _
  | writeString => exact mirrors.writeText id
  | writeLine => exact mirrors.writeText fun text => text.push 10
  | readChar => exact agree_ends (mirrors.stay rfl)
  | readLine => exact agree_ends (mirrors.stay rfl)
  | fileRemove => exact mirrors.removeFile
  | lookupAddress => exact mirrors.lookupAddress
  | termSetOptions => exact known.changeTerminal true
  | termUnsetOptions => exact known.changeTerminal false
  | termWidth =>
    refine mirrors.platform.bind ?_
    rintro platform _ _ _ ⟨rfl, rfl, rfl⟩
    exact mirrors.pushInt _
  | termHeight =>
    refine mirrors.platform.bind ?_
    rintro platform _ _ _ ⟨rfl, rfl, rfl⟩
    exact mirrors.pushInt _
  | envArg => exact known.argument
  | envArgCount =>
    refine mirrors.platform.bind ?_
    rintro platform _ _ _ ⟨rfl, rfl, rfl⟩
    exact mirrors.pushInt _
  | envVar => exact mirrors.environmentVariable
  | assert => exact mirrors.assert (numeral rfl)
  | clockMicro | clockNano | sleep => cases clock
  | streamValid | streamReadString | streamReadChar | streamWriteString | streamWriteChar =>
    cases streams
  | streamFlush | streamSetOptions | streamUnsetOptions | fileOpen | tcpConnect | tcpListen =>
    cases streams
  | tcpAccept | consoleOpen => cases streams

/-! ## Instructions -/

/-- Operands that an instruction reads as numbers are no references. -/
theorem known (mirrors : first.Mirrors spare numbers pairs second) {assembly : Assembly}
    {op : Opcode} {position : Nat}
    (numerals : ∀ word ∈ first.numerals assembly op position, word.isRef = false)
    (notDynamic : op ≠ .callDynamic) (notPlatform : op ≠ .platformCall) :
    first.Mirrors spare op.numerals pairs second where
  executor := mirrors.executor
  shared := mirrors.shared
  room := mirrors.room
  otherRoom := mirrors.otherRoom
  plain := by
    intro depth member word found
    refine numerals word ?_
    have listed : word ∈ op.numerals.filterMap (first.operands[·]?) :=
      List.mem_filterMap.2 ⟨depth, member, found⟩
    cases op with
    | callDynamic => exact absurd rfl notDynamic
    | platformCall => exact absurd rfl notPlatform
    | _ => exact listed

theorem appendChar (mirrors : first.Mirrors (spare + 1) [0] pairs second) :
    Agree (Ends spare)
      ((do
        let byte := (← Exec.pop).toByte
        let word ← Exec.pop
        Exec.pushNew (.link word byte none) : Exec Unit) first)
      ((do
        let byte := (← Exec.pop).toByte
        let word ← Exec.pop
        Exec.pushNew (.link word byte none) : Exec Unit) second) := by
  refine takeOne mirrors.popNumber fun number mirrors => ?_
  refine mirrors.pop.bind ?_
  rintro word _ twin _ ⟨relates, mirrors, _, _⟩
  exact mirrors.pushNew (.link number.toByte none relates)

/-- Plain instructions are carried out alike. -/
theorem perform (mirrors : first.Mirrors (spare + 1) [] pairs second) {assembly : Assembly}
    {op : Opcode} {position : Nat} (plain : assembly.isPlain op position = true)
    (numerals : ∀ word ∈ first.numerals assembly op position, word.isRef = false) :
    Agree (Ends spare) (Exec.perform assembly op position first)
      (Exec.perform assembly op position second) := by
  have known := mirrors.known numerals
  cases op with
  | loadInt | loadAddress => exact mirrors.pushInt _
  | loadLong => exact mirrors.pushLong _
  | loadFloat => exact mirrors.pushFloat _
  | loadString => exact mirrors.loadString assembly _
  | reserveConsts => exact mirrors.reserveConsts _
  | storeConst => exact mirrors.storeConst _
  | loadConst => exact mirrors.loadConst _
  | dup =>
    refine mirrors.peek.bind ?_
    rintro word _ twin _ ⟨relates, _, rfl, rfl⟩
    exact mirrors.pushEnds relates
  | pop =>
    refine mirrors.pop.bind ?_
    rintro _ _ _ _ ⟨_, mirrors, _, _⟩
    exact .ok mirrors.ends
  | addInt | subInt | mulInt | shiftLeft | shiftRight | andInt | orInt | xorInt =>
    exact (known nofun nofun).intBinary _
  | divInt | remInt => exact (known nofun nofun).intDivision _
  | eqInt | gtInt | ltInt => exact (known nofun nofun).intTest _
  | negInt | complement =>
    exact takeOne (known nofun nofun).popInt fun _ mirrors => mirrors.pushInt _
  | notInt => exact takeOne (known nofun nofun).popInt fun _ mirrors => mirrors.pushBool _
  | addLong | subLong | mulLong => exact mirrors.longBinary _
  | divLong | remLong => exact mirrors.longDivision _
  | eqLong | gtLong | ltLong => exact mirrors.longTest _
  | negLong => exact takeOne mirrors.popLong fun _ mirrors => mirrors.pushLong _
  | addFloat | subFloat | mulFloat | powFloat | atan2Float =>
    exact (known nofun nofun).floatBinary _
  | divFloat | modFloat => exact (known nofun nofun).floatDivision _
  | eqFloat | gtFloat | ltFloat => exact (known nofun nofun).floatTest _
  | sqrtFloat | sinFloat | cosFloat | tanFloat | asinFloat | acosFloat | atanFloat | negFloat =>
    exact (known nofun nofun).floatUnary _
  | concat => exact takeTwo mirrors.popText popText fun _ _ mirrors => mirrors.pushString _
  | eqString => exact takeTwo mirrors.popText popText fun _ _ mirrors => mirrors.pushBool _
  | length => exact takeOne mirrors.popText fun _ mirrors => mirrors.pushInt _
  | appendChar => exact (known nofun nofun).appendChar
  | index =>
    exact takeOne (known nofun nofun).popInt fun _ mirrors =>
      takeOne mirrors.popText fun _ mirrors => mirrors.pushInt _
  | slice => exact (known nofun nofun).slice
  | combineChars =>
    exact takeTwo (known nofun nofun).popNumber popNumber fun _ _ mirrors =>
      mirrors.pushString _
  | isNull =>
    refine mirrors.pop.bind ?_
    rintro word _ twin _ ⟨relates, mirrors, _, _⟩
    rw [mirrors.heaps.isNull_eq relates]
    exact mirrors.pushBool _
  | intToLong => exact takeOne (known nofun nofun).popInt fun _ mirrors => mirrors.pushLong _
  | intToFloat => exact takeOne (known nofun nofun).popInt fun _ mirrors => mirrors.pushFloat _
  | intToString | boolToString =>
    exact takeOne (known nofun nofun).popInt fun _ mirrors => mirrors.pushString _
  | longToInt => exact takeOne mirrors.popLong fun _ mirrors => mirrors.pushInt _
  | longToString => exact takeOne mirrors.popLong fun _ mirrors => mirrors.pushString _
  | floatToInt | floatToChar =>
    exact takeOne (known nofun nofun).popFloat fun _ mirrors => mirrors.pushInt _
  | floatToString =>
    exact takeOne (known nofun nofun).popFloat fun _ mirrors => mirrors.pushString _
  | charToString =>
    exact takeOne (known nofun nofun).popNumber fun _ mirrors => mirrors.pushString _
  | intToChar => exact takeOne (known nofun nofun).popNumber fun _ mirrors => mirrors.pushInt _
  | makeStruct =>
    refine (mirrors.popMany _).bind ?_
    rintro fields _ others _ ⟨related, mirrors⟩
    exact mirrors.pushNew (.struct related)
  | makeNull => exact mirrors.pushEnds (.same (Or.inr rfl))
  | loadField => exact mirrors.loadField _
  | jump => exact mirrors.jump _
  | jumpIf =>
    exact takeOne (known nofun nofun).popInt fun _ mirrors =>
      Agree.ite (fun _ => mirrors.jump _) fun _ => .ok mirrors.ends
  | call => exact mirrors.call _ _ (by simpa [Assembly.isPlain] using plain)
  | callDynamic =>
    refine mirrors.callDynamic _ (by simpa [Assembly.isPlain] using plain) fun word target => ?_
    exact numerals word (Option.mem_toList.2 target)
  | platformCall =>
    simp only [Exec.perform]
    simp only [Assembly.isPlain] at plain
    simp only [Session.numerals] at numerals
    cases selected : PlatformCall.ofCode? (assembly.code.byteAt position) with
    | none => exact mirrors.failEnds _
    | some call =>
      rw [selected] at plain numerals
      have unused : call.usesStreams = false ∧ call.usesClock = false := by simpa using plain
      refine mirrors.platformCall unused.1 unused.2 ?_ ?_
      · intro depth member word found
        have listed : word ∈ call.numerals.filterMap (first.operands[·]?) :=
          List.mem_filterMap.2 ⟨depth, member, found⟩
        cases call with
        | assert => cases member
        | _ => exact numerals word listed
      · rintro rfl word condition
        exact numerals word (Option.mem_toList.2 condition)
  | ret => exact mirrors.ret
  | fail => exact mirrors.failEnds _
  | awaitFor => exact mirrors.awaitFor
  | await => exact mirrors.await
  | force => exact mirrors.force

/-! ## Steps -/

theorem attempt (mirrors : first.Mirrors (spare + 1) numbers pairs second) {wait : Wait}
    (brief : wait.isBrief = true) :
    Agree (Ends spare) (Exec.attempt wait first) (Exec.attempt wait second) := by
  cases wait with
  | consoleChar =>
    refine mirrors.platform.bind ?_
    rintro platform _ _ _ ⟨rfl, rfl, rfl⟩
    refine (mirrors.modifyPlatform _).bind ?_
    intro _ _ _ _ mirrors
    refine mirrors.resume.bind ?_
    exact fun _ _ _ _ mirrors => mirrors.pushInt _
  | consoleLine =>
    refine mirrors.platform.bind ?_
    rintro platform _ _ _ ⟨rfl, rfl, rfl⟩
    refine (mirrors.modifyPlatform _).bind ?_
    intro _ _ _ _ mirrors
    refine mirrors.resume.bind ?_
    exact fun _ _ _ _ mirrors => mirrors.pushString _
  | address host =>
    refine mirrors.platform.bind ?_
    rintro platform _ _ _ ⟨rfl, rfl, rfl⟩
    refine mirrors.resume.bind ?_
    intro _ _ _ _ mirrors
    refine mirrors.pop.bind ?_
    rintro _ _ _ _ ⟨_, mirrors, _, _⟩
    exact mirrors.pushString _
  | _ => cases brief

theorem settle (mirrors : first.Mirrors (spare + 1) numbers pairs second) :
    Agree (Ends spare) (Exec.settle first) (Exec.settle second) := by
  have executor := mirrors.executor
  have same : second.executor.wait = first.executor.wait := by
    rw [executor.rest]
    rfl
  unfold Exec.settle
  rw [same]
  cases waiting : first.executor.wait with
  | none => exact .ok mirrors.ends
  | some wait => exact mirrors.attempt (executor.brief wait waiting)

/-- What an executor reads as numbers depends on its operands and the heap. -/
theorem numerals_log (session : Session) {executor : Executor}
    (eval : executor.eval = session.executor.eval) (line : Unit → Bytes) (assembly : Assembly)
    (op : Opcode) (position : Nat) :
    Session.numerals ⟨executor, session.shared.log line⟩ assembly op position =
      session.numerals assembly op position := by
  unfold Session.numerals Session.boundTarget? Session.condition? Session.operands
  simp only [eval, Shared.log_heap]

end Session.Mirrors

/-- Whether the next instruction of a session forks no call, uses no stream and no clock and reads
no reference as a number. -/
def Session.isPlain (session : Session) : Bool :=
  let assembly := session.shared.assembly
  let position := session.executor.ip.toNat
  match Exec.fetch? assembly.code position with
  | none => true
  | some (op, _) =>
    assembly.isPlain op (position + 1) &&
      (session.numerals assembly op (position + 1)).all fun word => !word.isRef

namespace Session.Mirrors

open Exec

variable {spare : Nat} {numbers : List Nat} {pairs : Renaming} {first second : Session}

/-- The next instruction is carried out alike up to the point where it has to wait. -/
theorem issue (mirrors : first.Mirrors (spare + 1) numbers pairs second)
    (plain : first.isPlain = true) :
    Agree (Ends spare) (Exec.issue first) (Exec.issue second) := by
  have executor := mirrors.executor
  have assembly := mirrors.shared.assembly_eq
  have ip := executor.ip_eq
  cases fetched : fetch? first.shared.assembly.code first.executor.ip.toNat with
  | none =>
    have otherFetched : second.instruction? = none := by
      unfold Session.instruction?
      rw [assembly, ip]
      exact fetched
    rw [issue_none first fetched, issue_none second otherFetched]
    have ended := executor.control (fun executor => { executor with state := .invalidAssembly })
      (fun _ _ _ => rfl) (fun _ => rfl) (fun _ => rfl) (fun _ => rfl) fun _ before => Or.inl before
    exact .ok (mirrors.withExecutors ended).ends
  | some fetch =>
    obtain ⟨op, size⟩ := fetch
    simp only [Session.isPlain, fetched, Bool.and_eq_true, List.all_eq_true, Bool.not_eq_true']
      at plain
    obtain ⟨isPlain, numerals⟩ := plain
    have otherFetched : second.instruction? = some (op, size) := by
      unfold Session.instruction?
      rw [assembly, ip]
      exact fetched
    rw [issue_some first fetched, issue_some second otherFetched]
    unfold Session.fetched
    generalize (fun _ : Unit => instructionLine first.executor.id first.shared.assembly.code
      first.executor.ip.toNat op) = line
    generalize (fun _ : Unit => instructionLine second.executor.id second.shared.assembly.code
      second.executor.ip.toNat op) = otherLine
    rw [assembly, ip]
    have moved := executor.control
      (fun executor => { executor with
        current := first.executor.ip, ip := first.executor.ip + UInt32.ofNat size })
      (fun _ _ _ => rfl) (fun _ => rfl) (fun _ => rfl) (fun _ => rfl) fun _ before => Or.inl before
    refine perform ⟨moved, mirrors.shared.log line otherLine, ?_, ?_, nofun⟩ isPlain ?_
    · rw [Shared.log_heap]
      exact mirrors.room
    · rw [Shared.log_heap]
      exact mirrors.otherRoom
    · rw [numerals_log first]
      · exact numerals
      · rfl

/-- The next instruction is carried out alike. -/
theorem step (mirrors : first.Mirrors 2 numbers pairs second) (plain : first.isPlain = true) :
    Agree (Ends 0) (Exec.step first) (Exec.step second) := by
  refine (mirrors.issue plain).bind ?_
  rintro _ _ _ _ ⟨pairs, mirrors⟩
  exact mirrors.settle

end Session.Mirrors

end WordMachine
