import Mathlib.Order.Nat
import WordMachine.Proofs.BoundedExecution

/-!
Windows of constants. An instruction works on the constants of the innermost call, opens a window
above them for a further call, or goes back to the window of the caller. What lies below the current
window stays as it is, and reserved slots hold zero until something is stored in them.
-/

namespace WordMachine

/-! ## Windows -/

/-- The constants of an executor with the frames that divide them into windows. -/
structure Windows where
  consts : ConstStack
  calls : CallStack

def Executor.windows (executor : Executor) : Windows :=
  ⟨executor.consts, executor.calls⟩

namespace Windows

/-- Where the window of the call at a depth begins. Its callee, if it has one, keeps that. -/
def baseAt (windows : Windows) (depth : Nat) : Nat :=
  match windows.calls.frames[depth]? with
  | some frame => frame.base
  | none => windows.consts.base

def topAt (windows : Windows) (depth : Nat) : Nat :=
  match windows.calls.frames[depth]? with
  | some frame => frame.top
  | none => windows.consts.top

/-- Whether a frame keeps the current window. -/
def SavedIn (windows : Windows) (frame : Frame) : Prop :=
  frame.base = windows.consts.base ∧ frame.top = windows.consts.top

/-- With a further frame, whose window is still empty. -/
def opened (windows : Windows) (frame : Frame) : Windows :=
  ⟨windows.consts.enter, ⟨windows.calls.limit, windows.calls.frames.push frame⟩⟩

/-- Back in the window that the last frame keeps. -/
def left (windows : Windows) (frame : Frame) : Windows :=
  ⟨windows.consts.release.leave frame.base frame.top,
    ⟨windows.calls.limit, windows.calls.frames.pop⟩⟩

/-- Without the constants of the current window. -/
def dropped (windows : Windows) : Windows :=
  { windows with consts := windows.consts.release }

/-- Whether the windows lie on top of each other, the current one being the topmost. -/
structure Ordered (windows : Windows) : Prop where
  window : windows.consts.base ≤ windows.consts.top
  stacked : Frame.Stacked windows.consts.base windows.calls.frames.toList.reverse

end Windows

theorem Executor.Bounded.ordered {settings : Settings} {executor : Executor}
    (bounded : executor.Bounded settings) : executor.windows.Ordered :=
  ⟨bounded.window, bounded.stacked⟩

/-- Every window ends below those that were opened later. -/
theorem Frame.Stacked.of_mem {base : Nat} {frames : List Frame}
    (stacked : Frame.Stacked base frames) {frame : Frame} (member : frame ∈ frames) :
    frame.base ≤ frame.top ∧ frame.top ≤ base := by
  induction frames generalizing base with
  | nil => cases member
  | cons first rest ih =>
    obtain ⟨top, window, below⟩ := stacked
    rcases List.mem_cons.1 member with rfl | later
    · exact ⟨window, top.le⟩
    · obtain ⟨inner, outer⟩ := ih below later
      exact ⟨inner, outer.trans (window.trans top.le)⟩

theorem Windows.Ordered.frame {windows : Windows} (ordered : windows.Ordered) {depth : Nat}
    {frame : Frame} (found : windows.calls.frames[depth]? = some frame) :
    frame.base ≤ frame.top ∧ frame.top ≤ windows.consts.base := by
  refine ordered.stacked.of_mem (List.mem_reverse.2 (Array.mem_toList_iff.2 ?_))
  exact Array.mem_of_getElem? found

/-! ## What an instruction does to them -/

namespace Session

/-- A byte of the operands of the next instruction. -/
def operand (session : Session) (place : Nat) : UInt8 :=
  session.shared.assembly.code.byteAt (session.executor.ip.toNat + 1 + place)

/-- Whether the next instruction is a call of a kind. -/
def IssuesCall (session : Session) (mode : CallMode) : Prop :=
  ∃ size, session.instruction? = some (.call, size) ∧
      CallMode.ofCode? (session.operand 5) = some mode ∨
    session.instruction? = some (.callDynamic, size) ∧
      CallMode.ofCode? (session.operand 1) = some mode

/-- What the next instruction can make of the windows. -/
inductive Shifts (session : Session) : Windows → Prop
  | stay : Shifts session session.executor.windows
  | reserve {size : Nat} :
      session.instruction? = some (.reserveConsts, size) →
      session.executor.consts.base + (session.operand 0).toNat ≤
        session.executor.consts.capacity →
      Shifts session
        { session.executor.windows with
          consts := session.executor.consts.reserve (session.operand 0).toNat }
  | store {size : Nat} {word : Word} {consts : ConstStack} :
      session.instruction? = some (.storeConst, size) →
      session.executor.consts.store (session.operand 0) word = .ok consts →
      Shifts session { session.executor.windows with consts }
  | tail :
      session.IssuesCall .tail →
      Shifts session session.executor.windows.dropped
  | enter {frame : Frame} :
      session.IssuesCall .normal ∨ (∃ size, session.instruction? = some (.force, size)) →
      session.executor.windows.SavedIn frame →
      Shifts session (session.executor.windows.opened frame)
  | leave {size : Nat} {frame : Frame} :
      session.instruction? = some (.ret, size) →
      session.executor.calls.frames.back? = some frame →
      Shifts session (session.executor.windows.left frame)
  | finish {size : Nat} :
      session.instruction? = some (.ret, size) →
      session.executor.calls.frames = #[] →
      Shifts session session.executor.windows.dropped

end Session

namespace Exec

variable {α β : Type} {session : Session} {holds : Windows → Prop}
variable {operation : Exec α}

theorem Indifferent.windows (indifferent : Indifferent operation) (session : Session) :
    (ending (operation session)).executor.windows = session.executor.windows := by
  obtain ⟨consts, calls⟩ := indifferent.keeps session
  unfold Executor.windows
  rw [consts, calls]

theorem Indifferent.onWindows (indifferent : Indifferent operation)
    (stays : holds session.executor.windows) :
    holds (ending (operation session)).executor.windows := by
  rw [indifferent.windows]
  exact stays

theorem Indifferent.thenOnWindows {next : α → Exec β} (indifferent : Indifferent operation)
    (stays : holds session.executor.windows)
    (rest : ∀ value middle, middle.executor.windows = session.executor.windows →
      holds (ending (next value middle)).executor.windows) :
    holds (ending ((operation >>= next) session)).executor.windows := by
  have kept := indifferent.windows session
  change holds (ending (EStateM.bind operation next session)).executor.windows
  unfold EStateM.bind
  cases ran : operation session with
  | ok value middle =>
    rw [ran] at kept
    exact rest value middle kept
  | error fault middle =>
    rw [ran] at kept
    rw [← kept] at stays
    exact stays

/-- Opening a frame, and what is done before the first instruction of the call. -/
theorem windows_enter {lazy : Bool} {next : Exec Unit} (indifferent : Indifferent next)
    (stays : holds session.executor.windows)
    (opens : ∀ frame, session.executor.windows.SavedIn frame →
      holds (session.executor.windows.opened frame)) :
    holds (ending ((do if ← enter lazy then next : Exec Unit) session)).executor.windows := by
  change holds (ending (EStateM.bind (enter lazy) _ session)).executor.windows
  unfold EStateM.bind enter
  dsimp only
  by_cases room : session.executor.calls.frames.size < session.executor.calls.limit
  · rw [if_pos room]
    refine indifferent.onWindows ?_
    exact opens
      { returnTo := session.executor.ip, base := session.executor.consts.base,
        top := session.executor.consts.top, lazy } ⟨rfl, rfl⟩
  · rw [if_neg room, Executor.fail_eq]
    exact stays

theorem windows_call {target : UInt32} {count : Nat} {mode : UInt8}
    (stays : holds session.executor.windows)
    (opens : CallMode.ofCode? mode = some .normal → ∀ frame,
      session.executor.windows.SavedIn frame → holds (session.executor.windows.opened frame))
    (drops : CallMode.ofCode? mode = some .tail → holds session.executor.windows.dropped) :
    holds (ending (call target count mode session)).executor.windows := by
  unfold call
  cases known : CallMode.ofCode? mode with
  | none => exact (indifferent_fail _).onWindows stays
  | some mode =>
    cases mode with
    | normal => exact windows_enter (indifferent_jump target) stays (opens known)
    | tail => exact drops known
    | forked =>
      exact ((indifferent_popMany count).bind fun arguments =>
        indifferent_fork target arguments).onWindows stays
    | lazy =>
      exact ((indifferent_popMany count).bind fun _ => indifferent_pushNew _).onWindows stays

theorem windows_callDynamic {count : Nat} {mode : UInt8} (stays : holds session.executor.windows)
    (opens : CallMode.ofCode? mode = some .normal → ∀ frame,
      session.executor.windows.SavedIn frame → holds (session.executor.windows.opened frame))
    (drops : CallMode.ofCode? mode = some .tail → holds session.executor.windows.dropped) :
    holds (ending (callDynamic count mode session)).executor.windows := by
  -- The call starts from the same windows, wherever its target comes from.
  have called : ∀ {middle : Session} {target : UInt32} {count : Nat},
      middle.executor.windows = session.executor.windows →
        holds (ending (call target count mode middle)).executor.windows := by
    intro middle target count kept
    rw [← kept] at stays opens drops
    exact windows_call stays opens drops
  refine indifferent_pop.thenOnWindows stays fun callee middle kept => ?_
  by_cases isRef : callee.isRef = true
  · rw [if_pos isRef]
    refine (indifferent_look _).thenOnWindows (kept ▸ stays) fun fields later again => ?_
    cases fields.back? with
    | none => exact (indifferent_fail _).onWindows (again ▸ kept ▸ stays)
    | some target =>
      refine (indifferent_pushAll _).thenOnWindows (again ▸ kept ▸ stays)
        fun _ pushed still => ?_
      refine indifferent_isRunning.thenOnWindows (still ▸ again ▸ kept ▸ stays)
        fun runs asked answered => ?_
      have all := answered.trans (still.trans (again.trans kept))
      cases runs with
      | false => exact (indifferent_pure ()).onWindows (all ▸ stays)
      | true => exact called all
  · rw [if_neg isRef]
    exact called kept

theorem windows_force (stays : holds session.executor.windows)
    (opens : ∀ frame, session.executor.windows.SavedIn frame →
      holds (session.executor.windows.opened frame)) :
    holds (ending (force session)).executor.windows := by
  refine indifferent_peek.thenOnWindows stays fun word middle kept => ?_
  refine (indifferent_look _).thenOnWindows (kept ▸ stays) fun delayed later again => ?_
  rw [← again.trans kept] at stays opens
  cases delayed with
  | forced value =>
    exact (indifferent_pop.bind fun _ => indifferent_push value).onWindows stays
  | pending target arguments =>
    exact windows_enter ((indifferent_pushAll arguments).bind fun _ => indifferent_jump target)
      stays opens

theorem windows_storeConst {slot : UInt8} (stays : holds session.executor.windows)
    (stores : ∀ word consts, session.executor.consts.store slot word = .ok consts →
      holds { session.executor.windows with consts }) :
    holds (ending (storeConst slot session)).executor.windows := by
  refine indifferent_pop.thenOnWindows stays fun word middle kept => ?_
  obtain ⟨executor, shared⟩ := middle
  obtain ⟨consts, calls⟩ := Windows.mk.inj kept
  dsimp only at consts calls ⊢
  rw [consts]
  cases stored : session.executor.consts.store slot word with
  | ok after =>
    change holds ⟨after, executor.calls⟩
    rw [calls]
    exact stores word after stored
  | error fault =>
    rw [← kept] at stays
    exact stays

theorem windows_finish (session : Session) :
    (ending (finish session)).executor.windows = session.executor.windows := by
  have ends : ∀ session : Session, (ending ((do
      let session ← get
      let left := session.executor.eval.size
      if left ≠ 0 then throw (.valuesLeft left)
      modifyExecutor fun executor => { executor with state := .success } : Exec Unit) session)
        ).executor.windows = session.executor.windows := by
    intro session
    rw [get_bind]
    by_cases left : session.executor.eval.size ≠ 0
    · rw [if_pos left]
      rfl
    · rw [if_neg left]
      rfl
  unfold finish
  rw [get_bind]
  by_cases promised : session.executor.promise.isSome = true
  · rw [if_pos promised]
    refine @Indifferent.thenOnWindows _ _ session (· = session.executor.windows) _ _
      indifferent_pop rfl fun result middle kept => ?_
    exact (ends _).trans kept
  · rw [if_neg promised]
    exact ends session

/-- A return goes back to the window of the caller; that of the outermost call is dropped. -/
theorem windows_ret (leaves : ∀ frame, session.executor.calls.frames.back? = some frame →
      holds (session.executor.windows.left frame))
    (drops : session.executor.calls.frames = #[] → holds session.executor.windows.dropped) :
    holds (ending (ret session)).executor.windows := by
  cases last : session.executor.calls.frames.back? with
  | none =>
    obtain empty : session.executor.calls.frames = #[] := by simpa using last
    have unchanged : (⟨session.executor.calls.limit, session.executor.calls.frames.pop⟩ :
        CallStack) = session.executor.calls := by
      rw [empty, Array.pop_empty, ← empty]
    rw [ret_none last, windows_finish, unchanged]
    exact drops empty
  | some frame =>
    rw [ret_some last, (indifferent_deliver frame.lazy).windows]
    exact leaves frame last

theorem shifts_perform {op : Opcode} {size : Nat} (found : session.instruction? = some (op, size)) :
    session.Shifts (ending (perform session.shared.assembly op (session.executor.ip.toNat + 1)
      (session.fetched op (session.executor.ip + UInt32.ofNat size)))).executor.windows := by
  have stays : session.Shifts
      (session.fetched op (session.executor.ip + UInt32.ofNat size)).executor.windows := .stay
  cases op with
  | reserveConsts =>
    change session.Shifts (Executor.windows (if session.executor.consts.base +
      (session.operand 0).toNat ≤ session.executor.consts.capacity then _ else _))
    by_cases fits : session.executor.consts.base + (session.operand 0).toNat ≤
        session.executor.consts.capacity
    · rw [if_pos fits]
      exact .reserve found fits
    · rw [if_neg fits, Executor.fail_eq]
      exact .stay
  | storeConst => exact windows_storeConst stays fun word consts stored => .store found stored
  | loadConst =>
    simp only [perform, loadConst]
    rw [get_bind]
    generalize ConstStack.load _ _ = loaded
    cases loaded with
    | ok word => exact (indifferent_push word).onWindows stays
    | error fault => exact stays
  | call =>
    exact windows_call stays
      (fun normal frame => .enter (Or.inl ⟨size, Or.inl ⟨found, normal⟩⟩))
      fun tail => .tail ⟨size, Or.inl ⟨found, tail⟩⟩
  | callDynamic =>
    exact windows_callDynamic stays
      (fun normal frame => .enter (Or.inl ⟨size, Or.inr ⟨found, normal⟩⟩))
      fun tail => .tail ⟨size, Or.inr ⟨found, tail⟩⟩
  | ret => exact windows_ret (fun frame last => .leave found last) fun empty => .finish found empty
  | force => exact windows_force stays fun frame => .enter (Or.inr ⟨size, found⟩)
  | _ => exact (indifferent_perform rfl _ _).onWindows stays

theorem shifts_issue (session : Session) :
    session.Shifts (ending (issue session)).executor.windows := by
  cases found : session.instruction? with
  | none =>
    rw [issue_none session found]
    exact .stay
  | some instruction =>
    obtain ⟨op, size⟩ := instruction
    rw [issue_some session found]
    exact shifts_perform found

end Exec

/-! ## What it leaves alone -/

namespace ConstStack

theorem getElem?_grow (slots : Array Word) (count place : Nat) :
    (grow slots count)[place]? =
      if place < slots.size then slots[place]?
      else if place < slots.size + count then some 0 else none := by
  induction count generalizing slots with
  | zero =>
    unfold grow
    grind
  | succ count ih =>
    unfold grow
    rw [ih]
    grind

theorem getElem?_shrink {slots : Array Word} {size place : Nat} (below : place < size) :
    (slots.shrink size)[place]? = slots[place]? := by
  rw [Array.shrink_eq_take]
  grind

theorem top_leave_le (stack : ConstStack) (base top : Nat) : (stack.leave base top).top ≤ top := by
  change (stack.slots.shrink top).size ≤ top
  rw [Array.size_shrink]
  exact Nat.min_le_left _ _

theorem reserve_clear {stack : ConstStack} (window : stack.base ≤ stack.top) {count place : Nat}
    (above : stack.base ≤ place) (inside : place < (stack.reserve count).top) :
    (stack.reserve count).slots[place]? = some 0 := by
  rw [top_reserve window] at inside
  have size : (stack.slots.shrink stack.base).size = stack.base := by
    rw [Array.size_shrink]
    exact Nat.min_eq_left window
  change (grow _ _)[place]? = _
  rw [getElem?_grow, size, if_neg (Nat.not_lt.2 above), if_pos inside]

theorem store_eq_ok {stack after : ConstStack} {slot : UInt8} {word : Word}
    (stored : stack.store slot word = .ok after) :
    stack.base + slot.toNat < stack.top ∧
      after = { stack with
        slots := stack.slots.setIfInBounds (stack.base + slot.toNat) word } := by
  unfold store at stored
  dsimp only at stored
  split at stored
  · next inside =>
    cases stored
    exact ⟨inside, rfl⟩
  · cases stored

end ConstStack

namespace Session.Shifts

variable {session : Session} {after : Windows}

/-- The frame that a return takes off lies right below the window that it drops. -/
theorem top_of_last (ordered : session.executor.windows.Ordered) {frame : Frame}
    (last : session.executor.calls.frames.back? = some frame) :
    frame.top = session.executor.consts.base := by
  obtain ⟨rest, pushed⟩ := Array.back?_eq_some_iff.1 last
  have stacked := ordered.stacked
  change Frame.Stacked _ session.executor.calls.frames.toList.reverse at stacked
  rw [pushed, Array.toList_push, List.reverse_append] at stacked
  exact stacked.1

theorem below (shifts : session.Shifts after) (ordered : session.executor.windows.Ordered)
    {place : Nat} (under : place < session.executor.consts.base) :
    after.consts.slots[place]? = session.executor.consts.slots[place]? := by
  have inside : place < session.executor.consts.slots.size := under.trans_le ordered.window
  cases shifts with
  | stay => rfl
  | reserve =>
    change (ConstStack.grow _ _)[place]? = _
    rw [ConstStack.getElem?_grow, Array.size_shrink, if_pos (by omega),
      ConstStack.getElem?_shrink under]
  | store _ stored =>
    obtain ⟨_, rfl⟩ := ConstStack.store_eq_ok stored
    exact Array.getElem?_setIfInBounds_ne (by omega)
  | tail | finish => exact ConstStack.getElem?_shrink under
  | enter => rfl
  | @leave size frame _ last =>
    have top := top_of_last ordered last
    change ((session.executor.consts.slots.shrink session.executor.consts.base).shrink
      frame.top)[place]? = _
    rw [ConstStack.getElem?_shrink (by omega), ConstStack.getElem?_shrink under]

theorem frame (shifts : session.Shifts after) {depth : Nat}
    (before : depth < session.executor.calls.frames.size) (now : depth < after.calls.frames.size) :
    after.calls.frames[depth]? = session.executor.calls.frames[depth]? := by
  cases shifts with
  | stay | reserve | store | tail | finish => rfl
  | enter =>
    change (session.executor.calls.frames.push _)[depth]? = _
    rw [Array.getElem?_push, if_neg (Nat.ne_of_lt before)]
  | leave =>
    change depth < session.executor.calls.frames.pop.size at now
    change session.executor.calls.frames.pop[depth]? = _
    rw [Array.getElem?_pop, if_pos (by simpa using now)]

theorem limits (shifts : session.Shifts after) :
    after.consts.capacity = session.executor.consts.capacity ∧
      after.calls.limit = session.executor.calls.limit := by
  cases shifts with
  | store _ stored =>
    obtain ⟨_, rfl⟩ := ConstStack.store_eq_ok stored
    exact ⟨rfl, rfl⟩
  | _ => exact ⟨rfl, rfl⟩

theorem opens (shifts : session.Shifts after)
    (more : session.executor.calls.frames.size < after.calls.frames.size) :
    (session.IssuesCall .normal ∨ ∃ size, session.instruction? = some (.force, size)) ∧
      ∃ frame, session.executor.windows.SavedIn frame ∧
        after = session.executor.windows.opened frame := by
  cases shifts with
  | stay | reserve | store | tail | finish => exact absurd more (Nat.lt_irrefl _)
  | enter calls saved => exact ⟨calls, _, saved, rfl⟩
  | leave =>
    change _ < session.executor.calls.frames.pop.size at more
    rw [Array.size_pop] at more
    omega

theorem leaves (shifts : session.Shifts after)
    (fewer : after.calls.frames.size < session.executor.calls.frames.size) :
    ∃ size frame, session.instruction? = some (.ret, size) ∧
      session.executor.calls.frames.back? = some frame ∧
        after = session.executor.windows.left frame := by
  cases shifts with
  | stay | reserve | store | tail | finish => exact absurd fewer (Nat.lt_irrefl _)
  | enter =>
    change (session.executor.calls.frames.push _).size < _ at fewer
    rw [Array.size_push] at fewer
    omega
  | leave found last => exact ⟨_, _, found, last, rfl⟩

end Session.Shifts

/-! ## A call above its caller -/

/-- The windows of calls above those of their caller, whose last frame is that of the first of these
calls. The caller's constants and frames are all there. -/
structure Windows.Above (caller windows : Windows) : Prop where
  frame : ∃ frame, caller.SavedIn frame ∧
    windows.calls.frames[caller.calls.frames.size]? = some frame
  frames : ∀ depth, depth < caller.calls.frames.size →
    windows.calls.frames[depth]? = caller.calls.frames[depth]?
  slots : ∀ place, place < caller.consts.top →
    windows.consts.slots[place]? = caller.consts.slots[place]?
  capacity : windows.consts.capacity = caller.consts.capacity
  limit : windows.calls.limit = caller.calls.limit

namespace Windows.Above

variable {caller after : Windows} {session : Session}

theorem deeper {windows : Windows} (above : caller.Above windows) :
    caller.calls.frames.size < windows.calls.frames.size := by
  obtain ⟨_, _, found⟩ := above.frame
  exact (Array.getElem?_eq_some_iff.1 found).1

theorem of_opened {frame : Frame} (saved : caller.SavedIn frame) :
    caller.Above (caller.opened frame) where
  frame := ⟨frame, saved, Array.getElem?_push_size⟩
  frames depth below := by
    change (caller.calls.frames.push frame)[depth]? = _
    rw [Array.getElem?_push, if_neg (Nat.ne_of_lt below)]
  slots _ _ := rfl
  capacity := rfl
  limit := rfl

/-- The caller's window ends where those above it begin. -/
theorem lower (above : caller.Above session.executor.windows)
    (ordered : session.executor.windows.Ordered) :
    caller.consts.top ≤ session.executor.consts.base := by
  obtain ⟨frame, ⟨_, top⟩, found⟩ := above.frame
  rw [← top]
  exact (ordered.frame found).2

/-- An instruction of a callee leaves the caller alone. -/
theorem shift (above : caller.Above session.executor.windows)
    (ordered : session.executor.windows.Ordered) (shifts : session.Shifts after)
    (inside : caller.calls.frames.size < after.calls.frames.size) : caller.Above after where
  frame := by
    obtain ⟨frame, saved, found⟩ := above.frame
    exact ⟨frame, saved, (shifts.frame above.deeper inside).trans found⟩
  frames depth below :=
    (shifts.frame (below.trans above.deeper) (below.trans inside)).trans (above.frames depth below)
  slots place below :=
    (shifts.below ordered (below.trans_le (above.lower ordered))).trans
      (above.slots place below)
  capacity := shifts.limits.1.trans above.capacity
  limit := shifts.limits.2.trans above.limit

theorem returns (above : caller.Above session.executor.windows)
    (ordered : session.executor.windows.Ordered) (shifts : session.Shifts after)
    (back : after.calls.frames.size ≤ caller.calls.frames.size) :
    (∃ size, session.instruction? = some (.ret, size)) ∧ after = caller := by
  obtain ⟨size, frame, found, last, rfl⟩ := shifts.leaves (back.trans_lt above.deeper)
  refine ⟨⟨size, found⟩, ?_⟩
  have deeper := above.deeper
  change session.executor.calls.frames.pop.size ≤ _ at back
  change _ < session.executor.calls.frames.size at deeper
  rw [Array.size_pop] at back
  have size : session.executor.calls.frames.size = caller.calls.frames.size + 1 := by omega
  have top : frame.top = session.executor.consts.base := Session.Shifts.top_of_last ordered last
  obtain ⟨saved, ⟨base, under⟩, first⟩ := above.frame
  obtain rfl : frame = saved := by
    rw [Array.back?_eq_getElem?, size, Nat.add_sub_cancel] at last
    exact Option.some.inj (last.symm.trans first)
  have slots : ((session.executor.consts.slots.shrink session.executor.consts.base).shrink
      frame.top) = caller.consts.slots := by
    apply Array.ext_getElem?
    intro place
    by_cases below : place < caller.consts.top
    · rw [ConstStack.getElem?_shrink (by omega), ConstStack.getElem?_shrink (by omega)]
      exact above.slots place below
    · rw [Array.getElem?_eq_none (by rw [Array.size_shrink]; omega),
        Array.getElem?_eq_none (Nat.le_of_not_lt below)]
  have frames : session.executor.calls.frames.pop = caller.calls.frames := by
    apply Array.ext_getElem?
    intro depth
    rw [Array.getElem?_pop, size, Nat.add_sub_cancel]
    by_cases below : depth < caller.calls.frames.size
    · rw [if_pos below]
      exact above.frames depth below
    · rw [if_neg below, Array.getElem?_eq_none (Nat.le_of_not_lt below)]
  have capacity := above.capacity
  have limit := above.limit
  obtain ⟨⟨_, _, _⟩, _, _⟩ := caller
  unfold Windows.left ConstStack.leave ConstStack.release
  dsimp only [Executor.windows] at capacity limit base slots frames ⊢
  rw [slots, frames, capacity, limit, base]

end Windows.Above

/-! ## Reserved slots -/

/-- Whether a slot of the window of the call at a depth, which begins at a given place, holds zero
if it is there. -/
structure Windows.Zero (depth base : Nat) (slot : UInt8) (windows : Windows) : Prop where
  baseAt : windows.baseAt depth = base
  clear : base + slot.toNat < windows.topAt depth →
    windows.consts.slots[base + slot.toNat]? = some 0

/-- Whether the next instruction stores in a slot of the window of the call at a depth. -/
def Session.StoresAt (session : Session) (depth : Nat) (slot : UInt8) : Prop :=
  session.executor.calls.frames.size = depth ∧ session.operand 0 = slot ∧
    ∃ size, session.instruction? = some (.storeConst, size)

namespace Windows

variable {windows after : Windows} {session : Session} {depth base : Nat} {slot : UInt8}

theorem baseAt_size : windows.baseAt windows.calls.frames.size = windows.consts.base := by
  unfold baseAt
  rw [Array.getElem?_eq_none (Nat.le_refl _)]

theorem topAt_size : windows.topAt windows.calls.frames.size = windows.consts.top := by
  unfold topAt
  rw [Array.getElem?_eq_none (Nat.le_refl _)]

theorem baseAt_of_frame {frame : Frame} (found : windows.calls.frames[depth]? = some frame) :
    windows.baseAt depth = frame.base := by
  unfold baseAt
  rw [found]

theorem topAt_of_frame {frame : Frame} (found : windows.calls.frames[depth]? = some frame) :
    windows.topAt depth = frame.top := by
  unfold topAt
  rw [found]

theorem Zero.load (zero : windows.Zero depth base slot)
    (current : windows.calls.frames.size = depth)
    {word : Word} (loaded : windows.consts.load slot = .ok word) : word = 0 := by
  obtain ⟨rfl, clear⟩ := zero
  rw [← current, baseAt_size, topAt_size] at clear
  unfold ConstStack.load at loaded
  dsimp only at loaded
  split at loaded
  · next found =>
    cases loaded
    obtain ⟨inside, _⟩ := Array.getElem?_eq_some_iff.1 found
    exact Option.some.inj (found.symm.trans (clear inside))
  · cases loaded

theorem zero_iff_of_frame {frame : Frame} (found : windows.calls.frames[depth]? = some frame) :
    windows.Zero depth base slot ↔
      frame.base = base ∧
        (base + slot.toNat < frame.top → windows.consts.slots[base + slot.toNat]? = some 0) := by
  constructor
  · rintro ⟨baseAt, clear⟩
    rw [baseAt_of_frame found] at baseAt
    rw [topAt_of_frame found] at clear
    exact ⟨baseAt, clear⟩
  · rintro ⟨baseAt, clear⟩
    refine ⟨(baseAt_of_frame found).trans baseAt, ?_⟩
    rw [topAt_of_frame found]
    exact clear

theorem zero_iff_of_current (current : windows.calls.frames.size = depth) :
    windows.Zero depth base slot ↔
      windows.consts.base = base ∧
        (base + slot.toNat < windows.consts.top →
          windows.consts.slots[base + slot.toNat]? = some 0) := by
  subst current
  constructor
  · rintro ⟨baseAt, clear⟩
    rw [baseAt_size] at baseAt
    rw [topAt_size] at clear
    exact ⟨baseAt, clear⟩
  · rintro ⟨baseAt, clear⟩
    refine ⟨baseAt_size.trans baseAt, ?_⟩
    rw [topAt_size]
    exact clear

theorem Zero.shift_current (zero : session.executor.windows.Zero depth base slot)
    (ordered : session.executor.windows.Ordered) (shifts : session.Shifts after)
    (current : session.executor.calls.frames.size = depth) (now : depth ≤ after.calls.frames.size)
    (spares : ¬ session.StoresAt depth slot) : after.Zero depth base slot := by
  obtain ⟨rfl, clear⟩ := (zero_iff_of_current current).1 zero
  cases shifts with
  | stay => exact zero
  | reserve =>
    exact (zero_iff_of_current current).2
      ⟨rfl, ConstStack.reserve_clear ordered.window (Nat.le_add_right _ _)⟩
  | store found stored =>
    obtain ⟨inside, rfl⟩ := ConstStack.store_eq_ok stored
    refine (zero_iff_of_current current).2 ⟨rfl, fun below => ?_⟩
    have other : session.operand 0 ≠ slot := fun same => spares ⟨current, same, _, found⟩
    have apart : session.executor.consts.base + (session.operand 0).toNat ≠
        session.executor.consts.base + slot.toNat :=
      fun same => other (UInt8.toNat_inj.1 (Nat.add_left_cancel same))
    refine (Array.getElem?_setIfInBounds_ne apart).trans ?_
    refine clear (below.trans_eq ?_)
    exact Array.size_setIfInBounds ..
  | tail | finish =>
    refine (zero_iff_of_current current).2 ⟨rfl, fun below => ?_⟩
    have top := ConstStack.top_release ordered.window
    change _ < session.executor.consts.release.top at below
    change session.executor.consts.release.top = _ at top
    rw [top] at below
    exact absurd below (Nat.not_lt.2 (Nat.le_add_right _ _))
  | @enter frame _ saved =>
    have found : (session.executor.windows.opened frame).calls.frames[depth]? = some frame := by
      change (session.executor.calls.frames.push frame)[depth]? = _
      rw [← current, Array.getElem?_push_size]
    refine (zero_iff_of_frame found).2 ⟨saved.1, ?_⟩
    rw [saved.2]
    exact clear
  | leave _ last =>
    obtain ⟨rest, pushed⟩ := Array.back?_eq_some_iff.1 last
    change depth ≤ session.executor.calls.frames.pop.size at now
    rw [pushed, Array.size_push] at current
    rw [pushed, Array.pop_push] at now
    omega

/-- An instruction of a callee leaves it zero as well, and so does its return. -/
theorem Zero.shift_deeper (zero : session.executor.windows.Zero depth base slot)
    (ordered : session.executor.windows.Ordered) (shifts : session.Shifts after)
    (deeper : depth < session.executor.calls.frames.size) (now : depth ≤ after.calls.frames.size) :
    after.Zero depth base slot := by
  have found : session.executor.windows.calls.frames[depth]? =
      some (session.executor.calls.frames[depth]) := Array.getElem?_eq_getElem deeper
  obtain ⟨rfl, clear⟩ := (zero_iff_of_frame found).1 zero
  have under := (ordered.frame found).2
  have kept : ∀ place, place < (session.executor.calls.frames[depth]).top →
      after.consts.slots[place]? = session.executor.consts.slots[place]? :=
    fun place below => shifts.below ordered (below.trans_le under)
  rcases now.lt_or_eq with inside | returned
  · refine (zero_iff_of_frame ((shifts.frame deeper inside).trans found)).2 ⟨rfl, fun below => ?_⟩
    exact (kept _ below).trans (clear below)
  · obtain ⟨_, frame, _, last, rfl⟩ := shifts.leaves (returned ▸ deeper)
    have size : session.executor.calls.frames.size = depth + 1 := by
      change depth = session.executor.calls.frames.pop.size at returned
      rw [Array.size_pop] at returned
      omega
    obtain rfl : frame = session.executor.calls.frames[depth] := by
      rw [Array.back?_eq_getElem?, size, Nat.add_sub_cancel] at last
      exact Option.some.inj (last.symm.trans found)
    refine (zero_iff_of_current returned.symm).2 ⟨rfl, fun below => ?_⟩
    have inside := below.trans_le (ConstStack.top_leave_le _ _ _)
    exact (kept _ inside).trans (clear inside)

/-- Until something is stored in it, a slot that holds zero goes on holding zero. -/
theorem Zero.shift (zero : session.executor.windows.Zero depth base slot)
    (ordered : session.executor.windows.Ordered) (shifts : session.Shifts after)
    (before : depth ≤ session.executor.calls.frames.size) (now : depth ≤ after.calls.frames.size)
    (spares : ¬ session.StoresAt depth slot) : after.Zero depth base slot := by
  rcases before.lt_or_eq with deeper | current
  · exact zero.shift_deeper ordered shifts deeper now
  · exact zero.shift_current ordered shifts current.symm now spares

end Windows

end WordMachine
