import WordMachine.Proofs.Standing
import WordMachine.Proofs.StructuralValues

/-!
Runs of code that makes no objects. No collection comes in between, so such a run is followed with
the exact contents of the stacks and the room that is left on each of them.
-/

namespace WordMachine

open Evaluation (exec_bind exec_look step_eq_ok)
open Equality (Preserves)

/-- How much fits on the stacks of an executor. -/
structure Bounds where
  operands : Nat
  constants : Nat
  frames : Nat

/-- The window of a function that is called from another one and has no constants yet. -/
def Window.called (window : Window) (returnTo : UInt32) : Window where
  base := window.constants.length
  constants := window.constants
  frames := window.frames.push { returnTo, base := window.base, top := window.constants.length }

namespace Session

/-! ## Moves -/

/-- Whether nothing keeps a session from its next move. -/
structure Free (session : Session) : Prop where
  running : session.executor.state = .running
  wait : session.executor.wait = none
  aborting : session.shared.aborting = false

/-- A collection leaves the code as it is and stops nobody. -/
theorem collected_keeps (session : Session) :
    session.collected.shared.assembly = session.shared.assembly ∧
      session.collected.shared.aborting = session.shared.aborting := by
  have surface : session.collected.shared.surface = session.shared.surface :=
    Shared.surface_collect _ _
  have view : ∀ {first second : Shared}, first.surface = second.surface →
      first.assembly = second.assembly ∧ first.aborting = second.aborting :=
    fun same => ⟨congrArg Surface.assembly same, congrArg Surface.aborting same⟩
  exact view surface

def Moves : Nat → Session → Session → Prop
  | 0, session, after => session = after
  | count + 1, session, after => session.Free ∧ Moves count session.next after

theorem Moves.trans {first second : Nat} {session middle after : Session}
    (before : Moves first session middle) (rest : Moves second middle after) :
    Moves (first + second) session after := by
  induction first generalizing session with
  | zero =>
    cases before
    rw [Nat.zero_add]
    exact rest
  | succ first ih =>
    rw [Nat.succ_add]
    exact ⟨before.1, ih before.2⟩

/-- Whether a session gets to a goal, or to the end of one of its stacks where these may be too
short. -/
def Comes (cramped : Prop) (session : Session) (goal : Session → Prop) : Prop :=
  ∃ count after, Moves count session after ∧
    (goal after ∨ cramped ∧ after.executor.state = .stackOverflow)

section

variable {cramped : Prop} {session : Session} {goal : Session → Prop}

theorem Comes.here (done : goal session) : session.Comes cramped goal :=
  ⟨0, session, rfl, Or.inl done⟩

theorem Comes.next (free : session.Free) (comes : session.next.Comes cramped goal) :
    session.Comes cramped goal := by
  obtain ⟨count, after, moves, done⟩ := comes
  exact ⟨count + 1, after, ⟨free, moves⟩, done⟩

/-- A part of a run may need less room than the whole. -/
theorem Comes.trans {narrow : Prop} {between : Session → Prop}
    (before : session.Comes narrow between) (wider : narrow → cramped)
    (rest : ∀ middle, between middle → middle.Comes cramped goal) : session.Comes cramped goal := by
  obtain ⟨first, middle, moves, reached | ⟨short, full⟩⟩ := before
  · obtain ⟨second, after, others, done⟩ := rest middle reached
    exact ⟨first + second, after, moves.trans others, done⟩
  · exact ⟨first, middle, moves, Or.inr ⟨wider short, full⟩⟩

theorem Comes.mono {weaker : Session → Prop} (comes : session.Comes cramped goal)
    (weaken : ∀ after, goal after → weaker after) : session.Comes cramped weaker :=
  comes.trans id fun after done => .here (weaken after done)

end

/-! ## Contents of the stacks -/

/-- Whether a session is about to carry out the instruction at a position, with given stacks. The
operands are listed from the top; what stands for something in the original heap still does. -/
structure Poised (image : Image) (bounds : Bounds) (origin : Heap) (position : Nat)
    (operands : List Word) (window : Window) (session : Session) : Prop where
  assembly : session.shared.assembly = image.assembly
  free : session.Free
  unasked : session.shared.heap.requested = false
  kept : Preserves origin session.shared.heap
  ip : session.executor.ip.toNat = position
  eval : session.executor.eval = ⟨bounds.operands, operands.reverse.toArray⟩
  consts : session.executor.consts = ⟨bounds.constants, window.base, window.constants.toArray⟩
  calls : session.executor.calls = ⟨bounds.frames, window.frames⟩

section

variable {image : Image} {bounds : Bounds} {origin : Heap} {position : Nat} {operands : List Word}
variable {window : Window} {session : Session} {cramped : Prop} {goal : Session → Prop}
variable {word : Word} {rest : List Word}
variable {left right : Word} {instruction : Instruction} {count : UInt8} {label : Label}

theorem Poised.withExecutor {next : List Word} {place : Nat} {later : Window} {executor : Executor}
    (poised : session.Poised image bounds origin position operands window)
    (state : executor.state = session.executor.state)
    (wait : executor.wait = session.executor.wait) (ip : executor.ip.toNat = place)
    (eval : executor.eval = ⟨bounds.operands, next.reverse.toArray⟩)
    (consts : executor.consts = ⟨bounds.constants, later.base, later.constants.toArray⟩)
    (calls : executor.calls = ⟨bounds.frames, later.frames⟩) :
    Poised image bounds origin place next later { session with executor } where
  assembly := poised.assembly
  free := ⟨state.trans poised.free.running, wait.trans poised.free.wait, poised.free.aborting⟩
  unasked := poised.unasked
  kept := poised.kept
  ip := ip
  eval := eval
  consts := consts
  calls := calls

theorem Poised.issue (small : image.assembly.code.size < 2 ^ 32)
    (poised : session.Poised image bounds origin position operands window)
    (here : instruction.At image position) :
    ∃ fetched, fetched.Poised image bounds origin (position + instruction.op.size) operands window ∧
      Exec.issue session =
        Exec.perform image.assembly instruction.op (position + 1) fetched := by
  have surface := Shared.surface_log session.shared fun _ =>
    Exec.instructionLine session.executor.id session.shared.assembly.code
      session.executor.ip.toNat instruction.op
  have heap := Shared.log_heap session.shared fun _ =>
    Exec.instructionLine session.executor.id session.shared.assembly.code
      session.executor.ip.toNat instruction.op
  refine ⟨_, ?_, here.issue poised.assembly poised.ip⟩
  exact {
    assembly := (congrArg Surface.assembly surface).trans poised.assembly
    free := ⟨poised.free.running, poised.free.wait,
      (congrArg Surface.aborting surface).trans poised.free.aborting⟩
    unasked := (congrArg Heap.requested heap).trans poised.unasked
    kept := by
      unfold Session.fetched
      rw [heap]
      exact poised.kept
    ip := here.next_ip small poised.ip
    eval := poised.eval
    consts := poised.consts
    calls := poised.calls }

theorem Poised.comes (small : image.assembly.code.size < 2 ^ 32)
    (poised : session.Poised image bounds origin position operands window)
    (here : instruction.At image position) (performs : ∀ fetched : Session,
      fetched.Poised image bounds origin (position + instruction.op.size) operands window →
        ∃ after, Exec.perform image.assembly instruction.op (position + 1) fetched = .ok () after ∧
          after.executor.wait = none ∧
          (goal after ∨ cramped ∧ after.executor.state = .stackOverflow)) :
    session.Comes cramped goal := by
  obtain ⟨fetched, later, issued⟩ := poised.issue small here
  obtain ⟨after, done, settled, reached⟩ := performs fetched later
  have stepped := step_eq_ok (issued.trans done) settled
  have moved : session.next = after := by simp [Session.next, poised.unasked, stepped]
  exact ⟨1, after, ⟨poised.free, moved⟩, reached⟩

theorem Poised.leaves {place : Nat} {next : List Word} {later : Window}
    (small : image.assembly.code.size < 2 ^ 32)
    (poised : session.Poised image bounds origin position operands window)
    (here : instruction.At image position) (performs : ∀ fetched : Session,
      fetched.Poised image bounds origin (position + instruction.op.size) operands window →
        ∃ after, Exec.perform image.assembly instruction.op (position + 1) fetched = .ok () after ∧
          after.Poised image bounds origin place next later) :
    session.Comes cramped fun after => after.Poised image bounds origin place next later := by
  refine poised.comes small here fun fetched poised => ?_
  obtain ⟨after, done, reached⟩ := performs fetched poised
  exact ⟨after, done, reached.free.wait, Or.inl reached⟩

/-! ## Steps within an instruction -/

theorem Poised.pop (poised : session.Poised image bounds origin position (word :: rest) window) :
    ∃ after, Exec.pop session = .ok word after ∧
      after.Poised image bounds origin position rest window := by
  have popped : session.executor.eval.pop =
      .ok (word, ⟨bounds.operands, rest.reverse.toArray⟩) := by
    rw [poised.eval]
    simp [EvalStack.pop]
  refine ⟨{ session with
    executor := { session.executor with eval := ⟨bounds.operands, rest.reverse.toArray⟩ } }, ?_,
    poised.withExecutor rfl rfl poised.ip rfl poised.consts poised.calls⟩
  unfold Exec.pop Exec.onEval
  simp only [popped]

theorem Poised.popInt (poised : session.Poised image bounds origin position (word :: rest) window) :
    ∃ after, Exec.popInt session = .ok word.toInt after ∧
      after.Poised image bounds origin position rest window := by
  obtain ⟨after, popped, found⟩ := poised.pop
  exact ⟨after, exec_bind popped, found⟩

theorem Poised.push (poised : session.Poised image bounds origin position operands window)
    (room : operands.length < bounds.operands) (word : Word) :
    ∃ after, Exec.push word session = .ok () after ∧
      after.Poised image bounds origin position (word :: operands) window := by
  have pushed : session.executor.push word =
      { session.executor with eval := ⟨bounds.operands, (word :: operands).reverse.toArray⟩ } := by
    unfold Executor.push
    rw [poised.eval]
    simp [room]
  refine ⟨{ session with executor := session.executor.push word }, rfl, ?_⟩
  rw [pushed]
  exact poised.withExecutor rfl rfl poised.ip rfl poised.consts poised.calls

theorem Poised.jump (poised : session.Poised image bounds origin position operands window)
    (target : UInt32) :
    ∃ after, Exec.jump target session = .ok () after ∧
      after.Poised image bounds origin target.toNat operands window :=
  ⟨_, rfl, poised.withExecutor rfl rfl rfl poised.eval poised.consts poised.calls⟩

/-- Reading a string may make a link remember its text. -/
theorem Poised.text {content : Bytes}
    (poised : session.Poised image bounds origin position operands window)
    (spells : origin.Spells word content) :
    ∃ after, Exec.text word session = .ok content after ∧
      after.Poised image bounds origin position operands window := by
  have current := poised.kept.text spells
  have looked := exec_look (·.text word) (Heap.text_of_spells current)
  cases current with
  | string contains =>
    obtain ⟨size, found⟩ := contains
    refine ⟨session, ?_, poised⟩
    unfold Exec.text
    rw [exec_bind (exec_look (·.deref word) found)]
    rfl
  | remembered contains =>
    obtain ⟨size, found⟩ := contains
    refine ⟨session, ?_, poised⟩
    unfold Exec.text
    rw [exec_bind (exec_look (·.deref word) found)]
    exact looked
  | @link _ previous byte inner contains others =>
    have whole : session.shared.heap.Spells word (inner.push byte) := .link contains others
    obtain ⟨size, found⟩ := contains
    refine ⟨{ session with shared := { session.shared with
      heap := session.shared.heap.remember word (inner.push byte) } }, ?_, ?_⟩
    · unfold Exec.text
      rw [exec_bind (exec_look (·.deref word) found)]
      simp only []
      rw [exec_bind looked]
      rfl
    · exact { poised with
        free := ⟨poised.free.running, poised.free.wait, poised.free.aborting⟩
        unasked := poised.unasked
        kept := poised.kept.trans (Equality.preserves_remember whole) }

/-! ## Instructions -/

variable (small : image.assembly.code.size < 2 ^ 32)

include small

theorem Poised.loadInt {value : Int32}
    (poised : session.Poised image bounds origin position operands window)
    (here : (Instruction.loadInt value).At image position)
    (room : operands.length < bounds.operands) :
    session.Comes cramped fun after =>
      after.Poised image bounds origin (position + 5) (.ofInt value :: operands) window := by
  refine poised.leaves small here fun fetched poised => ?_
  have operand : image.assembly.code.u32At (position + 1) = value.toUInt32 := here.operands
  change ∃ after, Exec.push (.ofInt (image.assembly.code.u32At (position + 1)).toInt32) fetched =
    .ok () after ∧ _
  rw [operand]
  exact poised.push room _

theorem Poised.isNull (poised : session.Poised image bounds origin position (word :: rest) window)
    (here : (Instruction.plain .isNull).At image position) (room : rest.length < bounds.operands) :
    session.Comes cramped fun after =>
      after.Poised image bounds origin (position + 1) (.ofBool word.isNull :: rest) window := by
  refine poised.leaves small here fun fetched poised => ?_
  obtain ⟨middle, popped, poised⟩ := poised.pop
  change ∃ after, (do Exec.pushBool (← Exec.pop).isNull : Exec Unit) fetched = .ok () after ∧ _
  rw [exec_bind popped]
  exact poised.push room _

theorem Poised.loadConst {slot : UInt8}
    (poised : session.Poised image bounds origin position operands window)
    (here : (Instruction.loadConst slot).At image position)
    (stored : window.constants[window.base + slot.toNat]? = some word)
    (room : operands.length < bounds.operands) :
    session.Comes cramped fun after =>
      after.Poised image bounds origin (position + 2) (word :: operands) window := by
  refine poised.leaves small here fun fetched poised => ?_
  have operand : image.assembly.code.byteAt (position + 1) = slot := here.operands
  have loaded : fetched.executor.consts.load slot = .ok word := by
    rw [poised.consts]
    simp [ConstStack.load, stored]
  have runs : Exec.loadConst slot fetched = Exec.push word fetched := by
    simp only [Exec.loadConst, bind, EStateM.bind, get, getThe, MonadStateOf.get, EStateM.get,
      loaded]
  change ∃ after, Exec.loadConst (image.assembly.code.byteAt (position + 1)) fetched =
    .ok () after ∧ _
  rw [operand, runs]
  exact poised.push room word

theorem Poised.storeConst {slot : UInt8}
    (poised : session.Poised image bounds origin position (word :: rest) window)
    (here : (Instruction.storeConst slot).At image position)
    (reserved : window.base + slot.toNat < window.constants.length) :
    session.Comes cramped fun after =>
      after.Poised image bounds origin (position + 2) rest
        { window with constants := window.constants.set (window.base + slot.toNat) word } := by
  refine poised.leaves small here fun fetched poised => ?_
  obtain ⟨middle, popped, poised⟩ := poised.pop
  have operand : image.assembly.code.byteAt (position + 1) = slot := here.operands
  have stored : middle.executor.consts.store slot word = .ok ⟨bounds.constants, window.base,
      (window.constants.set (window.base + slot.toNat) word).toArray⟩ := by
    rw [poised.consts]
    simp [ConstStack.store, reserved]
  change ∃ after, Exec.storeConst (image.assembly.code.byteAt (position + 1)) fetched =
    .ok () after ∧ _
  rw [operand]
  unfold Exec.storeConst
  simp only [bind, EStateM.bind, popped, stored]
  exact ⟨_, rfl, poised.withExecutor rfl rfl poised.ip poised.eval rfl poised.calls⟩

theorem Poised.reserve (poised : session.Poised image bounds origin position operands window)
    (here : (Instruction.reserveConsts count).At image position)
    (fresh : window.constants.length = window.base)
    (short : bounds.constants < window.base + count.toNat → cramped) :
    session.Comes cramped fun after => after.Poised image bounds origin (position + 2) operands
      { window with constants := window.constants ++ List.replicate count.toNat 0 } := by
  refine poised.comes small here fun fetched poised => ?_
  have operand : image.assembly.code.byteAt (position + 1) = count := here.operands
  have grown : ∀ (slots : List Word) (count : Nat),
      ConstStack.grow slots.toArray count = (slots ++ List.replicate count 0).toArray := by
    intro slots count
    induction count generalizing slots with
    | zero => simp [ConstStack.grow]
    | succ count ih =>
      rw [ConstStack.grow, List.push_toArray, ih]
      simp [List.replicate_succ]
  change ∃ after, Exec.reserveConsts (image.assembly.code.byteAt (position + 1)).toNat fetched =
    .ok () after ∧ _
  rw [operand]
  unfold Exec.reserveConsts Exec.modifyExecutor
  refine ⟨_, rfl, ?_⟩
  dsimp only
  by_cases space : window.base + count.toNat ≤ bounds.constants
  · have reserves : fetched.executor.consts.reserve count.toNat = ⟨bounds.constants, window.base,
        (window.constants ++ List.replicate count.toNat 0).toArray⟩ := by
      rw [poised.consts]
      unfold ConstStack.reserve
      simp only [ConstStack.mk.injEq, true_and]
      rw [← grown, ← fresh]
      simp
    have enough :
        fetched.executor.consts.base + count.toNat ≤ fetched.executor.consts.capacity := by
      rw [poised.consts]
      exact space
    rw [if_pos enough, reserves]
    exact ⟨poised.free.wait, Or.inl
      (poised.withExecutor rfl rfl poised.ip poised.eval rfl poised.calls)⟩
  · have full : ¬fetched.executor.consts.base + count.toNat ≤
        fetched.executor.consts.capacity := by
      rw [poised.consts]
      exact space
    rw [if_neg full]
    unfold Executor.fail
    simp only [poised.free.running]
    exact ⟨poised.free.wait, Or.inr ⟨short (Nat.lt_of_not_le space), trivial⟩⟩

theorem Poised.loadField {index : UInt8} {fields : Array Word} {field : Word}
    (poised : session.Poised image bounds origin position (word :: rest) window)
    (here : (Instruction.loadField index).At image position)
    (contains : origin.Contains word (.struct fields))
    (selected : fields[index.toNat]? = some field) (room : rest.length < bounds.operands) :
    session.Comes cramped fun after =>
      after.Poised image bounds origin (position + 2) (field :: rest) window := by
  refine poised.leaves small here fun fetched poised => ?_
  obtain ⟨middle, popped, poised⟩ := poised.pop
  have operand : image.assembly.code.byteAt (position + 1) = index := here.operands
  have looked : Exec.look (·.fields word) middle = .ok fields middle :=
    exec_look _ (Heap.fields_of_contains (poised.kept.struct contains))
  change ∃ after, Exec.loadField (image.assembly.code.byteAt (position + 1)) fetched =
    .ok () after ∧ _
  rw [operand]
  unfold Exec.loadField
  rw [exec_bind popped, exec_bind looked]
  simp only [selected]
  exact poised.push room field

/-! ### Comparisons -/

theorem Poised.eqInt
    (poised : session.Poised image bounds origin position (right :: left :: rest) window)
    (here : (Instruction.plain .eqInt).At image position) (room : rest.length < bounds.operands) :
    session.Comes cramped fun after => after.Poised image bounds origin (position + 1)
      (.ofBool (left.toInt == right.toInt) :: rest) window := by
  refine poised.leaves small here fun fetched poised => ?_
  obtain ⟨first, poppedRight, poised⟩ := poised.popInt
  obtain ⟨second, poppedLeft, poised⟩ := poised.popInt
  change ∃ after, (do
    let right ← Exec.popInt
    let left ← Exec.popInt
    Exec.pushBool (left == right) : Exec Unit) fetched = .ok () after ∧ _
  rw [exec_bind poppedRight, exec_bind poppedLeft]
  exact poised.push room _

theorem Poised.eqLong {leftValue rightValue : Int64}
    (poised : session.Poised image bounds origin position (right :: left :: rest) window)
    (here : (Instruction.plain .eqLong).At image position) (room : rest.length < bounds.operands)
    (leftStored : Equality.IsLong origin left leftValue)
    (rightStored : Equality.IsLong origin right rightValue) :
    session.Comes cramped fun after => after.Poised image bounds origin (position + 1)
      (.ofBool (leftValue == rightValue) :: rest) window := by
  refine poised.leaves small here fun fetched poised => ?_
  obtain ⟨first, poppedRight, poised⟩ := poised.pop
  have readRight : Exec.long right first = .ok rightValue first :=
    exec_look _ (rightStored.read poised.kept)
  obtain ⟨second, poppedLeft, poised⟩ := poised.pop
  have readLeft : Exec.long left second = .ok leftValue second :=
    exec_look _ (leftStored.read poised.kept)
  change ∃ after, (do
    let right ← (do Exec.long (← Exec.pop))
    let left ← (do Exec.long (← Exec.pop))
    Exec.pushBool (left == right) : Exec Unit) fetched = .ok () after ∧ _
  rw [exec_bind ((exec_bind poppedRight).trans readRight),
    exec_bind ((exec_bind poppedLeft).trans readLeft)]
  exact poised.push room _

theorem Poised.eqFloat
    (poised : session.Poised image bounds origin position (right :: left :: rest) window)
    (here : (Instruction.plain .eqFloat).At image position) (room : rest.length < bounds.operands) :
    session.Comes cramped fun after => after.Poised image bounds origin (position + 1)
      (.ofBool (Number.Single.eq left.bits32 right.bits32) :: rest) window := by
  refine poised.leaves small here fun fetched poised => ?_
  obtain ⟨first, poppedRight, poised⟩ := poised.pop
  obtain ⟨second, poppedLeft, poised⟩ := poised.pop
  change ∃ after, (do
    let right ← (do return (← Exec.pop).bits32)
    let left ← (do return (← Exec.pop).bits32)
    Exec.pushBool (Number.Single.eq left right) : Exec Unit) fetched = .ok () after ∧ _
  have readRight : (do return (← Exec.pop).bits32 : Exec UInt32) fetched = .ok right.bits32 first :=
    exec_bind poppedRight
  have readLeft : (do return (← Exec.pop).bits32 : Exec UInt32) first = .ok left.bits32 second :=
    exec_bind poppedLeft
  rw [exec_bind readRight, exec_bind readLeft]
  exact poised.push room _

theorem Poised.eqString {leftText rightText : Bytes}
    (poised : session.Poised image bounds origin position (right :: left :: rest) window)
    (here : (Instruction.plain .eqString).At image position) (room : rest.length < bounds.operands)
    (leftSpells : origin.Spells left leftText) (rightSpells : origin.Spells right rightText) :
    session.Comes cramped fun after => after.Poised image bounds origin (position + 1)
      (.ofBool (leftText == rightText) :: rest) window := by
  refine poised.leaves small here fun fetched poised => ?_
  obtain ⟨first, poppedRight, poised⟩ := poised.pop
  obtain ⟨second, readRight, poised⟩ := poised.text rightSpells
  obtain ⟨third, poppedLeft, poised⟩ := poised.pop
  obtain ⟨fourth, readLeft, poised⟩ := poised.text leftSpells
  change ∃ after, (do
    let right ← (do Exec.text (← Exec.pop))
    let left ← (do Exec.text (← Exec.pop))
    Exec.pushBool (left == right) : Exec Unit) fetched = .ok () after ∧ _
  rw [exec_bind ((exec_bind poppedRight).trans readRight),
    exec_bind ((exec_bind poppedLeft).trans readLeft)]
  exact poised.push room _

/-! ### Jumps and calls -/

theorem Poised.jumpIf {flag : Bool}
    (poised : session.Poised image bounds origin position (.ofBool flag :: rest) window)
    (here : (Instruction.jumpIf label).At image position) (near : image.address label < 2 ^ 32) :
    session.Comes cramped fun after => after.Poised image bounds origin
      (if flag then image.address label else position + 5) rest window := by
  refine poised.leaves small here fun fetched poised => ?_
  obtain ⟨middle, popped, found⟩ := poised.popInt
  have operand : image.assembly.code.u32At (position + 1) = UInt32.ofNat (image.address label) :=
    here.operands
  change ∃ after, (do
    if (← Exec.popInt) != 0 then
      Exec.jump (image.assembly.code.u32At (position + 1)) : Exec Unit) fetched = .ok () after ∧ _
  rw [exec_bind popped]
  cases flag with
  | false => exact ⟨middle, rfl, found⟩
  | true =>
    obtain ⟨after, jumped, final⟩ := found.jump (image.assembly.code.u32At (position + 1))
    refine ⟨after, jumped, ?_⟩
    rw [operand, UInt32.toNat_ofNat_of_lt' near] at final
    exact final

theorem Poised.call (poised : session.Poised image bounds origin position operands window)
    (here : (Instruction.call label count CallMode.normal.code).At image position)
    (near : image.address label < 2 ^ 32) (short : bounds.frames ≤ window.frames.size → cramped) :
    session.Comes cramped fun after => after.Poised image bounds origin (image.address label)
      operands (window.called (UInt32.ofNat (position + 7))) := by
  refine poised.comes small here fun fetched poised => ?_
  obtain ⟨target, _, mode⟩ := here.operands
  have returns : fetched.executor.ip = UInt32.ofNat (position + 7) := by
    rw [← UInt32.ofNat_toNat (x := fetched.executor.ip), poised.ip]
    rfl
  change ∃ after, Exec.call (image.assembly.code.u32At (position + 1))
    (image.assembly.code.byteAt (position + 1 + 4)).toNat
    (image.assembly.code.byteAt (position + 1 + 5)) fetched = .ok () after ∧ _
  rw [target, mode]
  change ∃ after, (do if ← Exec.enter false then Exec.jump _ : Exec Unit) fetched = .ok () after ∧ _
  by_cases space : fetched.executor.calls.frames.size < fetched.executor.calls.limit
  · have entered : Exec.enter false fetched = .ok true { fetched with executor :=
        { fetched.executor with
          calls := ⟨bounds.frames, (window.called (UInt32.ofNat (position + 7))).frames⟩
          consts := ⟨bounds.constants, window.constants.length, window.constants.toArray⟩ } } := by
      unfold Exec.enter
      simp only [space, if_true, returns]
      rw [poised.calls, poised.consts]
      rfl
    rw [exec_bind entered]
    refine ⟨_, rfl, poised.free.wait, Or.inl ?_⟩
    refine poised.withExecutor rfl rfl ?_ poised.eval rfl rfl
    exact UInt32.toNat_ofNat_of_lt' near
  · have refused : Exec.enter false fetched = .ok false { fetched with executor :=
        { fetched.executor with state := .stackOverflow } } := by
      unfold Exec.enter Executor.fail
      simp only [space, if_false, poised.free.running]
    rw [exec_bind refused]
    refine ⟨_, rfl, poised.free.wait, Or.inr ⟨short ?_, rfl⟩⟩
    rw [poised.calls] at space
    exact Nat.le_of_not_lt space

/-- A tail call gives up the constants of the frame it is made in. -/
theorem Poised.tailCall (poised : session.Poised image bounds origin position operands window)
    (here : (Instruction.call label count CallMode.tail.code).At image position)
    (near : image.address label < 2 ^ 32) :
    session.Comes cramped fun after => after.Poised image bounds origin (image.address label)
      operands { window with constants := window.constants.take window.base } := by
  refine poised.leaves small here fun fetched poised => ?_
  obtain ⟨target, _, mode⟩ := here.operands
  have released : fetched.executor.consts.release =
      ⟨bounds.constants, window.base, (window.constants.take window.base).toArray⟩ := by
    rw [poised.consts]
    unfold ConstStack.release
    simp
  change ∃ after, Exec.call (image.assembly.code.u32At (position + 1))
    (image.assembly.code.byteAt (position + 1 + 4)).toNat
    (image.assembly.code.byteAt (position + 1 + 5)) fetched = .ok () after ∧ _
  rw [target, mode]
  refine ⟨_, rfl, poised.withExecutor rfl rfl ?_ poised.eval released poised.calls⟩
  exact UInt32.toNat_ofNat_of_lt' near

theorem Poised.ret {constants : List Word} {returnTo : UInt32}
    (poised : session.Poised image bounds origin position operands
      { window.called returnTo with constants := window.constants ++ constants })
    (here : (Instruction.plain .ret).At image position) :
    session.Comes cramped fun after =>
      after.Poised image bounds origin returnTo.toNat operands window := by
  refine poised.leaves small here fun fetched poised => ?_
  have released : fetched.executor.consts.release =
      ⟨bounds.constants, window.constants.length, window.constants.toArray⟩ := by
    rw [poised.consts]
    unfold ConstStack.release
    simp [Window.called]
  have left : (ConstStack.mk bounds.constants window.constants.length
      window.constants.toArray).leave window.base window.constants.length =
        ⟨bounds.constants, window.base, window.constants.toArray⟩ := by
    unfold ConstStack.leave
    simp
  have popped : fetched.executor.calls.frames.pop = window.frames := by
    rw [poised.calls]
    simp [Window.called]
  have last : fetched.executor.calls.frames.back? =
      some { returnTo, base := window.base, top := window.constants.length } := by
    rw [poised.calls]
    simp [Window.called]
  have limit : fetched.executor.calls.limit = bounds.frames := by
    rw [poised.calls]
  change ∃ after, Exec.ret fetched = .ok () after ∧ _
  unfold Exec.ret
  simp only [bind, EStateM.bind, last, popped, released, limit, Exec.modifyExecutor, left,
    Bool.false_eq_true, if_false]
  exact ⟨_, rfl, poised.withExecutor rfl rfl rfl poised.eval rfl rfl⟩

end

end Session

end WordMachine
