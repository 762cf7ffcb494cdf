import WordMachine.Proofs.Operands

/-!
Sessions that stand at a place in code with known words on their stacks. An instruction is judged by
the stacks it leads from and to, word by word; a collection may come before it and changes neither
the stacks nor the structs that operands refer to.
-/

namespace WordMachine

open Evaluation (Spent exec_bind exec_look exec_pop exists_push_of_reverse withOperands step_eq_ok
  collected_contains)
open Lowering (Code)

/-- The calls in progress and their constants, from the outermost frame. -/
structure Window where
  base : Nat
  constants : List Word
  frames : Array Frame

/-- A reference to a struct with its fields. -/
abbrev Known := List (Word × Array Word)

/-- Whether a session is alone and about to carry out the instruction at a position, with given
operands, listed from the top, and constants. -/
structure Session.Stands (image : Image) (position : Nat) (operands : List Word) (window : Window)
    (session : Session) : Prop where
  assembly : session.shared.assembly = image.assembly
  calm : session.Calm
  wait : session.executor.wait = none
  sound : session.shared.heap.Sound
  room : session.shared.heap.slots.size + 1 < 2 ^ 32
  ip : session.executor.ip.toNat = position
  stacked : session.executor.eval.items.toList.reverse = operands
  base : session.executor.consts.base = window.base
  constants : session.executor.consts.slots.toList = window.constants
  frames : session.executor.calls.frames = window.frames

/-- Whether a session also has structs among its operands. -/
structure Session.Finds (image : Image) (position : Nat) (operands : List Word) (window : Window)
    (known : Known) (session : Session) : Prop
    extends session.Stands image position operands window where
  structs : ∀ entry ∈ known, entry.1 ∈ operands ∧
    session.shared.heap.Contains entry.1 (.struct entry.2)

namespace Session

section

variable {image : Image} {position : Nat} {operands : List Word} {window : Window}
variable {known : Known} {session : Session}
variable {held : Known}

theorem Stands.finds (stands : session.Stands image position operands window) :
    session.Finds image position operands window [] :=
  { stands with structs := fun _ member => nomatch member }

/-! ## Moves -/

/-- What is not seen of the shared state may change, and objects may be added. -/
theorem Finds.withShared {shared : Shared}
    (finds : session.Finds image position operands window known)
    (surface : shared.surface = session.shared.surface) (sound : shared.heap.Sound)
    (room : shared.heap.slots.size + 1 < 2 ^ 32)
    (keeps : ∀ {word fields}, word ∈ operands →
      session.shared.heap.Contains word (.struct fields) →
        shared.heap.Contains word (.struct fields)) :
    Finds image position operands window known { session with shared } where
  assembly := (congrArg Surface.assembly surface).trans finds.assembly
  calm := ⟨finds.calm.running, finds.calm.promise,
    (congrArg Surface.aborting surface).trans finds.calm.aborting,
    (congrArg Surface.spawned surface).trans finds.calm.spawned⟩
  wait := finds.wait
  sound := sound
  room := room
  ip := finds.ip
  stacked := finds.stacked
  base := finds.base
  constants := finds.constants
  frames := finds.frames
  structs := fun entry member =>
    have found := finds.structs entry member
    ⟨found.1, keeps found.1 found.2⟩

theorem Finds.collected (finds : session.Finds image position operands window known) :
    session.collected.Finds image position operands window known ∨ session.collected.RunsOut := by
  by_cases full : 2 ^ 32 ≤ session.collected.shared.heap.slots.size + 1
  · exact Or.inr (Or.inr (Or.inr full))
  left
  have heap : session.collected.shared.heap =
      ({ session.shared.heap with requested := false }.collect session.executor.roots).1 :=
    Shared.collect_heap _ _
  have unasked := finds.sound.pace session.shared.heap.left false
  have collected := (Heap.sweep_mark_collected unasked.wellFormed unasked.accounted
    session.executor.roots).pace
      ({ session.shared.heap with requested := false }.mark
        session.executor.roots).sweep.1.interval
  refine finds.withShared (Shared.surface_collect _ _) ?_ (Nat.lt_of_not_le full) ?_
  · change session.collected.shared.heap.Sound
    rw [heap]
    exact unasked.collect session.executor.roots
  · intro word fields member contains
    have root : word ∈ session.executor.roots := by
      rw [← finds.stacked, List.mem_reverse] at member
      simp [Executor.roots, member]
    change session.collected.shared.heap.Contains word (.struct fields)
    rw [heap]
    exact collected_contains collected (.root root) contains

theorem Finds.issue {instruction : Instruction} (small : image.assembly.code.size < 2 ^ 32)
    (finds : session.Finds image position operands window known)
    (here : instruction.At image position) :
    ∃ fetched, fetched.Finds image (position + instruction.op.size) operands window known ∧
      Exec.issue session =
        Exec.perform image.assembly instruction.op (position + 1) fetched := by
  let moved : Session :=
    { session with
      executor :=
        { session.executor with
          current := session.executor.ip
          ip := session.executor.ip + UInt32.ofNat instruction.op.size } }
  have next : moved.Finds image (position + instruction.op.size) operands window known :=
    { finds with
      calm := ⟨finds.calm.running, finds.calm.promise, finds.calm.aborting, finds.calm.spawned⟩
      ip := here.next_ip small finds.ip }
  have heap := Shared.log_heap session.shared fun _ =>
    Exec.instructionLine session.executor.id session.shared.assembly.code
      session.executor.ip.toNat instruction.op
  refine ⟨_, next.withShared (Shared.surface_log session.shared fun _ =>
    Exec.instructionLine session.executor.id session.shared.assembly.code
      session.executor.ip.toNat instruction.op) ?_ ?_ ?_, here.issue finds.assembly finds.ip⟩
  · rw [heap]
    exact finds.sound
  · rw [heap]
    exact finds.room
  · intro word fields _ contains
    rw [heap]
    exact contains

theorem Finds.leads {instruction : Instruction} {goal : Session → Prop}
    (small : image.assembly.code.size < 2 ^ 32)
    (finds : session.Finds image position operands window known)
    (here : instruction.At image position) (performs : ∀ fetched : Session,
      fetched.Finds image (position + instruction.op.size) operands window known →
        ∃ after, Exec.perform image.assembly instruction.op (position + 1) fetched = .ok () after ∧
          (goal after ∨ Spent after)) (settled : ∀ after, goal after → after.executor.wait = none) :
    session.Leads goal := by
  have moves : ∀ {session : Session}, session.Finds image position operands window known →
      session.shared.heap.requested = false → session.Leads goal := by
    intro session finds unasked
    obtain ⟨fetched, later, issued⟩ := finds.issue small here
    obtain ⟨after, done, reached⟩ := performs fetched later
    have quiet : after.executor.wait = none := reached.elim (settled after) Spent.wait
    have stepped := step_eq_ok (issued.trans done) quiet
    have moved : session.next = after := by simp [Session.next, unasked, stepped]
    refine .next finds.calm ?_
    rw [moved]
    exact reached.elim .here fun spent => .out spent.out
  cases asked : session.shared.heap.requested with
  | false => exact moves finds asked
  | true =>
    have moved : session.next = session.collected := by simp [Session.next, asked]
    refine .next finds.calm ?_
    rw [moved]
    rcases finds.collected with collected | out
    · exact moves collected (Session.collected_requested finds.sound)
    · exact .out out

/-! ## Steps within an instruction -/

theorem Finds.withOperands {next : List Word} {items : Array Word}
    (finds : session.Finds image position operands window known)
    (same : items.toList.reverse = next) (structs : ∀ entry ∈ held, entry.1 ∈ next ∧
      session.shared.heap.Contains entry.1 (.struct entry.2)) :
    Finds image position next window held (withOperands session items) where
  assembly := finds.assembly
  calm := ⟨finds.calm.running, finds.calm.promise, finds.calm.aborting, finds.calm.spawned⟩
  wait := finds.wait
  sound := finds.sound
  room := finds.room
  ip := finds.ip
  stacked := same
  base := finds.base
  constants := finds.constants
  frames := finds.frames
  structs := structs

/-- The top operand is taken off. Structs that are still among the operands stay known. -/
theorem Finds.pop {word : Word} {rest : List Word}
    (finds : session.Finds image position (word :: rest) window known)
    (less : ∀ entry ∈ held, entry ∈ known ∧ entry.1 ∈ rest) :
    ∃ after, Exec.pop session = .ok word after ∧ after.shared = session.shared ∧
      after.Finds image position rest window held := by
  have reversed := finds.stacked
  obtain ⟨below, items, same⟩ := exists_push_of_reverse reversed
  refine ⟨Evaluation.withOperands session below, exec_pop items, rfl,
    finds.withOperands same fun entry member => ?_⟩
  exact ⟨(less entry member).2, (finds.structs entry (less entry member).1).2⟩

/-- The top operand is taken off as an int. -/
theorem Finds.popInt {word : Word} {rest : List Word}
    (finds : session.Finds image position (word :: rest) window known)
    (less : ∀ entry ∈ held, entry ∈ known ∧ entry.1 ∈ rest) :
    ∃ after, Exec.popInt session = .ok word.toInt after ∧
      after.Finds image position rest window held := by
  obtain ⟨after, popped, _, found⟩ := finds.pop less
  exact ⟨after, exec_bind popped, found⟩

theorem Finds.peek {word : Word} {rest : List Word}
    (finds : session.Finds image position (word :: rest) window known) :
    Exec.peek session = .ok word session := by
  have reversed := finds.stacked
  obtain ⟨below, items, _⟩ := exists_push_of_reverse reversed
  have peeked : session.executor.eval.peekBehind 0 = .ok word := by
    unfold EvalStack.peekBehind
    simp [items]
  unfold Exec.peek Exec.peekBehind
  simp only [peeked]

/-- A word is put on top, unless the stack is full. -/
theorem Finds.pushFound (finds : session.Finds image position operands window known) (word : Word)
    (structs : ∀ entry ∈ held, entry.1 ∈ word :: operands ∧
      session.shared.heap.Contains entry.1 (.struct entry.2)) :
    ∃ after, Exec.push word session = .ok () after ∧
      (after.Finds image position (word :: operands) window held ∨
        Spent after) := by
  by_cases space : session.executor.eval.items.size < session.executor.eval.capacity
  · refine ⟨Evaluation.withOperands session (session.executor.eval.items.push word), ?_,
      Or.inl (finds.withOperands ?_ structs)⟩
    · unfold Exec.push Exec.modifyExecutor Executor.push
      simp only [space, if_true]
      rfl
    · rw [Array.toList_push, List.reverse_append, ← finds.stacked]
      rfl
  · refine ⟨{ session with executor := { session.executor with state := .stackOverflow } }, ?_,
      Or.inr ⟨Or.inl rfl, finds.wait⟩⟩
    unfold Exec.push Exec.modifyExecutor Executor.push Executor.fail
    simp only [space, if_false, finds.calm.running]

theorem Finds.push (finds : session.Finds image position operands window known) (word : Word) :
    ∃ after, Exec.push word session = .ok () after ∧
      (after.Finds image position (word :: operands) window known ∨
        Spent after) := by
  refine finds.pushFound word fun entry member => ?_
  obtain ⟨among, contains⟩ := finds.structs entry member
  exact ⟨List.mem_cons_of_mem word among, contains⟩

theorem Finds.jump (finds : session.Finds image position operands window known) (target : UInt32) :
    ∃ after, Exec.jump target session = .ok () after ∧
      after.Finds image target.toNat operands window known :=
  ⟨{ session with executor := { session.executor with ip := target } }, rfl,
    { finds with
      calm := ⟨finds.calm.running, finds.calm.promise, finds.calm.aborting, finds.calm.spawned⟩
      ip := rfl }⟩

/-- The top operands are taken off together. -/
theorem Finds.popTwo {first second : Word} {rest : List Word}
    (finds : session.Finds image position (second :: first :: rest) window known) :
    ∃ after, Exec.popMany 2 session = .ok #[first, second] after ∧
      after.Finds image position rest window [] := by
  have reversed := finds.stacked
  obtain ⟨lower, outer, others⟩ := exists_push_of_reverse reversed
  obtain ⟨below, inner, same⟩ := exists_push_of_reverse others
  have items : session.executor.eval.items = (below.push first).push second := by
    rw [outer, inner]
  have popped : session.executor.eval.popMany 2 =
      .ok (#[first, second], ⟨session.executor.eval.capacity, below⟩) := by
    have both : ((below.push first).push second).extract below.size (below.size + 1 + 1) =
        #[first, second] := by
      apply Array.toList_inj.1
      simp [List.extract_eq_take_drop]
      omega
    unfold EvalStack.popMany
    simp [items, both]
  refine ⟨Evaluation.withOperands session below, ?_, finds.withOperands same nofun⟩
  unfold Exec.popMany Exec.onEval
  simp only [popped]
  rfl

/-- A reference to a new struct is put on top, if there is room for both. -/
theorem Finds.pushStruct (finds : session.Finds image position operands window known)
    (fields : Array Word) :
    ∃ after, Exec.pushNew (.struct fields) session = .ok () after ∧
      ((∃ word, after.Finds image position (word :: operands) window
        ((word, fields) :: known)) ∨ Spent after) := by
  by_cases space : session.shared.heap.hasRoom
      (Heap.headerSize + (Payload.struct fields).size) = true
  · have allocated :=
      Heap.allocate_allocated finds.sound.wellFormed finds.room (.struct fields)
    have sound := finds.sound.allocate (.struct fields) finds.room
    have done : Exec.allocate? (.struct fields) session =
        .ok (some (session.shared.allocate (.struct fields)).1)
          { session with shared := (session.shared.allocate (.struct fields)).2 } := by
      unfold Exec.allocate?
      simp only [space, if_true]
    have heap : (session.shared.allocate (.struct fields)).2.heap =
        (session.shared.heap.allocate (.struct fields)).2 :=
      Shared.log_heap _ _
    have surface : (session.shared.allocate (.struct fields)).2.surface =
        session.shared.surface :=
      Shared.surface_log _ _
    unfold Exec.pushNew
    rw [exec_bind done]
    simp only []
    by_cases full : 2 ^ 32 ≤ (session.shared.heap.allocate (.struct fields)).2.slots.size + 1
    · refine ⟨_, rfl, Or.inr ⟨Or.inr (Or.inr ?_), ?_⟩⟩
      · change 2 ^ 32 ≤ (session.shared.allocate (.struct fields)).2.heap.slots.size + 1
        rw [heap]
        exact full
      · have wait := finds.wait
        change (session.executor.push _).wait = none
        unfold Executor.push Executor.fail
        split
        · exact wait
        · split <;> exact wait
    · have grown := finds.withShared surface (by rw [heap]; exact sound)
        (by rw [heap]; exact Nat.lt_of_not_le full)
        (fun _ contains => by rw [heap]; exact allocated.contains contains)
      have made : (session.shared.allocate (.struct fields)).2.heap.Contains
          (session.shared.allocate (.struct fields)).1 (.struct fields) := by
        rw [heap]
        exact allocated.contains_new
      have structs : ∀ entry ∈ ((session.shared.allocate (.struct fields)).1, fields) :: known,
          entry.1 ∈ (session.shared.allocate (.struct fields)).1 :: operands ∧
            (session.shared.allocate (.struct fields)).2.heap.Contains entry.1
              (.struct entry.2) := by
        intro entry member
        rcases List.mem_cons.1 member with rfl | member
        · exact ⟨List.mem_cons_self, made⟩
        · obtain ⟨among, contains⟩ := grown.structs entry member
          exact ⟨List.mem_cons_of_mem _ among, contains⟩
      obtain ⟨after, pushed, reached⟩ := grown.pushFound _ structs
      exact ⟨after, pushed, reached.imp_left fun final => ⟨_, final⟩⟩
  · have none : Exec.allocate? (.struct fields) session = .ok none session := by
      unfold Exec.allocate?
      simp only [space]
      rfl
    refine ⟨{ session with executor := session.executor.fail .allocFailed }, ?_, Or.inr ?_⟩
    · unfold Exec.pushNew
      rw [exec_bind none]
      rfl
    · unfold Executor.fail
      rw [finds.calm.running]
      exact ⟨Or.inr (Or.inl rfl), finds.wait⟩

/-! ## Instructions -/

variable {word : Word} {rest : List Word}

theorem Finds.dup (small : image.assembly.code.size < 2 ^ 32)
    (finds : session.Finds image position (word :: rest) window known)
    (here : (Instruction.plain .dup).At image position) :
    session.Leads fun after =>
      after.Finds image (position + 1) (word :: word :: rest) window known := by
  refine finds.leads small here (fun fetched finds => ?_) fun _ finds => finds.wait
  change ∃ after, (do Exec.push (← Exec.peek) : Exec Unit) fetched = .ok () after ∧ _
  rw [exec_bind (finds.peek)]
  exact finds.push word

theorem Finds.drop (held : Known) (small : image.assembly.code.size < 2 ^ 32)
    (finds : session.Finds image position (word :: rest) window known)
    (here : (Instruction.plain .pop).At image position)
    (less : ∀ entry ∈ held, entry ∈ known ∧ entry.1 ∈ rest) :
    session.Leads fun after =>
      after.Finds image (position + 1) rest window held := by
  refine finds.leads small here (fun fetched finds => ?_) fun _ finds => finds.wait
  obtain ⟨after, popped, _, found⟩ := finds.pop less
  change ∃ after, (do let _ ← Exec.pop : Exec Unit) fetched = .ok () after ∧ _
  rw [exec_bind popped]
  exact ⟨after, rfl, Or.inl found⟩

theorem Finds.makeNull (small : image.assembly.code.size < 2 ^ 32)
    (finds : session.Finds image position operands window known)
    (here : (Instruction.plain .makeNull).At image position) :
    session.Leads fun after =>
      after.Finds image (position + 1) (.null :: operands) window known :=
  finds.leads small here (fun _ finds => finds.push .null) fun _ finds => finds.wait

theorem Finds.isNull (held : Known) (small : image.assembly.code.size < 2 ^ 32)
    (finds : session.Finds image position (word :: rest) window known)
    (here : (Instruction.plain .isNull).At image position)
    (less : ∀ entry ∈ held, entry ∈ known ∧ entry.1 ∈ rest) :
    session.Leads fun after =>
      after.Finds image (position + 1) (.ofBool word.isNull :: rest) window held := by
  refine finds.leads small here (fun fetched finds => ?_) fun _ finds => finds.wait
  obtain ⟨middle, popped, _, found⟩ := finds.pop less
  change ∃ after, (do Exec.pushBool (← Exec.pop).isNull : Exec Unit) fetched = .ok () after ∧ _
  rw [exec_bind popped]
  exact found.push _

theorem Finds.notInt (held : Known) (small : image.assembly.code.size < 2 ^ 32)
    (finds : session.Finds image position (word :: rest) window known)
    (here : (Instruction.plain .notInt).At image position)
    (less : ∀ entry ∈ held, entry ∈ known ∧ entry.1 ∈ rest) :
    session.Leads fun after =>
      after.Finds image (position + 1)
        (.ofBool (word.toInt == 0) :: rest) window held := by
  refine finds.leads small here (fun fetched finds => ?_) fun _ finds => finds.wait
  obtain ⟨middle, popped, found⟩ := finds.popInt less
  change ∃ after, (do Exec.pushBool ((← Exec.popInt) == 0) : Exec Unit) fetched = .ok () after ∧ _
  rw [exec_bind popped]
  exact found.push _

theorem Finds.loadInt {value : Int32} (small : image.assembly.code.size < 2 ^ 32)
    (finds : session.Finds image position operands window known)
    (here : (Instruction.loadInt value).At image position) :
    session.Leads fun after =>
      after.Finds image (position + 5) (.ofInt value :: operands) window known := by
  refine finds.leads small here (fun fetched finds => ?_) fun _ finds => finds.wait
  have operand : image.assembly.code.u32At (position + 1) = value.toUInt32 := here.operands
  change ∃ after, Exec.push (.ofInt (image.assembly.code.u32At (position + 1)).toInt32) fetched =
    .ok () after ∧ _
  rw [operand]
  exact finds.push _

theorem Finds.eqInt {left right : Word} (held : Known) (small : image.assembly.code.size < 2 ^ 32)
    (finds : session.Finds image position (right :: left :: rest) window known)
    (here : (Instruction.plain .eqInt).At image position)
    (less : ∀ entry ∈ held, entry ∈ known ∧ entry.1 ∈ rest) :
    session.Leads fun after =>
      after.Finds image (position + 1)
        (.ofBool (left.toInt == right.toInt) :: rest) window held := by
  refine finds.leads small here (fun fetched finds => ?_) fun _ finds => finds.wait
  obtain ⟨first, poppedRight, foundFirst⟩ := finds.popInt fun entry member =>
    ⟨(less entry member).1, List.mem_cons_of_mem left (less entry member).2⟩
  obtain ⟨second, poppedLeft, foundSecond⟩ := foundFirst.popInt fun entry member =>
    ⟨member, (less entry member).2⟩
  change ∃ after, (do
    let right ← Exec.popInt
    let left ← Exec.popInt
    Exec.pushBool (left == right) : Exec Unit) fetched = .ok () after ∧ _
  rw [exec_bind poppedRight, exec_bind poppedLeft]
  exact foundSecond.push _

theorem Finds.storeConst {slot : UInt8} (held : Known) (small : image.assembly.code.size < 2 ^ 32)
    (finds : session.Finds image position (word :: rest) window known)
    (here : (Instruction.storeConst slot).At image position)
    (reserved : window.base + slot.toNat < window.constants.length)
    (less : ∀ entry ∈ held, entry ∈ known ∧ entry.1 ∈ rest) :
    session.Leads fun after =>
      after.Finds image (position + 2)
        rest { window with constants := window.constants.set (window.base + slot.toNat) word }
          held := by
  refine finds.leads small here (fun fetched finds => ?_) fun _ finds => finds.wait
  obtain ⟨middle, popped, _, found⟩ := finds.pop less
  have operand : image.assembly.code.byteAt (position + 1) = slot := here.operands
  have bound : middle.executor.consts.base + slot.toNat < middle.executor.consts.slots.size := by
    rw [← Array.length_toList, found.base, found.constants]
    exact reserved
  change ∃ after, Exec.storeConst (image.assembly.code.byteAt (position + 1)) fetched =
    .ok () after ∧ _
  rw [operand]
  unfold Exec.storeConst
  simp only [bind, EStateM.bind, popped, ConstStack.store, bound, if_true]
  refine ⟨_, rfl, Or.inl { found with
    calm := ⟨found.calm.running, found.calm.promise, found.calm.aborting, found.calm.spawned⟩
    constants := ?_ }⟩
  change (middle.executor.consts.slots.setIfInBounds _ word).toList = _
  rw [Array.toList_setIfInBounds, found.base, found.constants]

theorem Finds.loadConst {slot : UInt8} (small : image.assembly.code.size < 2 ^ 32)
    (finds : session.Finds image position operands window known)
    (here : (Instruction.loadConst slot).At image position)
    (stored : window.constants[window.base + slot.toNat]? = some word) :
    session.Leads fun after =>
      after.Finds image (position + 2) (word :: operands) window known := by
  refine finds.leads small here (fun fetched finds => ?_) fun _ finds => finds.wait
  have operand : image.assembly.code.byteAt (position + 1) = slot := here.operands
  have loaded : fetched.executor.consts.load slot = .ok word := by
    have found : fetched.executor.consts.slots[fetched.executor.consts.base + slot.toNat]? =
        some word := by
      rw [← Array.getElem?_toList, finds.base, finds.constants]
      exact stored
    unfold ConstStack.load
    simp only [found]
  have runs : Exec.loadConst slot fetched = Exec.push word fetched := by
    simp only [Exec.loadConst, bind, EStateM.bind, get, getThe, MonadStateOf.get, EStateM.get,
      loaded]
  change ∃ after, Exec.loadConst (image.assembly.code.byteAt (position + 1)) fetched =
    .ok () after ∧ _
  rw [operand, runs]
  exact finds.push word

theorem Finds.loadField {index : UInt8} {fields : Array Word} {field : Word} (held : Known)
    (small : image.assembly.code.size < 2 ^ 32)
    (finds : session.Finds image position (word :: rest) window known)
    (here : (Instruction.loadField index).At image position)
    (struct : (word, fields) ∈ known) (selected : fields[index.toNat]? = some field)
    (less : ∀ entry ∈ held, entry ∈ known ∧ entry.1 ∈ rest) :
    session.Leads fun after =>
      after.Finds image (position + 2) (field :: rest) window held := by
  refine finds.leads small here (fun fetched finds => ?_) fun _ finds => finds.wait
  obtain ⟨middle, popped, shared, found⟩ := finds.pop less
  have operand : image.assembly.code.byteAt (position + 1) = index := here.operands
  have contains := (finds.structs (word, fields) struct).2
  have looked : Exec.look (·.fields word) middle = .ok fields middle := by
    refine exec_look _ ?_
    rw [shared]
    exact Heap.fields_of_contains contains
  change ∃ after, Exec.loadField (image.assembly.code.byteAt (position + 1)) fetched =
    .ok () after ∧ _
  rw [operand]
  unfold Exec.loadField
  rw [exec_bind popped, exec_bind looked]
  simp only [selected]
  exact found.push field

theorem Finds.jumpTo {label : Label} (small : image.assembly.code.size < 2 ^ 32)
    (finds : session.Finds image position operands window known)
    (here : (Instruction.jump label).At image position) (near : image.address label < 2 ^ 32) :
    session.Leads fun after => after.Finds image (image.address label) operands window known := by
  refine finds.leads small here (fun fetched finds => ?_) fun _ finds => finds.wait
  have operand : image.assembly.code.u32At (position + 1) = UInt32.ofNat (image.address label) :=
    here.operands
  obtain ⟨after, jumped, found⟩ := finds.jump (image.assembly.code.u32At (position + 1))
  refine ⟨after, jumped, Or.inl ?_⟩
  rw [operand, UInt32.toNat_ofNat_of_lt' near] at found
  exact found

/-- A conditional jump is taken if the top operand is true. -/
theorem Finds.jumpIf {label : Label} {flag : Bool} (held : Known)
    (small : image.assembly.code.size < 2 ^ 32)
    (finds : session.Finds image position (.ofBool flag :: rest) window known)
    (here : (Instruction.jumpIf label).At image position) (near : image.address label < 2 ^ 32)
    (less : ∀ entry ∈ held, entry ∈ known ∧ entry.1 ∈ rest) :
    session.Leads fun after =>
      after.Finds image (if flag then image.address label else position + 5)
        rest window held := by
  refine finds.leads small here (fun fetched finds => ?_) fun _ finds => finds.wait
  obtain ⟨middle, popped, found⟩ := finds.popInt less
  have operand : image.assembly.code.u32At (position + 1) = UInt32.ofNat (image.address label) :=
    here.operands
  change ∃ after, (do
    if (← Exec.popInt) != 0 then
      Exec.jump (image.assembly.code.u32At (position + 1)) : Exec Unit) fetched = .ok () after ∧ _
  rw [exec_bind popped]
  cases flag with
  | false => exact ⟨middle, rfl, Or.inl found⟩
  | true =>
    obtain ⟨after, jumped, final⟩ := found.jump (image.assembly.code.u32At (position + 1))
    refine ⟨after, jumped, Or.inl ?_⟩
    rw [operand, UInt32.toNat_ofNat_of_lt' near] at final
    exact final

/-- Two operands become the fields of a new struct. -/
theorem Finds.makePair {first second : Word} (small : image.assembly.code.size < 2 ^ 32)
    (finds : session.Finds image position (second :: first :: rest) window known)
    (here : (Instruction.makeStruct 2).At image position) :
    session.Leads fun after => ∃ word,
      after.Finds image (position + 2) (word :: rest) window
        [(word, #[first, second])] := by
  refine finds.leads small here (fun fetched finds => ?_) fun _ ⟨_, finds⟩ => finds.wait
  obtain ⟨middle, popped, found⟩ := finds.popTwo
  have operand : image.assembly.code.byteAt (position + 1) = 2 := here.operands
  change ∃ after, (do
    let fields ← Exec.popMany (image.assembly.code.byteAt (position + 1)).toNat
    Exec.pushNew (.struct fields) : Exec Unit) fetched = .ok () after ∧ _
  rw [operand, show (2 : UInt8).toNat = 2 from rfl, exec_bind popped]
  exact found.pushStruct #[first, second]

end

end Session

end WordMachine
