import WordMachine.Proofs.OperatorCode

/-!
What single instructions do to what a function holds: literals and constants are loaded, structs
made and read, jumps taken. Every move may be preceded by a collection and ends short if the machine
runs out.
-/

namespace WordMachine.Evaluation

open Lowering (Code emit plain)

/-! ## Code in place -/

/-- A piece of code that stands at a position and ends inside the code of its image. -/
structure Placed (image : Image) (position : Nat) (code : Code) : Prop where
  laid : Code.Laid image position code
  inside : position + Code.size code ≤ image.assembly.code.size

section

variable {image : Image} {position : Nat} {left right : Code}

theorem Placed.first (placed : Placed image position (left ++ right)) :
    Placed image position left where
  laid := ((Code.laid_append position left right).1 placed.laid).1
  inside := by
    have inside := placed.inside
    rw [Code.size_append] at inside
    omega

theorem Placed.second (placed : Placed image position (left ++ right)) :
    Placed image (position + Code.size left) right where
  laid := ((Code.laid_append position left right).1 placed.laid).2
  inside := by
    have inside := placed.inside
    rw [Code.size_append] at inside
    omega

theorem Placed.single {instruction : Instruction}
    (placed : Placed image position (emit instruction)) :
    instruction.At image position :=
  placed.laid.1

end

/-! ## Levels -/

/-- Where a function runs: the constants of its callers, and the calls in progress. -/
structure Level where
  outer : List (Option Typed)
  calls : Array Frame

/-- A configuration of a function with a window of constants. -/
def Level.config (level : Level) (window : List (Option Typed)) (operands : List Typed)
    (effects : Effects) : Config where
  operands := operands
  constants := level.outer ++ window
  base := level.outer.length
  calls := level.calls
  effects := effects

/-! ## Values that share their words -/

/-- Whether a word that stands for one value also stands for another one. -/
def Covers (compilation : Compilation) (item other : Typed) : Prop :=
  ∀ {lazies : Lazies} {heap : Heap} {word : Word},
    Represents compilation lazies heap item.1 item.2 word →
      Represents compilation lazies heap other.1 other.2 word

theorem covers_refl {compilation : Compilation} (item : Typed) :
    ∀ other, some item = some other → Covers compilation item other := by
  rintro _ ⟨⟩ _ _ _ represents
  exact represents

theorem forall₂_getElem? {α β : Type} {related : α → β → Prop} {left : List α} {right : List β}
    (holds : List.Forall₂ related left right) {position : Nat} {item : α}
    (known : left[position]? = some item) :
    ∃ other, right[position]? = some other ∧ related item other := by
  induction holds generalizing position with
  | nil => cases known
  | cons first _ ih =>
    cases position with
    | zero =>
      cases known
      exact ⟨_, rfl, first⟩
    | succ position => exact ih known

theorem forall₂_set {α β : Type} {related : α → β → Prop} {left : List α} {right : List β}
    (holds : List.Forall₂ related left right) (position : Nat) {item : α} {other : β}
    (fits : related item other) :
    List.Forall₂ related (left.set position item) (right.set position other) := by
  induction holds generalizing position with
  | nil => exact .nil
  | cons first rest ih =>
    cases position with
    | zero => exact .cons fits rest
    | succ position => exact .cons first (ih position)

section

variable {compilation : Compilation} {lazies : Lazies} {position : Nat} {config : Config}
variable {session : Session} {operands rest : List Typed} {item : Typed} {level : Level}
variable {window : List (Option Typed)} {effects : Effects}
variable {type : TypeId} {label : Label}

theorem Depicts.represented
    (depicts : Depicts compilation position (level.config window operands effects) session)
    (member : item ∈ operands) :
    ∃ lazies word, Represents compilation lazies session.shared.heap item.1 item.2 word := by
  obtain ⟨lazies, shows⟩ := depicts
  obtain ⟨word, represents⟩ := shows.represented member
  exact ⟨lazies, word, represents⟩

/-- The top operand may be taken for another value that its word stands for. -/
theorem Depicts.retype {other : Typed}
    (depicts : Depicts compilation position (level.config window (item :: rest) effects) session)
    (covers : Covers compilation item other) :
    Depicts compilation position (level.config window (other :: rest) effects) session := by
  obtain ⟨lazies, shows⟩ := depicts
  obtain ⟨word, words, represents, others, same⟩ := List.forall₂_cons_left_iff.1 shows.operands
  refine ⟨lazies, { shows with operands := ?_ }⟩
  rw [same]
  exact .cons (covers represents) others

/-! ## Moves -/

theorem Depicts.moves {instruction : Instruction} {place : Nat} {next : Config}
    (depicts : Depicts compilation position config session)
    (here : instruction.At compilation.image position) (performs : ∀ lazies fetched,
      Shows compilation lazies (position + instruction.op.size) config fetched →
        ∃ after, Exec.perform compilation.image.assembly instruction.op (position + 1) fetched =
          .ok () after ∧ (Depicts compilation place next after ∨ Spent after)) :
    Advances session (Depicts compilation place next) :=
  depicts.advances here performs fun _ ⟨_, shows⟩ => shows.wait

/-! ### Literals -/

theorem Depicts.loadInt {value : Int32}
    (depicts : Depicts compilation position (level.config window operands effects) session)
    (here : (Instruction.loadInt value).At compilation.image position)
    (typed : hasScalar compilation.program type .int = true) :
    Advances session (Depicts compilation (position + 5)
      (level.config window ((type, .int value) :: operands) effects)) := by
  refine depicts.moves here fun lazies fetched shows => ?_
  have operand : compilation.image.assembly.code.u32At (position + 1) = value.toUInt32 :=
    here.operands
  change ∃ after,
    Exec.pushInt (compilation.image.assembly.code.u32At (position + 1)).toInt32 fetched =
      .ok () after ∧ _
  rw [operand]
  exact shows.pushScalar .int typed value

theorem Depicts.loadLong {value : Int64}
    (depicts : Depicts compilation position (level.config window operands effects) session)
    (here : (Instruction.loadLong value).At compilation.image position)
    (typed : hasScalar compilation.program type .long = true) :
    Advances session (Depicts compilation (position + 9)
      (level.config window ((type, .long value) :: operands) effects)) := by
  refine depicts.moves here fun lazies fetched shows => ?_
  have operand : compilation.image.assembly.code.u64At (position + 1) = value.toUInt64 :=
    here.operands
  change ∃ after,
    Exec.pushLong (compilation.image.assembly.code.u64At (position + 1)).toInt64 fetched =
      .ok () after ∧ _
  rw [operand]
  exact shows.pushScalar .long typed value

theorem Depicts.loadFloat {bits : Number.Single}
    (depicts : Depicts compilation position (level.config window operands effects) session)
    (here : (Instruction.loadFloat bits).At compilation.image position)
    (typed : hasScalar compilation.program type .float = true) :
    Advances session (Depicts compilation (position + 5)
      (level.config window ((type, .float bits) :: operands) effects)) := by
  refine depicts.moves here fun lazies fetched shows => ?_
  have operand : compilation.image.assembly.code.u32At (position + 1) = bits := here.operands
  change ∃ after, Exec.pushFloat (compilation.image.assembly.code.u32At (position + 1)) fetched =
    .ok () after ∧ _
  rw [operand]
  exact shows.pushScalar .float typed bits

theorem Depicts.loadString {text : Bytes}
    (depicts : Depicts compilation position (level.config window operands effects) session)
    (here : (Instruction.loadString text).At compilation.image position)
    (typed : hasScalar compilation.program type .string = true) :
    Advances session (Depicts compilation (position + 5)
      (level.config window ((type, .string text) :: operands) effects)) := by
  refine depicts.moves here fun lazies fetched shows => ?_
  have operand : compilation.image.assembly.literal?
    (compilation.image.assembly.code.u32At (position + 1)) = some text := here.operands
  change ∃ after, Exec.loadString compilation.image.assembly
    (compilation.image.assembly.code.u32At (position + 1)) fetched = .ok () after ∧ _
  unfold Exec.loadString
  rw [operand]
  exact shows.pushScalar .string typed text

theorem Depicts.loadAddress
    (depicts : Depicts compilation position (level.config window operands effects) session)
    (here : (Instruction.loadAddress label).At compilation.image position) :
    Advances session (Depicts compilation (position + 5)
      (level.config window ((TypeId.int,
        .int (UInt32.ofNat (compilation.image.address label)).toInt32) :: operands) effects)) := by
  refine depicts.moves here fun lazies fetched shows => ?_
  have operand : compilation.image.assembly.code.u32At (position + 1) =
    UInt32.ofNat (compilation.image.address label) := here.operands
  change ∃ after,
    Exec.pushInt (compilation.image.assembly.code.u32At (position + 1)).toInt32 fetched =
      .ok () after ∧ _
  rw [operand]
  exact shows.pushScalar .int (hasScalar_of_kind compilation.tables.int (by simp)) _

theorem Depicts.makeNull
    (depicts : Depicts compilation position (level.config window operands effects) session)
    (item : Typed) (here : (Instruction.plain .makeNull).At compilation.image position)
    (null : ∀ {lazies : Lazies} {heap : Heap},
      Represents compilation lazies heap item.1 item.2 .null) :
    Advances session (Depicts compilation (position + 1)
      (level.config window (item :: operands) effects)) := by
  refine depicts.moves here fun lazies fetched shows => ?_
  obtain ⟨after, pushed, reached⟩ := shows.push item null
  exact ⟨after, pushed, reached.imp_left fun final => ⟨lazies, final⟩⟩

/-! ### Operands and constants -/

theorem Depicts.pop
    (depicts : Depicts compilation position (level.config window (item :: rest) effects) session)
    (here : (Instruction.plain .pop).At compilation.image position) :
    Advances session (Depicts compilation (position + 1) (level.config window rest effects)) := by
  refine depicts.moves here fun lazies fetched shows => ?_
  obtain ⟨word, after, popped, _, _, shown⟩ := shows.pop rfl
  change ∃ after, (do let _ ← Exec.pop : Exec Unit) fetched = .ok () after ∧ _
  exact ⟨after, exec_bind popped, Or.inl ⟨lazies, shown⟩⟩

theorem Depicts.dup
    (depicts : Depicts compilation position (level.config window (item :: rest) effects) session)
    (here : (Instruction.plain .dup).At compilation.image position) :
    Advances session (Depicts compilation (position + 1)
      (level.config window (item :: item :: rest) effects)) := by
  refine depicts.moves here fun lazies fetched shows => ?_
  obtain ⟨word, peeked, represents⟩ := shows.peek rfl
  change ∃ after, (do Exec.push (← Exec.peek) : Exec Unit) fetched = .ok () after ∧ _
  rw [exec_bind peeked]
  obtain ⟨after, pushed, reached⟩ := shows.push item represents
  exact ⟨after, pushed, reached.imp_left fun final => ⟨lazies, final⟩⟩

theorem Depicts.loadConst {slot : UInt8}
    (depicts : Depicts compilation position (level.config window operands effects) session)
    (here : (Instruction.loadConst slot).At compilation.image position)
    (known : window[slot.toNat]? = some (some item)) :
    Advances session (Depicts compilation (position + 2)
      (level.config window (item :: operands) effects)) := by
  refine depicts.moves here fun lazies fetched shows => ?_
  have operand : compilation.image.assembly.code.byteAt (position + 1) = slot := here.operands
  have base : fetched.executor.consts.base = level.outer.length := shows.base
  have inWindow : (level.outer ++ window)[level.outer.length + slot.toNat]? = some (some item) := by
    rw [List.getElem?_append_right (Nat.le_add_right _ _), Nat.add_sub_cancel_left]
    exact known
  obtain ⟨word, stored, represents⟩ := forall₂_getElem? shows.constants inWindow
  rw [Array.getElem?_toList, ← base] at stored
  have loaded : fetched.executor.consts.load slot = .ok word := by
    simp [ConstStack.load, stored]
  have runs : Exec.loadConst slot fetched = Exec.push word fetched := by
    simp only [Exec.loadConst, bind, EStateM.bind, get, getThe, MonadStateOf.get, EStateM.get,
      loaded]
  change ∃ after, Exec.loadConst (compilation.image.assembly.code.byteAt (position + 1)) fetched =
    .ok () after ∧ _
  rw [operand, runs]
  obtain ⟨after, pushed, reached⟩ := shows.push item (represents item rfl)
  exact ⟨after, pushed, reached.imp_left fun final => ⟨lazies, final⟩⟩

theorem Depicts.storeConst {slot : UInt8}
    (depicts : Depicts compilation position (level.config window (item :: rest) effects) session)
    (content : Option Typed) (here : (Instruction.storeConst slot).At compilation.image position)
    (reserved : slot.toNat < window.length)
    (covers : ∀ other, content = some other → Covers compilation item other) :
    Advances session (Depicts compilation (position + 2)
      (level.config (window.set slot.toNat content) rest effects)) := by
  refine depicts.moves here fun lazies fetched shows => ?_
  have operand : compilation.image.assembly.code.byteAt (position + 1) = slot := here.operands
  obtain ⟨word, middle, popped, shared, represents, shown⟩ := shows.pop rfl
  have base : middle.executor.consts.base = level.outer.length := shown.base
  have size : middle.executor.consts.slots.size = (level.outer ++ window).length := by
    rw [← Array.length_toList, ← shown.constants.length_eq]
    rfl
  have room : middle.executor.consts.base + slot.toNat < middle.executor.consts.slots.size := by
    rw [base, size, List.length_append]
    omega
  have stored : middle.executor.consts.store slot word = .ok { middle.executor.consts with
      slots := middle.executor.consts.slots.setIfInBounds
        (middle.executor.consts.base + slot.toNat) word } := by
    simp [ConstStack.store, room]
  change ∃ after, Exec.storeConst (compilation.image.assembly.code.byteAt (position + 1)) fetched =
    .ok () after ∧ _
  rw [operand]
  unfold Exec.storeConst
  simp only [bind, EStateM.bind, popped, stored]
  refine ⟨_, rfl, Or.inl ⟨lazies, { shown with constants := ?_ }⟩⟩
  change List.Forall₂ _ (level.outer ++ window.set slot.toNat content)
    (middle.executor.consts.slots.setIfInBounds _ word).toList
  have same : level.outer ++ window.set slot.toNat content =
      (level.outer ++ window).set (level.outer.length + slot.toNat) content := by
    rw [List.set_append_right _ _ (Nat.le_add_right _ _), Nat.add_sub_cancel_left]
  rw [same, Array.toList_setIfInBounds, base]
  refine forall₂_set shown.constants _ ?_
  intro other same
  rw [shared]
  exact covers other same represents

/-- A frame that has no constants yet gets some. -/
theorem Depicts.reserveConsts {count : UInt8}
    (depicts : Depicts compilation position (level.config [] operands effects) session)
    (here : (Instruction.reserveConsts count).At compilation.image position) :
    Advances session (Depicts compilation (position + 2)
      (level.config (List.replicate count.toNat none) operands effects)) := by
  refine depicts.moves here fun lazies fetched shows => ?_
  have operand : compilation.image.assembly.code.byteAt (position + 1) = count := here.operands
  have grown : ∀ (slots : Array Word) (count : Nat),
      (ConstStack.grow slots count).toList = slots.toList ++ List.replicate count 0 := by
    intro slots count
    induction count generalizing slots with
    | zero => simp [ConstStack.grow]
    | succ count ih =>
      rw [ConstStack.grow, ih]
      simp [List.replicate_succ]
  have base : fetched.executor.consts.base = level.outer.length := shows.base
  have constants : List.Forall₂ (RepresentsSlot compilation lazies fetched.shared.heap)
      (level.outer ++ []) fetched.executor.consts.slots.toList := shows.constants
  rw [List.append_nil] at constants
  change ∃ after, Exec.reserveConsts (compilation.image.assembly.code.byteAt (position + 1)).toNat
    fetched = .ok () after ∧ _
  rw [operand]
  unfold Exec.reserveConsts Exec.modifyExecutor
  refine ⟨_, rfl, ?_⟩
  dsimp only
  by_cases space : fetched.executor.consts.base + count.toNat ≤ fetched.executor.consts.capacity
  · rw [if_pos space]
    refine Or.inl ⟨lazies, { shows with constants := ?_ }⟩
    change List.Forall₂ _ (level.outer ++ _) (ConstStack.grow (fetched.executor.consts.slots.shrink
      fetched.executor.consts.base) count.toNat).toList
    have whole : fetched.executor.consts.slots.size ≤ fetched.executor.consts.base := by
      rw [base, constants.length_eq, Array.length_toList]
    have same : (fetched.executor.consts.slots.shrink fetched.executor.consts.base).toList =
        fetched.executor.consts.slots.toList := by
      simp [List.take_of_length_le, whole]
    rw [grown, same]
    refine List.rel_append constants ?_
    rw [List.forall₂_iff_get]
    exact ⟨by simp, fun place _ _ other same => by simp at same⟩
  · rw [if_neg space]
    unfold Executor.fail
    simp only [shows.running]
    exact Or.inr ⟨Or.inl rfl, shows.wait⟩

/-! ### Structs -/

theorem Depicts.makeStruct {count : UInt8} {items : List Typed}
    (depicts : Depicts compilation position (level.config window (items.reverse ++ rest) effects)
      session) (item : Typed) (here : (Instruction.makeStruct count).At compilation.image position)
    (length : items.length = count.toNat)
    (represents : ∀ {lazies : Lazies} {heap : Heap} {word : Word} {fields : Array Word},
      heap.Contains word (.struct fields) →
        RepresentsAll compilation lazies heap items fields.toList →
          Represents compilation lazies heap item.1 item.2 word) :
    Advances session (Depicts compilation (position + 2)
      (level.config window (item :: rest) effects)) := by
  refine depicts.moves here fun lazies fetched shows => ?_
  have operand : compilation.image.assembly.code.byteAt (position + 1) = count := here.operands
  obtain ⟨fields, middle, popped, shared, stand, shown⟩ := shows.popMany rfl
  change ∃ after, (do
    let fields ← Exec.popMany (compilation.image.assembly.code.byteAt (position + 1)).toNat
    Exec.pushNew (.struct fields) : Exec Unit) fetched = .ok () after ∧ _
  rw [operand, ← length, exec_bind popped]
  rw [← shared] at stand
  refine shown.pushObject fun heap word grows contains => ?_
  exact represents contains (stand.imp fun _ _ => grows)

theorem Depicts.loadField {index : UInt8}
    (depicts : Depicts compilation position (level.config window (item :: rest) effects) session)
    (field : Typed) (here : (Instruction.loadField index).At compilation.image position)
    (stands : ∀ {lazies : Lazies} {heap : Heap} {word : Word},
      Represents compilation lazies heap item.1 item.2 word →
        ∃ fields inner, heap.Contains word (.struct fields) ∧ fields[index.toNat]? = some inner ∧
          Represents compilation lazies heap field.1 field.2 inner) :
    Advances session (Depicts compilation (position + 2)
      (level.config window (field :: rest) effects)) := by
  refine depicts.moves here fun lazies fetched shows => ?_
  have operand : compilation.image.assembly.code.byteAt (position + 1) = index := here.operands
  obtain ⟨word, middle, popped, shared, represents, shown⟩ := shows.pop rfl
  rw [← shared] at represents
  obtain ⟨fields, inner, contains, selected, stand⟩ := stands represents
  have looked : Exec.look (·.fields word) middle = .ok fields middle :=
    exec_look _ (Heap.fields_of_contains contains)
  change ∃ after, Exec.loadField (compilation.image.assembly.code.byteAt (position + 1)) fetched =
    .ok () after ∧ _
  rw [operand]
  unfold Exec.loadField
  rw [exec_bind popped, exec_bind looked]
  simp only [selected]
  obtain ⟨after, pushed, reached⟩ := shown.push field stand
  exact ⟨after, pushed, reached.imp_left fun final => ⟨lazies, final⟩⟩

theorem Depicts.isNull {null : Bool}
    (depicts : Depicts compilation position (level.config window (item :: rest) effects) session)
    (here : (Instruction.plain .isNull).At compilation.image position)
    (typed : hasScalar compilation.program type .int = true)
    (stands : ∀ {lazies : Lazies} {heap : Heap} {word : Word},
      Represents compilation lazies heap item.1 item.2 word → word.isNull = null) :
    Advances session (Depicts compilation (position + 1)
      (level.config window ((type, .int (flag null)) :: rest) effects)) := by
  refine depicts.moves here fun lazies fetched shows => ?_
  obtain ⟨word, middle, popped, _, represents, shown⟩ := shows.pop rfl
  change ∃ after, (do Exec.pushBool (← Exec.pop).isNull : Exec Unit) fetched = .ok () after ∧ _
  rw [exec_bind popped, stands represents]
  have same : Exec.pushBool null = Exec.pushInt (flag null) := by cases null <;> rfl
  rw [same]
  exact shown.pushScalar .int typed (flag null)

/-! ### Jumps -/

def Compilation.target (compilation : Compilation) (label : Label) : Nat :=
  (UInt32.ofNat (compilation.image.address label)).toNat

theorem Placed.target_eq (placed : Placed compilation.image position (Lowering.bind label)) :
    compilation.target label = position := by
  have bound : compilation.image.address label = position := placed.laid.1
  have near := Nat.lt_of_le_of_lt placed.inside compilation.layout.small
  rw [Compilation.target, bound]
  exact UInt32.toNat_ofNat_of_lt' (Nat.lt_of_le_of_lt (Nat.le_add_right _ _) near)

theorem Shows.jump (shows : Shows compilation lazies position config session) (target : UInt32) :
    ∃ after, Exec.jump target session = .ok () after ∧
      Shows compilation lazies target.toNat config after :=
  ⟨_, rfl, { shows with ip := rfl }⟩

theorem Depicts.jump
    (depicts : Depicts compilation position (level.config window operands effects) session)
    (here : (Instruction.jump label).At compilation.image position) :
    Advances session (Depicts compilation (compilation.target label)
      (level.config window operands effects)) := by
  refine depicts.moves here fun lazies fetched shows => ?_
  have operand : compilation.image.assembly.code.u32At (position + 1) =
    UInt32.ofNat (compilation.image.address label) := here.operands
  change ∃ after, Exec.jump (compilation.image.assembly.code.u32At (position + 1)) fetched =
    .ok () after ∧ _
  rw [operand]
  obtain ⟨after, jumped, shown⟩ := shows.jump (UInt32.ofNat (compilation.image.address label))
  exact ⟨after, jumped, Or.inl ⟨lazies, shown⟩⟩

theorem Depicts.jumpIf {value : Int32} (depicts : Depicts compilation position
      (level.config window ((type, .int value) :: rest) effects) session)
    (here : (Instruction.jumpIf label).At compilation.image position) :
    Advances session (Depicts compilation
      (if value != 0 then compilation.target label else position + 5)
      (level.config window rest effects)) := by
  refine depicts.moves here fun lazies fetched shows => ?_
  have operand : compilation.image.assembly.code.u32At (position + 1) =
    UInt32.ofNat (compilation.image.address label) := here.operands
  obtain ⟨middle, popped, shown⟩ := shows.popScalar .int rfl
  change ∃ after, (do
    if (← Exec.popInt) != 0 then
      Exec.jump (compilation.image.assembly.code.u32At (position + 1)) : Exec Unit) fetched =
    .ok () after ∧ _
  rw [exec_bind (show Exec.popInt fetched = _ from popped)]
  by_cases holds : (value != 0) = true
  · rw [if_pos holds, if_pos holds, operand]
    obtain ⟨after, jumped, reached⟩ :=
      shown.jump (UInt32.ofNat (compilation.image.address label))
    exact ⟨after, jumped, Or.inl ⟨lazies, reached⟩⟩
  · rw [if_neg holds, if_neg holds]
    exact ⟨middle, rfl, Or.inl ⟨lazies, shown⟩⟩

theorem Depicts.fail
    (depicts : Depicts compilation position (level.config window operands effects) session)
    (here : (Instruction.plain .fail).At compilation.image position) :
    Advances session (Ended compilation .invalidAssembly effects) := by
  refine depicts.advances here (fun lazies fetched shows => ?_) fun _ ended => ended.wait
  obtain ⟨after, failed, ended⟩ := shows.end .invalidAssembly
  exact ⟨after, failed, Or.inl ended⟩

end

end WordMachine.Evaluation
