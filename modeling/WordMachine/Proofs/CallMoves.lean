import WordMachine.Proofs.ConfigurationMoves

/-!
What calls and returns do to a configuration. A call opens a level of its own above its caller's
constants; a tail call takes over the level it is made in, a lazy call is only recorded, and a
return goes back to the caller's level, through the lazy call it computes if there is one.
-/

namespace WordMachine.Evaluation

open Lowering (Code emit plain funcLabel)

/-! ## Levels -/

namespace Level

def called (level : Level) (window : List (Option Typed)) (returnTo : Nat) (lazy : Bool) :
    Level where
  outer := level.outer ++ window
  calls := level.calls.push
    { returnTo := UInt32.ofNat returnTo, base := level.outer.length
      top := (level.outer ++ window).length, lazy }

/-- The level of a function that is called in a position. -/
def entering (level : Level) (window : List (Option Typed)) (returnTo : Nat) (tail : Bool) :
    Level :=
  if tail then level else level.called window returnTo false

end Level

def Returning (compilation : Compilation) (level : Level) (operands : List Typed)
    (effects : Effects) (session : Session) : Prop :=
  ∃ position window, (Instruction.plain .ret).At compilation.image position ∧
    Depicts compilation position (level.config window operands effects) session

/-- Whether a session has got some operands to where they are wanted: to the end of the code, or, in
tail position, to the caller. -/
def Delivered (compilation : Compilation) (tail : Bool) (position : Nat) (level : Level)
    (window : List (Option Typed)) (operands : List Typed) (effects : Effects) (session : Session) :
    Prop :=
  if tail then Returning compilation level operands effects session
  else Depicts compilation position (level.config window operands effects) session

section

variable {compilation : Compilation} {lazies : Lazies} {position : Nat} {config : Config}
variable {session : Session} {items rest operands : List Typed} {item : Typed} {level : Level}
variable {window : List (Option Typed)} {effects : Effects}
variable {func : FuncId} {tail : Bool} {count : UInt8} {type : TypeId}

/-! ## Calls -/

theorem Shows.withIp (shows : Shows compilation lazies position config session) {place : Nat}
    {ip : UInt32} (there : ip.toNat = place) :
    Shows compilation lazies place config
      { session with executor := { session.executor with ip } } :=
  { shows with ip := there }

theorem Shows.enter
    (shows : Shows compilation lazies position (level.config window operands effects) session)
    (lazy : Bool) :
    (∃ after, Exec.enter lazy session = .ok true after ∧
      after.shared = session.shared ∧
        Shows compilation lazies position
          ((level.called window position lazy).config [] operands effects) after) ∨
      ∃ after, Exec.enter lazy session = .ok false after ∧ Spent after := by
  have returns : session.executor.ip = UInt32.ofNat position := by
    rw [← UInt32.ofNat_toNat (x := session.executor.ip), shows.ip]
  have base : session.executor.consts.base = level.outer.length := shows.base
  have size : session.executor.consts.slots.size = (level.outer ++ window).length := by
    rw [← Array.length_toList, ← shows.constants.length_eq]
    rfl
  by_cases space : session.executor.calls.frames.size < session.executor.calls.limit
  · left
    let opened : Session :=
      { session with
        executor :=
          { session.executor with
            calls := ⟨session.executor.calls.limit, session.executor.calls.frames.push
              { returnTo := session.executor.ip, base := session.executor.consts.base
                top := session.executor.consts.top, lazy }⟩
            consts := session.executor.consts.enter } }
    refine ⟨opened, ?_, rfl, { shows with
      base := ?_
      calls := ?_
      constants := ?_ }⟩
    · unfold Exec.enter
      simp only [space, if_true]
      rfl
    · exact size
    · have calls : session.executor.calls.frames = level.calls := shows.calls
      change session.executor.calls.frames.push _ = level.calls.push _
      rw [calls]
      simp only [ConstStack.top, returns, base, size]
    · change List.Forall₂ _ (level.outer ++ window ++ []) session.executor.consts.slots.toList
      rw [List.append_nil]
      exact shows.constants
  · right
    refine ⟨{ session with executor := { session.executor with state := .stackOverflow } }, ?_,
      Or.inl rfl, shows.wait⟩
    unfold Exec.enter Executor.fail
    simp only [space, if_false, shows.running]

/-- A call goes to the target on the level it opens or takes over. -/
theorem Shows.call
    (shows : Shows compilation lazies position (level.config window operands effects) session)
    (target : UInt32) (count : Nat) :
    ∃ after, Exec.call target count (Lowering.positionMode tail).code session = .ok () after ∧
      (Shows compilation lazies target.toNat
        ((level.entering window position tail).config [] operands effects) after ∨
          Spent after) := by
  cases tail with
  | false =>
    change ∃ after, (do if ← Exec.enter false then Exec.jump target : Exec Unit) session = _ ∧ _
    rcases shows.enter false with ⟨middle, entered, _, shown⟩ | ⟨after, refused, spent⟩
    · rw [exec_bind entered]
      exact ⟨_, rfl, Or.inl (shown.withIp rfl)⟩
    · rw [exec_bind refused]
      exact ⟨after, rfl, Or.inr spent⟩
  | true =>
    refine ⟨_, rfl, Or.inl { shows with
      ip := rfl
      constants := ?_ }⟩
    have constants := List.forall₂_take level.outer.length shows.constants
    have base : session.executor.consts.base = level.outer.length := shows.base
    change List.Forall₂ _ (level.outer ++ [])
      (session.executor.consts.slots.shrink session.executor.consts.base).toList
    rw [base, List.append_nil]
    simpa [Level.config] using constants

theorem Depicts.call {label : Label}
    (depicts : Depicts compilation position (level.config window operands effects) session)
    (tail : Bool)
    (here : (Instruction.call label count (Lowering.positionMode tail).code).At compilation.image
      position) :
    Advances session (Depicts compilation (compilation.target label)
      ((level.entering window (position + 7) tail).config [] operands effects)) := by
  refine depicts.moves here fun lazies fetched shows => ?_
  obtain ⟨target, _, mode⟩ := here.operands
  obtain ⟨after, called, reached⟩ :=
    shows.call (UInt32.ofNat (compilation.image.address label)) count.toNat
  refine ⟨after, ?_, reached.imp_left fun shown => ⟨lazies, shown⟩⟩
  rw [← called, ← target]
  obtain ⟨_, arguments, _⟩ := here.operands
  change Exec.call (compilation.image.assembly.code.u32At (position + 1))
    (compilation.image.assembly.code.byteAt (position + 1 + 4)).toNat
    (compilation.image.assembly.code.byteAt (position + 1 + 5)) fetched = _
  rw [arguments, mode]

/-! ## Values on top -/

/-- Whether a session has run out of the machine and stopped. -/
structure Halted (session : Session) : Prop extends Spent session where
  stopped : session.executor.state ≠ .running

/-- Nothing changes for a session that has stopped when more is pushed. -/
theorem Halted.push {word : Word} (halted : Halted session) :
    ∃ after, Exec.push word session = .ok () after ∧ Halted after := by
  have same : (session.executor.push word).state = session.executor.state ∧
      (session.executor.push word).wait = session.executor.wait := by
    unfold Executor.push Executor.fail
    split
    · exact ⟨rfl, rfl⟩
    · split
      · next running => exact absurd running halted.stopped
      · exact ⟨rfl, rfl⟩
  refine ⟨{ session with executor := session.executor.push word }, rfl, ⟨?_, ?_⟩, ?_⟩
  · change (session.executor.push word).state = _ ∨ (session.executor.push word).state = _ ∨ _
    rw [same.1]
    exact halted.out
  · exact same.2.trans halted.wait
  · change (session.executor.push word).state ≠ _
    rw [same.1]
    exact halted.stopped

theorem Halted.pushAll (words : List Word) (halted : Halted session) :
    ∃ after, (words.forM Exec.push : Exec Unit) session = .ok () after ∧ Halted after := by
  induction words generalizing session with
  | nil => exact ⟨session, rfl, halted⟩
  | cons word words ih =>
    obtain ⟨middle, pushed, still⟩ := halted.push
    obtain ⟨after, others, done⟩ := ih still
    exact ⟨after, (exec_bind pushed).trans others, done⟩

/-- Several words are put on top, the last one uppermost. -/
theorem Shows.pushAll {words : List Word} (shows : Shows compilation lazies position config session)
    (represents : RepresentsAll compilation lazies session.shared.heap items words) :
    ∃ after, (words.forM Exec.push : Exec Unit) session = .ok () after ∧
      (Shows compilation lazies position
        { config with operands := items.reverse ++ config.operands } after ∨ Halted after) := by
  induction words generalizing items config session with
  | nil =>
    cases represents
    exact ⟨session, rfl, Or.inl shows⟩
  | cons word words ih =>
    cases represents with
    | @cons item _ items _ first others =>
      obtain ⟨middle, pushed, reached⟩ := shows.push item first
      have same : middle.shared = session.shared := by
        cases pushed
        rfl
      rcases reached with shown | spent
      · rw [← same] at others
        obtain ⟨after, rest, reached⟩ := ih shown others
        refine ⟨after, (exec_bind pushed).trans rest, ?_⟩
        simpa only [List.reverse_cons, List.append_assoc, List.singleton_append] using reached
      · have stopped : middle.executor.state ≠ .running := by
          rcases spent.out with overflow | failed | full
          · rw [overflow]
            nofun
          · rw [failed]
            nofun
          · rw [same] at full
            exact absurd shows.room (Nat.not_lt.2 full)
        obtain ⟨after, rest, still⟩ := Halted.pushAll words ⟨spent, stopped⟩
        exact ⟨after, (exec_bind pushed).trans rest, Or.inr still⟩

theorem forM_push (words : Array Word) :
    (words.forM Exec.push : Exec Unit) = words.toList.forM Exec.push := by
  rw [Array.forM_eq_forM]
  exact List.forM_toArray words.toList Exec.push

/-! ## Function values -/

theorem delegateFits_unique {program : Program} {usable : FuncId → Bool} {left right : List TypeId}
    (first : delegateFits program usable func left type = true)
    (second : delegateFits program usable func right type = true) : left = right := by
  obtain ⟨decl, input, declared, _, shape, inputs⟩ := delegateFits_shape first
  obtain ⟨other, otherInput, otherDeclared, _, otherShape, otherInputs⟩ := delegateFits_shape second
  rw [declared] at otherDeclared
  cases otherDeclared
  rw [shape] at otherShape
  cases otherShape
  exact List.append_cancel_left (inputs.symm.trans otherInputs)

theorem zip_fst_snd {α β : Type} (items : List (α × β)) :
    (items.map Prod.fst).zip (items.map Prod.snd) = items := by
  induction items with
  | nil => rfl
  | cons item items ih =>
    rw [List.map_cons, List.map_cons, List.zip_cons_cons, ih]

theorem Represents.function_cases {heap : Heap} {bound : List Value} {word : Word}
    (represents : Represents compilation lazies heap type (.function func bound) word) :
    ∃ given : List Typed, given.map Prod.snd = bound ∧
      delegateFits compilation.program compilation.usable func (given.map Prod.fst) type = true ∧
        (given = [] ∧ word = .ofBits32 (compilation.entry func) ∨
          ∃ fields : Array Word,
            heap.Contains word (.struct (fields.push (.ofBits32 (compilation.entry func)))) ∧
            RepresentsAll compilation lazies heap given fields.toList) := by
  cases represents with
  | function _ fits => exact ⟨[], rfl, fits, Or.inl ⟨rfl, rfl⟩⟩
  | closure fits contains same each =>
    exact ⟨_, rfl, fits, Or.inr ⟨_, contains, List.forall₂_iff_zip.2
      ⟨same, fun member => each _ _ member⟩⟩⟩

/-- Calls the function on top of the stack, whose own arguments follow those below it. -/
theorem Depicts.callDynamic {bound : List Value} (depicts : Depicts compilation position
      (level.config window ((type, .function func bound) :: rest) effects) session)
    (here : (Instruction.callDynamic count (Lowering.positionMode tail).code).At compilation.image
      position) :
    ∃ given : List Typed, given.map Prod.snd = bound ∧
      delegateFits compilation.program compilation.usable func (given.map Prod.fst) type = true ∧
        Advances session (Depicts compilation (compilation.entry func).toNat
          ((level.entering window (position + 3) tail).config [] (given.reverse ++ rest)
            effects)) := by
  obtain ⟨_, _, represents⟩ := depicts.represented List.mem_cons_self
  obtain ⟨given, values, fits, _⟩ := represents.function_cases
  refine ⟨given, values, fits, depicts.moves here fun lazies fetched shows => ?_⟩
  obtain ⟨word, middle, popped, shared, represents, shown⟩ := shows.pop rfl
  obtain ⟨others, otherValues, otherFits, stored⟩ := represents.function_cases
  have same : others = given := by
    rw [← zip_fst_snd others, ← zip_fst_snd given, values, otherValues,
      delegateFits_unique otherFits fits]
  subst same
  obtain ⟨_, mode⟩ := here.operands
  change ∃ after, Exec.callDynamic (compilation.image.assembly.code.byteAt (position + 1)).toNat
    (compilation.image.assembly.code.byteAt (position + 1 + 1)) fetched = .ok () after ∧ _
  rw [mode]
  unfold Exec.callDynamic
  rw [exec_bind popped]
  rcases stored with ⟨rfl, rfl⟩ | ⟨fields, contains, stands⟩
  · rw [if_neg (by rw [Word.isRef_ofBits32]; exact Bool.false_ne_true), Word.bits32_ofBits32]
    obtain ⟨after, called, reached⟩ := shown.call (compilation.entry func) _
    exact ⟨after, called, reached.imp_left fun final => ⟨lazies, final⟩⟩
  · rw [← shared] at contains stands
    obtain ⟨isRef, _⟩ := Heap.contains_iff.1 contains
    have looked : Exec.look (·.fields word) middle = .ok _ middle :=
      exec_look _ (Heap.fields_of_contains contains)
    rw [if_pos isRef, exec_bind looked, Array.back?_push]
    simp only []
    rw [Array.pop_push, forM_push]
    obtain ⟨between, pushed, shown | halted⟩ := shown.pushAll stands
    · rw [exec_bind pushed]
      have running : Exec.isRunning between = .ok true between := by
        unfold Exec.isRunning
        rw [shown.running]
        rfl
      rw [exec_bind running, if_pos rfl, Word.bits32_ofBits32]
      obtain ⟨after, called, reached⟩ := shown.call (compilation.entry func) _
      exact ⟨after, called, reached.imp_left fun final => ⟨lazies, final⟩⟩
    · rw [exec_bind pushed]
      have stopped : Exec.isRunning between = .ok false between := by
        unfold Exec.isRunning
        rw [beq_eq_false_iff_ne.2 halted.stopped]
      rw [exec_bind stopped]
      exact ⟨between, rfl, Or.inr halted.toSpent⟩

/-! ## Lazy calls -/

theorem Depicts.delay {decl : FuncDecl} {result : TypeId}
    (depicts : Depicts compilation position (level.config window (items.reverse ++ rest) effects)
      session) (here : (Instruction.call (funcLabel func) count CallMode.lazy.code).At
      compilation.image position) (length : items.length = count.toNat)
    (declared : compilation.program.func? func = some decl)
    (usable : isUsable compilation.program compilation.usable decl = true)
    (inputs : decl.input.getD [] = items.map Prod.fst)
    (shape : shape? compilation.program result = some (.lazy decl.output)) :
    Advances session (Depicts compilation (position + 7)
      (level.config window ((result, .lazy effects.cells.size) :: rest)
        { effects with
          cells := effects.cells.push (.pending func (items.map Prod.snd)) })) := by
  refine depicts.moves here fun lazies fetched shows => ?_
  obtain ⟨target, arguments, mode⟩ := here.operands
  obtain ⟨words, middle, popped, shared, represents, shown⟩ := shows.popMany rfl
  have runs : Exec.perform compilation.image.assembly .call (position + 1) fetched =
      Exec.pushNew (.lazy (.pending (compilation.entry func) words)) middle := by
    change Exec.call (compilation.image.assembly.code.u32At (position + 1))
      (compilation.image.assembly.code.byteAt (position + 1 + 4)).toNat
      (compilation.image.assembly.code.byteAt (position + 1 + 5)) fetched = _
    rw [target, arguments, mode, ← length]
    exact exec_bind popped
  change ∃ after, Exec.perform compilation.image.assembly .call (position + 1) fetched = _ ∧ _
  rw [runs]
  let next : Config := level.config window rest
    { effects with cells := effects.cells.push (.pending func (items.map Prod.snd)) }
  refine @Shows.pushNew _ _ _ _ _ _ next (result, .lazy effects.cells.size) shown
    fun heap word allocated sound room => ?_
  have cells : RepresentsCells compilation lazies middle.shared.heap effects.cells := shown.cells
  have known : ∀ {cell : Nat} {entry : Word × TypeId}, lazies cell = some entry →
      lazies.add effects.cells.size word decl.output cell = some entry :=
    fun known => Lazies.add_known cells word decl.output known
  have keeps := fun other =>
    @keeps_of_contains lazies middle.shared.heap heap
      (lazies.add effects.cells.size word decl.output) allocated.contains known other
  refine ⟨lazies.add effects.cells.size word decl.output, ?_, ?_⟩
  · refine shown.withHeap (fun word (_ : True) => keeps word) (fun _ _ _ _ _ _ => trivial)
      (fun _ _ => trivial) sound room (cells.push allocated ?_)
    refine ⟨decl, words, declared, usable, rfl, allocated.contains_new, ?_, ?_⟩
    · rw [inputs, List.length_map, List.length_map]
    · rw [inputs, zip_fst_snd]
      rw [← shared] at represents
      exact represents.grow allocated.contains known
  · exact .lazy shape (if_pos rfl)

/-! ## Returns -/

theorem Shows.leave {returnTo : Nat} {lazy : Bool} {inner : List (Option Typed)}
    (shows : Shows compilation lazies position
      ((level.called window returnTo lazy).config inner operands effects) session)
    (near : returnTo < 2 ^ 32) :
    ∃ after, Shows compilation lazies returnTo (level.config window operands effects) after ∧
      after.shared = session.shared ∧
      Exec.ret session = (if lazy then do
        let result ← Exec.pop
        let word ← Exec.pop
        let (value, heap) ← Exec.look (·.force word result)
        Exec.modifyHeap fun _ => heap
        Exec.push value
      else pure () : Exec Unit) after := by
  let after : Session :=
    { session with
      executor :=
        { session.executor with
          ip := UInt32.ofNat returnTo
          consts := session.executor.consts.release.leave level.outer.length
            (level.outer ++ window).length
          calls := ⟨session.executor.calls.limit, level.calls⟩ } }
  have frames : session.executor.calls.frames = (level.called window returnTo lazy).calls :=
    shows.calls
  have last : session.executor.calls.frames.back? = some
      { returnTo := UInt32.ofNat returnTo, base := level.outer.length
        top := (level.outer ++ window).length, lazy } := by
    rw [frames]
    exact Array.back?_push
  have popped : session.executor.calls.frames.pop = level.calls := by
    rw [frames]
    exact Array.pop_push
  refine ⟨after, { shows with
    ip := UInt32.toNat_ofNat_of_lt' near
    base := rfl
    calls := rfl
    constants := ?_ }, rfl, ?_⟩
  · have base : session.executor.consts.base = (level.outer ++ window).length := shows.base
    have constants := List.forall₂_take (level.outer ++ window).length shows.constants
    change List.Forall₂ _ (level.outer ++ window)
      ((session.executor.consts.slots.shrink session.executor.consts.base).shrink
        (level.outer ++ window).length).toList
    rw [base]
    change List.Forall₂ _ (List.take _ (level.outer ++ window ++ inner)) _ at constants
    rw [List.take_left] at constants
    simpa [List.take_take] using constants
  · unfold Exec.ret
    simp only [bind, EStateM.bind, last, popped, Exec.modifyExecutor]
    rfl

theorem Depicts.ret {returnTo : Nat} {inner : List (Option Typed)}
    (depicts : Depicts compilation position
      ((level.called window returnTo false).config inner operands effects) session)
    (here : (Instruction.plain .ret).At compilation.image position) (near : returnTo < 2 ^ 32) :
    Advances session (Depicts compilation returnTo (level.config window operands effects)) := by
  refine depicts.moves here fun lazies fetched shows => ?_
  obtain ⟨after, shown, _, returned⟩ := shows.leave near
  exact ⟨after, returned, Or.inl ⟨lazies, shown⟩⟩

/-- A value that is about to be returned gets to where it is wanted. -/
theorem Returning.delivered
    (returning : Returning compilation (level.entering window position tail) operands
      effects session)
    (near : position < 2 ^ 32) :
    session.Leads (Delivered compilation tail position level window operands effects) := by
  cases tail with
  | false =>
    obtain ⟨place, inner, here, depicts⟩ := returning
    exact (depicts.ret here near).leads
  | true => exact .here returning

/-! ## Requests of lazy values -/

section

variable {type result : TypeId} {cell : Nat}

theorem Shows.lazy_cell (shows : Shows compilation lazies position config session) {word : Word}
    (represents : Represents compilation lazies session.shared.heap type (.lazy cell) word)
    (shape : shape? compilation.program type = some (.lazy result)) :
    lazies cell = some (word, result) ∧ ∃ content, config.effects.cells[cell]? = some content ∧
      RepresentsCell compilation lazies session.shared.heap result word content := by
  cases represents with
  | lazy other known =>
    rw [shape] at other
    cases other
    exact ⟨known, shows.cells.each known⟩

/-- A lazy value that is held belongs to a call. -/
theorem Depicts.exists_cell
    (depicts : Depicts compilation position (level.config window operands effects) session)
    (member : (type, .lazy cell) ∈ operands)
    (shape : shape? compilation.program type = some (.lazy result)) :
    ∃ content, effects.cells[cell]? = some content := by
  obtain ⟨lazies, shows⟩ := depicts
  obtain ⟨word, represents⟩ := shows.represented member
  obtain ⟨_, content, known, _⟩ := shows.lazy_cell represents shape
  exact ⟨content, known⟩

theorem Depicts.forceForced {value : Value} (depicts : Depicts compilation position
      (level.config window ((type, .lazy cell) :: rest) effects) session)
    (here : (Instruction.plain .force).At compilation.image position)
    (shape : shape? compilation.program type = some (.lazy result))
    (known : effects.cells[cell]? = some (.forced value)) :
    Advances session (Depicts compilation (position + 1)
      (level.config window ((result, value) :: rest) effects)) := by
  refine depicts.moves here fun lazies fetched shows => ?_
  obtain ⟨word, peeked, represents⟩ := shows.peek rfl
  obtain ⟨_, content, same, holds⟩ := shows.lazy_cell represents shape
  have same := known.symm.trans same
  cases same
  obtain ⟨stored, contains, stands⟩ := holds
  have looked : Exec.look (·.delayed word) fetched = .ok (.forced stored) fetched :=
    exec_look _ (Heap.delayed_of_contains contains)
  obtain ⟨_, middle, popped, shared, _, shown⟩ := shows.pop rfl
  change ∃ after, Exec.force fetched = .ok () after ∧ _
  unfold Exec.force
  rw [exec_bind peeked, exec_bind looked]
  simp only []
  rw [exec_bind popped]
  rw [← shared] at stands
  obtain ⟨after, pushed, reached⟩ := shown.push (result, value) stands
  exact ⟨after, pushed, reached.imp_left fun final => ⟨lazies, final⟩⟩

/-- The call of a value that is not there yet is made on top of its request. -/
theorem Depicts.forcePending {func : FuncId} {arguments : List Value}
    (depicts : Depicts compilation position
      (level.config window ((type, .lazy cell) :: rest) effects) session)
    (here : (Instruction.plain .force).At compilation.image position)
    (shape : shape? compilation.program type = some (.lazy result))
    (known : effects.cells[cell]? = some (.pending func arguments)) :
    ∃ decl, compilation.program.func? func = some decl ∧
      isUsable compilation.program compilation.usable decl = true ∧ decl.output = result ∧
      (decl.input.getD []).length = arguments.length ∧
      Advances session (Depicts compilation (compilation.entry func).toNat
        ((level.called window (position + 1) true).config []
          (((decl.input.getD []).zip arguments).reverse ++ (type, .lazy cell) :: rest)
          effects)) := by
  obtain ⟨before, shown⟩ := depicts
  obtain ⟨word, represents⟩ := shown.represented List.mem_cons_self
  obtain ⟨_, content, same, holds⟩ := shown.lazy_cell represents shape
  have same := known.symm.trans same
  cases same
  obtain ⟨decl, _, declared, usable, output, _, length, _⟩ := holds
  refine ⟨decl, declared, usable, output, length,
    Depicts.moves ⟨before, shown⟩ here fun lazies fetched shows => ?_⟩
  obtain ⟨word, peeked, represents⟩ := shows.peek rfl
  obtain ⟨_, content, same, holds⟩ := shows.lazy_cell represents shape
  have same := known.symm.trans same
  cases same
  obtain ⟨other, fields, otherDeclared, _, _, contains, _, stands⟩ := holds
  rw [declared] at otherDeclared
  cases otherDeclared
  have looked : Exec.look (·.delayed word) fetched = .ok _ fetched :=
    exec_look _ (Heap.delayed_of_contains contains)
  change ∃ after, Exec.force fetched = .ok () after ∧ _
  unfold Exec.force
  rw [exec_bind peeked, exec_bind looked]
  simp only []
  rcases shows.enter true with ⟨middle, entered, shared, shown⟩ | ⟨after, refused, spent⟩
  · rw [exec_bind entered, if_pos rfl, forM_push]
    rw [← shared] at stands
    obtain ⟨between, pushed, final | halted⟩ := shown.pushAll stands
    · rw [exec_bind pushed]
      exact ⟨_, rfl, Or.inl ⟨lazies, final.withIp rfl⟩⟩
    · rw [exec_bind pushed]
      exact ⟨_, rfl, Or.inr ⟨halted.out, halted.wait⟩⟩
  · rw [exec_bind refused]
    exact ⟨after, rfl, Or.inr spent⟩

theorem Depicts.retLazy {returnTo : Nat} {inner : List (Option Typed)} {value : Value}
    (depicts : Depicts compilation position
      ((level.called window returnTo true).config inner
        ((result, value) :: (type, .lazy cell) :: rest) effects) session)
    (here : (Instruction.plain .ret).At compilation.image position) (near : returnTo < 2 ^ 32)
    (shape : shape? compilation.program type = some (.lazy result)) :
    Advances session fun after =>
      match effects.cells[cell]? with
      | some (.forced first) =>
        Depicts compilation returnTo (level.config window ((result, first) :: rest) effects) after
      | _ => Depicts compilation returnTo (level.config window ((result, value) :: rest)
          { effects with cells := effects.cells.setIfInBounds cell (.forced value) }) after := by
  refine depicts.advances here (fun lazies fetched shows => ?_) fun after reached => ?_
  · obtain ⟨left, shown, _, returned⟩ := shows.leave near
    obtain ⟨stored, first, popped, shared, stands, shown⟩ := shown.pop rfl
    obtain ⟨word, second, poppedWord, sharedWord, represents, shown⟩ := shown.pop rfl
    rw [← sharedWord] at represents
    rw [← shared, ← sharedWord] at stands
    obtain ⟨known, content, same, holds⟩ := shown.lazy_cell represents shape
    have same : effects.cells[cell]? = some content := same
    change ∃ after, Exec.ret fetched = .ok () after ∧ _
    rw [returned, if_pos rfl, exec_bind popped, exec_bind poppedWord, same]
    cases content with
    | forced value =>
      obtain ⟨kept, contains, keptStands⟩ := holds
      have looked : Exec.look (·.force word stored) second =
          .ok (kept, second.shared.heap) second := by
        refine exec_look _ ?_
        unfold Heap.force
        rw [Heap.delayed_of_contains contains]
      rw [exec_bind looked]
      obtain ⟨after, pushed, reached⟩ := shown.push (result, value) keptStands
      exact ⟨after, pushed, reached.imp_left fun final => ⟨lazies, final⟩⟩
    | pending func arguments =>
      obtain ⟨_, fields, _, _, _, contains, _, _⟩ := holds
      have looked : Exec.look (·.force word stored) second =
          .ok (stored, second.shared.heap.setPayload word (.lazy (.forced stored))) second := by
        refine exec_look _ ?_
        unfold Heap.force
        rw [Heap.delayed_of_contains contains]
      rw [exec_bind looked]
      obtain ⟨size, found⟩ := contains
      have keeps := fun other =>
        @keeps_setPayload lazies second.shared.heap word stored _ ⟨size, found⟩ other
      have changed := shown.withHeap (fun other (_ : True) => keeps other)
        (fun _ _ _ _ _ _ => trivial) (fun _ _ => trivial)
        (shown.sound.setPayload (Heap.deref_eq_ok.1 found).2 nofun)
        (by
          rw [Heap.setPayload_slots, Array.size_modify]
          exact shown.room)
        (shown.cells.force known stands)
      have kept := represents_keep (fun other (_ : True) => keeps other)
        (fun _ _ _ _ _ _ => trivial) trivial stands
      obtain ⟨after, pushed, reached⟩ := changed.push (result, value) kept
      exact ⟨after, pushed, reached.imp_left fun final => ⟨lazies, final⟩⟩
  · split at reached
    · obtain ⟨_, shows⟩ := reached
      exact shows.wait
    · obtain ⟨_, shows⟩ := reached
      exact shows.wait

end

end

end WordMachine.Evaluation
