import WordMachine.Proofs.Configurations

/-!
What the steps within an instruction do to a configuration: operands are taken off and put on,
strings are read and objects made.
-/

namespace WordMachine.Evaluation

variable {α : Type}

theorem exec_bind {β : Type} {first : Exec α} {next : α → Exec β} {session middle : Session}
    {value : α} (done : first session = .ok value middle) :
    (first >>= next) session = next value middle := by
  change EStateM.bind first next session = _
  simp only [EStateM.bind, done]

theorem exec_look {session : Session} {value : α} (view : Heap → Except Fault α)
    (seen : view session.shared.heap = .ok value) : Exec.look view session = .ok value session := by
  unfold Exec.look
  simp only [seen]

theorem forall₂_of_append {β : Type} {related : α → β → Prop} {left right : List α} {both : List β}
    (holds : List.Forall₂ related (left ++ right) both) :
    List.Forall₂ related left (both.take left.length) ∧
      List.Forall₂ related right (both.drop left.length) := by
  have first := List.forall₂_take left.length holds
  have second := List.forall₂_drop left.length holds
  rw [List.take_left] at first
  rw [List.drop_left] at second
  exact ⟨first, second⟩

theorem exists_push_of_reverse {items : Array Word} {word : Word} {words : List Word}
    (reversed : items.toList.reverse = word :: words) :
    ∃ rest : Array Word, items = rest.push word ∧ rest.toList.reverse = words := by
  have listed : items.toList = words.reverse ++ [word] := by
    rw [← List.reverse_reverse items.toList, reversed, List.reverse_cons]
  refine ⟨words.reverse.toArray, ?_, by simp⟩
  apply Array.toList_inj.1
  simp [listed]

def withOperands (session : Session) (items : Array Word) : Session :=
  { session with
    executor := { session.executor with eval := ⟨session.executor.eval.capacity, items⟩ } }

theorem exec_pop {session : Session} {rest : Array Word} {word : Word}
    (items : session.executor.eval.items = rest.push word) :
    Exec.pop session = .ok word (withOperands session rest) := by
  simp [Exec.pop, Exec.onEval, EvalStack.pop, items, withOperands]

section

variable {compilation : Compilation} {lazies : Lazies} {position : Nat} {config : Config}
variable {session : Session}
variable {rest : List Typed} {item : Typed}

/-! ## Operands -/

theorem Shows.withOperands {operands : List Typed} {items : Array Word}
    (shows : Shows compilation lazies position config session)
    (represents : RepresentsAll compilation lazies session.shared.heap operands
      items.toList.reverse) :
    Shows compilation lazies position { config with operands } (withOperands session items) :=
  { shows with operands := represents }

theorem Shows.pop (shows : Shows compilation lazies position config session)
    (top : config.operands = item :: rest) :
    ∃ word after, Exec.pop session = .ok word after ∧ after.shared = session.shared ∧
      Represents compilation lazies session.shared.heap item.1 item.2 word ∧
      Shows compilation lazies position { config with operands := rest } after := by
  have operands := shows.operands
  rw [top] at operands
  obtain ⟨word, words, represents, others, reversed⟩ := List.forall₂_cons_left_iff.1 operands
  obtain ⟨below, items, same⟩ := exists_push_of_reverse reversed
  rw [← same] at others
  exact ⟨word, Evaluation.withOperands session below, exec_pop items, rfl, represents,
    shows.withOperands others⟩

theorem Shows.peek (shows : Shows compilation lazies position config session)
    (top : config.operands = item :: rest) :
    ∃ word, Exec.peek session = .ok word session ∧
      Represents compilation lazies session.shared.heap item.1 item.2 word := by
  have operands := shows.operands
  rw [top] at operands
  obtain ⟨word, words, represents, others, reversed⟩ := List.forall₂_cons_left_iff.1 operands
  obtain ⟨below, items, same⟩ := exists_push_of_reverse reversed
  refine ⟨word, ?_, represents⟩
  have peeked : session.executor.eval.peekBehind 0 = .ok word := by
    unfold EvalStack.peekBehind
    simp [items]
  unfold Exec.peek Exec.peekBehind
  simp only [peeked]

/-- A word is put on top, unless the stack is full. -/
theorem Shows.push {word : Word} (shows : Shows compilation lazies position config session)
    (item : Typed)
    (represents : Represents compilation lazies session.shared.heap item.1 item.2 word) :
    ∃ after, Exec.push word session = .ok () after ∧
      (Shows compilation lazies position { config with operands := item :: config.operands } after ∨
        Spent after) := by
  by_cases space : session.executor.eval.items.size < session.executor.eval.capacity
  · refine ⟨Evaluation.withOperands session (session.executor.eval.items.push word), ?_,
      Or.inl (shows.withOperands ?_)⟩
    · unfold Exec.push Exec.modifyExecutor Executor.push
      simp only [space, if_true]
      rfl
    · rw [Array.toList_push, List.reverse_append]
      exact .cons represents shows.operands
  · refine ⟨{ session with executor := { session.executor with state := .stackOverflow } }, ?_,
      Or.inr ⟨Or.inl rfl, shows.wait⟩⟩
    unfold Exec.push Exec.modifyExecutor Executor.push Executor.fail
    simp only [space, if_false, shows.running]

/-- Several operands are taken off at once. -/
theorem Shows.popMany {items : List Typed}
    (shows : Shows compilation lazies position config session)
    (top : config.operands = items.reverse ++ rest) :
    ∃ words after, Exec.popMany items.length session = .ok words after ∧
      after.shared = session.shared ∧
      RepresentsAll compilation lazies session.shared.heap items words.toList ∧
      Shows compilation lazies position { config with operands := rest } after := by
  have operands := shows.operands
  rw [top] at operands
  have reversed := List.forall₂_reverse_iff.2 operands
  rw [List.reverse_reverse, List.reverse_append, List.reverse_reverse] at reversed
  obtain ⟨lower, upper⟩ := forall₂_of_append reversed
  have total := reversed.length_eq
  simp only [List.length_append, List.length_reverse, Array.length_toList] at total
  have below : session.executor.eval.items.size - items.length = rest.reverse.length := by
    rw [List.length_reverse]
    omega
  have many : items.length ≤ session.executor.eval.items.size := by omega
  have popped : session.executor.eval.popMany items.length =
      .ok (session.executor.eval.items.extract rest.reverse.length session.executor.eval.items.size,
        ⟨session.executor.eval.capacity,
          session.executor.eval.items.shrink rest.reverse.length⟩) := by
    unfold EvalStack.popMany
    rw [if_pos many]
    simp only [below]
  refine ⟨session.executor.eval.items.extract rest.reverse.length session.executor.eval.items.size,
    Evaluation.withOperands session (session.executor.eval.items.shrink rest.reverse.length), ?_,
    rfl, ?_, shows.withOperands ?_⟩
  · unfold Exec.popMany Exec.onEval
    simp only [popped]
    rfl
  · rw [Array.toList_extract, List.extract_eq_take_drop, List.take_of_length_le (by simp)]
    exact upper
  · have taken : (session.executor.eval.items.shrink rest.reverse.length).toList =
        session.executor.eval.items.toList.take rest.reverse.length := by simp
    have turned := List.forall₂_reverse_iff.2 lower
    rw [List.reverse_reverse, ← taken] at turned
    exact turned

/-! ## Strings -/

/-- Reading a string may only make a link remember its text. -/
theorem Shows.text {word : Word} {text : Bytes}
    (shows : Shows compilation lazies position config session)
    (spells : session.shared.heap.Spells word text) :
    ∃ after, Exec.text word session = .ok text after ∧
      (∀ {type value other}, Represents compilation lazies session.shared.heap type value other →
        Represents compilation lazies after.shared.heap type value other) ∧
      Shows compilation lazies position config after := by
  have looked := exec_look (·.text word) (Heap.text_of_spells spells)
  cases spells with
  | string contains =>
    obtain ⟨size, found⟩ := contains
    refine ⟨session, ?_, fun represents => represents, shows⟩
    unfold Exec.text
    rw [exec_bind (exec_look (·.deref word) found)]
    rfl
  | remembered contains =>
    obtain ⟨size, found⟩ := contains
    refine ⟨session, ?_, fun represents => represents, shows⟩
    unfold Exec.text
    rw [exec_bind (exec_look (·.deref word) found)]
    exact looked
  | @link _ previous byte inner contains rest =>
    have whole : session.shared.heap.Spells word (inner.push byte) := .link contains rest
    obtain ⟨size, found⟩ := contains
    have changed : Shows compilation lazies position config
        { session with shared := { session.shared with
          heap := session.shared.heap.remember word (inner.push byte) } } :=
      shows.withHeap (fun other (_ : True) => keeps_remember whole other)
        (fun _ _ _ _ _ _ => trivial) (fun _ _ => trivial)
        (shows.sound.remember (Heap.deref_eq_ok.1 found).2 (inner.push byte))
        (by
          rw [Heap.remember_slots, Array.size_modify]
          exact shows.room)
        (representsCells_keep (keeps_remember whole) (fun _ _ held => remember_lazy whole held)
          shows.cells)
    refine ⟨_, ?_, ?_, changed⟩
    · unfold Exec.text
      rw [exec_bind (exec_look (·.deref word) found)]
      simp only []
      rw [exec_bind looked]
      rfl
    · intro type value other represents
      exact represents_keep (fun other (_ : True) => keeps_remember whole other)
        (fun _ _ _ _ _ _ => trivial) trivial represents

/-! ## New objects -/

/-- A reference to a new object is put on top, if there is room for both. -/
theorem Shows.pushNew {payload : Payload} {next : Config} {item : Typed}
    (shows : Shows compilation lazies position config session)
    (made : ∀ heap word,
      Heap.Allocated session.shared.heap heap word ⟨Heap.headerSize + payload.size, payload⟩ →
      heap.Sound → heap.slots.size + 1 < 2 ^ 32 →
      ∃ later,
        Shows compilation later position next
          { session with shared := { session.shared with heap } } ∧
          Represents compilation later heap item.1 item.2 word) :
    ∃ after, Exec.pushNew payload session = .ok () after ∧
      (Depicts compilation position { next with operands := item :: next.operands } after ∨
        Spent after) := by
  by_cases space : session.shared.heap.hasRoom (Heap.headerSize + payload.size) = true
  · have allocated := Heap.allocate_allocated shows.sound.wellFormed shows.room payload
    have sound := shows.sound.allocate payload shows.room
    obtain ⟨executor, shared⟩ := session
    have done : Exec.allocate? payload ⟨executor, shared⟩ =
        .ok (some (shared.allocate payload).1) ⟨executor, (shared.allocate payload).2⟩ := by
      unfold Exec.allocate?
      simp only [space, if_true]
    have heap : (shared.allocate payload).2.heap = (shared.heap.allocate payload).2 :=
      Shared.log_heap _ _
    have surface : (shared.allocate payload).2.surface = shared.surface :=
      Shared.surface_log _ _
    have word : (shared.allocate payload).1 = (shared.heap.allocate payload).1 := rfl
    unfold Exec.pushNew
    rw [exec_bind done]
    simp only []
    by_cases full : 2 ^ 32 ≤ (shared.heap.allocate payload).2.slots.size + 1
    · refine ⟨_, rfl, Or.inr ⟨Or.inr (Or.inr ?_), ?_⟩⟩
      · change 2 ^ 32 ≤ (shared.allocate payload).2.heap.slots.size + 1
        rw [heap]
        exact full
      · have wait := shows.wait
        change (executor.push _).wait = none
        unfold Executor.push Executor.fail
        split
        · exact wait
        · split <;> exact wait
    · obtain ⟨later, after, represents⟩ := made _ _ allocated sound (Nat.lt_of_not_le full)
      have placed := after.withShared surface heap
      rw [← word, ← heap] at represents
      obtain ⟨final, pushed, reached⟩ := placed.push item represents
      exact ⟨final, pushed, reached.imp_left fun final => ⟨later, final⟩⟩
  · have none : Exec.allocate? payload session = .ok none session := by
      unfold Exec.allocate?
      simp only [space]
      rfl
    refine ⟨{ session with executor := session.executor.fail .allocFailed }, ?_, Or.inr ?_⟩
    · unfold Exec.pushNew
      rw [exec_bind none]
      rfl
    · unfold Executor.fail
      rw [shows.running]
      exact ⟨Or.inr (Or.inl rfl), shows.wait⟩

theorem Shows.pushObject {payload : Payload}
    (shows : Shows compilation lazies position config session) (represents : ∀ heap word,
      (∀ {type value other}, Represents compilation lazies session.shared.heap type value other →
        Represents compilation lazies heap type value other) →
      heap.Contains word payload →
      Represents compilation lazies heap item.1 item.2 word) :
    ∃ after, Exec.pushNew payload session = .ok () after ∧
      (Depicts compilation position { config with operands := item :: config.operands } after ∨
        Spent after) := by
  refine shows.pushNew fun heap word allocated sound room => ⟨lazies, ?_, ?_⟩
  · exact shows.grow allocated.contains sound room
  · exact represents heap word
      (fun represents => represents.grow allocated.contains fun known => known)
      allocated.contains_new

/-! ## Scalars -/

def popScalar : (scalar : Scalar) → Exec scalar.Carrier
  | .int => Exec.popInt
  | .long => Exec.popLong
  | .float => Exec.popFloat
  | .string => Exec.popText

def pushScalar : (scalar : Scalar) → scalar.Carrier → Exec Unit
  | .int, value => Exec.pushInt value
  | .long, value => Exec.pushLong value
  | .float, bits => Exec.pushFloat bits
  | .string, text => Exec.pushString text

theorem Shows.popScalar (scalar : Scalar) {type : TypeId} {value : scalar.Carrier}
    (shows : Shows compilation lazies position config session)
    (top : config.operands = (type, .ofScalar scalar value) :: rest) :
    ∃ after, Evaluation.popScalar scalar session = .ok value after ∧
      Shows compilation lazies position { config with operands := rest } after := by
  obtain ⟨word, after, popped, shared, represents, shown⟩ := shows.pop top
  cases scalar with
  | int =>
    refine ⟨after, ?_, shown⟩
    change (do return (← Exec.pop).toInt : Exec Int32) session = _
    rw [exec_bind popped]
    cases represents
    rw [Word.toInt_ofInt]
    rfl
  | long =>
    refine ⟨after, ?_, shown⟩
    change (do Exec.long (← Exec.pop) : Exec Int64) session = _
    rw [exec_bind popped]
    refine exec_look (·.long word) ?_
    rw [shared]
    cases represents with
    | long _ stored =>
      unfold Heap.long
      rcases stored with ⟨rfl, positive⟩ | ⟨size, found⟩
      · rw [Word.isRef_ofInlineLong, if_neg Bool.false_ne_true,
          Word.toInlineLong_ofInlineLong positive]
      · rw [(Heap.deref_eq_ok.1 found).1, if_pos rfl, found]
  | float =>
    refine ⟨after, ?_, shown⟩
    change (do return (← Exec.pop).bits32 : Exec Number.Single) session = _
    rw [exec_bind popped]
    cases represents
    rw [Word.ofFloat, Word.bits32_ofBits32]
    rfl
  | string =>
    cases represents with
    | string _ spells =>
      rw [← shared] at spells
      obtain ⟨final, read, _, remains⟩ := shown.text spells
      refine ⟨final, ?_, remains⟩
      change (do Exec.text (← Exec.pop) : Exec Bytes) session = _
      rw [exec_bind popped]
      exact read

theorem Shows.pushScalar (scalar : Scalar) {type : TypeId}
    (shows : Shows compilation lazies position config session)
    (typed : hasScalar compilation.program type scalar = true) (value : scalar.Carrier) :
    ∃ after, Evaluation.pushScalar scalar value session = .ok () after ∧
      (Depicts compilation position
        { config with operands := (type, .ofScalar scalar value) :: config.operands } after ∨
          Spent after) := by
  have depicts : ∀ {word : Word},
      Represents compilation lazies session.shared.heap type (.ofScalar scalar value) word →
      ∃ after, Exec.push word session = .ok () after ∧
        (Depicts compilation position
          { config with operands := (type, .ofScalar scalar value) :: config.operands } after ∨
            Spent after) := by
    intro word represents
    obtain ⟨after, pushed, reached⟩ := shows.push (type, .ofScalar scalar value) represents
    exact ⟨after, pushed, reached.imp_left fun final => ⟨lazies, final⟩⟩
  cases scalar with
  | int => exact depicts (.int value typed)
  | long =>
    change ∃ after, (if 0 ≤ value then _ else _ : Exec Unit) session = _ ∧ _
    by_cases positive : (0 : Int64) ≤ value
    · rw [if_pos positive]
      exact depicts (.long typed (Or.inl ⟨rfl, positive⟩))
    · rw [if_neg positive]
      exact shows.pushObject fun heap word _ contains => .long typed (Or.inr contains)
  | float => exact depicts (.float value typed)
  | string => exact shows.pushObject fun heap word _ contains => .string typed (.string contains)

end

end WordMachine.Evaluation
