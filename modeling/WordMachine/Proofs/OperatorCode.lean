import WordMachine.Proofs.Operands

/-!
The code of built-in operators: an instruction computes an operator on the scalars on top of the
stack, and the code of a kind of function is a sequence of such instructions that computes what the
kind stands for.
-/

namespace WordMachine.Evaluation

open Lowering (Code emit plain)

/-! ## Single operators -/

/-- Computes an operator on the operands. -/
def operate : Operation → Exec Unit
  | .constant output value => pushScalar output value
  | .unary input output apply => do pushScalar output (apply (← popScalar input))
  | .binary left right output apply => do
    let second ← popScalar right
    let first ← popScalar left
    pushScalar output (apply first second)
  | .division scalar isZero apply => do
    let second ← popScalar scalar
    let first ← popScalar scalar
    if isZero second then Exec.fail .divByZero else pushScalar scalar (apply first second)
  | .slicing => Exec.slice

def Results (compilation : Compilation) (position : Nat) (config : Config) (type : TypeId)
    (outcome : Except Stop Value) (session : Session) : Prop :=
  match outcome with
  | .ok value =>
    Depicts compilation position { config with operands := (type, value) :: config.operands }
      session
  | .error (.ended state) => Ended compilation state config.effects session
  | .error _ => False

theorem haveScalars_iff {program : Program} {types : List TypeId} {scalars : List Scalar} :
    haveScalars program types scalars = true ↔
      List.Forall₂ (fun type scalar => hasScalar program type scalar = true) types scalars := by
  induction types generalizing scalars with
  | nil => cases scalars <;> simp [haveScalars]
  | cons type types ih =>
    cases scalars with
    | nil => simp [haveScalars]
    | cons scalar scalars => simp [haveScalars, ih]

section

variable {compilation : Compilation} {lazies : Lazies} {position : Nat} {config : Config}
variable {session : Session}
variable {item : Typed} {rest : List Typed}

theorem Shows.represented (shows : Shows compilation lazies position config session)
    (member : item ∈ config.operands) :
    ∃ word, Represents compilation lazies session.shared.heap item.1 item.2 word := by
  have operands := shows.operands
  generalize session.executor.eval.items.toList.reverse = words at operands
  generalize config.operands = items at operands member
  induction operands with
  | nil => cases member
  | cons first _ ih =>
    rcases List.mem_cons.1 member with rfl | member
    · exact ⟨_, first⟩
    · exact ih member

theorem Shows.exists_scalar {scalar : Scalar}
    (shows : Shows compilation lazies position config session) (member : item ∈ config.operands)
    (typed : hasScalar compilation.program item.1 scalar = true) :
    ∃ value, item.2 = .ofScalar scalar value := by
  obtain ⟨word, represents⟩ := shows.represented member
  exact represents.scalar typed

theorem Shows.popTyped {scalar : Scalar} (shows : Shows compilation lazies position config session)
    (top : config.operands = item :: rest)
    (typed : hasScalar compilation.program item.1 scalar = true) :
    ∃ value after, item.2 = .ofScalar scalar value ∧
      Evaluation.popScalar scalar session = .ok value after ∧
      Shows compilation lazies position { config with operands := rest } after := by
  obtain ⟨value, same⟩ := shows.exists_scalar (by rw [top]; exact List.mem_cons_self) typed
  obtain ⟨type, content⟩ := item
  cases same
  obtain ⟨after, popped, shown⟩ := shows.popScalar _ top
  exact ⟨value, after, rfl, popped, shown⟩

theorem Shows.end (shows : Shows compilation lazies position config session) (state : ExecState) :
    ∃ after, Exec.fail state session = .ok () after ∧
      Ended compilation state config.effects after := by
  refine ⟨{ session with executor := { session.executor with state } }, ?_, ?_⟩
  · unfold Exec.fail Exec.modifyExecutor Executor.fail
    simp only [shows.running]
  · exact ⟨shows.surface, rfl, shows.wait, shows.promise⟩

theorem toScalar?_ofScalar (scalar : Scalar) (value : scalar.Carrier) :
    (Value.ofScalar scalar value).toScalar? scalar = some value := by
  cases scalar <;> rfl

theorem Shows.slice {type result : TypeId} {text : Bytes} {first last : Int32}
    {firstType lastType : TypeId} (shows : Shows compilation lazies position config session)
    (top : config.operands = (lastType, .int last) :: (firstType, .int first) ::
      (type, .string text) :: rest) (typed : hasScalar compilation.program result .string = true) :
    ∃ after, Exec.slice session = .ok () after ∧
      (Depicts compilation position
        { config with operands := (result, .string (sliceText text first last)) :: rest } after ∨
          Spent after) := by
  obtain ⟨second, lastPopped, shown⟩ := shows.popScalar .int top
  obtain ⟨third, firstPopped, shown⟩ := shown.popScalar .int rfl
  obtain ⟨word, fourth, popped, shared, represents, shown⟩ := shown.pop rfl
  have spells : third.shared.heap.Spells word text := by
    cases represents
    assumption
  rw [← shared] at spells represents
  obtain ⟨fifth, read, kept, shown⟩ := shown.text spells
  have run : Exec.slice session =
      (if (clampRange text.size first last).1 = 0 ∧ (clampRange text.size first last).2 = text.size
        then Exec.push word
        else Exec.pushString (text.extract (clampRange text.size first last).1
          (clampRange text.size first last).2)) fifth := by
    unfold Exec.slice
    rw [exec_bind (show Exec.popInt session = _ from lastPopped),
      exec_bind (show Exec.popInt second = _ from firstPopped), exec_bind popped, exec_bind read]
  rw [run]
  by_cases whole : (clampRange text.size first last).1 = 0 ∧
      (clampRange text.size first last).2 = text.size
  · rw [if_pos whole]
    have same : sliceText text first last = text := by
      change text.extract (clampRange text.size first last).1 (clampRange text.size first last).2 =
        text
      rw [whole.1, whole.2, ByteArray.extract_zero_size]
    rw [same]
    have again : Represents compilation lazies fifth.shared.heap result (.string text) word := by
      cases kept represents with
      | string _ spells => exact .string typed spells
    obtain ⟨after, pushed, reached⟩ := shown.push (result, .string text) again
    exact ⟨after, pushed, reached.imp_left fun final => ⟨lazies, final⟩⟩
  · rw [if_neg whole]
    exact shown.pushScalar .string typed (sliceText text first last)

/-- An operator takes scalars off and puts its result on. -/
theorem Shows.operate {operation : Operation} {items : List Typed} {result : TypeId}
    (shows : Shows compilation lazies position config session)
    (top : config.operands = items.reverse ++ rest)
    (typed : haveScalars compilation.program (items.map Prod.fst) operation.inputs = true)
    (resultTyped : hasScalar compilation.program result operation.output = true) :
    ∃ after, Evaluation.operate operation session = .ok () after ∧
      (Results compilation position { config with operands := rest } result
        (operation.apply (items.map Prod.snd)) after ∨ Spent after) := by
  have given := List.forall₂_map_left_iff.1 (haveScalars_iff.1 typed)
  have delivers : ∀ {middle : Session}
      (shown : Shows compilation lazies position { config with operands := rest } middle)
      (value : operation.output.Carrier),
      ∃ after, Evaluation.pushScalar operation.output value middle = .ok () after ∧
        (Results compilation position { config with operands := rest } result
          (.ok (.ofScalar operation.output value)) after ∨ Spent after) :=
    fun shown value => shown.pushScalar _ resultTyped value
  cases operation with
  | constant output value =>
    cases given
    have shown : Shows compilation lazies position { config with operands := rest } session := by
      have same : config.operands = rest := top
      rw [← same]
      exact shows
    exact delivers shown value
  | unary input output apply =>
    cases given with
    | cons fits others =>
      cases others
      obtain ⟨value, after, same, popped, shown⟩ := shows.popTyped top fits
      change ∃ after, (do Evaluation.pushScalar output (apply (← Evaluation.popScalar input)) :
        Exec Unit) session = _ ∧ _
      rw [exec_bind popped, List.map_singleton, same]
      simp only [Operation.apply, toScalar?_ofScalar]
      exact delivers shown (apply value)
  | binary left right output apply =>
    cases given with
    | cons leftTyped others =>
      cases others with
      | cons rightTyped others =>
        cases others
        obtain ⟨second, middle, secondSame, secondPopped, shown⟩ :=
          shows.popTyped top rightTyped
        obtain ⟨first, after, firstSame, firstPopped, shown⟩ := shown.popTyped rfl leftTyped
        change ∃ after, (do
          let second ← Evaluation.popScalar right
          let first ← Evaluation.popScalar left
          Evaluation.pushScalar output (apply first second) : Exec Unit) session = _ ∧ _
        rw [exec_bind secondPopped, exec_bind firstPopped, List.map_cons, List.map_singleton,
          firstSame, secondSame]
        simp only [Operation.apply, toScalar?_ofScalar]
        exact delivers shown (apply first second)
  | division scalar isZero apply =>
    cases given with
    | cons leftTyped others =>
      cases others with
      | cons rightTyped others =>
        cases others
        obtain ⟨second, middle, secondSame, secondPopped, shown⟩ :=
          shows.popTyped top rightTyped
        obtain ⟨first, after, firstSame, firstPopped, shown⟩ := shown.popTyped rfl leftTyped
        change ∃ after, (do
          let second ← Evaluation.popScalar scalar
          let first ← Evaluation.popScalar scalar
          if isZero second then Exec.fail .divByZero
            else Evaluation.pushScalar scalar (apply first second) : Exec Unit) session = _ ∧ _
        rw [exec_bind secondPopped, exec_bind firstPopped, List.map_cons, List.map_singleton,
          firstSame, secondSame]
        simp only [Operation.apply, toScalar?_ofScalar]
        by_cases zero : isZero second = true
        · rw [if_pos zero, if_pos zero]
          obtain ⟨final, failed, ended⟩ := shown.end .divByZero
          exact ⟨final, failed, Or.inl ended⟩
        · rw [if_neg zero, if_neg zero]
          exact delivers shown (apply first second)
  | slicing =>
    cases given with
    | cons textTyped others =>
      cases others with
      | cons firstTyped others =>
        cases others with
        | cons lastTyped others =>
          cases others
          next text first last =>
          obtain ⟨textType, _⟩ := text
          obtain ⟨firstType, _⟩ := first
          obtain ⟨lastType, _⟩ := last
          obtain ⟨_, rfl⟩ := shows.exists_scalar (by rw [top]; simp) textTyped
          obtain ⟨_, rfl⟩ := shows.exists_scalar (by rw [top]; simp) firstTyped
          obtain ⟨_, rfl⟩ := shows.exists_scalar (by rw [top]; simp) lastTyped
          exact shows.slice top resultTyped

end

end WordMachine.Evaluation
