import WordMachine.Proofs.ContainedSteps
import WordMachine.Proofs.SingleComparisons

/-!
The six comparisons of ints, longs and floats. Three of them have an operation of their own, the
others are the opposite of one of these. That makes a consistent set of comparisons where any two
operands are ordered, which leaves out NaN.
-/

namespace WordMachine

open Evaluation (exec_bind exec_pop withOperands)
open Number (Single)

/-- What two operands are compared for. -/
inductive Comparison where
  | eq | ne | lt | le | gt | ge
  deriving DecidableEq

/-- The types with all six comparisons. -/
inductive Compared where
  | int | long | float

namespace Comparison

def tested : Comparison → Ordering
  | .eq => .eq
  | .ne => .eq
  | .lt => .lt
  | .le => .gt
  | .gt => .gt
  | .ge => .lt

/-- Whether a comparison holds where its operands are not ordered in the way it asks for. -/
def isOpposite : Comparison → Bool
  | .eq => false
  | .ne => true
  | .lt => false
  | .le => true
  | .gt => false
  | .ge => true

def answer (comparison : Comparison) (order : Option Ordering) : Bool :=
  if comparison.isOpposite then !(order == some comparison.tested)
  else order == some comparison.tested

end Comparison

namespace Compared

def Carrier : Compared → Type
  | .int => Int32
  | .long => Int64
  | .float => Single

/-- The built-in function that makes a comparison. -/
def kind : Compared → Comparison → FuncKind
  | .int, .eq => .eqInt
  | .int, .ne => .neInt
  | .int, .lt => .ltInt
  | .int, .le => .leInt
  | .int, .gt => .gtInt
  | .int, .ge => .geInt
  | .long, .eq => .eqLong
  | .long, .ne => .neLong
  | .long, .lt => .ltLong
  | .long, .le => .leLong
  | .long, .gt => .gtLong
  | .long, .ge => .geLong
  | .float, .eq => .eqFloat
  | .float, .ne => .neFloat
  | .float, .lt => .ltFloat
  | .float, .le => .leFloat
  | .float, .gt => .gtFloat
  | .float, .ge => .geFloat

/-- The operation that asks for an order of its operands. -/
def test : Compared → Ordering → Opcode
  | .int, .lt => .ltInt
  | .int, .eq => .eqInt
  | .int, .gt => .gtInt
  | .long, .lt => .ltLong
  | .long, .eq => .eqLong
  | .long, .gt => .gtLong
  | .float, .lt => .ltFloat
  | .float, .eq => .eqFloat
  | .float, .gt => .gtFloat

theorem operations?_kind (type : Compared) (comparison : Comparison) :
    (type.kind comparison).operations? =
      some (type.test comparison.tested :: if comparison.isOpposite then [.notInt] else []) := by
  cases type <;> cases comparison <;> rfl

/-- Whether a word is read as a value; a long may be in an object. -/
def Reads (heap : Heap) : (type : Compared) → Word → type.Carrier → Prop
  | .int, word, value => word.toInt = value
  | .long, word, value => heap.long word = .ok value
  | .float, word, bits => word.bits32 = bits

/-- How values are ordered: ints and longs with their signs, floats like their exact values. -/
def order : (type : Compared) → type.Carrier → type.Carrier → Option Ordering
  | .int, (left : Int32), (right : Int32) => some (compare left.toInt right.toInt)
  | .long, (left : Int64), (right : Int64) => some (compare left.toInt right.toInt)
  | .float, left, right => Single.order left right

/-- Whether one of two values is a NaN. -/
def isUnordered : (type : Compared) → type.Carrier → type.Carrier → Bool
  | .int, _, _ => false
  | .long, _, _ => false
  | .float, left, right => Single.isNaN left || Single.isNaN right

theorem order_eq_none (type : Compared) (left right : type.Carrier) :
    type.order left right = none ↔ type.isUnordered left right = true := by
  cases type with
  | int => simp [order, isUnordered]
  | long => simp [order, isUnordered]
  | float =>
    rw [isUnordered, Bool.or_eq_true]
    exact Single.order_eq_none left right

theorem order_swap (type : Compared) (left right : type.Carrier) :
    type.order right left = (type.order left right).map Ordering.swap := by
  cases type with
  | int => exact congrArg some Std.OrientedOrd.eq_swap
  | long => exact congrArg some Std.OrientedOrd.eq_swap
  | float => exact Single.order_swap left right

end Compared

/-! ## Single operations -/

namespace Exec

variable {session : Session} {rest : Array Word} {first second : Word}

theorem pushBool_eq (answer : Bool) (room : rest.size < session.executor.eval.capacity) :
    pushBool answer (withOperands session rest) =
      .ok () (withOperands session (rest.push (.ofBool answer))) := by
  simp [pushBool, push, modifyExecutor, Executor.push, withOperands, room]

theorem popFloat_eq {word : Word} (items : session.executor.eval.items = rest.push word) :
    popFloat session = .ok word.bits32 (withOperands session rest) :=
  exec_bind (exec_pop items)

theorem intTest_eq (test : Int32 → Int32 → Bool)
    (room : rest.size < session.executor.eval.capacity) :
    intTest test (withOperands session ((rest.push first).push second)) =
      .ok () (withOperands session (rest.push (.ofBool (test first.toInt second.toInt)))) := by
  have right : popInt (withOperands session ((rest.push first).push second)) =
      .ok second.toInt (withOperands session (rest.push first)) := popInt_eq rfl
  have left : popInt (withOperands session (rest.push first)) =
      .ok first.toInt (withOperands session rest) := popInt_eq rfl
  unfold intTest
  rw [exec_bind right, exec_bind left]
  exact pushBool_eq _ room

theorem longTest_eq {left right : Int64} (test : Int64 → Int64 → Bool)
    (room : rest.size < session.executor.eval.capacity)
    (firstLong : session.shared.heap.long first = .ok left)
    (secondLong : session.shared.heap.long second = .ok right) :
    longTest test (withOperands session ((rest.push first).push second)) =
      .ok () (withOperands session (rest.push (.ofBool (test left right)))) := by
  have taken : popLong (withOperands session ((rest.push first).push second)) =
      .ok right (withOperands session (rest.push first)) := popLong_eq rfl secondLong
  have last : popLong (withOperands session (rest.push first)) =
      .ok left (withOperands session rest) := popLong_eq rfl firstLong
  unfold longTest
  rw [exec_bind taken, exec_bind last]
  exact pushBool_eq _ room

theorem floatTest_eq (test : Single → Single → Bool)
    (room : rest.size < session.executor.eval.capacity) :
    floatTest test (withOperands session ((rest.push first).push second)) =
      .ok () (withOperands session (rest.push (.ofBool (test first.bits32 second.bits32)))) := by
  have right : popFloat (withOperands session ((rest.push first).push second)) =
      .ok second.bits32 (withOperands session (rest.push first)) := popFloat_eq rfl
  have left : popFloat (withOperands session (rest.push first)) =
      .ok first.bits32 (withOperands session rest) := popFloat_eq rfl
  unfold floatTest
  rw [exec_bind right, exec_bind left]
  exact pushBool_eq _ room

theorem notInt_eq (assembly : Assembly) (operands : Nat) (answer : Bool)
    (room : rest.size < session.executor.eval.capacity) :
    perform assembly .notInt operands (withOperands session (rest.push (.ofBool answer))) =
      .ok () (withOperands session (rest.push (.ofBool !answer))) := by
  have taken : popInt (withOperands session (rest.push (.ofBool answer))) =
      .ok (Word.ofBool answer).toInt (withOperands session rest) := popInt_eq rfl
  have opposite : ((Word.ofBool answer).toInt == 0) = !answer := by
    cases answer <;> decide
  change (popInt >>= fun value => pushBool (value == 0)) _ = _
  rw [exec_bind taken, opposite]
  exact pushBool_eq _ room

/-- Carries out operations without operands one after another. -/
def performAll (assembly : Assembly) (operands : Nat) (ops : List Opcode) : Exec Unit :=
  ops.forM fun op => perform assembly op operands

end Exec

/-! ## The operations of a comparison -/

/-- Whether the operations of a built-in function replace two operands by an answer. -/
def FuncKind.Answers (assembly : Assembly) (operands : Nat) (session : Session)
    (rest : Array Word) (kind : FuncKind) (first second : Word) (answer : Bool) : Prop :=
  ∃ ops, kind.operations? = some ops ∧
    Exec.performAll assembly operands ops (withOperands session ((rest.push first).push second)) =
      .ok () (withOperands session (rest.push (.ofBool answer)))

section

variable {assembly : Assembly} {operands : Nat} {session : Session} {rest : Array Word}
  {first second : Word}

theorem compare_toInt32 (left right : Int32) (ordering : Ordering) :
    (some (compare left.toInt right.toInt) == some ordering) =
      match ordering with
      | .lt => decide (left < right)
      | .eq => left == right
      | .gt => decide (right < left) := by
  rw [Bool.eq_iff_iff, beq_iff_eq, Option.some.injEq]
  cases ordering with
  | lt => rw [compare_lt_iff_lt, decide_eq_true_iff, Int32.lt_iff_toInt_lt]
  | eq => rw [compare_eq_iff_eq, Int32.toInt_inj, beq_iff_eq]
  | gt => rw [compare_gt_iff_gt, decide_eq_true_iff, Int32.lt_iff_toInt_lt]

theorem compare_toInt64 (left right : Int64) (ordering : Ordering) :
    (some (compare left.toInt right.toInt) == some ordering) =
      match ordering with
      | .lt => decide (left < right)
      | .eq => left == right
      | .gt => decide (right < left) := by
  rw [Bool.eq_iff_iff, beq_iff_eq, Option.some.injEq]
  cases ordering with
  | lt => rw [compare_lt_iff_lt, decide_eq_true_iff, Int64.lt_iff_toInt_lt]
  | eq => rw [compare_eq_iff_eq, Int64.toInt_inj, beq_iff_eq]
  | gt => rw [compare_gt_iff_gt, decide_eq_true_iff, Int64.lt_iff_toInt_lt]

/-- An operation tells whether its operands are ordered in the way it asks for. -/
theorem perform_test (assembly : Assembly) (operands : Nat) {type : Compared}
    {left right : type.Carrier} (ordering : Ordering)
    (room : rest.size < session.executor.eval.capacity)
    (firstRead : type.Reads session.shared.heap first left)
    (secondRead : type.Reads session.shared.heap second right) :
    Exec.perform assembly (type.test ordering) operands
        (withOperands session ((rest.push first).push second)) =
      .ok () (withOperands session
        (rest.push (.ofBool (type.order left right == some ordering)))) := by
  cases type with
  | int =>
    cases firstRead
    cases secondRead
    simp only [Compared.order, compare_toInt32]
    cases ordering <;> exact Exec.intTest_eq _ room
  | long =>
    rw [show (Compared.long.order left right == some ordering) = _ from
      compare_toInt64 left right ordering]
    cases ordering <;> exact Exec.longTest_eq _ room firstRead secondRead
  | float =>
    cases firstRead
    cases secondRead
    simp only [Compared.order]
    cases ordering with
    | lt =>
      rw [← Single.lt_eq_order]
      exact Exec.floatTest_eq _ room
    | eq =>
      rw [← Single.eq_eq_order]
      exact Exec.floatTest_eq _ room
    | gt =>
      rw [← Single.gt_eq_order]
      exact Exec.floatTest_eq _ room

theorem answers_kind (assembly : Assembly) (operands : Nat) {type : Compared}
    {left right : type.Carrier} (comparison : Comparison)
    (room : rest.size < session.executor.eval.capacity)
    (firstRead : type.Reads session.shared.heap first left)
    (secondRead : type.Reads session.shared.heap second right) :
    (type.kind comparison).Answers assembly operands session rest first second
      (comparison.answer (type.order left right)) := by
  have tests := perform_test assembly operands comparison.tested room firstRead secondRead
  refine ⟨_, type.operations?_kind comparison, ?_⟩
  change (Exec.perform assembly (type.test comparison.tested) operands >>= fun _ =>
    Exec.performAll assembly operands (if comparison.isOpposite then [.notInt] else [])) _ = _
  rw [exec_bind tests, Comparison.answer]
  cases comparison.isOpposite with
  | false => rfl
  | true =>
    change (Exec.perform assembly .notInt operands >>= fun _ => pure ()) _ = _
    rw [exec_bind (Exec.notInt_eq assembly operands _ room)]
    rfl

/-- The comparisons of two operands. Those of floats are the comparisons of their exact values, and
all are consistent, also with those of the operands exchanged. If an operand is NaN, only the
comparisons that are made as an opposite hold. -/
theorem comparisons_consistent (assembly : Assembly) (operands : Nat) {type : Compared}
    {left right : type.Carrier} (room : rest.size < session.executor.eval.capacity)
    (firstRead : type.Reads session.shared.heap first left)
    (secondRead : type.Reads session.shared.heap second right) :
    ∃ forth back : Comparison → Bool,
      (∀ comparison,
        (type.kind comparison).Answers assembly operands session rest first second
            (forth comparison) ∧
          (type.kind comparison).Answers assembly operands session rest second first
            (back comparison)) ∧
      (forth .eq = (type.order left right == some .eq) ∧
        forth .lt = (type.order left right == some .lt) ∧
        forth .gt = (type.order left right == some .gt)) ∧
      forth .ne = !forth .eq ∧ forth .lt = back .gt ∧ forth .le = back .ge ∧
      (type.isUnordered left right = false →
        forth .le = (forth .lt || forth .eq) ∧ forth .ge = (forth .gt || forth .eq)) ∧
      (type.isUnordered left right = true →
        forth .le = true ∧ forth .ge = true ∧
          forth .eq = false ∧ forth .lt = false ∧ forth .gt = false) := by
  refine ⟨fun comparison => comparison.answer (type.order left right),
    fun comparison => comparison.answer (type.order right left), ?_, ⟨rfl, rfl, rfl⟩, rfl, ?_, ?_,
    ?_, ?_⟩
  · intro comparison
    exact ⟨answers_kind assembly operands comparison room firstRead secondRead,
      answers_kind assembly operands comparison room secondRead firstRead⟩
  · rw [type.order_swap left right]
    cases type.order left right with
    | none => rfl
    | some ordering => cases ordering <;> rfl
  · rw [type.order_swap left right]
    cases type.order left right with
    | none => rfl
    | some ordering => cases ordering <;> rfl
  · intro ordered
    cases order : type.order left right with
    | none =>
      rw [(type.order_eq_none left right).1 order] at ordered
      cases ordered
    | some ordering => cases ordering <;> exact ⟨rfl, rfl⟩
  · intro unordered
    rw [(type.order_eq_none left right).2 unordered]
    exact ⟨rfl, rfl, rfl, rfl, rfl⟩

end

def roomForTwo : Session :=
  let machine := Machine.new { code := ByteArray.empty, literals := #[], entries := #[] }
    { evalStack := 2 } default .off
  { executor := Executor.start machine.shared.settings 0, shared := machine.shared }

/-- Three is at most five. -/
theorem comparisons_consistent_ints :
    FuncKind.leInt.Answers default 0 roomForTwo #[] (.ofInt 3) (.ofInt 5) true := by
  have room : (#[] : Array Word).size < roomForTwo.executor.eval.capacity := by decide
  have three : Compared.int.Reads roomForTwo.shared.heap (.ofInt 3) (3 : Int32) := by
    exact Word.toInt_ofInt 3
  have five : Compared.int.Reads roomForTwo.shared.heap (.ofInt 5) (5 : Int32) := by
    exact Word.toInt_ofInt 5
  obtain ⟨forth, _, answers, ⟨_, less, _⟩, _, _, _, ordered, _⟩ :=
    comparisons_consistent default 0 room three five
  have least : forth .le = true := by
    rw [(ordered rfl).1, less]
    rfl
  rw [← least]
  exact (answers .le).1

/-- As a float that is at most another is one that is not greater, a NaN is at most itself, and is
neither less than nor equal to itself. -/
theorem complement_holds_of_nan :
    ¬∀ (session : Session) (rest : Array Word) (first second : Word) (atMost less same : Bool),
      rest.size < session.executor.eval.capacity →
      FuncKind.leFloat.Answers default 0 session rest first second atMost →
      FuncKind.ltFloat.Answers default 0 session rest first second less →
      FuncKind.eqFloat.Answers default 0 session rest first second same →
        atMost = (less || same) := by
  intro consistent
  have room : (#[] : Array Word).size < roomForTwo.executor.eval.capacity := by decide
  have nan : Compared.float.Reads roomForTwo.shared.heap (.ofFloat 0x7fc00000)
      (0x7fc00000 : Single) := Word.bits32_ofBits32 0x7fc00000
  have unordered : Compared.float.order (0x7fc00000 : Single) (0x7fc00000 : Single) = none :=
    (Single.order_eq_none _ _).2 (.inl (by decide))
  have holds := fun comparison => answers_kind default 0 comparison room nan nan
  rw [unordered] at holds
  have claimed := consistent roomForTwo #[] _ _ _ _ _ room (holds .le) (holds .lt) (holds .eq)
  exact absurd claimed (by decide)

end WordMachine
