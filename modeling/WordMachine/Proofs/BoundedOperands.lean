import Mathlib.Data.List.DropRight
import WordMachine.Machine.OperandCells

/-!
Operands as a bounded list. Whatever is asked of a stack of operands, and however often its places
were used before, it answers as a list of values does that may grow up to the capacity.
-/

namespace WordMachine

/-! ## Bounded lists -/

/-- What a list of values that may grow up to a capacity answers to a request, and the list after
it. The values are in order, bottom first. -/
inductive Answers (capacity : Nat) (values : List Word) :
    OperandRequest → OperandAnswer → List Word → Prop
  | push {word : Word} (room : values.length < capacity) :
      Answers capacity values (.push word) .pushed (values ++ [word])
  | refuse {word : Word} (full : values.length = capacity) :
      Answers capacity values (.push word) .refused values
  | pop {below : List Word} {word : Word} (shape : values = below ++ [word]) :
      Answers capacity values .pop (.word word) below
  | popEmpty (empty : values = []) : Answers capacity values .pop (.fault .popEmpty) values
  | peekBehind {below above : List Word} {word : Word} {depth : Nat}
      (shape : values = below ++ word :: above) (place : above.length = depth) :
      Answers capacity values (.peekBehind depth) (.word word) values
  | peekPast {depth : Nat} (past : values.length ≤ depth) :
      Answers capacity values (.peekBehind depth) (.fault (.peekBehind depth values.length)) values
  | popAt {below above : List Word} {word : Word} {depth : Nat}
      (shape : values = below ++ word :: above) (place : above.length = depth) :
      Answers capacity values (.popAt depth) (.word word) (below ++ above)
  | popPast {depth : Nat} (past : values.length ≤ depth) :
      Answers capacity values (.popAt depth) (.fault (.popBehind depth values.length)) values
  | popMany {below above : List Word} {count : Nat} (shape : values = below ++ above)
      (many : above.length = count) :
      Answers capacity values (.popMany count) (.words above) below
  | popTooMany {count : Nat} (past : values.length < count) :
      Answers capacity values (.popMany count) (.fault (.popMany count values.length)) values

/-- The answers of a bounded list to requests one after another, each with the list after it. -/
inductive Recorded (capacity : Nat) :
    List Word → List OperandRequest → List (OperandAnswer × List Word) → Prop
  | nil {values : List Word} : Recorded capacity values [] []
  | cons {values next : List Word} {request : OperandRequest} {answer : OperandAnswer}
      {rest : List OperandRequest} {record : List (OperandAnswer × List Word)}
      (first : Answers capacity values request answer next)
      (others : Recorded capacity next rest record) :
      Recorded capacity values (request :: rest) ((answer, next) :: record)

variable {capacity depth count : Nat} {values next next' below below' above above' : List Word}
variable {word word' : Word} {request : OperandRequest} {answer answer' : OperandAnswer}

theorem depth_lt_length (shape : values = below ++ word :: above) (place : above.length = depth) :
    depth < values.length := by
  rw [shape, List.length_append, List.length_cons, place]
  omega

theorem count_le_length (shape : values = below ++ above) (many : above.length = count) :
    count ≤ values.length := by
  rw [shape, List.length_append, many]
  exact Nat.le_add_left _ _

theorem parts_unique (shape : values = below ++ word :: above) (place : above.length = depth)
    (shape' : values = below' ++ word' :: above') (place' : above'.length = depth) :
    below = below' ∧ word = word' ∧ above = above' := by
  have lengths : (word :: above).length = (word' :: above').length := by
    rw [List.length_cons, List.length_cons, place, place']
  obtain ⟨lower, upper⟩ := List.append_inj' (shape.symm.trans shape') lengths
  exact ⟨lower, List.cons.inj upper⟩

theorem parts_of_depth (inside : depth < values.length)
    (found : values[values.length - 1 - depth]? = some word) :
    values = values.take (values.length - 1 - depth) ++
        word :: values.drop (values.length - 1 - depth + 1) ∧
      (values.drop (values.length - 1 - depth + 1)).length = depth := by
  obtain ⟨bound, same⟩ := List.getElem?_eq_some_iff.1 found
  constructor
  · rw [← same, ← List.drop_eq_getElem_cons bound, List.take_append_drop]
  · rw [List.length_drop]
    omega

namespace Answers

theorem pop_dropLast (found : values[values.length - 1]? = some word) :
    Answers capacity values .pop (.word word) values.dropLast := by
  apply Answers.pop
  have last : values.getLast? = some word := by rw [List.getLast?_eq_getElem?, found]
  exact (List.dropLast_append_getLast? word last).symm

theorem peekBehind_getElem? (inside : depth < values.length)
    (found : values[values.length - 1 - depth]? = some word) :
    Answers capacity values (.peekBehind depth) (.word word) values :=
  let ⟨shape, place⟩ := parts_of_depth inside found
  .peekBehind shape place

theorem popAt_eraseIdx (inside : depth < values.length)
    (found : values[values.length - 1 - depth]? = some word) :
    Answers capacity values (.popAt depth) (.word word)
      (values.eraseIdx (values.length - 1 - depth)) := by
  obtain ⟨shape, place⟩ := parts_of_depth inside found
  rw [List.eraseIdx_eq_take_drop_succ]
  exact .popAt shape place

theorem popMany_take (inside : count ≤ values.length) :
    Answers capacity values (.popMany count) (.words (values.drop (values.length - count)))
      (values.take (values.length - count)) := by
  refine .popMany (List.take_append_drop _ _).symm ?_
  rw [List.length_drop]
  omega

theorem unique (holds : Answers capacity values request answer next)
    (other : Answers capacity values request answer' next') : answer = answer' ∧ next = next' := by
  cases holds with
  | push room =>
    cases other with
    | push => exact ⟨rfl, rfl⟩
    | refuse full => omega
  | refuse full =>
    cases other with
    | push room => omega
    | refuse => exact ⟨rfl, rfl⟩
  | pop shape =>
    cases other with
    | pop shape' =>
      obtain ⟨lower, same, -⟩ := parts_unique shape rfl shape' rfl
      exact ⟨congrArg _ same, lower⟩
    | popEmpty empty => exact absurd (empty.symm.trans shape) (by simp)
  | popEmpty empty =>
    cases other with
    | pop shape => exact absurd (empty.symm.trans shape) (by simp)
    | popEmpty => exact ⟨rfl, rfl⟩
  | peekBehind shape place =>
    cases other with
    | peekBehind shape' place' =>
      obtain ⟨-, same, -⟩ := parts_unique shape place shape' place'
      exact ⟨congrArg _ same, rfl⟩
    | peekPast past => exact absurd (depth_lt_length shape place) past.not_gt
  | peekPast past =>
    cases other with
    | peekBehind shape place => exact absurd (depth_lt_length shape place) past.not_gt
    | peekPast => exact ⟨rfl, rfl⟩
  | popAt shape place =>
    cases other with
    | popAt shape' place' =>
      obtain ⟨lower, same, upper⟩ := parts_unique shape place shape' place'
      exact ⟨congrArg _ same, congrArg₂ _ lower upper⟩
    | popPast past => exact absurd (depth_lt_length shape place) past.not_gt
  | popPast past =>
    cases other with
    | popAt shape place => exact absurd (depth_lt_length shape place) past.not_gt
    | popPast => exact ⟨rfl, rfl⟩
  | popMany shape many =>
    cases other with
    | popMany shape' many' =>
      obtain ⟨lower, upper⟩ :=
        List.append_inj' (shape.symm.trans shape') (many.trans many'.symm)
      exact ⟨congrArg _ upper, lower⟩
    | popTooMany past => exact absurd (count_le_length shape many) past.not_ge
  | popTooMany past =>
    cases other with
    | popMany shape many => exact absurd (count_le_length shape many) past.not_ge
    | popTooMany => exact ⟨rfl, rfl⟩

/-- Whatever a bounded list cannot do because it holds too little, the fault is of one class. -/
theorem code {fault : Fault} (holds : Answers capacity values request (.fault fault) next) :
    fault.code = 1003 := by
  cases holds <;> rfl

end Answers

theorem Recorded.code {requests : List OperandRequest} {record : List (OperandAnswer × List Word)}
    (holds : Recorded capacity values requests record) {fault : Fault}
    (member : (.fault fault, next) ∈ record) : fault.code = 1003 := by
  induction holds with
  | nil => exact absurd member List.not_mem_nil
  | cons first others ih =>
    rcases List.mem_cons.1 member with same | later
    · obtain ⟨rfl, rfl⟩ := Prod.mk.inj same
      exact first.code
    · exact ih later

/-! ## Stacks that are bounded lists -/

section

variable {σ : Type} {operations : OperandOperations σ} {admitted : σ → Prop} {stack : σ}

/-- A stack answers a request as the list of its values does, and is admitted after it. -/
def OperandOperations.Follows (operations : OperandOperations σ) (capacity : Nat)
    (admitted : σ → Prop) (stack : σ) (request : OperandRequest) : Prop :=
  Answers capacity (operations.live stack) request (operations.serve stack request).1
      (operations.live (operations.serve stack request).2) ∧
    admitted (operations.serve stack request).2

/-- Every admitted stack answers all requests as the list of its values does. -/
def OperandOperations.Refines (operations : OperandOperations σ) (capacity : Nat)
    (admitted : σ → Prop) : Prop :=
  ∀ stack, admitted stack → ∀ request, operations.Follows capacity admitted stack request

theorem OperandOperations.Follows.of_serve {after : σ}
    (served : operations.serve stack request = (answer, after))
    (answers : Answers capacity (operations.live stack) request answer (operations.live after))
    (stays : admitted after) : operations.Follows capacity admitted stack request := by
  unfold Follows
  rw [served]
  exact ⟨answers, stays⟩

namespace OperandOperations.Refines

theorem recorded (refines : operations.Refines capacity admitted) (requests : List OperandRequest)
    (start : admitted stack) :
    Recorded capacity (operations.live stack) requests (operations.record stack requests) := by
  induction requests generalizing stack with
  | nil => exact .nil
  | cons request rest ih =>
    obtain ⟨first, after⟩ := refines stack start request
    exact .cons first (ih after)

theorem recorded_iff (refines : operations.Refines capacity admitted)
    (requests : List OperandRequest) (start : admitted stack)
    (record : List (OperandAnswer × List Word)) :
    Recorded capacity (operations.live stack) requests record ↔
      record = operations.record stack requests := by
  constructor
  · intro holds
    induction requests generalizing stack record with
    | nil =>
      cases holds
      rfl
    | cons request rest ih =>
      cases holds with
      | cons first others =>
        obtain ⟨own, after⟩ := refines stack start request
        obtain ⟨rfl, rfl⟩ := first.unique own
        rw [ih after _ others]
        rfl
  · rintro rfl
    exact refines.recorded requests start

end OperandOperations.Refines

end

/-! ## Values in a growing array -/

namespace EvalStack

open OperandOperations (serve Follows)

/-- A stack with at most as many values as it may have. -/
structure Fits (capacity : Nat) (stack : EvalStack) : Prop where
  same : stack.capacity = capacity
  room : stack.items.size ≤ capacity

theorem length_toList (stack : EvalStack) : stack.toList.length = stack.items.size :=
  Array.length_toList

theorem getElem?_toList (stack : EvalStack) (place : Nat) :
    stack.toList[place]? = stack.items[place]? :=
  Array.getElem?_toList

variable {stack : EvalStack}

theorem follows_push (fits : stack.Fits capacity) (word : Word) :
    operations.Follows capacity (Fits capacity) stack (.push word) := by
  have ⟨same, room⟩ := fits
  by_cases space : stack.items.size < stack.capacity
  · have served : operations.serve stack (.push word) =
        (.pushed, ⟨stack.capacity, stack.items.push word⟩) := by
      simp only [serve, operations, push?, if_pos space]
    refine .of_serve served ?_ ⟨same, ?_⟩
    · change Answers capacity stack.toList _ _ (stack.items.push word).toList
      rw [Array.toList_push]
      exact .push (same ▸ space)
    · rw [Array.size_push]
      exact same ▸ space
  · have served : operations.serve stack (.push word) = (.refused, stack) := by
      simp only [serve, operations, push?, if_neg space]
    refine .of_serve served (.refuse ?_) fits
    change stack.items.size = capacity
    omega

theorem follows_pop (fits : stack.Fits capacity) :
    operations.Follows capacity (Fits capacity) stack .pop := by
  have ⟨same, room⟩ := fits
  by_cases inside : 0 < stack.items.size
  · have served : operations.serve stack .pop =
        (.word stack.items[stack.items.size - 1], ⟨stack.capacity, stack.items.pop⟩) := by
      simp only [serve, operations, pop, dif_pos inside]
    refine .of_serve served ?_ ⟨same, ?_⟩
    · change Answers capacity stack.toList _ _ stack.items.pop.toList
      rw [Array.toList_pop]
      apply Answers.pop_dropLast
      rw [getElem?_toList, length_toList]
      exact Array.getElem?_eq_getElem _
    · rw [Array.size_pop]
      omega
  · have served : operations.serve stack .pop = (.fault .popEmpty, stack) := by
      simp only [serve, operations, pop, dif_neg inside]
    refine .of_serve served (.popEmpty (List.eq_nil_of_length_eq_zero ?_)) fits
    change stack.items.size = 0
    omega

theorem follows_peekBehind (fits : stack.Fits capacity) (depth : Nat) :
    operations.Follows capacity (Fits capacity) stack (.peekBehind depth) := by
  by_cases inside : depth < stack.items.size
  · have served : operations.serve stack (.peekBehind depth) =
        (.word stack.items[stack.items.size - 1 - depth], stack) := by
      simp only [serve, operations, peekBehind, dif_pos inside]
    refine .of_serve served (.peekBehind_getElem? inside ?_) fits
    change stack.toList[stack.items.size - 1 - depth]? = _
    rw [getElem?_toList]
    exact Array.getElem?_eq_getElem _
  · have served : operations.serve stack (.peekBehind depth) =
        (.fault (.peekBehind depth stack.items.size), stack) := by
      simp only [serve, operations, peekBehind, dif_neg inside]
    exact .of_serve served (.peekPast (Nat.le_of_not_lt inside)) fits

theorem follows_popAt (fits : stack.Fits capacity) (depth : Nat) :
    operations.Follows capacity (Fits capacity) stack (.popAt depth) := by
  have ⟨same, room⟩ := fits
  by_cases inside : depth < stack.items.size
  · have served : operations.serve stack (.popAt depth) =
        (.word stack.items[stack.items.size - 1 - depth],
          ⟨stack.capacity, stack.items.eraseIdx (stack.items.size - 1 - depth)⟩) := by
      simp only [serve, operations, popAt, dif_pos inside]
    refine .of_serve served ?_ ⟨same, ?_⟩
    · change Answers capacity stack.toList _ _ (stack.items.eraseIdx _).toList
      rw [Array.toList_eraseIdx]
      apply Answers.popAt_eraseIdx inside
      change stack.toList[stack.items.size - 1 - depth]? = _
      rw [getElem?_toList]
      exact Array.getElem?_eq_getElem _
    · rw [Array.size_eraseIdx]
      omega
  · have served : operations.serve stack (.popAt depth) =
        (.fault (.popBehind depth stack.items.size), stack) := by
      simp only [serve, operations, popAt, dif_neg inside]
    exact .of_serve served (.popPast (Nat.le_of_not_lt inside)) fits

theorem follows_popMany (fits : stack.Fits capacity) (count : Nat) :
    operations.Follows capacity (Fits capacity) stack (.popMany count) := by
  have ⟨same, room⟩ := fits
  by_cases inside : count ≤ stack.items.size
  · have served : operations.serve stack (.popMany count) =
        (.words (stack.toList.drop (stack.items.size - count)),
          ⟨stack.capacity, stack.items.shrink (stack.items.size - count)⟩) := by
      simp only [serve, operations, popMany, if_pos inside, Except.map, Array.toList_extract]
      rw [List.extract_eq_take_drop, List.take_of_length_le (by simp)]
      rfl
    refine .of_serve served ?_ ⟨same, ?_⟩
    · change Answers capacity stack.toList _ _ (stack.items.shrink _).toList
      rw [Array.toList_shrink]
      exact .popMany_take inside
    · rw [Array.size_shrink]
      omega
  · have served : operations.serve stack (.popMany count) =
        (.fault (.popMany count stack.items.size), stack) := by
      simp only [serve, operations, popMany, if_neg inside, Except.map]
    exact .of_serve served (.popTooMany (Nat.lt_of_not_le inside)) fits

theorem operations_refines (capacity : Nat) : operations.Refines capacity (Fits capacity) := by
  intro stack fits request
  cases request with
  | push word => exact follows_push fits word
  | pop => exact follows_pop fits
  | peekBehind depth => exact follows_peekBehind fits depth
  | popAt depth => exact follows_popAt fits depth
  | popMany count => exact follows_popMany fits count

end EvalStack

/-! ## Places -/

namespace OperandCells

open OperandOperations (serve Follows)

variable (stack : OperandCells capacity)
variable {place : Nat}

theorem length_live : stack.live.length = stack.size := by
  rw [live, List.length_take, Vector.length_toList, Nat.min_eq_left stack.size_le]

theorem getElem?_live (inUse : place < stack.size) : stack.live[place]? = stack.cells[place]? := by
  rw [live, List.getElem?_take_of_lt inUse, Vector.getElem?_toList]

theorem live_new (capacity : Nat) : (new capacity).live = [] :=
  List.eq_nil_of_length_eq_zero (length_live _)

/-- After a shift its places hold what was in the next ones, all others what they held. -/
theorem getElem?_shiftDown (cells : Vector Word capacity) (first : Nat)
    (inside : first + count < capacity) (place : Nat) :
    (shiftDown cells first count inside)[place]? =
      if first ≤ place ∧ place < first + count then cells[place + 1]? else cells[place]? := by
  induction count generalizing cells first with
  | zero => rw [shiftDown, if_neg (by omega)]
  | succ count ih =>
    rw [shiftDown, ih]
    by_cases here : place = first
    · rw [if_neg (by omega), if_pos (by omega), here, Vector.getElem?_set_self]
      exact (Vector.getElem?_eq_getElem _).symm
    -- The later part of the shift reads no place that was written to before.
    · by_cases moved : first ≤ place ∧ place < first + (count + 1)
      · rw [if_pos (by omega), if_pos moved, Vector.getElem?_set_ne _ (by omega)]
      · rw [if_neg (by omega), if_neg moved, Vector.getElem?_set_ne _ (Ne.symm here)]

theorem take_set (cells : Vector Word capacity) (inside : place < capacity) (word : Word)
    {many : Nat} (below : many ≤ place) :
    (cells.set place word).toList.take many = cells.toList.take many := by
  rw [Vector.toList_set, List.take_set_of_le below]

theorem take_set_append (cells : Vector Word capacity) (inside : place < capacity) (word : Word) :
    (cells.set place word).toList.take (place + 1) = cells.toList.take place ++ [word] := by
  have within : place < (cells.set place word).toList.length := by rwa [Vector.length_toList]
  rw [List.take_succ_eq_append_getElem within, take_set _ _ _ (Nat.le_refl _),
    Vector.getElem_toList, Vector.getElem_set_self]

theorem take_shiftDown (inside : stack.size - 1 - depth + depth < capacity)
    (enough : depth < stack.size) :
    (shiftDown stack.cells (stack.size - 1 - depth) depth inside).toList.take (stack.size - 1) =
      stack.live.eraseIdx (stack.live.length - 1 - depth) := by
  rw [length_live]
  apply List.ext_getElem?
  intro place
  rw [List.getElem?_take, Vector.getElem?_toList, getElem?_shiftDown, List.getElem?_eraseIdx]
  by_cases below : place < stack.size - 1 - depth
  · rw [if_pos (by omega), if_neg (by omega), if_pos below, getElem?_live stack (by omega)]
  · rw [if_neg below]
    by_cases moved : place < stack.size - 1
    · rw [if_pos moved, if_pos (by omega), getElem?_live stack (by omega)]
    · rw [if_neg moved, List.getElem?_eq_none (by rw [length_live]; omega)]

/-- The values that are taken off together are still in their places. -/
theorem shown_popped (enough : count ≤ stack.size) :
    stack.shown ⟨stack.size - count, count⟩ = stack.live.drop (stack.live.length - count) := by
  rw [length_live, shown, live, List.drop_take, Nat.sub_sub_self enough]

theorem follows_push (word : Word) :
    (operations capacity).Follows capacity (fun _ => True) stack (.push word) := by
  have length := stack.length_live
  by_cases full : stack.size = capacity
  · have served : (operations capacity).serve stack (.push word) = (.refused, stack) := by
      simp only [serve, operations, push?, dif_pos full]
    exact .of_serve served (.refuse (length.trans full)) trivial
  · have room : stack.size < capacity := Nat.lt_of_le_of_ne stack.size_le full
    have served : (operations capacity).serve stack (.push word) =
        (.pushed, ⟨stack.cells.set stack.size word, stack.size + 1, room⟩) := by
      simp only [serve, operations, push?, dif_neg full]
    refine .of_serve served ?_ trivial
    change Answers capacity stack.live _ _ (List.take (stack.size + 1) _)
    rw [take_set_append]
    exact .push (length.symm ▸ room)

theorem follows_pop : (operations capacity).Follows capacity (fun _ => True) stack .pop := by
  have bound := stack.size_le
  have length := stack.length_live
  by_cases empty : stack.size = 0
  · have served : (operations capacity).serve stack .pop = (.fault .popEmpty, stack) := by
      simp only [serve, operations, pop, dif_pos empty]
    exact .of_serve served (.popEmpty (List.eq_nil_of_length_eq_zero (length.trans empty))) trivial
  · have last : stack.size - 1 < capacity := by omega
    have served : (operations capacity).serve stack .pop =
        (.word stack.cells[stack.size - 1],
          ⟨stack.cells.set (stack.size - 1) 0, stack.size - 1, Nat.le_of_lt last⟩) := by
      simp only [serve, operations, pop, dif_neg empty]
    have shorter : stack.cells.toList.take (stack.size - 1) = stack.live.dropLast := by
      rw [List.dropLast_eq_take, length, live, List.take_take, Nat.min_eq_left (Nat.sub_le _ _)]
    refine .of_serve served ?_ trivial
    change Answers capacity stack.live _ _ (List.take (stack.size - 1) _)
    rw [take_set _ _ _ (Nat.le_refl _), shorter]
    apply Answers.pop_dropLast
    rw [length, stack.getElem?_live (by omega), Vector.getElem?_eq_getElem]

theorem follows_peekBehind (depth : Nat) :
    (operations capacity).Follows capacity (fun _ => True) stack (.peekBehind depth) := by
  have bound := stack.size_le
  have length := stack.length_live
  by_cases past : stack.size ≤ depth
  · have served : (operations capacity).serve stack (.peekBehind depth) =
        (.fault (.peekBehind depth stack.live.length), stack) := by
      simp only [serve, operations, peekBehind, dif_pos past, length]
    exact .of_serve served (.peekPast (length ▸ past)) trivial
  · have inside : stack.size - 1 - depth < capacity := by omega
    have served : (operations capacity).serve stack (.peekBehind depth) =
        (.word stack.cells[stack.size - 1 - depth], stack) := by
      simp only [serve, operations, peekBehind, dif_neg past]
    refine .of_serve served (.peekBehind_getElem? (?_ : depth < stack.live.length) ?_) trivial
    · omega
    · change stack.live[stack.live.length - 1 - depth]? = _
      rw [length, stack.getElem?_live (by omega), Vector.getElem?_eq_getElem]

theorem follows_popAt (depth : Nat) :
    (operations capacity).Follows capacity (fun _ => True) stack (.popAt depth) := by
  have bound := stack.size_le
  have length := stack.length_live
  by_cases past : stack.size ≤ depth
  · have served : (operations capacity).serve stack (.popAt depth) =
        (.fault (.popBehind depth stack.live.length), stack) := by
      simp only [serve, operations, popAt, dif_pos past, length]
    exact .of_serve served (.popPast (length ▸ past)) trivial
  · have last : stack.size - 1 < capacity := by omega
    have inside : stack.size - 1 - depth + depth < capacity := by omega
    have served : (operations capacity).serve stack (.popAt depth) =
        (.word stack.cells[stack.size - 1 - depth],
          ⟨(shiftDown stack.cells (stack.size - 1 - depth) depth inside).set (stack.size - 1) 0,
            stack.size - 1, Nat.le_of_lt last⟩) := by
      simp only [serve, operations, popAt, dif_neg past]
    refine .of_serve served ?_ trivial
    change Answers capacity stack.live _ _ (List.take (stack.size - 1) _)
    rw [take_set _ _ _ (Nat.le_refl _), stack.take_shiftDown inside (by omega)]
    apply Answers.popAt_eraseIdx
    · omega
    · rw [length, stack.getElem?_live (by omega), Vector.getElem?_eq_getElem]

theorem follows_popMany (count : Nat) :
    (operations capacity).Follows capacity (fun _ => True) stack (.popMany count) := by
  have length := stack.length_live
  by_cases past : stack.size < count
  · have served : (operations capacity).serve stack (.popMany count) =
        (.fault (.popMany count stack.live.length), stack) := by
      simp only [serve, operations, popMany, if_pos past, length, Except.map]
    exact .of_serve served (.popTooMany (length ▸ past)) trivial
  · have enough : count ≤ stack.size := Nat.le_of_not_lt past
    have served : (operations capacity).serve stack (.popMany count) =
        (.words (stack.shown ⟨stack.size - count, count⟩),
          ⟨stack.cells, stack.size - count, (Nat.sub_le _ _).trans stack.size_le⟩) := by
      simp only [serve, operations, popMany, if_neg past, Except.map]
      rfl
    have rest : stack.cells.toList.take (stack.size - count) =
        stack.live.take (stack.live.length - count) := by
      rw [length, live, List.take_take, Nat.min_eq_left (Nat.sub_le _ _)]
    refine .of_serve served ?_ trivial
    change Answers capacity stack.live _ _ (List.take (stack.size - count) _)
    rw [stack.shown_popped enough, rest]
    exact .popMany_take (by omega)

theorem operations_refines (capacity : Nat) :
    (operations capacity).Refines capacity fun _ => True := by
  intro stack _ request
  cases request with
  | push word => exact stack.follows_push word
  | pop => exact stack.follows_pop
  | peekBehind depth => exact stack.follows_peekBehind depth
  | popAt depth => exact stack.follows_popAt depth
  | popMany count => exact stack.follows_popMany count

end OperandCells

/--
Whatever is asked one after another of a stack in places that starts empty, the answers and the
values on the stack after each of them are those of a bounded list and no others; the operand stack
of an executor gives the same; and what reaches below the bottom is a fault of one class.
-/
theorem operands_answer_as_list (capacity : Nat) (requests : List OperandRequest) :
    let cells := (OperandCells.operations capacity).record (.new capacity) requests
    (∀ record, Recorded capacity [] requests record ↔ record = cells) ∧
      EvalStack.operations.record { capacity } requests = cells ∧
      ∀ fault values, (.fault fault, values) ∈ cells → fault.code = 1003 := by
  intro cells
  have only : ∀ record, Recorded capacity [] requests record ↔ record = cells := by
    have start : (OperandCells.operations capacity).live (.new capacity) = [] :=
      OperandCells.live_new capacity
    rw [← start]
    exact (OperandCells.operations_refines capacity).recorded_iff requests trivial
  have fits : EvalStack.Fits capacity { capacity } := ⟨rfl, Nat.zero_le _⟩
  refine ⟨only, (only _).1 ((EvalStack.operations_refines capacity).recorded requests fits), ?_⟩
  intro fault values member
  exact ((only cells).2 rfl).code member

/-- A place is used again after its value was taken off together with others. -/
example :
    ((OperandCells.operations 3).record (.new 3)
      [.push 1, .push 2, .push 3, .push 4, .popMany 2, .push 5, .popAt 1, .popAt 1]).map (·.1) =
      [.pushed, .pushed, .pushed, .refused, .words [2, 3], .pushed, .word 1,
        .fault (.popBehind 1 1)] := by
  decide

end WordMachine
