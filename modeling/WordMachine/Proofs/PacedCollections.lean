import WordMachine.Proofs.HeapLimit
import WordMachine.Proofs.HeapRepresentation

/-!
How often a heap asks for a collection. From one collection to the next every allocation is counted
down from the interval, and the one that uses the interval up asks, once; it does not matter which
allocations are refused, what is trimmed, and in which order executors count side by side.
-/

namespace WordMachine

/-! ## Countdowns -/

/-- An allocation that was counted. -/
structure Charge where
  size : Nat
  asks : Bool
  deriving DecidableEq

namespace Charge

def total (charges : List Charge) : Nat :=
  (charges.map size).sum

theorem total_snoc (charges : List Charge) (charge : Charge) :
    total (charges ++ [charge]) = total charges + charge.size := by
  simp [total]

end Charge

/-- How charges have brought a countdown from an interval to what is left: the one that used the
interval up asked for a collection, and no other did. -/
structure Paced (interval left : Int) (charges : List Charge) : Prop where
  countdown : left = interval - Charge.total charges
  first : ∀ before charge after, charges = before ++ charge :: after →
    (charge.asks = true ↔
      (Charge.total before : Int) < interval ∧ interval ≤ Charge.total before + charge.size)

namespace Paced

variable {interval left : Int} {charges : List Charge}

theorem nil (interval : Int) : Paced interval interval [] where
  countdown := (Int.sub_zero interval).symm
  first := by simp

/-- One more charge asks if it brings the countdown from above zero to zero or below. -/
theorem snoc (paced : Paced interval left charges) (charge : Charge)
    (asks : charge.asks = true ↔ left - charge.size ≤ 0 ∧ 0 < left) :
    Paced interval (left - charge.size) (charges ++ [charge]) where
  countdown := by
    have before := paced.countdown
    rw [Charge.total_snoc]
    omega
  first := by
    intro before other after split
    rcases List.eq_nil_or_concat after with rfl | ⟨rest, last, rfl⟩
    · obtain ⟨rfl, same⟩ := List.append_inj' split rfl
      cases same
      have counted := paced.countdown
      rw [asks]
      omega
    · rw [List.concat_eq_append, ← List.cons_append, ← List.append_assoc] at split
      obtain ⟨rfl, _⟩ := List.append_inj' split rfl
      exact paced.first before other rest rfl

theorem init {charge : Charge} (paced : Paced interval left (charges ++ [charge])) :
    Paced interval (interval - Charge.total charges) charges where
  countdown := rfl
  first := by
    intro before other after split
    apply paced.first before other (after ++ [charge])
    rw [split, List.append_assoc, List.cons_append]

/-- The interval is used up at most once, and once exactly if the charges reach it. -/
theorem countP_asks (positive : 0 < interval) (paced : Paced interval left charges) :
    charges.countP Charge.asks = if interval ≤ Charge.total charges then 1 else 0 := by
  induction charges using List.reverseRecOn generalizing left with
  | nil =>
    have above : ¬ interval ≤ (Charge.total [] : Int) := by
      change ¬ interval ≤ ((0 : Nat) : Int)
      omega
    rw [if_neg above, List.countP_nil]
  | append_singleton charges charge ih =>
    have before := ih paced.init
    have last := paced.first charges charge [] rfl
    rw [List.countP_append, before, List.countP_singleton, Charge.total_snoc]
    by_cases asks : charge.asks = true
    · obtain ⟨above, reached⟩ := last.1 asks
      rw [if_neg (by omega), if_pos asks, if_pos (by omega)]
    · have notCrossed := mt last.2 asks
      rw [if_neg asks, Nat.add_zero]
      split
      · rw [if_pos (by omega)]
      · rw [if_neg (by omega)]

end Paced

namespace Heap

variable {heap after : Heap} {interval : Int} {asked : Bool} {past : List Charge}

/-! ## What is counted -/

/-- Whether an allocation of a size asks for a collection when it is counted. -/
def asks (heap : Heap) (size : Nat) : Bool :=
  0 < heap.interval && (heap.left - size ≤ 0 && 0 < heap.left - size + size)

theorem pace_requested (heap : Heap) (size : Nat) :
    (heap.pace size).requested = (heap.requested || heap.asks size) := by
  unfold pace asks
  split
  · next paced => simp [paced]
  · next unpaced => simp [unpaced]

theorem asks_iff (positive : 0 < heap.interval) (size : Nat) :
    heap.asks size = true ↔ heap.left - size ≤ 0 ∧ 0 < heap.left := by
  simp [asks, positive]

/-- A change of a heap that counts nothing. -/
structure SamePace (heap after : Heap) : Prop where
  interval : after.interval = heap.interval
  left : after.left = heap.left
  requested : after.requested = heap.requested

theorem SamePace.refl (heap : Heap) : SamePace heap heap :=
  ⟨rfl, rfl, rfl⟩

/-- What a heap says of the charges since its interval began, given whether a collection had been
asked for before. -/
structure Counting (interval : Int) (asked : Bool) (heap : Heap) (charges : List Charge) :
    Prop where
  positive : 0 < interval
  isInterval : heap.interval = interval
  paced : Paced interval heap.left charges
  requested : heap.requested = (asked || charges.any Charge.asks)

theorem Counting.same (counting : heap.Counting interval asked past) (same : SamePace heap after) :
    after.Counting interval asked past where
  positive := counting.positive
  isInterval := same.interval.trans counting.isInterval
  paced := by
    rw [same.left]
    exact counting.paced
  requested := same.requested.trans counting.requested

theorem Counting.pace (counting : heap.Counting interval asked past) (size : Nat) :
    (heap.pace size).Counting interval asked (past ++ [⟨size, heap.asks size⟩]) := by
  have positive : 0 < heap.interval := counting.isInterval ▸ counting.positive
  refine ⟨counting.positive, ?_, ?_, ?_⟩
  · rw [Heap.pace, if_pos positive]
    exact counting.isInterval
  · have left : (heap.pace size).left = heap.left - size := by
      rw [Heap.pace, if_pos positive]
    rw [left]
    exact counting.paced.snoc ⟨size, heap.asks size⟩ (asks_iff positive size)
  · rw [pace_requested, counting.requested, List.any_append, Bool.or_assoc]
    simp

/-! ## One operation after another -/

theorem samePace_place (heap : Heap) (object : Object) : SamePace heap (heap.place object).2 := by
  unfold place
  split <;> exact ⟨rfl, rfl, rfl⟩

theorem samePace_trim {word : Word} {count : Nat} (trimmed : heap.trim word count = .ok after) :
    SamePace heap after := by
  rcases trim_eq_ok trimmed with rfl | ⟨object, text, _, _, _, rfl⟩
  · exact .refl after
  · exact ⟨rfl, rfl, rfl⟩

theorem samePace_mark (heap : Heap) (roots : List Word) : SamePace heap (heap.mark roots) := by
  have same := (heap.mark_changes_marks roots).rest
  have interval := congrArg Heap.interval same
  have left := congrArg Heap.left same
  have requested := congrArg Heap.requested same
  exact ⟨interval, left, requested⟩

theorem Sweeping.step_samePace (sweeping : Sweeping) :
    SamePace sweeping.heap sweeping.step.heap := by
  obtain ⟨heap, previous, index, freed⟩ := sweeping
  cases found : heap.slot? index with
  | none =>
    simp only [Sweeping.step, found]
    exact .refl heap
  | some slot =>
    cases marked : slot.marked with
    | true =>
      simp only [Sweeping.step, found, marked, if_true]
      exact ⟨rfl, rfl, rfl⟩
    | false =>
      simp only [Sweeping.step, found, marked, Bool.false_eq_true, if_false]
      unfold Heap.link
      split <;> exact ⟨rfl, rfl, rfl⟩

theorem Sweeping.run_samePace (count : Nat) (sweeping : Sweeping) :
    SamePace sweeping.heap (Sweeping.run count sweeping).heap := by
  induction count generalizing sweeping with
  | zero => exact .refl sweeping.heap
  | succ count ih =>
    unfold Sweeping.run
    split
    · exact .refl sweeping.heap
    · have rest := ih sweeping.step
      have first := sweeping.step_samePace
      exact ⟨rest.interval.trans first.interval, rest.left.trans first.left,
        rest.requested.trans first.requested⟩

theorem samePace_sweep (heap : Heap) : SamePace heap heap.sweep.1 := by
  have run := Sweeping.run_samePace heap.slots.size ⟨heap, 0, heap.head, []⟩
  exact ⟨run.interval, run.left, run.requested⟩

def charges (heap : Heap) : Operation → List Charge
  | .allocate payload =>
    if heap.hasRoom (headerSize + payload.size) then
      [⟨headerSize + payload.size, heap.asks (headerSize + payload.size)⟩]
    else []
  | _ => []

def chargesAll (heap : Heap) : List Operation → List Charge
  | [] => []
  | operation :: operations =>
    heap.charges operation ++ (heap.operate operation).chargesAll operations

theorem Counting.allocate (counting : heap.Counting interval asked past) (payload : Payload) :
    (heap.operate (.allocate payload)).Counting interval asked
      (past ++ heap.charges (.allocate payload)) := by
  simp only [operate, charges, allocate?]
  split
  · have counted : Counting interval asked { heap with
        bytes := heap.bytes + (headerSize + payload.size : Nat)
        allocations := heap.allocations + 1 } past :=
      counting.same ⟨rfl, rfl, rfl⟩
    rw [Option.elim_some, allocate_eq]
    exact (counted.pace (headerSize + payload.size)).same (samePace_place _ _)
  · rw [List.append_nil]
    exact counting

theorem Counting.operate (counting : heap.Counting interval asked past) (operation : Operation) :
    (heap.operate operation).Counting interval asked (past ++ heap.charges operation) := by
  cases operation with
  | allocate payload => exact counting.allocate payload
  | trim word count =>
    simp only [Heap.operate, charges, List.append_nil]
    cases trimmed : heap.trim word count with
    | error fault => exact counting
    | ok after => exact counting.same (samePace_trim trimmed)
  | fill word text =>
    simp only [Heap.operate, charges, List.append_nil]
    cases read : heap.text word with
    | error fault => exact counting
    | ok current =>
      dsimp only
      split
      · cases filled : heap.fill word text with
        | error fault => exact counting
        | ok after =>
          obtain ⟨object, _, _, _, rfl⟩ := fill_eq_ok read filled
          exact counting.same ⟨rfl, rfl, rfl⟩
      · exact counting
  | flatten word =>
    simp only [Heap.operate, charges, List.append_nil]
    split
    · exact counting.same ⟨rfl, rfl, rfl⟩
    · exact counting
  | complete word outcome =>
    simp only [Heap.operate, charges, List.append_nil]
    split
    · exact counting.same ⟨rfl, rfl, rfl⟩
    · exact counting
  | force word value =>
    simp only [Heap.operate, Heap.force, charges, List.append_nil]
    split
    · exact counting
    · exact counting
    · exact counting.same ⟨rfl, rfl, rfl⟩
  | move word stream =>
    simp only [Heap.operate, charges, List.append_nil]
    split
    · exact counting.same ⟨rfl, rfl, rfl⟩
    · exact counting
  | mark roots =>
    simp only [Heap.operate, charges, List.append_nil]
    exact counting.same (samePace_mark heap roots)
  | sweep =>
    simp only [Heap.operate, charges, List.append_nil]
    exact counting.same (samePace_sweep heap)

theorem Counting.operateAll (counting : heap.Counting interval asked past)
    (operations : List Operation) :
    (operations.foldl Heap.operate heap).Counting interval asked
      (past ++ heap.chargesAll operations) := by
  induction operations generalizing heap past with
  | nil =>
    rw [chargesAll, List.append_nil]
    exact counting
  | cons operation operations ih =>
    have rest := ih (counting.operate operation)
    rw [List.append_assoc] at rest
    exact rest

end Heap

/-! ## Allocations side by side -/

namespace Arena

variable {arena after : Arena} {interval : Int} {asked : Bool} {past : List Charge}

def charges (arena : Arena) : Move → List Charge
  | .count position =>
    match arena.admissions[position]? with
    | some (.placed size) => [⟨size, arena.heap.asks size⟩]
    | _ => []
  | _ => []

def chargesAll (arena : Arena) : List Move → List Charge
  | [] => []
  | move :: moves =>
    arena.charges move ++
      match arena.step move with
      | some next => next.chargesAll moves
      | none => []

theorem counting_step {move : Move} (counting : arena.heap.Counting interval asked past)
    (stays : ∀ roots, move ≠ .collect roots) (moves : arena.step move = some after) :
    after.heap.Counting interval asked (past ++ arena.charges move) := by
  cases move with
  | ask payload =>
    simp only [charges, List.append_nil]
    simp only [step] at moves
    split at moves <;> cases moves <;> exact counting
  | place position =>
    simp only [charges, List.append_nil]
    simp only [step] at moves
    split at moves
    · cases moves
      exact counting.same (Heap.samePace_place _ _)
    · cases moves
  | count position =>
    simp only [step] at moves
    split at moves
    · next size found =>
      cases moves
      have charged : arena.charges (.count position) = [⟨size, arena.heap.asks size⟩] := by
        simp only [charges, found]
      rw [charged]
      have counted : Heap.Counting interval asked { arena.heap with
          bytes := arena.heap.bytes + size
          allocations := arena.heap.allocations + 1 } past :=
        counting.same ⟨rfl, rfl, rfl⟩
      exact counted.pace size
    · cases moves
  | trim word count =>
    simp only [charges, List.append_nil]
    simp only [step] at moves
    split at moves
    · next heap trimmed =>
      cases moves
      exact counting.same (Heap.samePace_trim trimmed)
    · cases moves
  | collect roots => exact absurd rfl (stays roots)

theorem counting_run {moves : List Move} (counting : arena.heap.Counting interval asked past)
    (stays : ∀ roots, .collect roots ∉ moves) (runs : arena.run moves = some after) :
    after.heap.Counting interval asked (past ++ arena.chargesAll moves) := by
  induction moves generalizing arena past with
  | nil =>
    cases runs
    rw [chargesAll, List.append_nil]
    exact counting
  | cons move moves ih =>
    unfold run at runs
    rw [List.foldlM_cons] at runs
    obtain ⟨next, moved, rest⟩ := Option.bind_eq_some_iff.1 runs
    have here := counting_step counting
      (fun roots same => stays roots (by rw [same]; exact List.mem_cons_self)) moved
    have later := ih here
      (fun roots member => stays roots (List.mem_cons_of_mem _ member)) rest
    rw [List.append_assoc] at later
    rw [chargesAll, moved]
    exact later

end Arena

namespace Heap

/-! ## Requests -/

variable {heap after : Heap} {interval : Int}

/-- A heap at the beginning of an interval: just made, or just collected. -/
inductive Begins (interval : Int) : Heap → Prop
  | new (limit : Int) : Begins interval (Heap.new interval limit)
  | collected (before : Heap) (roots : List Word) :
      before.interval = interval → Begins interval (before.collect roots).1

theorem Begins.counting (begins : heap.Begins interval) (positive : 0 < interval) :
    heap.Counting interval heap.requested [] := by
  have start (heap : Heap) (same : heap.interval = interval) (left : heap.left = heap.interval) :
      heap.Counting interval heap.requested [] := by
    refine ⟨positive, same, ?_, (Bool.or_false _).symm⟩
    rw [left, same]
    exact .nil interval
  cases begins with
  | new limit => exact start _ rfl rfl
  | collected before roots same =>
    have marked := before.samePace_mark roots
    have swept := (before.mark roots).samePace_sweep
    exact start _ ((swept.interval.trans marked.interval).trans same) rfl

/-- How collections were requested while a heap went from the beginning of an interval to another
state. -/
structure RequestsPaced (interval : Int) (heap after : Heap) (charges : List Charge) : Prop where
  /-- The callback is made once if the counted bytes reach the interval, and else not at all. -/
  once : charges.countP Charge.asks = if interval ≤ Charge.total charges then 1 else 0
  /-- It is made by the allocation that first reaches the interval. -/
  first : ∀ before charge after, charges = before ++ charge :: after →
    (charge.asks = true ↔
      (Charge.total before : Int) < interval ∧ interval ≤ Charge.total before + charge.size)
  requested : after.requested = (heap.requested || decide (interval ≤ Charge.total charges))
  /-- Nothing but allocations has changed the countdown. -/
  countdown : after.left = interval - Charge.total charges
  /-- The countdown has room in a signed word. -/
  inRange : -(2 ^ 63 : Int) ≤ after.left ∧ after.left < 2 ^ 63

theorem Counting.requestsPaced {charges : List Charge}
    (counting : after.Counting interval heap.requested charges) (small : interval < 2 ^ 63)
    (few : Charge.total charges < 2 ^ 63) : RequestsPaced interval heap after charges := by
  have once := counting.paced.countP_asks counting.positive
  have countdown := counting.paced.countdown
  have positive := counting.positive
  refine ⟨once, counting.paced.first, ?_, countdown, by omega, by omega⟩
  have some : charges.any Charge.asks = decide (interval ≤ Charge.total charges) := by
    rw [Bool.eq_iff_iff, List.any_eq_true, decide_eq_true_iff, ← List.countP_pos_iff, once]
    split
    · next reached => simp [reached]
    · next above => simp [above]
  rw [counting.requested, some]

/-- Requests for collections are paced exactly. From the beginning of an interval on, be it that the
heap was made or that a collection ended, and up to the next collection, a collection is asked for
once if the accounted bytes of the allocations reach the interval, by the one that first reaches it,
and else not at all; whatever else is done to the heap, and also if executors allocate side by
side. -/
theorem requests_paced (positive : 0 < interval) (small : interval < 2 ^ 63)
    (begins : heap.Begins interval) :
    (∀ operations, Charge.total (heap.chargesAll operations) < 2 ^ 63 →
      RequestsPaced interval heap (operations.foldl operate heap) (heap.chargesAll operations)) ∧
    ∀ admissions moves after,
      Arena.run ⟨heap, admissions⟩ moves = some after →
      (∀ roots, .collect roots ∉ moves) →
      Charge.total (Arena.chargesAll ⟨heap, admissions⟩ moves) < 2 ^ 63 →
      RequestsPaced interval heap after.heap (Arena.chargesAll ⟨heap, admissions⟩ moves) := by
  have start := begins.counting positive
  refine ⟨fun operations few => ?_, fun admissions moves after runs stays few => ?_⟩
  · exact (start.operateAll operations).requestsPaced small few
  · exact (Arena.counting_run start stays runs).requestsPaced small few

/-- One after the other, the second allocation is refused and nothing is asked for; if both look
before either is counted, the one that is counted last asks. -/
theorem requests_paced_together :
    (Heap.new 100 100).chargesAll
        [.allocate (.blank 36), .allocate (.blank 36), .trim (.ofHandle (.make 1 0)) 6] =
      [⟨68, false⟩] ∧
    Arena.chargesAll ⟨Heap.new 100 100, []⟩ Arena.lookingTogether = [⟨68, false⟩, ⟨68, true⟩] ∧
    RequestsPaced 100 (Heap.new 100 100)
      ([.allocate (.blank 36), .allocate (.blank 36), .trim (.ofHandle (.make 1 0)) 6].foldl operate
        (Heap.new 100 100)) [⟨68, false⟩] ∧
    ∃ after, Arena.run ⟨Heap.new 100 100, []⟩ Arena.lookingTogether = some after ∧
      RequestsPaced 100 (Heap.new 100 100) after.heap [⟨68, false⟩, ⟨68, true⟩] := by
  have alone : (Heap.new 100 100).chargesAll
      [.allocate (.blank 36), .allocate (.blank 36), .trim (.ofHandle (.make 1 0)) 6] =
        [⟨68, false⟩] := by
    decide
  have together : Arena.chargesAll ⟨Heap.new 100 100, []⟩ Arena.lookingTogether =
      [⟨68, false⟩, ⟨68, true⟩] := by
    decide
  obtain ⟨operations, moves⟩ := requests_paced (by decide) (by decide) (.new 100 : Begins 100 _)
  have happened : (Arena.run ⟨Heap.new 100 100, []⟩ Arena.lookingTogether).isSome = true := by
    decide
  obtain ⟨after, runs⟩ := Option.isSome_iff_exists.1 happened
  have first := operations _ (by rw [alone]; decide)
  have second := moves [] _ after runs (by simp [Arena.lookingTogether]) (by rw [together]; decide)
  rw [alone] at first
  rw [together] at second
  exact ⟨alone, together, first, after, runs, second⟩

end Heap

end WordMachine
