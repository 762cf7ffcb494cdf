import Mathlib.Data.List.Perm.Basic
import WordMachine.Machine.Admission
import WordMachine.Proofs.Collection

/-!
How far the limit of a heap holds when executors allocate side by side. An allocation is admitted
by the bytes that were counted before, so the limit can be exceeded by what was admitted with it,
but by no more.
-/

namespace WordMachine

namespace Heap

/-! ## Bytes and the limit -/

theorem pace_figures (heap : Heap) (size : Nat) :
    (heap.pace size).bytes = heap.bytes ∧ (heap.pace size).limit = heap.limit := by
  unfold pace
  split <;> exact ⟨rfl, rfl⟩

theorem place_limit (heap : Heap) (object : Object) : (heap.place object).2.limit = heap.limit := by
  unfold place
  split <;> rfl

theorem trim_figures {heap after : Heap} {word : Word} {count : Nat}
    (trimmed : heap.trim word count = .ok after) :
    after.bytes ≤ heap.bytes ∧ after.limit = heap.limit := by
  rcases trim_eq_ok trimmed with rfl | ⟨object, text, _, _, _, rfl⟩
  · exact ⟨Int.le_refl _, rfl⟩
  · exact ⟨Int.sub_le_self _ (Int.natCast_nonneg _), rfl⟩

theorem Sweeping.step_figures (sweeping : Sweeping) :
    sweeping.step.heap.bytes = sweeping.heap.bytes ∧
      sweeping.step.heap.limit = sweeping.heap.limit := by
  obtain ⟨heap, previous, index, freed⟩ := sweeping
  cases found : heap.slot? index with
  | none => simp [Sweeping.step, found]
  | some slot =>
    cases marked : slot.marked with
    | true => simp [Sweeping.step, found, marked]
    | false =>
      simp only [Sweeping.step, found, marked, Bool.false_eq_true, if_false]
      unfold Heap.link
      split <;> exact ⟨rfl, rfl⟩

theorem Sweeping.run_figures (count : Nat) (sweeping : Sweeping) :
    (Sweeping.run count sweeping).heap.bytes = sweeping.heap.bytes ∧
      (Sweeping.run count sweeping).heap.limit = sweeping.heap.limit := by
  induction count generalizing sweeping with
  | zero => exact ⟨rfl, rfl⟩
  | succ count ih =>
    unfold Sweeping.run
    split
    · exact ⟨rfl, rfl⟩
    · obtain ⟨bytes, limit⟩ := ih sweeping.step
      obtain ⟨stepBytes, stepLimit⟩ := sweeping.step_figures
      exact ⟨bytes.trans stepBytes, limit.trans stepLimit⟩

theorem mark_figures (heap : Heap) (roots : List Word) :
    (heap.mark roots).bytes = heap.bytes ∧ (heap.mark roots).limit = heap.limit := by
  have same := (heap.mark_changes_marks roots).rest
  have bytes := congrArg Heap.bytes same
  have limit := congrArg Heap.limit same
  exact ⟨bytes, limit⟩

theorem collect_figures (heap : Heap) (roots : List Word) :
    (heap.collect roots).1.bytes ≤ heap.bytes ∧ (heap.collect roots).1.limit = heap.limit := by
  obtain ⟨markBytes, markLimit⟩ := heap.mark_figures roots
  obtain ⟨runBytes, runLimit⟩ :=
    Sweeping.run_figures (heap.mark roots).slots.size
      ⟨heap.mark roots, 0, (heap.mark roots).head, []⟩
  unfold collect sweep sweeping
  refine ⟨?_, runLimit.trans markLimit⟩
  dsimp only
  rw [Freed.sum_eq]
  refine (Int.sub_le_self _ (Int.natCast_nonneg _)).trans ?_
  exact Int.le_of_eq (runBytes.trans markBytes)

end Heap

/-! ## What is counted and what is under way -/

namespace Arena

variable {arena after : Arena}
variable {size : Nat}

/-- The bytes for which allocations under way were admitted. -/
def pending (arena : Arena) : Nat :=
  (arena.admissions.map Admission.size).sum

/-- A move that admits no allocation does not add to the bytes that are counted or to be counted,
and to the allocations under way. -/
theorem step_figures {move : Move} (moves : arena.step move = some after) :
    after.heap.limit = arena.heap.limit ∧
      (after.heap.bytes + (after.pending : Int) ≤ arena.heap.bytes + arena.pending ∨
        ∃ payload, arena.heap.hasRoom (Heap.headerSize + payload.size) = true ∧
          after = { arena with admissions := arena.admissions ++ [.admitted payload] }) := by
  cases move with
  | ask payload =>
    simp only [step] at moves
    split at moves
    · next room =>
      cases moves
      exact ⟨rfl, .inr ⟨payload, room, rfl⟩⟩
    · cases moves
      exact ⟨rfl, .inl (Int.le_refl _)⟩
  | place position =>
    simp only [step] at moves
    split at moves
    · next payload found =>
      cases moves
      obtain ⟨bound, isThere⟩ := List.getElem?_eq_some_iff.1 found
      have sizes : (arena.admissions.set position
          (.placed (Heap.headerSize + payload.size))).map Admission.size =
            arena.admissions.map Admission.size := by
        rw [List.map_set]
        refine (congrArg _ ?_).trans (List.set_getElem_self (by simpa using bound))
        rw [List.getElem_map, isThere]
        rfl
      refine ⟨arena.heap.place_limit _, .inl ?_⟩
      simp only [pending, sizes, Heap.place_bytes]
      exact Int.le_refl _
    · cases moves
  | count position =>
    simp only [step] at moves
    split at moves
    · next size found =>
      cases moves
      obtain ⟨bound, isThere⟩ := List.getElem?_eq_some_iff.1 found
      have total := ((List.getElem_cons_eraseIdx_perm bound).map Admission.size).sum_nat
      rw [List.map_cons, List.sum_cons, isThere] at total
      obtain ⟨bytes, limit⟩ := Heap.pace_figures
        { arena.heap with
          bytes := arena.heap.bytes + size
          allocations := arena.heap.allocations + 1 } size
      refine ⟨limit, .inl ?_⟩
      simp only [pending, bytes, ← total, Admission.size]
      omega
    · cases moves
  | trim word count =>
    simp only [step] at moves
    split at moves
    · next heap trimmed =>
      cases moves
      obtain ⟨fewer, limit⟩ := Heap.trim_figures trimmed
      exact ⟨limit, .inl (Int.add_le_add_right fewer _)⟩
    · cases moves
  | collect roots =>
    simp only [step, Option.ite_none_right_eq_some, Option.some.injEq] at moves
    obtain ⟨_, rfl⟩ := moves
    obtain ⟨fewer, limit⟩ := arena.heap.collect_figures roots
    exact ⟨limit, .inl (Int.add_le_add_right fewer _)⟩

/-! ## The limit with allocations side by side -/

/-- The bytes that are counted or to be counted exceed the limit by no more than the allocations
that may be under way beside one. -/
structure Within (overlap size : Nat) (limit : Int) (arena : Arena) : Prop where
  same : arena.heap.limit = limit
  bounded : arena.heap.bytes + (arena.pending : Int) ≤ limit + ((overlap - 1) * size : Nat)

theorem sum_sizes_le (admissions : List Admission)
    (small : ∀ admission ∈ admissions, admission.size ≤ size) :
    (admissions.map Admission.size).sum ≤ admissions.length * size := by
  induction admissions with
  | nil => simp
  | cons admission admissions ih =>
    have rest := ih fun other member =>
      small other (List.mem_cons_of_mem _ member)
    have first := small admission List.mem_cons_self
    rw [List.map_cons, List.sum_cons, List.length_cons, Nat.succ_mul]
    omega

theorem Within.step {overlap : Nat} {limit : Int} {move : Move} (positive : 0 < limit)
    (within : Within overlap size limit arena)
    (moves : arena.stepWithin overlap size move = some after) :
    Within overlap size limit after := by
  obtain ⟨stepped, bounds⟩ := Option.filter_eq_some_iff.1 moves
  simp only [Bool.and_eq_true, decide_eq_true_eq, List.all_eq_true] at bounds
  obtain ⟨few, small⟩ := bounds
  obtain ⟨same, bytes | ⟨payload, room, rfl⟩⟩ := step_figures stepped
  · exact ⟨same.trans within.same, bytes.trans within.bounded⟩
  · refine ⟨same.trans within.same, ?_⟩
    -- The comparison was made with what is counted, so only the others add to the limit.
    have admitted : arena.heap.bytes + (Heap.headerSize + payload.size : Nat) ≤ limit := by
      have limited := within.same
      simp only [Heap.hasRoom, Bool.or_eq_true, decide_eq_true_eq] at room
      omega
    have others := sum_sizes_le arena.admissions fun other member =>
      small other (List.mem_append_left _ member)
    have fewer : arena.admissions.length * size ≤ (overlap - 1) * size := by
      rw [List.length_append, List.length_singleton] at few
      exact Nat.mul_le_mul_right size (by omega)
    simp only [pending, List.map_append, List.sum_append, List.map_cons, List.map_nil,
      List.sum_cons, List.sum_nil, Admission.size]
    omega

theorem Within.run {overlap : Nat} {limit : Int} {moves : List Move} (positive : 0 < limit)
    (within : Within overlap size limit arena)
    (runs : arena.runWithin overlap size moves = some after) : Within overlap size limit after := by
  induction moves generalizing arena with
  | nil =>
    cases runs
    exact within
  | cons move moves ih =>
    unfold runWithin at runs
    rw [List.foldlM_cons] at runs
    obtain ⟨next, moved, rest⟩ := Option.bind_eq_some_iff.1 runs
    exact ih (within.step positive moved) rest

/-- With at most so many allocations under way at a time, each of at most so many bytes, the counted
bytes exceed the limit by no more than all of them but one. They stay within the limit if
allocations do not overlap. -/
theorem bytes_within_limit {interval limit : Int} {overlap size : Nat} {moves : List Move}
    (positive : 0 < limit)
    (runs : runWithin overlap size { heap := Heap.new interval limit } moves = some arena) :
    arena.heap.bytes ≤ limit + ((overlap - 1) * size : Nat) ∧
      (overlap ≤ 1 → arena.heap.bytes ≤ limit) := by
  have start : Within overlap size limit { heap := Heap.new interval limit } := by
    refine ⟨rfl, ?_⟩
    change (0 : Int) + ((0 : Nat) : Int) ≤ _
    omega
  have bounded := (start.run positive runs).bounded
  refine ⟨by omega, fun alone => ?_⟩
  rw [show overlap - 1 = 0 by omega, Nat.zero_mul] at bounded
  omega

/-- Two executors look before either of them has counted. -/
def lookingTogether : List Move :=
  [.ask (.blank 36), .ask (.blank 36), .place 0, .place 1, .count 0, .count 0]

/-- Two allocations of 68 bytes go beyond a limit of 100 bytes, but by less than one of them. -/
theorem bytes_within_limit_together :
    ∃ arena,
      runWithin 2 68 { heap := Heap.new 0 100 } lookingTogether = some arena ∧
        arena.heap.bytes = 136 ∧ arena.heap.bytes ≤ 100 + 68 := by
  have happened : ((runWithin 2 68 { heap := Heap.new 0 100 } lookingTogether).map fun arena =>
      arena.heap.bytes) = some 136 := by
    decide
  obtain ⟨arena, runs, bytes⟩ := Option.map_eq_some_iff.1 happened
  exact ⟨arena, runs, bytes, (bytes_within_limit (by decide) runs).1⟩

/-- So the limit alone is no bound. -/
theorem limit_exceeded_together :
    ¬ ∀ (interval limit : Int) (moves : List Move) (arena : Arena), 0 < limit →
      run { heap := Heap.new interval limit } moves = some arena → arena.heap.bytes ≤ limit := by
  intro kept
  have happened : ((run { heap := Heap.new 0 100 } lookingTogether).map fun arena =>
      arena.heap.bytes) = some 136 := by
    decide
  obtain ⟨arena, runs, bytes⟩ := Option.map_eq_some_iff.1 happened
  have within := kept 0 100 lookingTogether arena (by decide) runs
  rw [bytes] at within
  exact absurd within (by decide)

end Arena

end WordMachine
