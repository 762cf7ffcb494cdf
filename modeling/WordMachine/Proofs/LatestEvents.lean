import Mathlib.Data.List.DropRight
import Mathlib.Data.List.Forall2
import WordMachine.Tracing.Tracer

/-!
The events that a ring shows. Whatever the capacity and however often the places of the ring were
written over, the latest events that the level admits are shown, oldest first.
-/

namespace WordMachine.Tracing

/-! ## Rings -/

namespace Ring

structure Holds (ring : Ring) (history : List Event) : Prop where
  positive : 0 < ring.capacity
  places : ring.events.size = ring.capacity
  next : ring.next = history.length % ring.capacity
  full : ring.full = true ↔ ring.capacity ≤ history.length
  /-- The latest events have not been written over. -/
  latest : ∀ position, position < history.length → history.length ≤ position + ring.capacity →
    ring.events[position % ring.capacity]? = history[position]?

variable {ring : Ring} {history : List Event}

theorem holds_new (capacity : Int) : (new capacity).Holds [] where
  positive := by
    simp only [new, capacityFor, standardCapacity]
    split <;> omega
  places := Array.size_replicate
  next := (Nat.zero_mod _).symm
  full := by
    simp only [new, capacityFor, standardCapacity, List.length_nil, Bool.false_eq_true, false_iff]
    split <;> omega
  latest := fun _ inside => absurd inside (Nat.not_lt_zero _)

/-- Two of the latest events are in different places. -/
theorem place_ne {position length capacity : Nat} (before : position < length)
    (recent : length < position + capacity) : position % capacity ≠ length % capacity := by
  intro same
  have multiple : capacity ∣ length - position :=
    Nat.dvd_of_mod_eq_zero (Nat.sub_mod_eq_zero_of_mod_eq same.symm)
  have bound := Nat.le_of_dvd (by omega) multiple
  omega

/-- The next place is the first one again when the number of events is a multiple of the places. -/
theorem next_push (holds : ring.Holds history) (event : Event) :
    (ring.push event).next = (history.length + 1) % ring.capacity := by
  rw [push, holds.next, Nat.mod_add_mod]

theorem full_push (holds : ring.Holds history) (event : Event) :
    (ring.push event).full = true ↔ ring.capacity ≤ history.length + 1 := by
  have next := next_push holds event
  have positive := holds.positive
  simp only [push] at next ⊢
  rw [Bool.or_eq_true, holds.full, beq_iff_eq, next]
  constructor
  · rintro (full | first)
    · omega
    · exact Nat.le_of_dvd (Nat.succ_pos _) (Nat.dvd_of_mod_eq_zero first)
  · intro room
    by_cases already : ring.capacity ≤ history.length
    · exact .inl already
    · right
      rw [show history.length + 1 = ring.capacity by omega, Nat.mod_self]

theorem Holds.push (holds : ring.Holds history) (event : Event) :
    (ring.push event).Holds (history ++ [event]) where
  positive := holds.positive
  places := by
    rw [Ring.push, Array.size_setIfInBounds, holds.places]
  next := by
    rw [next_push holds, List.length_append, List.length_singleton]
    rfl
  full := by
    rw [full_push holds, List.length_append, List.length_singleton]
    rfl
  latest := by
    intro position inside recent
    rw [List.length_append, List.length_singleton] at inside recent
    simp only [Ring.push] at recent ⊢
    by_cases last : position = history.length
    · rw [last, holds.next, Array.getElem?_setIfInBounds_self_of_lt, List.getElem?_concat_length]
      rw [holds.places]
      exact Nat.mod_lt _ holds.positive
    · have before : position < history.length := by omega
      have elsewhere : position % ring.capacity ≠ history.length % ring.capacity :=
        place_ne before (by omega)
      rw [holds.next, Array.getElem?_setIfInBounds_ne (Ne.symm elsewhere),
        List.getElem?_append_left before]
      exact holds.latest position before (by omega)

/-- The places of the latest events follow each other from the next place on. -/
theorem place_latest {length capacity : Nat} (full : capacity ≤ length) (offset : Nat) :
    (length - capacity + offset) % capacity = (length % capacity + offset) % capacity := by
  rw [Nat.mod_add_mod, ← Nat.add_mod_right (length - capacity + offset),
    show length - capacity + offset + capacity = length + offset by omega]

theorem Holds.toList_of_not_full (holds : ring.Holds history)
    (room : history.length < ring.capacity) : ring.toList = history := by
  have notFull : ¬ ring.full = true := fun full => absurd (holds.full.1 full) (by omega)
  have next : ring.next = history.length := by rw [holds.next, Nat.mod_eq_of_lt room]
  rw [toList, if_neg notFull, next]
  apply List.ext_getElem?
  intro position
  rw [List.getElem?_take, Array.getElem?_toList]
  split
  · next inside =>
      rw [← holds.latest position inside (by omega), Nat.mod_eq_of_lt (by omega)]
  · next outside => rw [List.getElem?_eq_none (by omega)]

theorem Holds.toList_of_full (holds : ring.Holds history) (full : ring.capacity ≤ history.length) :
    ring.toList = history.drop (history.length - ring.capacity) := by
  have positive := holds.positive
  have next := holds.next
  have inside : ring.next < ring.capacity := next ▸ Nat.mod_lt _ positive
  rw [toList, if_pos (holds.full.2 full)]
  apply List.ext_getElem?
  intro offset
  have size : (ring.events.toList.drop ring.next).length = ring.capacity - ring.next := by
    rw [List.length_drop, Array.length_toList, holds.places]
  have place := place_latest full offset
  rw [← next] at place
  rw [List.getElem?_drop]
  by_cases shown : offset < ring.capacity
  · rw [← holds.latest _ (by omega) (by omega), place]
    -- The shown events come from the end of the places, then from their beginning.
    by_cases early : offset < ring.capacity - ring.next
    · rw [List.getElem?_append_left (by omega), List.getElem?_drop, Array.getElem?_toList,
        Nat.mod_eq_of_lt (by omega)]
    · rw [List.getElem?_append_right (by omega), size, List.getElem?_take_of_lt (by omega),
        Array.getElem?_toList, Nat.mod_eq_sub_mod (by omega), Nat.mod_eq_of_lt (by omega),
        show offset - (ring.capacity - ring.next) = ring.next + offset - ring.capacity by omega]
  · have taken : (ring.events.toList.take ring.next).length ≤ ring.next := List.length_take_le _ _
    rw [List.getElem?_eq_none (by rw [List.length_append]; omega),
      List.getElem?_eq_none (by omega)]

/-- What a ring shows are the latest events, as many as it has places. -/
theorem Holds.toList_eq (holds : ring.Holds history) :
    ring.toList = history.rtake ring.capacity := by
  unfold List.rtake
  by_cases full : ring.capacity ≤ history.length
  · exact holds.toList_of_full full
  · rw [holds.toList_of_not_full (by omega), show history.length - ring.capacity = 0 by omega,
      List.drop_zero]

end Ring

/-! ## Tracers -/

/-- What is done with a tracer: it takes an event, or its kept events are looked at. Others draw
numbers for their own events meanwhile. -/
inductive Use where
  | emit (event : Event)
  | snapshot
  | elsewhere (numbers : Nat)

def Use.isSnapshot : Use → Bool
  | .snapshot => true
  | _ => false

def Use.events (uses : List Use) : List Event :=
  uses.filterMap fun
    | .emit event => some event
    | _ => none

/-- The events that a ring of a level takes: at level error all of them, signs of life at every
level, and otherwise those of the scopes of the level. -/
def Level.keeps (level : Level) (event : Event) : Bool :=
  level == .error || event.kind == .heartbeat || level.admits event.scope

def IsNumbered (shown event : Event) : Prop :=
  shown = { event with sequence := shown.sequence }

namespace Tracer

def use (tracer : Tracer) : Use → Tracer
  | .emit event => tracer.emit event
  | .snapshot => tracer
  | .elsewhere numbers => { tracer with sequence := tracer.sequence + numbers }

def useAll (tracer : Tracer) (uses : List Use) : Tracer :=
  uses.foldl use tracer

/-- A tracer whose ring was written some of the emitted events. -/
structure Records (tracer : Tracer) (ring : Ring) (history emitted : List Event) : Prop where
  writes : tracer.ring = some ring
  holds : ring.Holds history
  same : List.Forall₂ IsNumbered history (emitted.filter tracer.level.keeps)
  rising : history.Pairwise fun earlier later => earlier.sequence < later.sequence
  past : ∀ event ∈ history, event.sequence ≤ tracer.sequence

variable {tracer : Tracer} {ring : Ring} {history emitted : List Event}

theorem Records.later (records : tracer.Records ring history emitted) {later : Tracer}
    (sameRing : later.ring = tracer.ring) (sameLevel : later.level = tracer.level)
    (more : tracer.sequence ≤ later.sequence) : later.Records ring history emitted where
  writes := sameRing.trans records.writes
  holds := records.holds
  same := sameLevel ▸ records.same
  rising := records.rising
  past := fun event member => (records.past event member).trans more

theorem Records.toStream (records : tracer.Records ring history emitted) (event : Event) :
    (tracer.toStream event).Records ring history emitted := by
  unfold Tracer.toStream
  split
  · exact records
  · split
    · exact records.later rfl rfl (Nat.le_succ _)
    · exact records

theorem keeps_iff {level : Level} {event : Event} :
    (level.wants event.scope || event.kind == .heartbeat) = level.keeps event := by
  unfold Level.wants Level.keeps
  rw [Bool.or_assoc, Bool.or_assoc, Bool.or_comm (level.admits event.scope)]

theorem Records.toRing (records : tracer.Records ring history emitted) (event : Event) :
    ∃ ring' history', (tracer.toRing event).Records ring' history' (emitted ++ [event]) ∧
      ring'.capacity = ring.capacity := by
  have filtered : (emitted ++ [event]).filter tracer.level.keeps =
      emitted.filter tracer.level.keeps ++ if tracer.level.keeps event then [event] else [] := by
    rw [List.filter_append, List.filter_singleton]
    cases tracer.level.keeps event <;> rfl
  unfold Tracer.toRing
  rw [records.writes]
  dsimp only
  rw [keeps_iff]
  by_cases kept : tracer.level.keeps event
  · rw [if_pos kept]
    refine ⟨_, history ++ [{ event with sequence := tracer.sequence + 1 }],
      { writes := rfl, holds := records.holds.push _, same := ?_, rising := ?_, past := ?_ }, rfl⟩
    · rw [filtered, if_pos kept]
      exact List.rel_append records.same (.cons rfl .nil)
    · rw [List.pairwise_append]
      refine ⟨records.rising, List.pairwise_singleton _ _, fun earlier member later last => ?_⟩
      rw [List.mem_singleton.1 last]
      exact Nat.lt_succ_of_le (records.past earlier member)
    · intro shown member
      rcases List.mem_append.1 member with earlier | last
      · exact (records.past shown earlier).trans (Nat.le_succ _)
      · rw [List.mem_singleton.1 last]
  · rw [if_neg kept]
    refine ⟨ring, history, { records with same := ?_ }, rfl⟩
    rw [filtered, if_neg kept, List.append_nil]
    exact records.same

theorem level_use (tracer : Tracer) (step : Use) : (tracer.use step).level = tracer.level := by
  cases step with
  | emit event =>
    unfold use emit toRing toStream
    repeat' split
    all_goals rfl
  | snapshot => rfl
  | elsewhere numbers => rfl

theorem Records.use (records : tracer.Records ring history emitted) (step : Use) :
    ∃ ring' history', (tracer.use step).Records ring' history' (emitted ++ Use.events [step]) ∧
      ring'.capacity = ring.capacity := by
  cases step with
  | emit event => exact (records.toStream event).toRing event
  | snapshot =>
    rw [show Use.events [.snapshot] = [] from rfl, List.append_nil]
    exact ⟨ring, history, records, rfl⟩
  | elsewhere numbers =>
    rw [show Use.events [.elsewhere numbers] = [] from rfl, List.append_nil]
    exact ⟨ring, history, records.later rfl rfl (Nat.le_add_right _ _), rfl⟩

theorem Records.useAll (records : tracer.Records ring history emitted) (uses : List Use) :
    ∃ ring' history', (tracer.useAll uses).Records ring' history' (emitted ++ Use.events uses) ∧
      ring'.capacity = ring.capacity ∧ (tracer.useAll uses).level = tracer.level := by
  induction uses generalizing tracer ring history emitted with
  | nil =>
    rw [show Use.events [] = [] from rfl, List.append_nil]
    exact ⟨ring, history, records, rfl, rfl⟩
  | cons step rest ih =>
    obtain ⟨between, written, after, sameCapacity⟩ := records.use step
    obtain ⟨ring', history', last, lastCapacity, lastLevel⟩ := ih after
    have events : Use.events (step :: rest) = Use.events [step] ++ Use.events rest := by
      rw [Use.events, Use.events, Use.events, ← List.filterMap_append]
      rfl
    refine ⟨ring', history', ?_, lastCapacity.trans sameCapacity,
      lastLevel.trans (level_use tracer step)⟩
    rw [events, ← List.append_assoc]
    exact last

theorem records_new (tracer : Tracer) (capacity : Int) :
    ({ tracer with ring := some (.new capacity) } : Tracer).Records (.new capacity) [] [] where
  writes := rfl
  holds := Ring.holds_new capacity
  same := .nil
  rising := .nil
  past := fun _ => nofun

theorem forall₂_rtake {α β : Type} {related : α → β → Prop} {left : List α} {right : List β}
    (all : List.Forall₂ related left right) (count : Nat) :
    List.Forall₂ related (left.rtake count) (right.rtake count) := by
  unfold List.rtake
  rw [all.length_eq]
  exact List.forall₂_drop _ all

theorem useAll_filter (tracer : Tracer) (uses : List Use) :
    tracer.useAll (uses.filter (!·.isSnapshot)) = tracer.useAll uses := by
  induction uses generalizing tracer with
  | nil => rfl
  | cons step rest ih =>
    cases step <;> exact ih _

/--
Whatever the capacity that is asked for, the level and the uses, a look at the kept events shows
the latest of the events that the level admits, as many of them as there are places: the oldest
first, each as it was emitted except for its number, and the numbers rise. It shows the same if
nobody looked before.
-/
theorem snapshot_latest (tracer : Tracer) (capacity : Int) (uses : List Use) :
    let start : Tracer := { tracer with ring := some (.new capacity) }
    let admitted := (Use.events uses).filter tracer.level.keeps
    ∃ shown, (start.useAll uses).snapshot? = some shown ∧
      shown.length = min admitted.length (Ring.capacityFor capacity) ∧
      List.Forall₂ IsNumbered shown (admitted.rtake (Ring.capacityFor capacity)) ∧
      (shown.Pairwise fun earlier later => earlier.sequence < later.sequence) ∧
      (start.useAll (uses.filter (!·.isSnapshot))).snapshot? =
        some shown := by
  intro start admitted
  obtain ⟨ring, history, records, sameCapacity, sameLevel⟩ :=
    (records_new tracer capacity).useAll uses
  have seen : (start.useAll uses).snapshot? = some (history.rtake (Ring.capacityFor capacity)) := by
    rw [snapshot?, records.writes, Option.map_some, records.holds.toList_eq, sameCapacity]
    rfl
  have same : List.Forall₂ IsNumbered history admitted := by
    have followed := records.same
    rwa [sameLevel] at followed
  refine ⟨_, seen, ?_, forall₂_rtake same _, ?_, ?_⟩
  · rw [← same.length_eq, List.rtake, List.length_drop]
    omega
  · exact records.rising.sublist (List.drop_sublist _ _)
  · rw [useAll_filter, seen]

end Tracer

end WordMachine.Tracing
