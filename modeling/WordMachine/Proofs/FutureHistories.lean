import WordMachine.Proofs.Effects
import WordMachine.Machine.Ensemble

/-!
The futures that a heap holds, and what their history records. They are made by forks, change when a
forked call hands over its result, and go when nothing leads to them; everything else leaves them
alone. An event of the history has what it needs among those before it; a future in the heap has an
outcome exactly if its completion is recorded.
-/

namespace WordMachine

/-- The payload of an object whose contents change is no future, before or after. -/
theorem Payload.Rewrites.not_future {before after : Payload} (rewrites : before.Rewrites after)
    (result : Option (Word × ExecState)) : before ≠ .future result ∧ after ≠ .future result := by
  cases rewrites with
  | text text kind =>
    refine ⟨?_, nofun⟩
    rintro rfl
    cases kind
  | link => exact ⟨nofun, nofun⟩
  | lazy => exact ⟨nofun, nofun⟩
  | stream => exact ⟨nofun, nofun⟩

theorem Payload.Plain.not_future {target : UInt32 → Prop} {payload : Payload}
    (plain : payload.Plain target) (result : Option (Word × ExecState)) :
    payload ≠ .future result := by
  rintro rfl
  exact plain

namespace Heap

variable {heap before after : Heap} {word : Word} {result : Option (Word × ExecState)}

theorem outcome_eq_ok :
    heap.outcome word = .ok result ↔
      word.isRef = true ∧
        ∃ object, heap.lookup? word.toHandle = some object ∧ object.payload = .future result := by
  constructor
  · intro viewed
    obtain ⟨object, found, selected⟩ := view_eq_ok viewed
    refine ⟨?_, object, found, ?_⟩
    · by_contra different
      unfold outcome view deref at viewed
      rw [if_neg different] at viewed
      cases viewed
    · split at selected
      · next holds =>
        cases selected
        exact holds
      · cases selected
  · rintro ⟨isRef, object, found, holds⟩
    unfold outcome view deref
    rw [if_pos isRef, found]
    dsimp only
    rw [holds]

def SameFutures (before after : Heap) : Prop :=
  ∀ word result, after.outcome word = .ok result ↔ before.outcome word = .ok result

theorem SameFutures.of_lookup? (same : after.lookup? = before.lookup?) :
    before.SameFutures after := by
  intro word result
  rw [outcome_eq_ok, outcome_eq_ok, same]

theorem SameFutures.refl (heap : Heap) : heap.SameFutures heap :=
  .of_lookup? rfl

theorem sameFutures_modify {change : Object → Object} (known : word.toHandle.index ≠ 0)
    (slots : after.slots = before.slots.modify (word.toHandle.index.toNat - 1) fun slot =>
      { slot with object := slot.object.map change })
    (other : ∀ slot object, before.slot? word.toHandle.index = some slot →
      slot.object = some object →
      ∀ result, object.payload ≠ .future result ∧ (change object).payload ≠ .future result) :
    before.SameFutures after := by
  intro place result
  rw [outcome_eq_ok, outcome_eq_ok, lookup?_modify known slots]
  refine and_congr_right fun _ => ?_
  by_cases same : place.toHandle.index = word.toHandle.index
  · rw [if_pos same]
    cases found : before.lookup? place.toHandle with
    | none => exact Iff.rfl
    | some object =>
      obtain ⟨slot, slotFound, _, objectFound⟩ := lookup?_eq_some.1 found
      rw [same] at slotFound
      obtain ⟨notBefore, notAfter⟩ := other slot object slotFound objectFound result
      constructor
      · rintro ⟨_, ⟨⟩, holds⟩
        exact absurd holds notAfter
      · rintro ⟨_, ⟨⟩, holds⟩
        exact absurd holds notBefore
  · rw [if_neg same]

theorem object_of_lookup? {handle : Handle} {object other : Object} {slot : Slot}
    (found : heap.lookup? handle = some object) (slotFound : heap.slot? handle.index = some slot)
    (held : slot.object = some other) : other = object := by
  obtain ⟨known, knownFound, _, objectFound⟩ := lookup?_eq_some.1 found
  rw [slotFound] at knownFound
  cases knownFound
  rw [held] at objectFound
  exact Option.some.inj objectFound

variable {payload : Payload}

theorem outcome_allocate (wellFormed : heap.WellFormed) (room : heap.slots.size + 1 < 2 ^ 32) :
    (heap.allocate payload).2.outcome word = .ok result ↔
      word = (heap.allocate payload).1 ∧ payload = .future result ∨
        heap.outcome word = .ok result := by
  have allocated := allocate_allocated wellFormed room payload
  rw [outcome_eq_ok, outcome_eq_ok]
  by_cases same : word.isRef = true ∧
      word.toHandle.index = (heap.allocate payload).1.toHandle.index ∧
      word.toHandle.generation = (heap.allocate payload).1.toHandle.generation
  · obtain ⟨isRef, index, generation⟩ := same
    obtain rfl := Word.eq_of_toHandle isRef allocated.isRef index generation
    rw [allocated.found, allocated.fresh]
    constructor
    · rintro ⟨_, _, ⟨⟩, holds⟩
      exact Or.inl ⟨rfl, holds⟩
    · rintro (⟨_, holds⟩ | ⟨_, _, ⟨⟩, _⟩)
      exact ⟨isRef, _, rfl, holds⟩
  · have apart : word ≠ (heap.allocate payload).1 := by
      rintro rfl
      exact same ⟨allocated.isRef, rfl, rfl⟩
    constructor
    · rintro ⟨isRef, object, found, holds⟩
      rw [allocated.others word.toHandle] at found
      · exact Or.inr ⟨isRef, object, found, holds⟩
      · by_contra neither
        rw [not_or, not_not, not_not] at neither
        exact same ⟨isRef, neither⟩
    · rintro (⟨equal, _⟩ | ⟨isRef, object, found, holds⟩)
      · exact absurd equal apart
      · refine ⟨isRef, object, ?_, holds⟩
        rw [allocated.others word.toHandle]
        · exact found
        · by_contra neither
          rw [not_or, not_not, not_not] at neither
          exact same ⟨isRef, neither⟩

/-- The word of a new object led to no future before. -/
theorem outcome_fresh (wellFormed : heap.WellFormed) (room : heap.slots.size + 1 < 2 ^ 32)
    (payload : Payload) (result : Option (Word × ExecState)) :
    heap.outcome (heap.allocate payload).1 ≠ .ok result := by
  intro known
  obtain ⟨_, _, found, _⟩ := outcome_eq_ok.1 known
  rw [(allocate_allocated wellFormed room payload).fresh] at found
  cases found

theorem sameFutures_allocate (wellFormed : heap.WellFormed) (room : heap.slots.size + 1 < 2 ^ 32)
    (other : ∀ result, payload ≠ .future result) : heap.SameFutures (heap.allocate payload).2 := by
  intro word result
  rw [outcome_allocate wellFormed room]
  exact or_iff_right fun made => other result made.2

theorem outcome_setPayload {future : Word} {known : Option (Word × ExecState)}
    (live : heap.outcome future = .ok known) (outcome : Option (Word × ExecState)) :
    (heap.setPayload future (.future outcome)).outcome word = .ok result ↔
      word = future ∧ result = outcome ∨ word ≠ future ∧ heap.outcome word = .ok result := by
  obtain ⟨futureRef, object, found, holds⟩ := outcome_eq_ok.1 live
  have lookups := lookup?_modify (lookup?_index_ne_zero found)
    (setPayload_slots heap future (.future outcome)) word.toHandle
  rw [outcome_eq_ok, outcome_eq_ok, lookups]
  by_cases same : word = future
  · subst same
    rw [if_pos rfl, found]
    constructor
    · rintro ⟨_, _, ⟨⟩, ⟨⟩⟩
      exact Or.inl ⟨rfl, rfl⟩
    · rintro (⟨_, rfl⟩ | ⟨different, _⟩)
      · exact ⟨futureRef, _, rfl, rfl⟩
      · exact absurd rfl different
  · have unchanged : word.isRef = true →
        (if word.toHandle.index = future.toHandle.index then
          (heap.lookup? word.toHandle).map fun object =>
            { object with payload := .future outcome }
        else heap.lookup? word.toHandle) = heap.lookup? word.toHandle := by
      intro isRef
      by_cases index : word.toHandle.index = future.toHandle.index
      · rw [if_pos index]
        cases other : heap.lookup? word.toHandle with
        | none => rfl
        | some stale =>
          obtain ⟨slot, slotFound, generation, _⟩ := lookup?_eq_some.1 other
          obtain ⟨own, ownFound, ownGeneration, _⟩ := lookup?_eq_some.1 found
          rw [index, ownFound] at slotFound
          cases slotFound
          exact absurd (Word.eq_of_toHandle isRef futureRef index
            (generation.symm.trans ownGeneration)) same
      · rw [if_neg index]
    constructor
    · rintro ⟨isRef, rest⟩
      rw [unchanged isRef] at rest
      exact Or.inr ⟨same, isRef, rest⟩
    · rintro (⟨equal, _⟩ | ⟨_, isRef, rest⟩)
      · exact absurd equal same
      · refine ⟨isRef, ?_⟩
        rw [unchanged isRef]
        exact rest

/-- A collection keeps the futures that its roots lead to. -/
theorem outcome_collect (wellFormed : heap.WellFormed) (roots : List Word) :
    (heap.collect roots).1.outcome word = .ok result ↔
      heap.outcome word = .ok result ∧ heap.Reaches roots word.toHandle := by
  rw [outcome_eq_ok, outcome_eq_ok, collect_eq]
  dsimp only
  simp only [lookup?_pace, lookup?_sweep_mark wellFormed]
  constructor
  · rintro ⟨isRef, object, ⟨found, reaches⟩, holds⟩
    exact ⟨⟨isRef, object, found, holds⟩, reaches⟩
  · rintro ⟨⟨isRef, object, found, holds⟩, reaches⟩
    exact ⟨isRef, object, ⟨found, reaches⟩, holds⟩

end Heap

/-! ## Effects -/

namespace Session

variable {target : UInt32 → Prop} {before after : Session}

theorem Effect.futures (effect : Effect target before after)
    (wellFormed : before.shared.heap.WellFormed)
    (room : before.shared.heap.slots.size + 1 < 2 ^ 32) :
    (before.shared.heap.SameFutures after.shared.heap ∧
      after.shared.spawned = before.shared.spawned ∧
      after.shared.started = before.shared.started) ∨
    ∃ start arguments, target start ∧
      after = { before with shared := before.shared.forked start arguments } := by
  cases effect with
  | make payload plain =>
    exact Or.inl ⟨Heap.sameFutures_allocate wellFormed room plain.not_future, rfl, rfl⟩
  | rewrite word object change bytes found rewrites =>
    refine Or.inl ⟨?_, rfl, rfl⟩
    refine Heap.sameFutures_modify (Heap.lookup?_index_ne_zero found) rfl
      fun slot other slotFound held result => ?_
    obtain rfl := Heap.object_of_lookup? found slotFound held
    exact rewrites.not_future result
  | fork arguments permitted => exact Or.inr ⟨_, arguments, permitted, rfl⟩
  | opened opens =>
    exact Or.inl ⟨Heap.sameFutures_allocate wellFormed room fun _ => nofun, rfl, rfl⟩
  | _ => exact Or.inl ⟨.refl _, rfl, rfl⟩

end Session

namespace Event

def Follows (earlier : List Event) : Event → Prop
  | .forked child _ => ∀ future, .forked child future ∉ earlier
  -- A call ends once, in a state it does not leave, after it was started.
  | .completed child _ state =>
    state.isTerminal = true ∧ (∃ future, .forked child future ∈ earlier) ∧
      ∀ value state, .completed child value state ∉ earlier
  -- The future gives way to the value of a call that succeeded. Of another, only its state is
  -- taken.
  | .joined joining outcome before after state =>
    joining.limit = none ∧ maker? joining.future earlier = some joining.child ∧
      .completed joining.child outcome.1 outcome.2 ∈ earlier ∧
      ∃ rest : Array Word, before = rest.push joining.future ∧
        (outcome.2 = .success → after = rest.push outcome.1 ∧ state = .running) ∧
        (outcome.2 ≠ .success → after = rest ∧ state = outcome.2)
  | .told joining done before after =>
    joining.limit ≠ none ∧ maker? joining.future earlier = some joining.child ∧
      (done = true → ∃ value state, .completed joining.child value state ∈ earlier) ∧
      ∃ rest : Array Word, before = rest.push joining.future ∧ after = rest.push (.ofBool done)
  | .left executor =>
    (∃ future, .forked executor future ∈ earlier) →
      ∃ value state, .completed executor value state ∈ earlier

def Lawful : List Event → Prop
  | [] => True
  | event :: earlier => event.Follows earlier ∧ Lawful earlier

variable {history later earlier : List Event} {event : Event} {child : Nat}
  {future other value otherValue : Word} {state otherState : ExecState}

theorem Lawful.follows (lawful : Lawful (later ++ event :: earlier)) : event.Follows earlier := by
  induction later with
  | nil => exact lawful.1
  | cons _ _ ih => exact ih lawful.2

theorem mem_of_maker? (made : maker? future history = some child) :
    .forked child future ∈ history := by
  induction history with
  | nil => cases made
  | cons event earlier ih =>
    cases event with
    | forked maker word =>
      unfold maker? at made
      split at made
      · next same =>
        cases made
        rw [same]
        exact List.mem_cons_self
      · exact List.mem_cons_of_mem _ (ih made)
    | _ => exact List.mem_cons_of_mem _ (ih made)

theorem Lawful.forked_once (lawful : Lawful history) (first : .forked child future ∈ history)
    (second : .forked child other ∈ history) : future = other := by
  induction history with
  | nil => cases first
  | cons event earlier ih =>
    obtain ⟨follows, rest⟩ := lawful
    rcases List.mem_cons.1 first with rfl | before <;>
      rcases List.mem_cons.1 second with same | after
    · cases same
      rfl
    · exact absurd after (follows other)
    · cases same
      exact absurd before (follows future)
    · exact ih rest before after

/-- Only what was started hands over a result. -/
theorem Lawful.forked_of_completed (lawful : Lawful history)
    (completed : .completed child value state ∈ history) :
    ∃ future, .forked child future ∈ history := by
  induction history with
  | nil => cases completed
  | cons event earlier ih =>
    obtain ⟨follows, rest⟩ := lawful
    rcases List.mem_cons.1 completed with rfl | before
    · obtain ⟨future, forked⟩ := follows.2.1
      exact ⟨future, List.mem_cons_of_mem _ forked⟩
    · obtain ⟨future, forked⟩ := ih rest before
      exact ⟨future, List.mem_cons_of_mem _ forked⟩

/-- Whether an event says nothing about which futures there are and which are completed. -/
def IsRemark : Event → Prop
  | .forked _ _ => False
  | .completed _ _ _ => False
  | _ => True

theorem IsRemark.maker? (remark : event.IsRemark) (future : Word) (history : List Event) :
    Event.maker? future (event :: history) = Event.maker? future history := by
  cases event with
  | forked => cases remark
  | _ => rfl

theorem IsRemark.forked (remark : event.IsRemark) :
    .forked child future ∈ event :: history ↔ .forked child future ∈ history := by
  refine ⟨fun member => ?_, List.mem_cons_of_mem _⟩
  rcases List.mem_cons.1 member with rfl | before
  · cases remark
  · exact before

theorem IsRemark.completed (remark : event.IsRemark) :
    .completed child value state ∈ event :: history ↔ .completed child value state ∈ history := by
  refine ⟨fun member => ?_, List.mem_cons_of_mem _⟩
  rcases List.mem_cons.1 member with rfl | before
  · cases remark
  · exact before

end Event

/-! ## The history and the heap -/

/-- A history that agrees with the futures of a heap and the number of executors started. -/
structure Accounts (history : List Event) (started : Nat) (heap : Heap) : Prop where
  lawful : Event.Lawful history
  started : ∀ child future, .forked child future ∈ history → child ≤ started
  made : ∀ word result, heap.outcome word = .ok result →
    ∃ child, Event.maker? word history = some child ∧
      ∀ value state, result = some (value, state) ↔ .completed child value state ∈ history

namespace Accounts

variable {history : List Event} {started : Nat} {heap after : Heap} {event : Event}

theorem withHeap (accounts : Accounts history started heap)
    (kept : ∀ word result, after.outcome word = .ok result → heap.outcome word = .ok result) :
    Accounts history started after :=
  ⟨accounts.lawful, accounts.started, fun word result live => accounts.made word result
    (kept word result live)⟩

theorem withStarted (accounts : Accounts history started heap) {more : Nat}
    (grown : started ≤ more) : Accounts history more heap :=
  ⟨accounts.lawful, fun child future forked => (accounts.started child future forked).trans grown,
    accounts.made⟩

theorem remark (accounts : Accounts history started heap) (remark : event.IsRemark)
    (follows : event.Follows history) : Accounts (event :: history) started heap := by
  refine ⟨⟨follows, accounts.lawful⟩, fun child future forked => ?_, fun word result live => ?_⟩
  · exact accounts.started child future (remark.forked.1 forked)
  · obtain ⟨child, maker, outcomes⟩ := accounts.made word result live
    refine ⟨child, (remark.maker? word history).trans maker, fun value state => ?_⟩
    rw [outcomes, remark.completed]

theorem fork (accounts : Accounts history started heap) (wellFormed : heap.WellFormed)
    (room : heap.slots.size + 1 < 2 ^ 32) :
    Accounts (.forked (started + 1) (heap.allocate (.future none)).1 :: history) (started + 1)
      (heap.allocate (.future none)).2 := by
  have fresh : ∀ future, .forked (started + 1) future ∉ history := by
    intro future forked
    exact absurd (accounts.started _ future forked) (Nat.not_succ_le_self started)
  refine ⟨⟨fresh, accounts.lawful⟩, fun child future forked => ?_, fun word result live => ?_⟩
  · rcases List.mem_cons.1 forked with same | before
    · cases same
      exact Nat.le_refl _
    · exact (accounts.started child future before).trans (Nat.le_succ started)
  · rcases (Heap.outcome_allocate wellFormed room).1 live with ⟨rfl, made⟩ | before
    · cases made
      refine ⟨started + 1, if_pos rfl, fun value state => ⟨nofun, fun completed => ?_⟩⟩
      rcases List.mem_cons.1 completed with same | early
      · cases same
      · obtain ⟨future, forked⟩ := accounts.lawful.forked_of_completed early
        exact absurd forked (fresh future)
    · obtain ⟨child, maker, outcomes⟩ := accounts.made word result before
      have apart : (heap.allocate (.future none)).1 ≠ word := by
        rintro rfl
        exact Heap.outcome_fresh wellFormed room _ _ before
      refine ⟨child, (if_neg apart).trans maker, fun value state => ?_⟩
      rw [outcomes]
      exact ⟨List.mem_cons_of_mem _, fun member => (List.mem_cons.1 member).resolve_left nofun⟩

theorem complete (accounts : Accounts history started heap) {child : Nat} {future value : Word}
    {state : ExecState} {known : Option (Word × ExecState)} (live : heap.outcome future = .ok known)
    (maker : Event.maker? future history = some child) (terminal : state.isTerminal = true)
    (ahead : ∀ value state, .completed child value state ∉ history) :
    Accounts (.completed child value state :: history) started
      (heap.setPayload future (.future (some (value, state)))) := by
  have forked := Event.mem_of_maker? maker
  refine ⟨⟨⟨terminal, ⟨future, forked⟩, ahead⟩, accounts.lawful⟩, fun other word made => ?_,
    fun word result now => ?_⟩
  · rcases List.mem_cons.1 made with same | before
    · cases same
    · exact accounts.started other word before
  · rcases (Heap.outcome_setPayload live _).1 now with ⟨rfl, rfl⟩ | ⟨apart, before⟩
    · refine ⟨child, maker, fun otherValue otherState => ⟨?_, fun member => ?_⟩⟩
      · rintro ⟨⟩
        exact List.mem_cons_self
      · rcases List.mem_cons.1 member with same | early
        · cases same
          rfl
        · exact absurd early (ahead otherValue otherState)
    · obtain ⟨other, otherMaker, outcomes⟩ := accounts.made word result before
      have different : other ≠ child := by
        rintro rfl
        exact apart (accounts.lawful.forked_once (Event.mem_of_maker? otherMaker) forked)
      refine ⟨other, otherMaker, fun otherValue otherState => ?_⟩
      rw [outcomes]
      refine ⟨List.mem_cons_of_mem _, fun member => (List.mem_cons.1 member).resolve_left ?_⟩
      rintro ⟨⟩
      exact different rfl

theorem outcome (accounts : Accounts history started heap) {word : Word}
    {result : Option (Word × ExecState)} (live : heap.outcome word = .ok result) {child : Nat}
    (maker : Event.maker? word history = some child) {value : Word} {state : ExecState}
    (completed : .completed child value state ∈ history) : result = some (value, state) := by
  obtain ⟨other, otherMaker, outcomes⟩ := accounts.made word result live
  rw [maker] at otherMaker
  cases otherMaker
  exact (outcomes value state).2 completed

end Accounts

/-! ## What a strand carries out -/

namespace Session

variable {target : UInt32 → Prop} {history : List Event} {start before after : Session}

theorem Effect.keeps_own (effect : Effect target before after) :
    after.executor.id = before.executor.id ∧ after.executor.promise = before.executor.promise := by
  cases effect with
  | own id ip calls promise => exact ⟨id, promise⟩
  | _ => exact ⟨rfl, rfl⟩

/-- What is known of futures and of executors just started, while one executor does something. -/
structure Ledger (history : List Event) (start session : Session) : Prop where
  accounts : Accounts (session.shared.forks ++ history) session.shared.started session.shared.heap
  kept : ∀ word result, start.shared.heap.outcome word = .ok result →
    session.shared.heap.outcome word = .ok result ∧
      Event.maker? word (session.shared.forks ++ history) = Event.maker? word history
  id : session.executor.id = start.executor.id
  promise : session.executor.promise = start.executor.promise
  started : start.shared.started ≤ session.shared.started
  spawned : ∀ child ∈ session.shared.spawned,
    start.shared.started < child.id ∧ child.id ≤ session.shared.started ∧
      ∃ future, child.promise = some future ∧
        (∃ result, session.shared.heap.outcome future = .ok result) ∧
        Event.maker? future (session.shared.forks ++ history) = some child.id
  distinct : (session.shared.spawned.map (·.id)).Nodup

theorem Ledger.fork (ledger : Ledger history start before)
    (wellFormed : before.shared.heap.WellFormed) (room : before.shared.heap.slots.size + 1 < 2 ^ 32)
    (ip : UInt32) (arguments : Array Word) :
    Ledger history start { before with shared := before.shared.forked ip arguments } := by
  -- A word that led to a future is not the one that the new future gets.
  have old : ∀ word result, before.shared.heap.outcome word = .ok result →
      (before.shared.heap.allocate (.future none)).2.outcome word = .ok result ∧
        Event.maker? word (.forked (before.shared.started + 1)
          (before.shared.heap.allocate (.future none)).1 :: (before.shared.forks ++ history)) =
            Event.maker? word (before.shared.forks ++ history) := by
    intro word result live
    refine ⟨(Heap.outcome_allocate wellFormed room).2 (Or.inr live), if_neg ?_⟩
    rintro rfl
    exact Heap.outcome_fresh wellFormed room _ _ live
  refine
    { accounts := ledger.accounts.fork wellFormed room, kept := ?_, id := ledger.id
      promise := ledger.promise, started := ledger.started.trans (Nat.le_succ _), spawned := ?_
      distinct := ?_ }
  · intro word result live
    obtain ⟨now, maker⟩ := ledger.kept word result live
    obtain ⟨still, same⟩ := old word result now
    exact ⟨still, same.trans maker⟩
  · intro child member
    rcases List.mem_cons.1 member with rfl | earlier
    · refine ⟨Nat.lt_succ_of_le ledger.started, Nat.le_refl _, _, rfl, ⟨none, ?_⟩, if_pos rfl⟩
      exact (Heap.outcome_allocate wellFormed room).2 (Or.inl ⟨rfl, rfl⟩)
    · obtain ⟨above, below, future, promise, ⟨result, live⟩, maker⟩ := ledger.spawned child earlier
      obtain ⟨still, same⟩ := old future result live
      exact ⟨above, below.trans (Nat.le_succ _), future, promise, ⟨result, still⟩,
        same.trans maker⟩
  · refine List.nodup_cons.2 ⟨fun listed => ?_, ledger.distinct⟩
    obtain ⟨child, member, same⟩ := List.mem_map.1 listed
    have below := (ledger.spawned child member).2.1
    rw [same] at below
    exact absurd below (Nat.not_succ_le_self _)

theorem Ledger.effect (ledger : Ledger history start before)
    (wellFormed : before.shared.heap.WellFormed) (room : before.shared.heap.slots.size + 1 < 2 ^ 32)
    (effect : Effect target before after) : Ledger history start after := by
  obtain ⟨id, promise⟩ := effect.keeps_own
  rcases effect.futures wellFormed room with
    ⟨same, spawned, started⟩ | ⟨ip, arguments, _, rfl⟩
  · have forks : after.shared.forks = before.shared.forks := by
      unfold Shared.forks
      rw [spawned]
    constructor
    case accounts =>
      rw [forks, started]
      exact ledger.accounts.withHeap fun word result => (same word result).1
    case kept =>
      intro word result live
      obtain ⟨now, maker⟩ := ledger.kept word result live
      rw [forks]
      exact ⟨(same word result).2 now, maker⟩
    case id => exact id.trans ledger.id
    case promise => exact promise.trans ledger.promise
    case started =>
      rw [started]
      exact ledger.started
    case spawned =>
      rw [spawned, started, forks]
      intro child member
      obtain ⟨above, below, future, promised, ⟨result, live⟩, maker⟩ := ledger.spawned child member
      exact ⟨above, below, future, promised, ⟨result, (same future result).2 live⟩, maker⟩
    case distinct =>
      rw [spawned]
      exact ledger.distinct
  · exact ledger.fork wellFormed room ip arguments

/-- What one effect keeps, all that a strand does in a turn keeps. -/
theorem Effects.ledger (effects : start.Effects target after)
    (wellFormed : start.shared.heap.WellFormed)
    (room : after.shared.heap.slots.size + 1 < 2 ^ 32) (nobody : start.shared.spawned = [])
    (accounts : Accounts history start.shared.started start.shared.heap) :
    Ledger history start after := by
  have none : start.shared.forks = [] := by
    unfold Shared.forks
    rw [nobody]
    rfl
  refine effects.keeps (fun _ _ ledger formed enough effect => ledger.effect formed enough effect)
    wellFormed room ?_
  constructor
  case accounts =>
    rw [none]
    exact accounts
  case kept =>
    rw [none]
    exact fun word result live => ⟨live, rfl⟩
  case spawned =>
    rw [nobody]
    exact fun _ member => nomatch member
  case distinct =>
    rw [nobody]
    exact List.nodup_nil
  case id => rfl
  case promise => rfl
  case started => exact Nat.le_refl _

end Session

end WordMachine
