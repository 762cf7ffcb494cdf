import WordMachine.Proofs.LiveReferences
import WordMachine.Proofs.RenamedInstructions
import Mathlib

/-!
Collections cannot be observed. Two runs of one executor that collect at different instruction
boundaries carry out the same instructions, write the same and end in the same state, and at every
boundary a renaming of references takes one session to the other.
-/

namespace WordMachine

/-! ## Runs with collections at given boundaries -/

namespace Session

/-- Carries out the next instruction, unless execution has ended. -/
def advance (session : Session) : Session :=
  if session.executor.state = .running then session.carry Exec.step else session

/-- The session at an instruction boundary, after the collection there, if there is one. -/
def pausing (session : Session) (collects : Bool) : Session :=
  if collects && session.executor.state = .running then session.collected else session

/-- The session right before the instruction with a number, counted from zero, when collections
run before the instructions that `collects` selects. -/
def before (session : Session) (collects : Nat → Bool) : Nat → Session
  | 0 => session.pausing (collects 0)
  | number + 1 => (session.before collects number).advance.pausing (collects (number + 1))

/-- Where the instructions that were carried out start, of at most `count` instructions. -/
def executed (session : Session) (collects : Nat → Bool) (count : Nat) : List UInt32 :=
  ((List.range count).map (session.before collects)).filterMap fun session =>
    if session.executor.state = .running then some session.executor.ip else none

end Session

/-! ## Renamed sessions -/

/-- Contents with other references. -/
def Payload.rename (change : Word → Word) : Payload → Payload
  | .link previous byte flat => .link (change previous) byte flat
  | .struct fields => .struct (fields.map change)
  | .future outcome => .future (outcome.map fun outcome => (change outcome.1, outcome.2))
  | .lazy (.pending target arguments) => .lazy (.pending target (arguments.map change))
  | .lazy (.forced value) => .lazy (.forced (change value))
  | payload => payload

/-- The references to objects that an executor can get at. -/
def Session.live (session : Session) : Set Word :=
  { word | session.shared.heap.Reached session.executor.roots word ∧ word.isRef = true ∧
    word.isNull = false }

/-- Sessions of which one is the other with other references: a bijection between the references
that the executors can get at takes the words on the stacks of one to those of the other, and the
contents of its objects to those of the other's. All else about the executors is the same. -/
structure Session.Renames (change : Word → Word) (first second : Session) : Prop where
  bijective : Set.BijOn change first.live second.live
  fixed : ∀ word, word.isRef = false ∨ word.isNull = true → change word = word
  executor : second.executor = first.executor.withWords
    (first.executor.eval.items.map change) (first.executor.consts.slots.map change)
  objects : ∀ word ∈ first.live, ∃ payload, first.shared.heap.Contains word payload ∧
    second.shared.heap.Contains (change word) (payload.rename change)

namespace Renaming

def apply (pairs : Renaming) (word : Word) : Word :=
  (pairs.lookup word).getD word

variable {pairs : Renaming} {first second : Heap}

theorem apply_eq (mirrors : first.Mirrors pairs second) {left right : Word}
    (relates : pairs.Relates left right) : pairs.apply left = right := by
  unfold apply
  cases found : pairs.lookup left with
  | none =>
    cases relates with
    | same _ => rfl
    | paired member =>
      have absent := List.lookup_eq_none_iff.1 found _ member
      simp at absent
  | some other =>
    obtain ⟨newer, older, decomposition, _⟩ := List.lookup_eq_some_iff.1 found
    have listed : (left, other) ∈ pairs := by simp [decomposition]
    cases relates with
    | paired member =>
      have same := mirrors.eq_of_index listed member (Or.inl rfl)
      exact congrArg Prod.snd same
    | same plain =>
      obtain ⟨_, _, contains, _, _⟩ := mirrors.object listed
      rcases plain with noRef | isNull
      · rw [(Heap.contains_iff.1 contains).1] at noRef
        cases noRef
      · rw [contains.isNull_eq] at isNull
        cases isNull

theorem map_apply_eq (mirrors : first.Mirrors pairs second) {words others : List Word}
    (related : List.Forall₂ pairs.Relates words others) : words.map pairs.apply = others := by
  induction related with
  | nil => rfl
  | cons head _ ih =>
    rw [List.map_cons, apply_eq mirrors head, ih]

theorem mapArray_apply_eq (mirrors : first.Mirrors pairs second) {words others : Array Word}
    (related : List.Forall₂ pairs.Relates words.toList others.toList) :
    words.map pairs.apply = others := by
  apply Array.toList_inj.1
  rw [Array.toList_map]
  exact map_apply_eq mirrors related

theorem rename_eq (mirrors : first.Mirrors pairs second) {payload other : Payload}
    (payloads : pairs.Payloads pairs payload other) : payload.rename pairs.apply = other := by
  cases payloads with
  | string text => rfl
  | link byte flat relates => rw [Payload.rename, apply_eq mirrors relates]
  | struct fields => rw [Payload.rename, mapArray_apply_eq mirrors fields]
  | long value => rfl
  | pending target arguments => rw [Payload.rename, mapArray_apply_eq mirrors arguments]
  | forced relates => rw [Payload.rename, apply_eq mirrors relates]

theorem exists_related {words others : List Word}
    (related : List.Forall₂ pairs.Relates words others)
    {word : Word} (member : word ∈ words) :
    ∃ twin ∈ others, pairs.Relates word twin := by
  induction related with
  | nil => cases member
  | cons head _ ih =>
    rcases List.mem_cons.1 member with rfl | later
    · exact ⟨_, List.mem_cons_self, head⟩
    · obtain ⟨twin, listed, relates⟩ := ih later
      exact ⟨twin, List.mem_cons_of_mem _ listed, relates⟩

theorem Payloads.refers {older : Renaming} (sub : older ⊆ pairs) {payload other : Payload}
    (payloads : pairs.Payloads older payload other) {next : Word} (refers : payload.Refers next) :
    ∃ twin, pairs.Relates next twin ∧ other.Refers twin := by
  cases payloads with
  | string text => cases refers
  | link byte flat relates =>
    cases refers
    exact ⟨_, relates.mono sub, .previous⟩
  | struct fields =>
    cases refers with
    | field member =>
      obtain ⟨twin, listed, relates⟩ := exists_related fields (Array.mem_toList_iff.2 member)
      exact ⟨twin, relates, .field (Array.mem_toList_iff.1 listed)⟩
  | long value => cases refers
  | pending target arguments =>
    cases refers with
    | argument member =>
      obtain ⟨twin, listed, relates⟩ := exists_related arguments (Array.mem_toList_iff.2 member)
      exact ⟨twin, relates, .argument (Array.mem_toList_iff.1 listed)⟩
  | forced relates =>
    cases refers
    exact ⟨_, relates, .value⟩

end Renaming

namespace Session.Mirrors

open Renaming

variable {spare : Nat} {numbers : List Nat} {pairs : Renaming} {first second : Session}

theorem roots (mirrors : first.Mirrors spare numbers pairs second) :
    List.Forall₂ pairs.Relates first.executor.roots second.executor.roots := by
  have executor := mirrors.executor
  obtain ⟨alone, otherAlone⟩ := executor.promises
  unfold Executor.roots
  rw [alone, otherAlone]
  exact List.rel_append (List.rel_append executor.items executor.slots) .nil

/-- What one executor can get at has a twin that the other can get at. -/
theorem reached (mirrors : first.Mirrors spare numbers pairs second) {word : Word}
    (reached : first.shared.heap.Reached first.executor.roots word) :
    ∃ twin, pairs.Relates word twin ∧ second.shared.heap.Reached second.executor.roots twin := by
  induction reached with
  | root member =>
    obtain ⟨twin, listed, relates⟩ := exists_related mirrors.roots member
    exact ⟨twin, relates, .root listed⟩
  | @follow word next object _ isRef found refers ih =>
    obtain ⟨twin, relates, twinReached⟩ := ih
    have alike := mirrors.heaps.deref relates
    rw [Heap.deref_eq_ok.2 ⟨isRef, found⟩] at alike
    generalize otherFound : second.shared.heap.deref twin = result at alike
    cases alike with
    | @ok _ other both =>
      obtain ⟨twinNext, nextRelates, twinRefers⟩ := both.2.refers (List.Subset.refl _) refers
      obtain ⟨twinRef, twinFound⟩ := Heap.deref_eq_ok.1 otherFound
      exact ⟨twinNext, nextRelates, .follow twinReached twinRef twinFound twinRefers⟩

theorem swap (mirrors : first.Mirrors spare numbers pairs second) :
    second.Mirrors spare [] pairs.swapped first :=
  ⟨mirrors.executor.swap, mirrors.shared.swap, mirrors.otherRoom, mirrors.room, nofun⟩

/-- A reference that an executor can get at is paired with one that the other can get at. -/
theorem live (mirrors : first.Mirrors spare numbers pairs second) {word : Word}
    (live : word ∈ first.live) : ∃ twin ∈ second.live, (word, twin) ∈ pairs := by
  obtain ⟨reached, isRef, notNull⟩ := live
  obtain ⟨twin, relates, twinReached⟩ := mirrors.reached reached
  refine ⟨twin, ⟨twinReached, ?_, ?_⟩, ?_⟩
  · rw [mirrors.heaps.isRef_eq relates]
    exact isRef
  · rw [mirrors.heaps.isNull_eq relates]
    exact notNull
  · cases relates with
    | same plain => simp [isRef, notNull] at plain
    | paired member => exact member

theorem renames (mirrors : first.Mirrors spare numbers pairs second) :
    first.Renames pairs.apply second where
  bijective := by
    refine ⟨?_, ?_, ?_⟩
    · intro word live
      obtain ⟨twin, twinLive, member⟩ := mirrors.live live
      rw [apply_eq mirrors.heaps (.paired member)]
      exact twinLive
    · intro word live other otherLive same
      obtain ⟨twin, _, member⟩ := mirrors.live live
      obtain ⟨otherTwin, _, otherMember⟩ := mirrors.live otherLive
      rw [apply_eq mirrors.heaps (.paired member), apply_eq mirrors.heaps (.paired otherMember)]
        at same
      have equal := mirrors.heaps.eq_of_index member otherMember (Or.inr (by rw [same]))
      exact congrArg Prod.fst equal
    · intro twin twinLive
      obtain ⟨word, live, member⟩ := mirrors.swap.live twinLive
      exact ⟨word, live, apply_eq mirrors.heaps (.paired (mem_swapped.1 member))⟩
  fixed := fun word plain => apply_eq mirrors.heaps (.same plain)
  executor := by
    rw [mapArray_apply_eq mirrors.heaps mirrors.executor.items,
      mapArray_apply_eq mirrors.heaps mirrors.executor.slots]
    exact mirrors.executor.rest
  objects := by
    intro word live
    obtain ⟨twin, _, member⟩ := mirrors.live live
    obtain ⟨payload, other, contains, otherContains, payloads⟩ := mirrors.heaps.object member
    refine ⟨payload, contains, ?_⟩
    rw [apply_eq mirrors.heaps (.paired member), rename_eq mirrors.heaps payloads]
    exact otherContains

/-! ## Collections -/

/-- What an executor holds survives a collection from its own words. -/
theorem executor_surviving (mirrors : first.Mirrors spare numbers pairs second) {heap : Heap}
    (heaps : first.shared.heap.Mirrors pairs heap) :
    first.executor.Mirrors (Heap.surviving (heap.collect second.executor.roots).1 pairs)
      second.executor := by
  have held : ∀ {words others : List Word}, List.Forall₂ pairs.Relates words others →
      (∀ word ∈ others, word ∈ second.executor.roots) →
      List.Forall₂ (Heap.surviving (heap.collect second.executor.roots).1 pairs).Relates words
        others :=
    fun related listed => Heap.forall₂_imp_mem related fun _ twin member relates =>
      heaps.relates_surviving (List.Subset.refl _) relates (.root (listed twin member))
  refine mirrors.executor.related (held mirrors.executor.items ?_) (held mirrors.executor.slots ?_)
  · exact fun word member => List.mem_append_left _ (List.mem_append_left _ member)
  · exact fun word member => List.mem_append_left _ (List.mem_append_right _ member)

/-- A collection of the second session leaves related what the executors can get at. -/
theorem collectedSecond (mirrors : first.Mirrors spare numbers pairs second) :
    ∃ kept, first.Mirrors 0 [] kept second.collected := by
  have paced := mirrors.heaps.paced false
  have executor := mirrors.executor_surviving paced
  have shared := mirrors.shared.collectedSecond second.executor.roots
    (paced.collect second.executor.roots)
  unfold Session.collected
  generalize Heap.surviving _ pairs = kept at executor shared
  generalize (Shared.collect _ _).2 = after at shared ⊢
  exact ⟨kept, executor, shared, shared.heaps.firstTidy.small, shared.heaps.secondTidy.small, nofun⟩

theorem collectedFirst (mirrors : first.Mirrors spare numbers pairs second) :
    ∃ kept, first.collected.Mirrors 0 [] kept second := by
  obtain ⟨kept, collected⟩ := mirrors.swap.collectedSecond
  exact ⟨_, collected.swap⟩

/-- Either session may collect at an instruction boundary. -/
theorem pausing (mirrors : first.Mirrors spare numbers pairs second) (collects otherwise : Bool) :
    ∃ kept, (first.pausing collects).Mirrors 0 [] kept (second.pausing otherwise) := by
  have own : ∃ kept, (first.pausing collects).Mirrors 0 [] kept second := by
    unfold Session.pausing
    split
    · exact mirrors.collectedFirst
    · exact ⟨pairs, mirrors.weaken (Nat.zero_le spare)⟩
  obtain ⟨kept, paused⟩ := own
  generalize first.pausing collects = before at paused
  unfold Session.pausing
  split
  · exact paused.collectedSecond
  · exact ⟨kept, paused⟩

/-! ## Runs -/

/-- A fault ends both sessions alike. -/
theorem raise (mirrors : first.Mirrors spare numbers pairs second) (fault : Fault) :
    (first.raise fault).Mirrors 0 [] pairs (second.raise fault) := by
  obtain ⟨own, shared⟩ := first
  obtain ⟨other, otherShared⟩ := second
  have ⟨executor, related, room, otherRoom, _⟩ := mirrors.weaken (Nat.zero_le spare)
  change own.Mirrors pairs other at executor
  change shared.Mirrors pairs otherShared at related
  have ended := executor.control
    (fun executor => { executor with state := .invalidAssembly, faulted := true, wait := none })
    (fun _ _ _ => rfl) (fun _ => rfl) (fun _ => rfl) (fun _ => rfl) nofun
  unfold Session.raise
  cases related with
  | @intro heap journal milestones heaps apart otherApart =>
    cases executor with
    | intro _ _ _ _ =>
      obtain ⟨_, _, _, _, _, _, recorded, _, _, _⟩ := shared
      cases recorded with
      | some report => exact ⟨ended, .intro heaps apart otherApart, room, otherRoom, nofun⟩
      | none => exact ⟨ended, .intro heaps apart otherApart, room, otherRoom, nofun⟩

/-- The next instruction leaves the sessions the same up to references. -/
theorem advance (mirrors : first.Mirrors 2 numbers pairs second)
    (plain : first.executor.state = .running → first.isPlain = true) :
    ∃ later, first.advance.Mirrors 0 [] later second.advance := by
  unfold Session.advance
  rw [mirrors.executor.state_eq]
  split
  · next running =>
      have agree := mirrors.step (plain running)
      unfold Session.carry
      generalize Exec.step first = result at agree
      generalize Exec.step second = otherResult at agree
      cases agree with
      | ok ends => exact ends
      | error mirrors => exact ⟨_, mirrors.raise _⟩
  · exact ⟨pairs, mirrors.weaken (Nat.zero_le 2)⟩

theorem withRoom (mirrors : first.Mirrors spare numbers pairs second) {more : Nat}
    (room : first.shared.heap.slots.size + more < 2 ^ 32)
    (otherRoom : second.shared.heap.slots.size + more < 2 ^ 32) :
    first.Mirrors more [] pairs second :=
  ⟨mirrors.executor, mirrors.shared, room, otherRoom, nofun⟩

end Session.Mirrors

/-- A session that starts without words is the same as itself, whatever its heap holds. -/
theorem Session.mirrors_entered (assembly : Assembly) (settings : Settings) (platform : Platform)
    {journal : Journal} (entry : UInt32) (unlimited : settings.heapLimit.toInt ≤ 0)
    (apart : journal.Apart) :
    let start := (Machine.new assembly settings platform journal).entered entry
    start.Mirrors 0 [] [] start := by
  have empty : ∀ handle, (Heap.new settings.gcInterval.toInt settings.heapLimit.toInt).lookup?
      handle = none := by
    intro handle
    simp [Heap.lookup?, Heap.slot?, Heap.new]
  have tidy : (Heap.new settings.gcInterval.toInt settings.heapLimit.toInt).Tidy := by
    refine ⟨.new _ _, unlimited, fun handle object stream found => ?_⟩
    rw [empty] at found
    cases found
  have unpaired : ∀ newer (left right : Word) older,
      ([] : Renaming) = newer ++ (left, right) :: older → False := by simp
  refine ⟨.intro .nil .nil rfl (fun _ waiting => by cases waiting),
    .intro ⟨tidy, tidy, .nil, fun newer left right older listed => ?_⟩ apart apart, tidy.small,
    tidy.small, fun _ member => by cases member⟩
  exact (unpaired newer left right older listed).elim

/-- What two runs from one session need in order to stay together for a number of instructions:
no instruction of the first forks a call, uses a stream or a clock or reads a reference as a
number, and both have slot numbers left. -/
structure Session.Comparable (start : Session) (collects otherwise : Nat → Bool) (count : Nat) :
    Prop where
  plain : ∀ number < count, (start.before collects number).executor.state = .running →
    (start.before collects number).isPlain = true
  room : ∀ number < count, (start.before collects number).shared.heap.slots.size + 2 < 2 ^ 32
  otherRoom : ∀ number < count,
    (start.before otherwise number).shared.heap.slots.size + 2 < 2 ^ 32

/-- Right before each instruction the sessions are the same up to references. -/
theorem Session.Mirrors.before {start : Session} {collects otherwise : Nat → Bool} {count : Nat}
    (mirrors : start.Mirrors 0 [] [] start)
    (comparable : start.Comparable collects otherwise count) :
    ∀ number ≤ count, ∃ pairs,
      (start.before collects number).Mirrors 0 [] pairs (start.before otherwise number) := by
  intro number
  induction number with
  | zero => exact fun _ => mirrors.pausing _ _
  | succ number ih =>
    intro within
    obtain ⟨pairs, before⟩ := ih (by omega)
    have roomy := before.withRoom (comparable.room number within)
      (comparable.otherRoom number within)
    obtain ⟨later, advanced⟩ := roomy.advance (comparable.plain number within)
    exact advanced.pausing _ _

/-- Collections are invisible: two runs of a program that collect at different instruction
boundaries carry out the same instructions, write the same, and are in the same state, with a
bijection between the references that they can get at. -/
theorem Session.collections_invisible {assembly : Assembly} {settings : Settings}
    {platform : Platform} {journal : Journal} {entry : UInt32} {start : Session}
    (starts : start = (Machine.new assembly settings platform journal).entered entry)
    (unlimited : settings.heapLimit.toInt ≤ 0) (apart : journal.Apart)
    {collects otherwise : Nat → Bool} {count : Nat}
    (comparable : start.Comparable collects otherwise count) :
    start.executed collects count = start.executed otherwise count ∧
      ∀ number ≤ count,
        (start.before collects number).shared.platform =
            (start.before otherwise number).shared.platform ∧
          (start.before collects number).shared.fault =
            (start.before otherwise number).shared.fault ∧
          (start.before collects number).executor.state =
            (start.before otherwise number).executor.state ∧
          ∃ change, (start.before collects number).Renames change
            (start.before otherwise number) := by
  subst starts
  have alike := (mirrors_entered assembly settings platform entry unlimited apart).before comparable
  constructor
  · unfold executed
    rw [List.filterMap_map, List.filterMap_map]
    refine List.filterMap_congr fun number listed => ?_
    obtain ⟨pairs, mirrors⟩ := alike number (List.mem_range.1 listed).le
    rw [Function.comp_apply, Function.comp_apply, mirrors.executor.state_eq,
      mirrors.executor.ip_eq]
  · intro number within
    obtain ⟨pairs, mirrors⟩ := alike number within
    exact ⟨mirrors.shared.platform_eq, mirrors.shared.fault_eq, mirrors.executor.state_eq.symm,
      _, mirrors.renames⟩

/-- The start of a program that makes a string, drops it and makes it again. -/
def Session.remaking : Session :=
  (Machine.new Machine.remaking { evalStack := 1 } default .off).entered 0

/-- With collections the second string takes the slot of the first one, without them it gets a slot
of its own. -/
theorem Session.collections_invisible_remaking :
    (remaking.before (fun _ => false) 3).executor.roots = [.ofHandle (.make 2 0)] ∧
      (remaking.before (fun _ => true) 3).executor.roots = [.ofHandle (.make 1 1)] ∧
      ∃ change, (remaking.before (fun _ => false) 3).Renames change
        (remaking.before (fun _ => true) 3) := by
  have comparable : remaking.Comparable (fun _ => false) (fun _ => true) 3 := by
    constructor <;> intro number within <;> interval_cases number <;> decide
  have starts : remaking =
      (Machine.new Machine.remaking { evalStack := 1 } default .off).entered 0 := rfl
  have invisible := collections_invisible starts (by decide) trivial comparable
  obtain ⟨_, _, _, renames⟩ := invisible.2 3 le_rfl
  exact ⟨by decide, by decide, renames⟩

end WordMachine
