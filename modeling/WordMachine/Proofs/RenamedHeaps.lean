import WordMachine.Proofs.References
import WordMachine.Proofs.Representation
import WordMachine.Proofs.Running
import Mathlib

/-!
Heaps whose objects lie in different slots. A renaming pairs references of one heap with references
of another; heaps mirror each other if paired objects have the same contents up to the renaming.
Reading through paired words gives the same in both, allocating adds a pair, and a collection of
either heap drops the pairs it frees.
-/

namespace WordMachine

/-- References of one heap with the references that stand for them in another, newest first. -/
abbrev Renaming := List (Word × Word)

namespace Renaming

variable {pairs older : Renaming} {left right : Payload}

/-- A word stands for itself unless it refers to an object. -/
inductive Relates (pairs : Renaming) : Word → Word → Prop
  | same {word : Word} :
      word.isRef = false ∨ word.isNull = true →
      Relates pairs word word
  | paired {left right : Word} :
      (left, right) ∈ pairs →
      Relates pairs left right

theorem Relates.mono {later : Renaming} (kept : pairs ⊆ later) {left right : Word}
    (relates : pairs.Relates left right) : later.Relates left right := by
  cases relates with
  | same plain => exact .same plain
  | paired member => exact .paired (kept member)

/-- Contents that are alike up to a renaming. A link leads to an older object, so every chain of
links ends. -/
inductive Payloads (pairs older : Renaming) : Payload → Payload → Prop
  | string (text : Bytes) :
      Payloads pairs older (.string text) (.string text)
  | link {left right : Word} (byte : UInt8) (flat : Option Bytes) :
      older.Relates left right →
      Payloads pairs older (.link left byte flat) (.link right byte flat)
  | struct {left right : Array Word} :
      List.Forall₂ pairs.Relates left.toList right.toList →
      Payloads pairs older (.struct left) (.struct right)
  | long (value : Int64) :
      Payloads pairs older (.long value) (.long value)
  | pending (target : UInt32) {left right : Array Word} :
      List.Forall₂ pairs.Relates left.toList right.toList →
      Payloads pairs older (.lazy (.pending target left)) (.lazy (.pending target right))
  | forced {left right : Word} :
      pairs.Relates left right →
      Payloads pairs older (.lazy (.forced left)) (.lazy (.forced right))

theorem Payloads.mono {later elder : Renaming} (kept : pairs ⊆ later) (keptOlder : older ⊆ elder)
    (payloads : pairs.Payloads older left right) : later.Payloads elder left right := by
  cases payloads with
  | string text => exact .string text
  | link byte flat relates => exact .link byte flat (relates.mono keptOlder)
  | struct fields => exact .struct (fields.imp fun _ _ relates => relates.mono kept)
  | long value => exact .long value
  | pending target arguments =>
    exact .pending target (arguments.imp fun _ _ relates => relates.mono kept)
  | forced relates => exact .forced (relates.mono kept)

theorem Payloads.kind_eq (payloads : pairs.Payloads older left right) : left.kind = right.kind := by
  cases payloads <;> rfl

theorem Payloads.not_stream (payloads : pairs.Payloads older left right) (stream : Stream) :
    left ≠ .stream stream ∧ right ≠ .stream stream := by
  cases payloads <;> exact ⟨nofun, nofun⟩

/-- The renaming the other way round. -/
def swapped (pairs : Renaming) : Renaming :=
  pairs.map Prod.swap

theorem mem_swapped {left right : Word} :
    (right, left) ∈ pairs.swapped ↔ (left, right) ∈ pairs := by
  simp [swapped]

theorem swapped_swapped (pairs : Renaming) : pairs.swapped.swapped = pairs := by
  simp [swapped]

theorem Relates.swap {left right : Word} (relates : pairs.Relates left right) :
    pairs.swapped.Relates right left := by
  cases relates with
  | same plain => exact .same plain
  | paired member => exact .paired (mem_swapped.2 member)

theorem relates_swap {lefts rights : List Word}
    (related : List.Forall₂ pairs.Relates lefts rights) :
    List.Forall₂ pairs.swapped.Relates rights lefts :=
  (related.imp fun _ _ relates => relates.swap).flip

theorem Payloads.swap (payloads : pairs.Payloads older left right) :
    pairs.swapped.Payloads older.swapped right left := by
  cases payloads with
  | string text => exact .string text
  | link byte flat relates => exact .link byte flat relates.swap
  | struct fields => exact .struct (relates_swap fields)
  | long value => exact .long value
  | pending target arguments => exact .pending target (relates_swap arguments)
  | forced relates => exact .forced relates.swap

end Renaming

namespace Heap

open Renaming

variable {left right word : Word} {heap : Heap} {payload : Payload}

/-- A sound heap without a limit and without streams. -/
structure Tidy (heap : Heap) : Prop where
  sound : heap.Sound
  unlimited : heap.limit ≤ 0
  streamless : ∀ handle object stream,
    heap.lookup? handle = some object → object.payload ≠ .stream stream

/-- Heaps in which paired references lead to the same contents up to the renaming, and different
pairs to different slots. -/
structure Mirrors (pairs : Renaming) (first second : Heap) : Prop where
  firstTidy : first.Tidy
  secondTidy : second.Tidy
  apart : pairs.Pairwise fun pair other =>
    pair.1.toHandle.index ≠ other.1.toHandle.index ∧
      pair.2.toHandle.index ≠ other.2.toHandle.index
  objects : ∀ newer left right older, pairs = newer ++ (left, right) :: older →
    ∃ payload other, first.Contains left payload ∧ second.Contains right other ∧
      pairs.Payloads older payload other

variable {pairs : Renaming} {first second : Heap}

namespace Mirrors

variable {left right : Word}

theorem object (mirrors : Mirrors pairs first second) (member : (left, right) ∈ pairs) :
    ∃ payload other, first.Contains left payload ∧ second.Contains right other ∧
      pairs.Payloads pairs payload other := by
  obtain ⟨newer, older, rfl⟩ := List.append_of_mem member
  obtain ⟨payload, other, contains, otherContains, payloads⟩ :=
    mirrors.objects newer left right older rfl
  refine ⟨payload, other, contains, otherContains, payloads.mono (List.Subset.refl _) ?_⟩
  exact fun pair older => List.mem_append_right _ (List.mem_cons_of_mem _ older)

/-- A slot of either heap belongs to one pair. -/
theorem eq_of_index (mirrors : Mirrors pairs first second) {pair other : Word × Word}
    (member : pair ∈ pairs) (otherMember : other ∈ pairs)
    (index : pair.1.toHandle.index = other.1.toHandle.index ∨
      pair.2.toHandle.index = other.2.toHandle.index) : pair = other := by
  by_contra different
  have symmetric : Std.Symm fun pair other : Word × Word =>
      pair.1.toHandle.index ≠ other.1.toHandle.index ∧
        pair.2.toHandle.index ≠ other.2.toHandle.index :=
    ⟨fun _ _ apart => ⟨apart.1.symm, apart.2.symm⟩⟩
  have apart := mirrors.apart.forall member otherMember different
  rcases index with left | right
  · exact apart.1 left
  · exact apart.2 right

theorem swap (mirrors : Mirrors pairs first second) : Mirrors pairs.swapped second first where
  firstTidy := mirrors.secondTidy
  secondTidy := mirrors.firstTidy
  apart := by
    unfold swapped
    rw [List.pairwise_map]
    exact mirrors.apart.imp fun apart => ⟨apart.2, apart.1⟩
  objects := by
    intro newer right left older decomposition
    have original : pairs = swapped newer ++ (left, right) :: swapped older := by
      rw [← pairs.swapped_swapped, decomposition]
      simp [swapped]
    obtain ⟨payload, other, contains, otherContains, payloads⟩ :=
      mirrors.objects _ _ _ _ original
    refine ⟨other, payload, otherContains, contains, ?_⟩
    have flipped := payloads.swap
    rw [swapped_swapped] at flipped
    exact flipped

theorem length_le (mirrors : Mirrors pairs first second) : pairs.length ≤ first.slots.size := by
  have distinct : (pairs.map fun pair => position pair.1).Nodup := by
    unfold List.Nodup
    rw [List.pairwise_map]
    refine mirrors.apart.imp_of_mem fun {pair other} member otherMember apart same => apart.1 ?_
    obtain ⟨_, _, contains, _, _⟩ := mirrors.object member
    obtain ⟨_, _, otherContains, _, _⟩ := mirrors.object otherMember
    exact (position_inj contains.position_lt.2 otherContains.position_lt.2).1 same
  have inside : ∀ place ∈ pairs.map fun pair => position pair.1, place < first.slots.size := by
    intro place member
    obtain ⟨pair, pairMember, rfl⟩ := List.mem_map.1 member
    obtain ⟨_, _, contains, _, _⟩ := mirrors.object pairMember
    exact contains.position_lt.1
  simpa using length_le_of_nodup distinct inside

theorem isRef_eq (mirrors : Mirrors pairs first second) (relates : pairs.Relates left right) :
    right.isRef = left.isRef := by
  cases relates with
  | same _ => rfl
  | paired member =>
    obtain ⟨_, _, contains, otherContains, _⟩ := mirrors.object member
    rw [(contains_iff.1 contains).1, (contains_iff.1 otherContains).1]

theorem isNull_eq (mirrors : Mirrors pairs first second) (relates : pairs.Relates left right) :
    right.isNull = left.isNull := by
  cases relates with
  | same _ => rfl
  | paired member =>
    obtain ⟨_, _, contains, otherContains, _⟩ := mirrors.object member
    rw [contains.isNull_eq, otherContains.isNull_eq]

/-- A word that is no reference stands for itself only. -/
theorem eq_of_isRef (mirrors : Mirrors pairs first second) (relates : pairs.Relates left right)
    (plain : left.isRef = false) : right = left := by
  cases relates with
  | same _ => rfl
  | paired member =>
    obtain ⟨_, _, contains, _, _⟩ := mirrors.object member
    rw [(contains_iff.1 contains).1] at plain
    cases plain

end Mirrors

/-! ## Reading -/

/-- Readings that succeed alike or fail alike. -/
inductive Alike {α β : Type} (post : α → β → Prop) : Except Fault α → Except Fault β → Prop
  | ok {left : α} {right : β} :
      post left right →
      Alike post (.ok left) (.ok right)
  | error (fault : Fault) :
      Alike post (.error fault) (.error fault)

/-- A word that refers to no object is read alike in all heaps. -/
theorem deref_plain (first second : Heap) (plain : word.isRef = false ∨ word.isNull = true) :
    ∃ fault, first.deref word = .error fault ∧ second.deref word = .error fault := by
  rcases plain with noRef | isNull
  · exact ⟨.notRef word, by simp [deref, noRef], by simp [deref, noRef]⟩
  · obtain rfl : word = .null := by simpa [Word.isNull] using isNull
    exact ⟨_, rfl, rfl⟩

theorem Mirrors.deref (mirrors : Mirrors pairs first second) (relates : pairs.Relates left right) :
    Alike
      (fun object other => (left, right) ∈ pairs ∧
        pairs.Payloads pairs object.payload other.payload)
      (first.deref left) (second.deref right) := by
  cases relates with
  | same plain =>
    obtain ⟨fault, failed, otherFailed⟩ := deref_plain first second plain
    rw [failed, otherFailed]
    exact .error fault
  | paired member =>
    obtain ⟨payload, other, ⟨size, found⟩, ⟨otherSize, otherFound⟩, payloads⟩ :=
      mirrors.object member
    rw [found, otherFound]
    exact .ok ⟨member, payloads⟩

theorem Mirrors.view (mirrors : Mirrors pairs first second) {α β : Type} (kind : RefKind)
    {select : Payload → Option α} {selectOther : Payload → Option β} {post : α → β → Prop}
    (selects : ∀ payload other, pairs.Payloads pairs payload other →
      Option.Rel post (select payload) (selectOther other)) (relates : pairs.Relates left right) :
    Alike post (first.view kind select left) (second.view kind selectOther right) := by
  have alike := mirrors.deref relates
  unfold Heap.view
  generalize first.deref left = found at alike
  generalize second.deref right = otherFound at alike
  cases alike with
  | error fault => exact .error fault
  | @ok object other both =>
    obtain ⟨_, payloads⟩ := both
    have selected := selects _ _ payloads
    simp only
    rw [payloads.kind_eq]
    generalize select object.payload = value at selected
    generalize selectOther other.payload = otherValue at selected
    cases selected with
    | some related => exact .ok related
    | none => exact .error _

theorem Mirrors.fields (mirrors : Mirrors pairs first second) (relates : pairs.Relates left right) :
    Alike (fun fields others => List.Forall₂ pairs.Relates fields.toList others.toList)
      (first.fields left) (second.fields right) := by
  refine mirrors.view .struct (fun payload other payloads => ?_) relates
  cases payloads with
  | struct fields => exact .some fields
  | string text => exact .none
  | link byte flat relates => exact .none
  | long value => exact .none
  | pending target arguments => exact .none
  | forced relates => exact .none

def DelayedAlike (pairs : Renaming) (left right : Delayed) : Prop :=
  pairs.Payloads pairs (.lazy left) (.lazy right)

theorem Mirrors.delayed (mirrors : Mirrors pairs first second)
    (relates : pairs.Relates left right) :
    Alike (DelayedAlike pairs) (first.delayed left) (second.delayed right) := by
  refine mirrors.view .lazy (fun payload other payloads => ?_) relates
  cases payloads with
  | pending target arguments => exact .some (.pending target arguments)
  | forced relates => exact .some (.forced relates)
  | string text => exact .none
  | link byte flat relates => exact .none
  | struct fields => exact .none
  | long value => exact .none

theorem Mirrors.outcome (mirrors : Mirrors pairs first second)
    (relates : pairs.Relates left right) :
    Alike (fun _ _ => False) (first.outcome left) (second.outcome right) := by
  refine mirrors.view .future (fun payload other payloads => ?_) relates
  cases payloads <;> exact .none

theorem Mirrors.long_eq (mirrors : Mirrors pairs first second)
    (relates : pairs.Relates left right) : first.long left = second.long right := by
  unfold Heap.long
  rw [mirrors.isRef_eq relates]
  by_cases isRef : left.isRef = true
  · rw [if_pos isRef, if_pos isRef]
    have alike := mirrors.deref relates
    generalize first.deref left = found at alike
    generalize second.deref right = otherFound at alike
    cases alike with
    | error fault => rfl
    | @ok object other both =>
      obtain ⟨size, payload⟩ := object
      obtain ⟨otherSize, otherPayload⟩ := other
      cases both.2 <;> rfl
  · rw [if_neg isRef, if_neg isRef, mirrors.eq_of_isRef relates (by simpa using isRef)]

/-- The walk along a chain of links gives the same in both heaps, as the pairs on the way get
older. -/
theorem Mirrors.chainText_eq (mirrors : Mirrors pairs first second) (fuel otherFuel : Nat) :
    ∀ (newer : Renaming) {older : Renaming} {left right : Word} (tail : List UInt8),
      pairs = newer ++ older → older.Relates left right →
      older.length < fuel → older.length < otherFuel →
      first.chainText fuel left tail = second.chainText otherFuel right tail := by
  induction fuel generalizing otherFuel with
  | zero => exact fun _ _ _ _ _ _ _ impossible => absurd impossible (Nat.not_lt_zero _)
  | succ fuel ih =>
    intro newer older left right tail decomposition relates enough otherEnough
    obtain ⟨otherFuel, rfl⟩ : ∃ less, otherFuel = less + 1 := ⟨otherFuel - 1, by omega⟩
    unfold chainText
    cases relates with
    | same plain =>
      obtain ⟨fault, failed, otherFailed⟩ := deref_plain first second plain
      rw [failed, otherFailed]
    | paired member =>
      obtain ⟨between, oldest, rfl⟩ := List.append_of_mem member
      obtain ⟨payload, other, ⟨size, found⟩, ⟨otherSize, otherFound⟩, payloads⟩ :=
        mirrors.objects (newer ++ between) left right oldest
          (by rw [decomposition, List.append_assoc])
      rw [found, otherFound]
      cases payloads with
      | link byte flat relates =>
        cases flat with
        | some text => rfl
        | none =>
          simp only [List.length_append, List.length_cons] at enough otherEnough
          refine ih otherFuel (newer ++ between ++ [(left, right)])
            (byte :: tail) ?_ relates (by omega) (by omega)
          simp [decomposition]
      | string text => rfl
      | struct fields => rfl
      | long value => rfl
      | pending target arguments => rfl
      | forced relates => rfl

theorem Mirrors.text_eq (mirrors : Mirrors pairs first second)
    (relates : pairs.Relates left right) : first.text left = second.text right := by
  unfold Heap.text
  cases relates with
  | same plain =>
    obtain ⟨fault, failed, otherFailed⟩ := deref_plain first second plain
    rw [failed, otherFailed]
  | paired member =>
    obtain ⟨newer, older, rfl⟩ := List.append_of_mem member
    obtain ⟨payload, other, ⟨size, found⟩, ⟨otherSize, otherFound⟩, payloads⟩ :=
      mirrors.objects newer left right older rfl
    have few := mirrors.length_le
    have otherFew := mirrors.swap.length_le
    rw [swapped, List.length_map] at otherFew
    simp only [List.length_append, List.length_cons] at few otherFew
    rw [found, otherFound]
    cases payloads with
    | link byte flat relates =>
      cases flat with
      | some text => rfl
      | none =>
        have walked := mirrors.chainText_eq (first.slots.size + 1) (second.slots.size + 1)
          (newer ++ [(left, right)]) [byte] (by simp) relates (by omega) (by omega)
        simp only
        rw [walked]
    | string text => rfl
    | struct fields => rfl
    | long value => rfl
    | pending target arguments => rfl
    | forced relates => rfl

/-! ## Changing -/

theorem lookup?_modify_stream {heap changed : Heap} {index : UInt32} {change : Object → Object}
    (tidy : heap.Tidy) (positive : index ≠ 0)
    (slots : changed.slots = heap.slots.modify (index.toNat - 1) fun slot =>
      { slot with object := slot.object.map change })
    (quiet : ∀ object stream, object.payload ≠ .stream stream →
      (change object).payload ≠ .stream stream) :
    ∀ handle object stream,
      changed.lookup? handle = some object → object.payload ≠ .stream stream := by
  intro handle object stream found
  rw [lookup?_modify positive slots] at found
  split at found
  · obtain ⟨before, beforeFound, rfl⟩ := Option.map_eq_some_iff.1 found
    exact quiet before stream (tidy.streamless handle before stream beforeFound)
  · exact tidy.streamless handle object stream found

theorem Tidy.remember (tidy : heap.Tidy) (contains : heap.Contains word payload) (text : Bytes) :
    (heap.remember word text).Tidy := by
  obtain ⟨_, size, found⟩ := contains_iff.1 contains
  refine ⟨tidy.sound.remember found text, tidy.unlimited, ?_⟩
  refine lookup?_modify_stream tidy contains.position_lt.2 (remember_slots heap word text) ?_
  intro object stream other
  split
  · exact nofun
  · exact other

theorem Tidy.setDelayed (tidy : heap.Tidy) (contains : heap.Contains word payload)
    (call : Delayed) : (heap.setPayload word (.lazy call)).Tidy := by
  obtain ⟨_, size, found⟩ := contains_iff.1 contains
  refine ⟨tidy.sound.setPayload found nofun, tidy.unlimited, ?_⟩
  refine lookup?_modify_stream tidy contains.position_lt.2 (setPayload_slots heap word _) ?_
  exact fun _ _ _ => nofun

theorem Mirrors.modify {changed otherChanged : Heap} {change otherChange : Object → Object}
    (mirrors : Mirrors pairs first second) {left right : Word} (member : (left, right) ∈ pairs)
    (slots : changed.slots = first.slots.modify (left.toHandle.index.toNat - 1) fun slot =>
      { slot with object := slot.object.map change })
    (otherSlots : otherChanged.slots =
      second.slots.modify (right.toHandle.index.toNat - 1) fun slot =>
        { slot with object := slot.object.map otherChange })
    (tidy : changed.Tidy) (otherTidy : otherChanged.Tidy)
    (alike : ∀ older object other, pairs.Payloads older object.payload other.payload →
      pairs.Payloads older (change object).payload (otherChange other).payload) :
    Mirrors pairs changed otherChanged where
  firstTidy := tidy
  secondTidy := otherTidy
  apart := mirrors.apart
  objects := by
    intro newer word twin older decomposition
    obtain ⟨_, _, contains, otherContains, _⟩ := mirrors.object member
    obtain ⟨payload, other, wordContains, twinContains, payloads⟩ :=
      mirrors.objects newer word twin older decomposition
    have listed : (word, twin) ∈ pairs := by simp [decomposition]
    obtain ⟨size, _, now⟩ := contains_modify contains slots wordContains
    obtain ⟨otherSize, _, otherNow⟩ := contains_modify otherContains otherSlots twinContains
    refine ⟨_, _, now, otherNow, ?_⟩
    by_cases same : word.toHandle.index = left.toHandle.index
    · cases mirrors.eq_of_index listed member (Or.inl same)
      rw [if_pos rfl, if_pos rfl]
      exact alike older ⟨size, payload⟩ ⟨otherSize, other⟩ payloads
    · have different : twin.toHandle.index ≠ right.toHandle.index := by
        intro index
        cases mirrors.eq_of_index listed member (Or.inr index)
        exact same rfl
      rw [if_neg same, if_neg different]
      exact payloads

theorem Mirrors.remember (mirrors : Mirrors pairs first second) (member : (left, right) ∈ pairs)
    (text : Bytes) : Mirrors pairs (first.remember left text) (second.remember right text) := by
  obtain ⟨_, _, contains, otherContains, _⟩ := mirrors.object member
  refine mirrors.modify member (remember_slots first left text) (remember_slots second right text)
    (mirrors.firstTidy.remember contains text) (mirrors.secondTidy.remember otherContains text) ?_
  rintro older ⟨size, payload⟩ ⟨otherSize, other⟩ payloads
  cases payloads with
  | link byte flat relates => exact .link byte (some text) relates
  | string text => exact .string text
  | struct fields => exact .struct fields
  | long value => exact .long value
  | pending target arguments => exact .pending target arguments
  | forced relates => exact .forced relates

theorem Mirrors.setForced (mirrors : Mirrors pairs first second) (member : (left, right) ∈ pairs)
    {value other : Word} (relates : pairs.Relates value other) :
    Mirrors pairs (first.setPayload left (.lazy (.forced value)))
      (second.setPayload right (.lazy (.forced other))) := by
  obtain ⟨_, _, contains, otherContains, _⟩ := mirrors.object member
  refine mirrors.modify member (setPayload_slots first left _) (setPayload_slots second right _)
    (mirrors.firstTidy.setDelayed contains _) (mirrors.secondTidy.setDelayed otherContains _) ?_
  exact fun _ _ _ _ => .forced relates

/-- The return of a delayed call stores related values in related objects. -/
theorem Mirrors.force (mirrors : Mirrors pairs first second) {value other : Word}
    (relates : pairs.Relates left right) (values : pairs.Relates value other) :
    Alike
      (fun stored otherStored => pairs.Relates stored.1 otherStored.1 ∧
        Mirrors pairs stored.2 otherStored.2 ∧ stored.2.slots.size = first.slots.size ∧
        otherStored.2.slots.size = second.slots.size)
      (first.force left value) (second.force right other) := by
  have alike := mirrors.delayed relates
  unfold Heap.force
  cases relates with
  | same plain =>
    obtain ⟨fault, failed, otherFailed⟩ := deref_plain first second plain
    simp only [Heap.delayed, Heap.view, failed, otherFailed]
    exact .error fault
  | paired member =>
    generalize first.delayed left = found at alike
    generalize second.delayed right = otherFound at alike
    cases alike with
    | error fault => exact .error fault
    | ok calls =>
      cases calls with
      | forced stored => exact .ok ⟨stored, mirrors, rfl, rfl⟩
      | pending target arguments =>
        exact .ok ⟨values, mirrors.setForced member values, Array.size_modify,
          Array.size_modify⟩

/-! ## Allocating -/

theorem allocate_limit (heap : Heap) (payload : Payload) :
    (heap.allocate payload).2.limit = heap.limit := by
  rw [allocate_eq]
  unfold place charged pace
  split <;> split <;> rfl

theorem Tidy.allocate (tidy : heap.Tidy) (room : heap.slots.size + 1 < 2 ^ 32)
    (quiet : ∀ stream, payload ≠ .stream stream) : (heap.allocate payload).2.Tidy where
  sound := tidy.sound.allocate payload room
  unlimited := by
    rw [allocate_limit]
    exact tidy.unlimited
  streamless := by
    intro handle object stream found
    have allocated := allocate_allocated tidy.sound.wellFormed room payload
    by_cases same : handle.index = (heap.allocate payload).1.toHandle.index ∧
        handle.generation = (heap.allocate payload).1.toHandle.generation
    · rw [lookup?_congr _ same.1 same.2, allocated.found] at found
      cases found
      exact quiet stream
    · rw [allocated.others handle (not_and_or.1 same)] at found
      exact tidy.streamless handle object stream found

theorem Mirrors.allocate (mirrors : Mirrors pairs first second) {other : Payload}
    (payloads : pairs.Payloads pairs payload other) (room : first.slots.size + 1 < 2 ^ 32)
    (otherRoom : second.slots.size + 1 < 2 ^ 32) :
    Mirrors (((first.allocate payload).1, (second.allocate other).1) :: pairs)
      (first.allocate payload).2 (second.allocate other).2 := by
  have allocated := allocate_allocated mirrors.firstTidy.sound.wellFormed room payload
  have otherAllocated := allocate_allocated mirrors.secondTidy.sound.wellFormed otherRoom other
  constructor
  case firstTidy =>
    exact mirrors.firstTidy.allocate room fun stream => (payloads.not_stream stream).1
  case secondTidy =>
    exact mirrors.secondTidy.allocate otherRoom fun stream => (payloads.not_stream stream).2
  case apart =>
    refine List.pairwise_cons.2 ⟨fun pair member => ?_, mirrors.apart⟩
    obtain ⟨_, _, contains, otherContains, _⟩ := mirrors.object member
    exact ⟨allocated.index_ne contains, otherAllocated.index_ne otherContains⟩
  case objects =>
    intro newer left right older decomposition
    have grown : pairs ⊆ ((first.allocate payload).1, (second.allocate other).1) :: pairs :=
      List.subset_cons_self _ _
    cases newer with
    | nil =>
      cases decomposition
      exact ⟨payload, other, allocated.contains_new, otherAllocated.contains_new,
        payloads.mono grown (List.Subset.refl _)⟩
    | cons newest newer =>
      obtain ⟨rfl, before⟩ := List.cons.inj decomposition
      obtain ⟨held, otherHeld, contains, otherContains, alike⟩ :=
        mirrors.objects newer left right older before
      exact ⟨held, otherHeld, allocated.contains contains, otherAllocated.contains otherContains,
        alike.mono grown (List.Subset.refl _)⟩

/-! ## Collecting -/

theorem collect_limit (wellFormed : WellFormed heap) (roots : List Word) :
    (heap.collect roots).1.limit = heap.limit := by
  have marked := congrArg Heap.limit (mark_onlyMarks wellFormed roots).rest
  unfold collect sweep sweeping
  exact (Sweeping.run_keeps Heap.limit (fun _ _ _ _ => rfl) _ _).trans marked

theorem Sound.collected (sound : heap.Sound) (roots : List Word) :
    Collected heap roots (heap.collect roots).1 (heap.collect roots).2 := by
  rw [collect_eq]
  exact (sweep_mark_collected sound.wellFormed sound.accounted roots).pace _

theorem Tidy.collect (tidy : heap.Tidy) (roots : List Word) : (heap.collect roots).1.Tidy where
  sound := tidy.sound.collect roots
  unlimited := by
    rw [collect_limit tidy.sound.wellFormed]
    exact tidy.unlimited
  streamless := by
    intro handle object stream found
    obtain ⟨before, _⟩ := ((tidy.sound.collected roots).kept handle object).1 found
    exact tidy.streamless handle object stream before

/-- A collection of a heap without streams has none to close. -/
theorem Tidy.freedStreams_eq_nil (tidy : heap.Tidy) (roots : List Word) :
    freedStreams (heap.collect roots).2 = [] := by
  unfold freedStreams
  rw [List.filterMap_eq_nil_iff]
  intro entry member
  obtain ⟨handle, _, found, _⟩ :=
    ((tidy.sound.collected roots).gone entry.index entry.object).1 member
  cases payload : entry.object.payload with
  | stream stream => exact absurd payload (tidy.streamless handle entry.object stream found)
  | _ => rfl

theorem Tidy.small (tidy : heap.Tidy) : heap.slots.size < 2 ^ 32 :=
  tidy.sound.wellFormed.layout.small

theorem Tidy.paced (tidy : heap.Tidy) (requested : Bool) : Tidy { heap with requested } :=
  ⟨tidy.sound.pace heap.left requested, tidy.unlimited, tidy.streamless⟩

theorem Mirrors.paced (mirrors : Mirrors pairs first second) (requested : Bool) :
    Mirrors pairs first { second with requested } :=
  ⟨mirrors.firstTidy, mirrors.secondTidy.paced requested, mirrors.apart, mirrors.objects⟩

theorem forall₂_imp_mem {α β : Type} {before after : α → β → Prop} {lefts : List α}
    {rights : List β} (related : List.Forall₂ before lefts rights)
    (implies : ∀ left right, right ∈ rights → before left right → after left right) :
    List.Forall₂ after lefts rights := by
  induction related with
  | nil => exact .nil
  | cons head _ ih =>
    refine .cons (implies _ _ List.mem_cons_self head) (ih ?_)
    exact fun left right member => implies left right (List.mem_cons_of_mem _ member)

section Collect

variable {roots : List Word}

/-- The pairs whose second object is in a heap. -/
def surviving (after : Heap) (pairs : Renaming) : Renaming :=
  pairs.filter fun pair => (after.lookup? pair.2.toHandle).isSome

theorem Mirrors.relates_surviving (mirrors : Mirrors pairs first second) {part : Renaming}
    (sub : part ⊆ pairs) {left right : Word} (relates : part.Relates left right)
    (reached : second.Reached roots right) :
    (surviving (second.collect roots).1 part).Relates left right := by
  cases relates with
  | same plain => exact .same plain
  | paired member =>
    obtain ⟨_, _, _, contains, _⟩ := mirrors.object (sub member)
    have kept := Evaluation.collected_contains (mirrors.secondTidy.sound.collected roots) reached
      contains
    obtain ⟨_, size, found⟩ := contains_iff.1 kept
    exact .paired (List.mem_filter.2 ⟨member, by simp [found]⟩)

theorem Sound.survived (sound : second.Sound) {word : Word}
    (kept : ((second.collect roots).1.lookup? word.toHandle).isSome = true) {payload : Payload}
    (contains : second.Contains word payload) :
    (second.collect roots).1.Contains word payload ∧
      ∀ next, payload.Refers next → second.Reached roots next := by
  obtain ⟨isRef, size, found⟩ := contains_iff.1 contains
  obtain ⟨object, survived⟩ := Option.isSome_iff_exists.1 kept
  obtain ⟨before, holder, reached, holderRef, index, generation⟩ :=
    ((sound.collected roots).kept word.toHandle object).1 survived
  rw [found] at before
  cases before
  refine ⟨contains_iff.2 ⟨isRef, size, survived⟩, fun next refers => ?_⟩
  have holds := (lookup?_congr second index generation).trans found
  exact .follow reached holderRef holds refers

theorem Mirrors.payloads_surviving (mirrors : Mirrors pairs first second) {older : Renaming}
    (sub : older ⊆ pairs) {payload other : Payload} (payloads : pairs.Payloads older payload other)
    (reached : ∀ next, other.Refers next → second.Reached roots next) :
    (surviving (second.collect roots).1 pairs).Payloads
      (surviving (second.collect roots).1 older) payload other := by
  have all : ∀ {words twins : List Word}, List.Forall₂ pairs.Relates words twins →
      (∀ twin ∈ twins, second.Reached roots twin) →
      List.Forall₂ (surviving (second.collect roots).1 pairs).Relates words twins :=
    fun related reachable => forall₂_imp_mem related fun _ twin member relates =>
      mirrors.relates_surviving (List.Subset.refl _) relates (reachable twin member)
  cases payloads with
  | string text => exact .string text
  | link byte flat relates =>
    exact .link byte flat (mirrors.relates_surviving sub relates (reached _ .previous))
  | struct fields =>
    refine .struct (all fields fun twin member => reached twin (.field ?_))
    exact Array.mem_toList_iff.1 member
  | long value => exact .long value
  | pending target arguments =>
    refine .pending target (all arguments fun twin member => reached twin (.argument ?_))
    exact Array.mem_toList_iff.1 member
  | forced relates =>
    exact .forced (mirrors.relates_surviving (List.Subset.refl _) relates (reached _ .value))

/-- A collection of the second heap drops the pairs of the objects it frees. -/
theorem Mirrors.collect (mirrors : Mirrors pairs first second) (roots : List Word) :
    Mirrors (surviving (second.collect roots).1 pairs) first (second.collect roots).1 where
  firstTidy := mirrors.firstTidy
  secondTidy := mirrors.secondTidy.collect roots
  apart := mirrors.apart.filter _
  objects := by
    intro newer left right older decomposition
    obtain ⟨before, after, rfl, _, rest⟩ := List.filter_eq_append_iff.1 decomposition
    obtain ⟨skipped, oldest, rfl, _, kept, rfl⟩ := List.filter_eq_cons_iff.1 rest
    obtain ⟨payload, other, contains, otherContains, payloads⟩ :=
      mirrors.objects (before ++ skipped) left right oldest (List.append_assoc _ _ _).symm
    obtain ⟨survived, reached⟩ := mirrors.secondTidy.sound.survived kept otherContains
    refine ⟨payload, other, contains, survived, mirrors.payloads_surviving ?_ payloads reached⟩
    exact fun pair member => List.mem_append_right _
      (List.mem_append_right _ (List.mem_cons_of_mem _ member))

end Collect

end Heap

end WordMachine
