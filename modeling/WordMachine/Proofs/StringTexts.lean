import WordMachine.Proofs.Representation
import WordMachine.Proofs.References

/-!
The texts of strings and links. A link stands for the text of its predecessor with one more byte,
whether or not it or any other link keeps the text that it was once asked for; reading a string
gives its text and changes that of no other, and so do all operations on strings and all collections
that keep it.
-/

namespace WordMachine

namespace Heap

variable {heap after : Heap} {word other : Word} {text : Bytes}

/-! ## Texts -/

/-- What a string or a link stands for, whatever texts links have kept. -/
inductive Denotes (heap : Heap) : Word → Bytes → Prop
  | string {word : Word} {text : Bytes} :
      heap.Contains word (.string text) →
      Denotes heap word text
  | link {word previous : Word} {byte : UInt8} {flat : Option Bytes} {text : Bytes} :
      heap.Contains word (.link previous byte flat) →
      Denotes heap previous text →
      Denotes heap word (text.push byte)

theorem Denotes.unique {left right : Bytes} (first : heap.Denotes word left)
    (second : heap.Denotes other right) (index : word.toHandle.index = other.toHandle.index) :
    left = right := by
  induction first generalizing other right with
  | string contains =>
    cases second with
    | string others =>
      cases contains.of_index_eq others index
      rfl
    | link others _ => cases contains.of_index_eq others index
  | link contains _ ih =>
    cases second with
    | string others => cases contains.of_index_eq others index
    | link others rest =>
      cases contains.of_index_eq others index
      rw [ih rest rfl]

theorem Denotes.of_index_eq {payload : Payload} (denotes : heap.Denotes word text)
    (contains : heap.Contains other payload) (index : word.toHandle.index = other.toHandle.index) :
    heap.Denotes other text := by
  cases denotes with
  | string found =>
    rw [← found.of_index_eq contains index] at contains
    exact .string contains
  | link found rest =>
    rw [← found.of_index_eq contains index] at contains
    exact .link contains rest

theorem Denotes.contains (denotes : heap.Denotes word text) :
    ∃ payload, heap.Contains word payload := by
  cases denotes with
  | string contains => exact ⟨_, contains⟩
  | link contains _ => exact ⟨_, contains⟩

/-- A heap in which the texts that links keep are their own, and every link is one to a string. -/
structure Recalls (heap : Heap) : Prop where
  wellFormed : heap.WellFormed
  kept : ∀ word previous byte text,
    heap.Contains word (.link previous byte (some text)) → heap.Denotes word text
  links : ∀ word previous byte flat,
    heap.Contains word (.link previous byte flat) → ∃ text, heap.Denotes previous text

theorem recalls_new (interval limit : Int) : (Heap.new interval limit).Recalls := by
  have nothing : ∀ word payload, ¬ (Heap.new interval limit).Contains word payload := by
    intro word payload contains
    exact absurd contains.position_lt.1 (Nat.not_lt_zero _)
  exact ⟨(Sound.new interval limit).wellFormed,
    fun _ _ _ _ contains => absurd contains (nothing _ _),
    fun _ _ _ _ contains => absurd contains (nothing _ _)⟩

theorem Recalls.spells (recalls : heap.Recalls) (denotes : heap.Denotes word text) :
    heap.Spells word text := by
  induction denotes with
  | string contains => exact .string contains
  | @link word previous byte flat text contains rest ih =>
    cases flat with
    | none => exact .link contains ih
    | some kept =>
      have same := (recalls.kept _ _ _ _ contains).unique (.link contains rest) rfl
      rw [← same]
      exact .remembered contains

theorem Recalls.text_eq (recalls : heap.Recalls) (denotes : heap.Denotes word text) :
    heap.text word = .ok text :=
  text_of_spells (recalls.spells denotes)

/-! ## What changes no text -/

/-- Whether two contents are the same but for the text that a link keeps. -/
inductive SamePayload : Payload → Payload → Prop
  | refl (payload : Payload) : SamePayload payload payload
  | link (previous : Word) (byte : UInt8) (before after : Option Bytes) :
      SamePayload (.link previous byte before) (.link previous byte after)

theorem SamePayload.symm {left right : Payload} (same : SamePayload left right) :
    SamePayload right left := by
  cases same with
  | refl => exact .refl _
  | link => exact .link _ _ _ _

theorem Denotes.carry (Held : Word → Prop)
    (kept : ∀ word payload, Held word → heap.Contains word payload →
      ∃ later, after.Contains word later ∧ SamePayload payload later)
    (closed : ∀ word payload next, Held word → heap.Contains word payload →
      payload.Refers next → Held next) (held : Held word) (denotes : heap.Denotes word text) :
    after.Denotes word text := by
  induction denotes with
  | string contains =>
    obtain ⟨later, found, same⟩ := kept _ _ held contains
    cases same with
    | refl => exact .string found
  | link contains _ ih =>
    have rest := ih (closed _ _ _ held contains .previous)
    obtain ⟨later, found, same⟩ := kept _ _ held contains
    cases same with
    | refl | link => exact .link found rest

/-! ### A link that keeps its text -/

/-- The contents of a slot of which a text is kept. -/
def recalling (text : Bytes) : Payload → Payload
  | .link previous byte _ => .link previous byte (some text)
  | other => other

theorem samePayload_recalling (text : Bytes) (payload : Payload) :
    SamePayload payload (recalling text payload) := by
  cases payload with
  | link previous byte flat => exact .link previous byte flat (some text)
  | _ => exact .refl _

theorem contains_remember {made payload : Payload} (contains : heap.Contains word made)
    (text : Bytes) :
    (heap.remember word text).Contains other payload ↔
      ∃ before, heap.Contains other before ∧
        payload = if other.toHandle.index = word.toHandle.index then recalling text before
          else before := by
  have looked :=
    lookup?_modify contains.position_lt.2 (remember_slots heap word text) other.toHandle
  rw [contains_iff, looked]
  constructor
  · rintro ⟨isRef, size, found⟩
    split at found
    · next index =>
      obtain ⟨object, current, same⟩ := Option.map_eq_some_iff.1 found
      refine ⟨object.payload, contains_iff.2 ⟨isRef, object.size, current⟩, ?_⟩
      obtain ⟨_, before⟩ := object
      rw [if_pos index]
      cases before <;> cases same <;> rfl
    · next index => exact ⟨payload, contains_iff.2 ⟨isRef, size, found⟩, by rw [if_neg index]⟩
  · rintro ⟨before, current, rfl⟩
    obtain ⟨isRef, size, found⟩ := contains_iff.1 current
    refine ⟨isRef, size, ?_⟩
    rw [found]
    split
    · cases before <;> rfl
    · rfl

/-- The text that a link keeps changes nothing of what words denote. -/
theorem denotes_remember {made : Payload} (contains : heap.Contains word made) {kept : Bytes} :
    (heap.remember word kept).Denotes other text ↔ heap.Denotes other text := by
  constructor
  · refine Denotes.carry (fun _ => True) ?_ (fun _ _ _ _ _ _ => trivial) trivial
    intro other payload _ later
    obtain ⟨before, found, same⟩ := (contains_remember contains kept).1 later
    refine ⟨before, found, ?_⟩
    rw [same]
    split
    · exact (samePayload_recalling kept before).symm
    · exact .refl before
  · refine Denotes.carry (fun _ => True) ?_ (fun _ _ _ _ _ _ => trivial) trivial
    intro other payload _ found
    refine ⟨_, (contains_remember contains kept).2 ⟨payload, found, rfl⟩, ?_⟩
    split
    · exact samePayload_recalling kept payload
    · exact .refl payload

theorem Recalls.remember (recalls : heap.Recalls) (denotes : heap.Denotes word text) :
    (heap.remember word text).Recalls := by
  obtain ⟨made, contains⟩ := denotes.contains
  refine ⟨recalls.wellFormed.remember word text, ?_, ?_⟩
  · intro other previous byte known later
    rw [denotes_remember contains]
    obtain ⟨before, found, same⟩ := (contains_remember contains text).1 later
    split at same
    · next index =>
      cases before with
      | link =>
        cases same
        exact denotes.of_index_eq found index.symm
      | _ => cases same
    · cases same
      exact recalls.kept _ _ _ _ found
  · intro other previous byte flat later
    obtain ⟨before, found, same⟩ := (contains_remember contains text).1 later
    have linked : ∃ flat, before = .link previous byte flat := by
      split at same
      · cases before with
        | link =>
          cases same
          exact ⟨_, rfl⟩
        | _ => cases same
      · exact ⟨flat, same.symm⟩
    obtain ⟨known, rfl⟩ := linked
    obtain ⟨inner, rest⟩ := recalls.links _ _ _ _ found
    exact ⟨inner, (denotes_remember contains).2 rest⟩

/-! ### New objects -/

/-- Whether an object can be made among texts: a new link is one to a text, and keeps none yet. -/
def Admits (heap : Heap) (payload : Payload) : Prop :=
  ∀ previous byte flat, payload = .link previous byte flat →
    flat = none ∧ ∃ text, heap.Denotes previous text

theorem admits_string (text : Bytes) : heap.Admits (.string text) :=
  fun _ _ _ => nofun

theorem admits_link {previous : Word} (byte : UInt8) (denotes : heap.Denotes previous text) :
    heap.Admits (.link previous byte none) := by
  rintro _ _ _ ⟨⟩
  exact ⟨rfl, text, denotes⟩

section Allocation

variable {made : Payload} {size : Nat}

theorem Denotes.allocated (allocated : Allocated heap after other ⟨size, made⟩)
    (denotes : heap.Denotes word text) : after.Denotes word text :=
  denotes.carry (fun _ => True)
    (fun _ payload _ contains => ⟨payload, allocated.contains contains, .refl payload⟩)
    (fun _ _ _ _ _ _ => trivial) trivial

theorem Allocated.of_contains {payload : Payload}
    (allocated : Allocated heap after other ⟨size, made⟩) (later : after.Contains word payload) :
    payload = made ∨ heap.Contains word payload := by
  by_cases index : word.toHandle.index = other.toHandle.index
  · exact Or.inl (later.of_index_eq allocated.contains_new index)
  · obtain ⟨isRef, size, found⟩ := contains_iff.1 later
    rw [allocated.others _ (Or.inl index)] at found
    exact Or.inr (contains_iff.2 ⟨isRef, size, found⟩)

theorem Recalls.allocate (recalls : heap.Recalls) (room : heap.slots.size + 1 < 2 ^ 32)
    (admits : heap.Admits made) : (heap.allocate made).2.Recalls := by
  have allocated := allocate_allocated recalls.wellFormed room made
  refine ⟨recalls.wellFormed.allocate room made, ?_, ?_⟩
  · intro word previous byte text later
    rcases allocated.of_contains later with same | before
    · cases (admits _ _ _ same.symm).1
    · exact (recalls.kept _ _ _ _ before).allocated allocated
  · intro word previous byte flat later
    have linked : ∃ text, heap.Denotes previous text := by
      rcases allocated.of_contains later with same | before
      · exact (admits _ _ _ same.symm).2
      · exact recalls.links _ _ _ _ before
    obtain ⟨text, denotes⟩ := linked
    exact ⟨text, denotes.allocated allocated⟩

end Allocation

/-! ### Collections -/

section Collections

variable {roots : List Word}

/-- Whether the roots lead to the object of a word, be it by this word or by one like it. -/
def Leaves (heap : Heap) (roots : List Word) (word : Word) : Prop :=
  ∃ other, heap.Reached roots other ∧ other.isRef = word.isRef ∧
    other.toHandle.index = word.toHandle.index ∧
    other.toHandle.generation = word.toHandle.generation

theorem Reached.leaves (reached : heap.Reached roots word) : heap.Leaves roots word :=
  ⟨word, reached, rfl, rfl, rfl⟩

theorem leaves_closed (word : Word) (payload : Payload) (next : Word)
    (leaves : heap.Leaves roots word) (contains : heap.Contains word payload)
    (refers : payload.Refers next) : heap.Leaves roots next := by
  obtain ⟨other, reached, kind, index, generation⟩ := leaves
  obtain ⟨isRef, size, found⟩ := contains_iff.1 contains
  rw [← lookup?_congr heap index generation] at found
  exact Reached.leaves (.follow reached (kind.trans isRef) found refers)

theorem contains_collect (wellFormed : heap.WellFormed) {payload : Payload} :
    (heap.collect roots).1.Contains word payload ↔
      heap.Contains word payload ∧ heap.Leaves roots word := by
  have kept : ∀ object, (heap.collect roots).1.lookup? word.toHandle = some object ↔
      heap.lookup? word.toHandle = some object ∧ Reaches heap roots word.toHandle := by
    intro object
    rw [collect_eq, lookup?_pace]
    exact lookup?_sweep_mark wellFormed roots word.toHandle object
  rw [contains_iff, contains_iff]
  constructor
  · rintro ⟨isRef, size, later⟩
    obtain ⟨found, other, reached, reference, index, generation⟩ := (kept _).1 later
    exact ⟨⟨isRef, size, found⟩, other, reached, reference.trans isRef.symm, index, generation⟩
  · rintro ⟨⟨isRef, size, found⟩, other, reached, kind, index, generation⟩
    exact ⟨isRef, size, (kept _).2 ⟨found, other, reached, kind.trans isRef, index, generation⟩⟩

/-- A collection changes the text of nothing that it keeps. -/
theorem denotes_collect (wellFormed : heap.WellFormed) (leaves : heap.Leaves roots word) :
    (heap.collect roots).1.Denotes word text ↔ heap.Denotes word text := by
  constructor
  · refine Denotes.carry (fun _ => True) ?_ (fun _ _ _ _ _ _ => trivial) trivial
    intro other payload _ later
    exact ⟨payload, ((contains_collect wellFormed).1 later).1, .refl payload⟩
  · refine Denotes.carry (heap.Leaves roots) ?_ leaves_closed leaves
    intro other payload held found
    exact ⟨payload, (contains_collect wellFormed).2 ⟨found, held⟩, .refl payload⟩

theorem Recalls.collect (recalls : heap.Recalls) (roots : List Word) :
    (heap.collect roots).1.Recalls := by
  have wellFormed := recalls.wellFormed
  refine ⟨?_, ?_, ?_⟩
  · rw [collect_eq]
    exact (wellFormed.sweep_mark roots).pace _ _
  · intro word previous byte text later
    obtain ⟨found, leaves⟩ := (contains_collect wellFormed).1 later
    exact (denotes_collect wellFormed leaves).2 (recalls.kept _ _ _ _ found)
  · intro word previous byte flat later
    obtain ⟨found, leaves⟩ := (contains_collect wellFormed).1 later
    obtain ⟨text, denotes⟩ := recalls.links _ _ _ _ found
    have linked := leaves_closed _ _ _ leaves found .previous
    exact ⟨text, (denotes_collect wellFormed linked).2 denotes⟩

end Collections

end Heap

end WordMachine
