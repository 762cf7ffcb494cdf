import WordMachine.Proofs.CodeLayout
import WordMachine.Proofs.Collection
import WordMachine.Proofs.TypedTables

/-!
How values stand in the machine: strings as objects and chains of links, structs and unions by
their layout, functions by the addresses of their code, and lazy calls by the objects that were made
for them. What a word stands for outlives every change of the heap that keeps the objects it leads
to.
-/

namespace WordMachine

namespace Heap

variable {payload : Payload} {other : Word} {text : Bytes} {before after : Heap}

/-! ## Contents -/

def Contains (heap : Heap) (word : Word) (payload : Payload) : Prop :=
  ∃ size, heap.deref word = .ok ⟨size, payload⟩

variable {heap : Heap} {word : Word}

theorem contains_iff :
    heap.Contains word payload ↔
      word.isRef = true ∧ ∃ size, heap.lookup? word.toHandle = some ⟨size, payload⟩ := by
  unfold Contains
  simp only [deref_eq_ok, exists_and_left]

theorem Contains.isNull_eq (contains : heap.Contains word payload) : word.isNull = false := by
  obtain ⟨isRef, size, found⟩ := contains_iff.1 contains
  by_contra null
  have isNull : word.isNull = true := by simpa using null
  exact lookup?_index_ne_zero found (Word.index_of_isNull isNull)

/-- Words for objects in one slot have the same object. -/
theorem Contains.of_index_eq {left right : Payload} (first : heap.Contains word left)
    (second : heap.Contains other right) (index : word.toHandle.index = other.toHandle.index) :
    left = right := by
  obtain ⟨_, size, found⟩ := contains_iff.1 first
  obtain ⟨_, otherSize, otherFound⟩ := contains_iff.1 second
  obtain ⟨slot, inSlot, _, object⟩ := lookup?_eq_some.1 found
  obtain ⟨otherSlot, inOther, _, otherObject⟩ := lookup?_eq_some.1 otherFound
  rw [index, inOther] at inSlot
  cases inSlot
  rw [object] at otherObject
  cases otherObject
  rfl

def position (word : Word) : Nat :=
  word.toHandle.index.toNat - 1

theorem Contains.position_lt (contains : heap.Contains word payload) :
    position word < heap.slots.size ∧ word.toHandle.index ≠ 0 := by
  obtain ⟨_, size, found⟩ := contains_iff.1 contains
  obtain ⟨slot, inSlot, _, _⟩ := lookup?_eq_some.1 found
  exact slotIn_lt_size inSlot

/-- Handles of one slot that are both current are alike. -/
theorem Contains.generation_eq {left right : Payload} (first : heap.Contains word left)
    (second : heap.Contains other right) (index : word.toHandle.index = other.toHandle.index) :
    word.toHandle.generation = other.toHandle.generation := by
  obtain ⟨_, size, found⟩ := contains_iff.1 first
  obtain ⟨_, otherSize, otherFound⟩ := contains_iff.1 second
  obtain ⟨slot, inSlot, generation, _⟩ := lookup?_eq_some.1 found
  obtain ⟨otherSlot, inOther, otherGeneration, _⟩ := lookup?_eq_some.1 otherFound
  rw [index, inOther] at inSlot
  cases inSlot
  rw [← generation, ← otherGeneration]

theorem Allocated.contains {object : Object} (allocated : Allocated before after word object)
    (contains : before.Contains other payload) : after.Contains other payload := by
  obtain ⟨isRef, size, found⟩ := contains_iff.1 contains
  refine contains_iff.2 ⟨isRef, size, ?_⟩
  rw [allocated.others, found]
  by_contra same
  simp only [not_or, not_not] at same
  rw [lookup?_congr before same.1 same.2, allocated.fresh] at found
  cases found

theorem Allocated.contains_new {size : Nat}
    (allocated : Allocated before after word ⟨size, payload⟩) : after.Contains word payload :=
  contains_iff.2 ⟨allocated.isRef, size, allocated.found⟩

/-- A new object has a slot of its own. -/
theorem Allocated.index_ne {size : Nat} {made : Payload}
    (allocated : Allocated before after word ⟨size, made⟩)
    (contains : before.Contains other payload) : word.toHandle.index ≠ other.toHandle.index := by
  intro index
  have generation := allocated.contains_new.generation_eq (allocated.contains contains) index
  obtain ⟨_, otherSize, found⟩ := contains_iff.1 contains
  rw [← lookup?_congr before index generation, allocated.fresh] at found
  cases found

theorem contains_modify {changed : Heap} {change : Object → Object} {made : Payload}
    (found : heap.Contains word made)
    (slots : changed.slots = heap.slots.modify (word.toHandle.index.toNat - 1) fun slot =>
      { slot with object := slot.object.map change })
    {other : Word} {payload : Payload} (contains : heap.Contains other payload) :
    ∃ size, heap.deref other = .ok ⟨size, payload⟩ ∧
      changed.Contains other
        (if other.toHandle.index = word.toHandle.index then (change ⟨size, payload⟩).payload
          else payload) := by
  obtain ⟨isRef, size, current⟩ := contains_iff.1 contains
  refine ⟨size, deref_eq_ok.2 ⟨isRef, current⟩, contains_iff.2 ⟨isRef, ?_⟩⟩
  rw [lookup?_modify found.position_lt.2 slots, current]
  split
  · exact ⟨(change ⟨size, payload⟩).size, rfl⟩
  · exact ⟨size, rfl⟩

theorem fields_of_contains {fields : Array Word} (contains : heap.Contains word (.struct fields)) :
    heap.fields word = .ok fields := by
  obtain ⟨size, found⟩ := contains
  unfold Heap.fields view
  rw [found]

theorem delayed_of_contains {call : Delayed} (contains : heap.Contains word (.lazy call)) :
    heap.delayed word = .ok call := by
  obtain ⟨size, found⟩ := contains
  unfold delayed view
  rw [found]

/-! ## Strings -/

/-- A string object or a chain of links that ends in one. -/
inductive Spells (heap : Heap) : Word → Bytes → Prop
  | string {word : Word} {text : Bytes} :
      heap.Contains word (.string text) →
      Spells heap word text
  | remembered {word previous : Word} {byte : UInt8} {text : Bytes} :
      heap.Contains word (.link previous byte (some text)) →
      Spells heap word text
  | link {word previous : Word} {byte : UInt8} {text : Bytes} :
      heap.Contains word (.link previous byte none) →
      Spells heap previous text →
      Spells heap word (text.push byte)

theorem Spells.unique {left right : Bytes} (first : heap.Spells word left)
    (second : heap.Spells other right) (index : word.toHandle.index = other.toHandle.index) :
    left = right := by
  induction first generalizing other right with
  | string contains =>
    cases second with
    | string others =>
      cases contains.of_index_eq others index
      rfl
    | remembered others => cases contains.of_index_eq others index
    | link others _ => cases contains.of_index_eq others index
  | remembered contains =>
    cases second with
    | string others => cases contains.of_index_eq others index
    | remembered others =>
      cases contains.of_index_eq others index
      rfl
    | link others _ => cases contains.of_index_eq others index
  | link contains _ ih =>
    cases second with
    | string others => cases contains.of_index_eq others index
    | remembered others => cases contains.of_index_eq others index
    | link others rest =>
      cases contains.of_index_eq others index
      rw [ih rest rfl]

theorem Spells.contains (spells : heap.Spells word text) :
    ∃ payload, heap.Contains word payload := by
  cases spells with
  | string contains => exact ⟨_, contains⟩
  | remembered contains => exact ⟨_, contains⟩
  | link contains _ => exact ⟨_, contains⟩

theorem length_le_of_nodup {positions : List Nat} {bound : Nat} (distinct : positions.Nodup)
    (below : ∀ position ∈ positions, position < bound) : positions.length ≤ bound := by
  have subset : positions ⊆ List.range bound :=
    fun position member => List.mem_range.2 (below position member)
  simpa using (distinct.subperm subset).length_le

theorem Spells.of_index_eq (spells : heap.Spells word text) (contains : heap.Contains other payload)
    (index : word.toHandle.index = other.toHandle.index) : heap.Spells other text := by
  cases spells with
  | string found =>
    rw [← found.of_index_eq contains index] at contains
    exact .string contains
  | remembered found =>
    rw [← found.of_index_eq contains index] at contains
    exact .remembered contains
  | link found rest =>
    rw [← found.of_index_eq contains index] at contains
    exact .link contains rest

/-- The walk along a chain ends: the texts get shorter, so no slot comes up again. -/
theorem chainText_of_spells (spells : heap.Spells word text) :
    ∀ (visited : List Nat) (fuel : Nat) (tail : List UInt8),
      visited.Nodup →
      (∀ place ∈ visited, place < heap.slots.size ∧
        ∃ other longer, heap.Spells other longer ∧ position other = place ∧
          text.size < longer.size) →
      heap.slots.size < fuel + visited.length →
      ∃ base rest, heap.chainText fuel word tail = .ok (base, rest) ∧
        rest.foldl ByteArray.push base = tail.foldl ByteArray.push text := by
  induction spells with
  | @string word text contains =>
    intro visited fuel tail distinct earlier enough
    have few := length_le_of_nodup distinct fun place member => (earlier place member).1
    obtain ⟨size, found⟩ := contains
    obtain ⟨fuel, rfl⟩ : ∃ less, fuel = less + 1 := ⟨fuel - 1, by omega⟩
    exact ⟨text, tail, by simp [chainText, found], rfl⟩
  | @remembered word previous byte text contains =>
    intro visited fuel tail distinct earlier enough
    have few := length_le_of_nodup distinct fun place member => (earlier place member).1
    obtain ⟨size, found⟩ := contains
    obtain ⟨fuel, rfl⟩ : ∃ less, fuel = less + 1 := ⟨fuel - 1, by omega⟩
    exact ⟨text, tail, by simp [chainText, found], rfl⟩
  | @link word previous byte text contains rest ih =>
    intro visited fuel tail distinct earlier enough
    obtain ⟨inside, positive⟩ := contains.position_lt
    have spells : heap.Spells word (text.push byte) := .link contains rest
    have unvisited : position word ∉ visited := by
      intro member
      obtain ⟨_, other, longer, otherSpells, same, shorter⟩ := earlier _ member
      obtain ⟨payload, otherContains⟩ := otherSpells.contains
      have index := (position_inj otherContains.position_lt.2 positive).1 same
      rw [otherSpells.unique spells index] at shorter
      exact Nat.lt_irrefl _ shorter
    have next : (position word :: visited).Nodup := List.nodup_cons.2 ⟨unvisited, distinct⟩
    have bounded : ∀ place ∈ position word :: visited, place < heap.slots.size := by
      intro place member
      rcases List.mem_cons.1 member with rfl | member
      · exact inside
      · exact (earlier place member).1
    have few := length_le_of_nodup next bounded
    rw [List.length_cons] at few
    obtain ⟨fuel, rfl⟩ : ∃ less, fuel = less + 1 := ⟨fuel - 1, by omega⟩
    obtain ⟨base, others, walked, pushed⟩ :=
      ih (position word :: visited) fuel (byte :: tail) next
        (by
          intro place member
          refine ⟨bounded place member, ?_⟩
          rcases List.mem_cons.1 member with rfl | member
          · exact ⟨word, text.push byte, spells, rfl, by simp⟩
          · obtain ⟨_, other, longer, otherSpells, same, shorter⟩ := earlier place member
            exact ⟨other, longer, otherSpells, same,
              Nat.lt_trans (by simp) shorter⟩)
        (by rw [List.length_cons]; omega)
    obtain ⟨size, found⟩ := contains
    exact ⟨base, others, by simp [chainText, found, walked], pushed⟩

theorem text_of_spells (spells : heap.Spells word text) : heap.text word = .ok text := by
  cases spells with
  | string contains =>
    obtain ⟨size, found⟩ := contains
    simp [Heap.text, found]
  | remembered contains =>
    obtain ⟨size, found⟩ := contains
    simp [Heap.text, found]
  | @link _ previous byte text contains rest =>
    obtain ⟨base, others, walked, pushed⟩ :=
      chainText_of_spells rest [] (heap.slots.size + 1) [byte] List.nodup_nil
        (fun _ member => nomatch member) (by simp)
    obtain ⟨size, found⟩ := contains
    simp only [Heap.text, found, walked]
    rw [pushed]
    rfl

end Heap

namespace Evaluation

open Lowering (funcLabel nullable? memberNumber Nullable)

variable {type : TypeId}

/-! ## Values -/

/-- A program with its code in memory and the functions that may be used. -/
structure Compilation where
  program : Program
  usable : FuncId → Bool
  image : Image
  layout : Lowering.Layout program image
  fits : programFits program usable = true

/-- Where the code of a function starts. -/
def Compilation.entry (compilation : Compilation) (func : FuncId) : UInt32 :=
  UInt32.ofNat (compilation.image.address (funcLabel func))

/-- The objects made for lazy calls, with the types of their values. -/
abbrev Lazies := Nat → Option (Word × TypeId)

abbrev Typed := TypeId × Value

/-- Whether a word stands for a value of a type. A struct without fields has no contents, so any
word stands for it. -/
inductive Represents (compilation : Compilation) (lazies : Lazies) (heap : Heap) :
    TypeId → Value → Word → Prop
  | int {type : TypeId} (value : Int32) :
      hasScalar compilation.program type .int = true →
      Represents compilation lazies heap type (.int value) (.ofInt value)
  | long {type : TypeId} {value : Int64} {word : Word} :
      hasScalar compilation.program type .long = true →
      (word = .ofInlineLong value ∧ 0 ≤ value ∨ heap.Contains word (.long value)) →
      Represents compilation lazies heap type (.long value) word
  | float {type : TypeId} (bits : Number.Single) :
      hasScalar compilation.program type .float = true →
      Represents compilation lazies heap type (.float bits) (.ofFloat bits)
  | string {type : TypeId} {text : Bytes} {word : Word} :
      hasScalar compilation.program type .string = true →
      heap.Spells word text →
      Represents compilation lazies heap type (.string text) word
  | empty {type : TypeId} (word : Word) :
      shape? compilation.program type = some (.struct []) →
      Represents compilation lazies heap type (.struct []) word
  | single {type field : TypeId} {value : Value} {word : Word} :
      shape? compilation.program type = some (.struct [field]) →
      Represents compilation lazies heap field value word →
      Represents compilation lazies heap type (.struct [value]) word
  | wide {type : TypeId} {items : List Typed} {word : Word} {fields : Array Word} :
      shape? compilation.program type = some (.struct (items.map Prod.fst)) →
      2 ≤ items.length →
      heap.Contains word (.struct fields) →
      items.length = fields.toList.length →
      (∀ item field, (item, field) ∈ items.zip fields.toList →
        Represents compilation lazies heap item.1 item.2 field) →
      Represents compilation lazies heap type (.struct (items.map Prod.snd)) word
  | null {type : TypeId} {nullable : Nullable} :
      nullable? compilation.program type = some nullable →
      Represents compilation lazies heap type (.union nullable.nullType (.struct [])) .null
  | present {type : TypeId} {nullable : Nullable} {value : Value} {word : Word} :
      nullable? compilation.program type = some nullable →
      Represents compilation lazies heap nullable.structType value word →
      Represents compilation lazies heap type (.union nullable.structType value) word
  | tagged {type member : TypeId} {value : Value} {number : Int32} {word inner : Word} :
      nullable? compilation.program type = none →
      memberNumber compilation.program type member = .ok number →
      heap.Contains word (.struct #[.ofInt number, inner]) →
      Represents compilation lazies heap member value inner →
      Represents compilation lazies heap type (.union member value) word
  | function {type : TypeId} (func : FuncId) :
      delegateFits compilation.program compilation.usable func [] type = true →
      Represents compilation lazies heap type (.function func [])
        (.ofBits32 (compilation.entry func))
  | closure {type : TypeId} {func : FuncId} {bound : List Typed} {word : Word}
      {fields : Array Word} :
      delegateFits compilation.program compilation.usable func (bound.map Prod.fst) type = true →
      heap.Contains word (.struct (fields.push (.ofBits32 (compilation.entry func)))) →
      bound.length = fields.toList.length →
      (∀ item field, (item, field) ∈ bound.zip fields.toList →
        Represents compilation lazies heap item.1 item.2 field) →
      Represents compilation lazies heap type (.function func (bound.map Prod.snd)) word
  | lazy {type result : TypeId} {cell : Nat} {word : Word} :
      shape? compilation.program type = some (.lazy result) →
      lazies cell = some (word, result) →
      Represents compilation lazies heap type (.lazy cell) word

theorem Compilation.tables (compilation : Compilation) : TablesFit compilation.program := by
  have fits := compilation.fits
  unfold programFits at fits
  exact tablesFit_of_eq (Bool.and_eq_true_iff.1 fits).1

theorem delegateFits_shape {program : Program} {usable : FuncId → Bool} {func : FuncId}
    {bound : List TypeId} (fits : delegateFits program usable func bound type = true) :
    ∃ decl input, program.func? func = some decl ∧ isUsable program usable decl = true ∧
      shape? program type = some (.delegate input decl.output) ∧
      decl.input.getD [] = input ++ bound := by
  unfold delegateFits at fits
  split at fits
  · next decl input output declared shape =>
    simp only [Bool.and_eq_true, beq_iff_eq] at fits
    obtain ⟨⟨usable, inputs⟩, result⟩ := fits
    exact ⟨decl, input, declared, usable, by rw [shape, result], inputs⟩
  · cases fits

def HasShape (value : Value) (shape : TypeShape) : Prop :=
  match value with
  | .int _ => shape = .scalar .int
  | .long _ => shape = .scalar .long
  | .float _ => shape = .scalar .float
  | .string _ => shape = .scalar .string
  | .struct fields => ∃ types, shape = .struct types ∧ types.length = fields.length
  | .union member _ => ∃ members, shape = .union members ∧ member ∈ members
  | .function _ _ => ∃ input output, shape = .delegate input output
  | .lazy _ => ∃ result, shape = .lazy result

theorem Represents.shape {compilation : Compilation} {lazies : Lazies} {heap : Heap} {value : Value}
    {word : Word} (represents : Represents compilation lazies heap type value word) :
    ∃ shape, shape? compilation.program type = some shape ∧ HasShape value shape := by
  have tables := compilation.tables
  cases represents with
  | int value scalar => exact ⟨_, hasScalar_iff.1 scalar, rfl⟩
  | long scalar _ => exact ⟨_, hasScalar_iff.1 scalar, rfl⟩
  | float bits scalar => exact ⟨_, hasScalar_iff.1 scalar, rfl⟩
  | string scalar _ => exact ⟨_, hasScalar_iff.1 scalar, rfl⟩
  | empty _ shape => exact ⟨_, shape, _, rfl, rfl⟩
  | single shape _ => exact ⟨_, shape, _, rfl, rfl⟩
  | wide shape _ _ _ _ => exact ⟨_, shape, _, rfl, by rw [List.length_map, List.length_map]⟩
  | null form =>
    obtain ⟨⟨members, shape, mem⟩, _, _⟩ := tables.nullable form
    exact ⟨_, shape, members, rfl, (mem _).2 (Or.inl rfl)⟩
  | present form _ =>
    obtain ⟨⟨members, shape, mem⟩, _, _⟩ := tables.nullable form
    exact ⟨_, shape, members, rfl, (mem _).2 (Or.inr rfl)⟩
  | tagged _ numbered _ _ =>
    obtain ⟨members, shape, _, position, inside, _⟩ := tables.memberNumber numbered
    exact ⟨_, shape, members, rfl, List.mem_of_getElem? inside⟩
  | function func fits =>
    obtain ⟨decl, input, _, _, shape, _⟩ := delegateFits_shape fits
    exact ⟨_, shape, input, decl.output, rfl⟩
  | closure fits _ _ _ =>
    obtain ⟨decl, input, _, _, shape, _⟩ := delegateFits_shape fits
    exact ⟨_, shape, input, decl.output, rfl⟩
  | lazy shape _ => exact ⟨_, shape, _, rfl⟩

theorem Represents.scalar {compilation : Compilation} {lazies : Lazies} {heap : Heap}
    {value : Value} {word : Word} {scalar : Scalar}
    (typed : hasScalar compilation.program type scalar = true)
    (represents : Represents compilation lazies heap type value word) :
    ∃ content, value = .ofScalar scalar content := by
  obtain ⟨shape, known, has⟩ := represents.shape
  rw [hasScalar_iff.1 typed] at known
  cases known
  cases value with
  | int value =>
    cases has
    exact ⟨value, rfl⟩
  | long value =>
    cases has
    exact ⟨value, rfl⟩
  | float bits =>
    cases has
    exact ⟨bits, rfl⟩
  | string text =>
    cases has
    exact ⟨text, rfl⟩
  | struct fields =>
    obtain ⟨_, same, _⟩ := has
    cases same
  | union member value =>
    obtain ⟨_, same, _⟩ := has
    cases same
  | function func bound =>
    obtain ⟨_, _, same⟩ := has
    cases same
  | lazy cell =>
    obtain ⟨_, same⟩ := has
    cases same

/-- Whether words stand for values of given types, one by one. -/
def RepresentsAll (compilation : Compilation) (lazies : Lazies) (heap : Heap) (items : List Typed)
    (words : List Word) : Prop :=
  List.Forall₂ (fun item word => Represents compilation lazies heap item.1 item.2 word) items words

/-- Whether a word stands for a lazy call of a type: for the call that is still to be made, or for
its value. -/
def RepresentsCell (compilation : Compilation) (lazies : Lazies) (heap : Heap) (type : TypeId)
    (word : Word) : Cell → Prop
  | .pending func arguments =>
    ∃ decl fields, compilation.program.func? func = some decl ∧
      isUsable compilation.program compilation.usable decl = true ∧ decl.output = type ∧
      heap.Contains word (.lazy (.pending (compilation.entry func) fields)) ∧
      (decl.input.getD []).length = arguments.length ∧
      RepresentsAll compilation lazies heap ((decl.input.getD []).zip arguments) fields.toList
  | .forced value =>
    ∃ stored, heap.Contains word (.lazy (.forced stored)) ∧
      Represents compilation lazies heap type value stored

/-- Every lazy call has an object of its own. -/
structure RepresentsCells (compilation : Compilation) (lazies : Lazies) (heap : Heap)
    (cells : Array Cell) : Prop where
  apart : ∀ {left right : Nat} {word other : Word} {type another : TypeId},
    lazies left = some (word, type) → lazies right = some (other, another) →
      word.toHandle.index = other.toHandle.index → left = right
  each : ∀ {cell : Nat} {word : Word} {type : TypeId}, lazies cell = some (word, type) →
    ∃ content, cells[cell]? = some content ∧
      RepresentsCell compilation lazies heap type word content

/-! ## Changes of the heap -/

/-- Whether what a word stands for is kept. The text of a link may be remembered, and a lazy call
may get its value. -/
structure Keeps (lazies later : Lazies) (before after : Heap) (word : Word) : Prop where
  string : ∀ {text : Bytes}, before.Contains word (.string text) →
    after.Contains word (.string text)
  long : ∀ {value : Int64}, before.Contains word (.long value) → after.Contains word (.long value)
  struct : ∀ {fields : Array Word}, before.Contains word (.struct fields) →
    after.Contains word (.struct fields)
  link : ∀ {previous : Word} {byte : UInt8} {flat : Option Bytes},
    before.Contains word (.link previous byte flat) →
      after.Contains word (.link previous byte flat) ∨
        ∃ text, flat = none ∧ before.Spells word text ∧
          after.Contains word (.link previous byte (some text))
  lazy : ∀ {cell : Nat} {type : TypeId}, lazies cell = some (word, type) →
    later cell = some (word, type)

section

variable {compilation : Compilation} {lazies later : Lazies} {before after : Heap}
variable {Held : Word → Prop}
variable {word : Word}

theorem spells_keep (keeps : ∀ word, Held word → Keeps lazies later before after word)
    (closed : ∀ word payload next, Held word → before.Contains word payload →
      payload.Refers next → Held next) {text : Bytes} (held : Held word)
    (spells : before.Spells word text) : after.Spells word text := by
  induction spells with
  | string contains => exact .string ((keeps _ held).string contains)
  | remembered contains =>
    rcases (keeps _ held).link contains with kept | ⟨_, none, _, _⟩
    · exact .remembered kept
    · cases none
  | @link word previous byte text contains rest ih =>
    rcases (keeps _ held).link contains with kept | ⟨other, _, spells, kept⟩
    · exact .link kept (ih (closed _ _ _ held contains .previous))
    · have same : text.push byte = other := (Heap.Spells.link contains rest).unique spells rfl
      rw [same]
      exact .remembered kept

/-- What a word stands for is kept with everything it leads to. -/
theorem represents_keep (keeps : ∀ word, Held word → Keeps lazies later before after word)
    (closed : ∀ word payload next, Held word → before.Contains word payload →
      payload.Refers next → Held next) {type : TypeId} {value : Value} (held : Held word)
    (represents : Represents compilation lazies before type value word) :
    Represents compilation later after type value word := by
  induction represents with
  | int value scalar => exact .int value scalar
  | long scalar stored =>
    rcases stored with inline | contains
    · exact .long scalar (Or.inl inline)
    · exact .long scalar (Or.inr ((keeps _ held).long contains))
  | float bits scalar => exact .float bits scalar
  | string scalar spells => exact .string scalar (spells_keep keeps closed held spells)
  | empty word shape => exact .empty word shape
  | single shape _ ih => exact .single shape (ih held)
  | wide shape many contains same _ ih =>
    refine .wide shape many ((keeps _ held).struct contains) same ?_
    intro item field member
    exact ih item field member (closed _ _ _ held contains
      (.field (Array.mem_toList_iff.1 (List.of_mem_zip member).2)))
  | null form => exact .null form
  | present form _ ih => exact .present form (ih held)
  | tagged form number contains _ ih =>
    exact .tagged form number ((keeps _ held).struct contains)
      (ih (closed _ _ _ held contains (.field (by simp))))
  | function func fits => exact .function func fits
  | closure fits contains same _ ih =>
    refine .closure fits ((keeps _ held).struct contains) same ?_
    intro item field member
    refine ih item field member (closed _ _ _ held contains (.field ?_))
    exact Array.mem_push.2 (Or.inl (Array.mem_toList_iff.1 (List.of_mem_zip member).2))
  | lazy shape known => exact .lazy shape ((keeps _ held).lazy known)

theorem representsAll_keep (keeps : ∀ word, Held word → Keeps lazies later before after word)
    (closed : ∀ word payload next, Held word → before.Contains word payload →
      payload.Refers next → Held next) {items : List Typed} {words : List Word}
    (held : ∀ word ∈ words, Held word)
    (represents : RepresentsAll compilation lazies before items words) :
    RepresentsAll compilation later after items words := by
  induction represents with
  | nil => exact .nil
  | cons first _ ih =>
    simp only [List.mem_cons, forall_eq_or_imp] at held
    exact .cons (represents_keep keeps closed held.1 first) (ih held.2)

theorem representsCell_keep (keeps : ∀ word, Held word → Keeps lazies later before after word)
    (closed : ∀ word payload next, Held word → before.Contains word payload →
      payload.Refers next → Held next) {type : TypeId} {cell : Cell} (held : Held word)
    (same : ∀ call, before.Contains word (.lazy call) → after.Contains word (.lazy call))
    (represents : RepresentsCell compilation lazies before type word cell) :
    RepresentsCell compilation later after type word cell := by
  cases cell with
  | pending func arguments =>
    obtain ⟨decl, fields, declared, usable, output, contains, length, all⟩ := represents
    refine ⟨decl, fields, declared, usable, output, same _ contains, length,
      representsAll_keep keeps closed ?_ all⟩
    intro argument member
    exact closed _ _ _ held contains (.argument (Array.mem_toList_iff.1 member))
  | forced value =>
    obtain ⟨stored, contains, represents⟩ := represents
    exact ⟨stored, same _ contains,
      represents_keep keeps closed (closed _ _ _ held contains .value) represents⟩

theorem representsCells_keep (keeps : ∀ word, Keeps lazies lazies before after word)
    (same : ∀ word call, before.Contains word (.lazy call) → after.Contains word (.lazy call))
    {cells : Array Cell} (represents : RepresentsCells compilation lazies before cells) :
    RepresentsCells compilation lazies after cells where
  apart := represents.apart
  each := by
    intro cell word type known
    obtain ⟨content, found, holds⟩ := represents.each known
    exact ⟨content, found, representsCell_keep (fun word (_ : True) => keeps word)
      (fun _ _ _ _ _ _ => trivial) trivial (same word) holds⟩

end

/-! ### Allocations -/

section

variable {compilation : Compilation} {lazies : Lazies} {before after : Heap}
variable {word stored : Word} {cells : Array Cell} {roots : List Word} {type : TypeId} {cell : Nat}
variable {call : Delayed} {later : Lazies} {freed : List Heap.Freed}

theorem keeps_of_contains
    (contains : ∀ {word payload}, before.Contains word payload → after.Contains word payload)
    (known : ∀ {cell entry}, lazies cell = some entry → later cell = some entry) (word : Word) :
    Keeps lazies later before after word where
  string := contains
  long := contains
  struct := contains
  link := fun found => Or.inl (contains found)
  lazy := known

/-- A word keeps standing for its value when objects are added. -/
theorem Represents.grow
    (contains : ∀ {word payload}, before.Contains word payload → after.Contains word payload)
    (known : ∀ {cell entry}, lazies cell = some entry → later cell = some entry) {value : Value}
    (represents : Represents compilation lazies before type value word) :
    Represents compilation later after type value word :=
  represents_keep (fun word (_ : True) => keeps_of_contains contains known word)
    (fun _ _ _ _ _ _ => trivial) trivial represents

theorem RepresentsAll.grow
    (contains : ∀ {word payload}, before.Contains word payload → after.Contains word payload)
    (known : ∀ {cell entry}, lazies cell = some entry → later cell = some entry)
    {items : List Typed} {words : List Word}
    (represents : RepresentsAll compilation lazies before items words) :
    RepresentsAll compilation later after items words :=
  representsAll_keep (fun word (_ : True) => keeps_of_contains contains known word)
    (fun _ _ _ _ _ _ => trivial) (fun _ _ => trivial) represents

theorem RepresentsCells.grow
    (contains : ∀ {word payload}, before.Contains word payload → after.Contains word payload)
    (represents : RepresentsCells compilation lazies before cells) :
    RepresentsCells compilation lazies after cells :=
  representsCells_keep (fun word => keeps_of_contains contains (fun known => known) word)
    (fun _ _ found => contains found) represents

/-- One more object for a lazy call. -/
def Lazies.add (lazies : Lazies) (cell : Nat) (word : Word) (type : TypeId) : Lazies :=
  fun other => if other = cell then some (word, type) else lazies other

theorem RepresentsCells.lt_size (represents : RepresentsCells compilation lazies before cells)
    {entry : Word × TypeId} (known : lazies cell = some entry) : cell < cells.size := by
  obtain ⟨content, found, _⟩ :=
    represents.each (show lazies cell = some (entry.1, entry.2) from known)
  exact (Array.getElem?_eq_some_iff.1 found).1

theorem RepresentsCell.contains {cell : Cell}
    (represents : RepresentsCell compilation lazies before type word cell) :
    ∃ call, before.Contains word (.lazy call) := by
  cases cell with
  | pending func arguments =>
    obtain ⟨_, _, _, _, _, contains, _⟩ := represents
    exact ⟨_, contains⟩
  | forced value =>
    obtain ⟨_, contains, _⟩ := represents
    exact ⟨_, contains⟩

theorem Lazies.add_known (represents : RepresentsCells compilation lazies before cells)
    (word : Word) (type : TypeId) {entry : Word × TypeId} (known : lazies cell = some entry) :
    lazies.add cells.size word type cell = some entry := by
  have inside := represents.lt_size known
  rw [Lazies.add, if_neg (Nat.ne_of_lt inside)]
  exact known

/-- A new lazy call gets a new object. -/
theorem RepresentsCells.push {size : Nat} {content : Cell}
    (represents : RepresentsCells compilation lazies before cells)
    (allocated : Heap.Allocated before after word ⟨size, .lazy call⟩)
    (holds : RepresentsCell compilation (lazies.add cells.size word type) after type word content) :
    RepresentsCells compilation (lazies.add cells.size word type) after (cells.push content) where
  apart := by
    have different : ∀ {cell : Nat} {other : Word} {another : TypeId},
        lazies cell = some (other, another) → word.toHandle.index ≠ other.toHandle.index := by
      intro cell other another known
      obtain ⟨_, _, cellHolds⟩ := represents.each known
      obtain ⟨_, contains⟩ := cellHolds.contains
      exact allocated.index_ne contains
    intro left right first second firstType secondType leftKnown rightKnown index
    unfold Lazies.add at leftKnown rightKnown
    by_cases leftNew : left = cells.size <;> by_cases rightNew : right = cells.size
    · rw [leftNew, rightNew]
    · rw [if_pos leftNew] at leftKnown
      rw [if_neg rightNew] at rightKnown
      cases leftKnown
      exact absurd index (different rightKnown)
    · rw [if_neg leftNew] at leftKnown
      rw [if_pos rightNew] at rightKnown
      cases rightKnown
      exact absurd index.symm (different leftKnown)
    · rw [if_neg leftNew] at leftKnown
      rw [if_neg rightNew] at rightKnown
      exact represents.apart leftKnown rightKnown index
  each := by
    intro cell other another known
    by_cases new : cell = cells.size
    · unfold Lazies.add at known
      rw [if_pos new] at known
      cases known
      exact ⟨content, by rw [new]; simp, holds⟩
    · have old := known
      unfold Lazies.add at old
      rw [if_neg new] at old
      obtain ⟨inner, found, cellHolds⟩ := represents.each old
      have inside := (Array.getElem?_eq_some_iff.1 found).1
      refine ⟨inner, by rw [Array.getElem?_push, if_neg new]; exact found, ?_⟩
      exact representsCell_keep
        (fun word (_ : True) => keeps_of_contains (fun found => allocated.contains found)
          (fun known => Lazies.add_known represents _ _ known) word)
        (fun _ _ _ _ _ _ => trivial) trivial (fun _ found => allocated.contains found) cellHolds

/-! ### Texts that are remembered -/

theorem keeps_remember {text : Bytes} (spells : before.Spells word text) (other : Word) :
    Keeps lazies lazies before (before.remember word text) other := by
  obtain ⟨made, found⟩ := spells.contains
  have modified := fun {payload : Payload} (contains : before.Contains other payload) =>
    Heap.contains_modify found (Heap.remember_slots before word text) contains
  have same : ∀ {payload : Payload}, (∀ previous byte flat, payload ≠ .link previous byte flat) →
      before.Contains other payload → (before.remember word text).Contains other payload := by
    intro payload noLink contains
    obtain ⟨size, _, changed⟩ := modified contains
    split at changed
    · cases payload with
      | link previous byte flat => exact absurd rfl (noLink previous byte flat)
      | _ => exact changed
    · exact changed
  refine ⟨same (fun _ _ _ => nofun), same (fun _ _ _ => nofun), same (fun _ _ _ => nofun), ?_,
    fun known => known⟩
  intro previous byte flat contains
  obtain ⟨size, _, changed⟩ := modified contains
  split at changed
  · next index =>
    have otherSpells := spells.of_index_eq contains index.symm
    cases flat with
    | none => exact Or.inr ⟨text, rfl, otherSpells, changed⟩
    | some known =>
      have equal : text = known := otherSpells.unique (.remembered contains) rfl
      subst equal
      exact Or.inl changed
  · exact Or.inl changed

theorem remember_lazy {text : Bytes} (spells : before.Spells word text) {other : Word}
    (contains : before.Contains other (.lazy call)) :
    (before.remember word text).Contains other (.lazy call) := by
  obtain ⟨made, found⟩ := spells.contains
  obtain ⟨size, _, changed⟩ :=
    Heap.contains_modify found (Heap.remember_slots before word text) contains
  split at changed
  · exact changed
  · exact changed

/-! ### Lazy calls that get their value -/

theorem setPayload_contains {other : Word} {payload : Payload}
    (found : before.Contains word (.lazy call)) (contains : before.Contains other payload)
    (noLazy : ∀ call, payload ≠ .lazy call) :
    (before.setPayload word (.lazy (.forced stored))).Contains other payload := by
  obtain ⟨size, _, changed⟩ :=
    Heap.contains_modify found (Heap.setPayload_slots before word _) contains
  split at changed
  · next index => exact absurd (contains.of_index_eq found index) (noLazy call)
  · exact changed

theorem keeps_setPayload (found : before.Contains word (.lazy call)) (other : Word) :
    Keeps lazies lazies before (before.setPayload word (.lazy (.forced stored))) other where
  string := fun contains => setPayload_contains found contains (fun _ => nofun)
  long := fun contains => setPayload_contains found contains (fun _ => nofun)
  struct := fun contains => setPayload_contains found contains (fun _ => nofun)
  link := fun contains => Or.inl (setPayload_contains found contains (fun _ => nofun))
  lazy := fun known => known

theorem RepresentsCells.force {value : Value}
    (represents : RepresentsCells compilation lazies before cells)
    (known : lazies cell = some (word, type))
    (holds : Represents compilation lazies before type value stored) :
    RepresentsCells compilation lazies (before.setPayload word (.lazy (.forced stored)))
      (cells.setIfInBounds cell (.forced value)) where
  apart := represents.apart
  each := by
    obtain ⟨_, _, ownHolds⟩ := represents.each known
    obtain ⟨call, found⟩ := ownHolds.contains
    have inside := represents.lt_size known
    intro other otherWord another otherKnown
    by_cases same : other = cell
    · rw [same, known] at otherKnown
      cases otherKnown
      refine ⟨.forced value, by rw [same]; simp [inside], stored, ?_, ?_⟩
      · obtain ⟨size, _, changed⟩ :=
          Heap.contains_modify found (Heap.setPayload_slots before word _) found
        rw [if_pos rfl] at changed
        exact changed
      · exact represents_keep (fun other (_ : True) => keeps_setPayload found other)
          (fun _ _ _ _ _ _ => trivial) trivial holds
    · obtain ⟨content, inCells, cellHolds⟩ := represents.each otherKnown
      refine ⟨content, ?_, ?_⟩
      · rw [Array.getElem?_setIfInBounds_ne (Ne.symm same)]
        exact inCells
      · refine representsCell_keep (fun other (_ : True) => keeps_setPayload found other)
          (fun _ _ _ _ _ _ => trivial) trivial ?_ cellHolds
        intro otherCall contains
        obtain ⟨size, _, changed⟩ :=
          Heap.contains_modify found (Heap.setPayload_slots before word _) contains
        split at changed
        · next index => exact absurd (represents.apart otherKnown known index) same
        · exact changed

/-! ### Collections -/

/-- The lazy calls whose objects are kept. -/
noncomputable def Lazies.reached (lazies : Lazies) (heap : Heap) (roots : List Word) : Lazies :=
  open Classical in
  fun cell => (lazies cell).filter fun entry => heap.Reached roots entry.1

theorem Lazies.reached_eq_some {heap : Heap} {entry : Word × TypeId} :
    lazies.reached heap roots cell = some entry ↔
      lazies cell = some entry ∧ heap.Reached roots entry.1 := by
  unfold Lazies.reached
  rw [Option.filter_eq_some_iff]
  simp

theorem collected_contains (collected : Heap.Collected before roots after freed)
    (reached : before.Reached roots word) {payload : Payload}
    (contains : before.Contains word payload) : after.Contains word payload := by
  obtain ⟨isRef, size, found⟩ := Heap.contains_iff.1 contains
  exact Heap.contains_iff.2
    ⟨isRef, size, (collected.kept _ _).2 ⟨found, word, reached, isRef, rfl, rfl⟩⟩

theorem keeps_collected (collected : Heap.Collected before roots after freed)
    (reached : before.Reached roots word) :
    Keeps lazies (lazies.reached before roots) before after word where
  string := collected_contains collected reached
  long := collected_contains collected reached
  struct := collected_contains collected reached
  link := fun contains => Or.inl (collected_contains collected reached contains)
  lazy := fun known => Lazies.reached_eq_some.2 ⟨known, reached⟩

theorem reached_closed (word : Word) (payload : Payload) (next : Word)
    (reached : before.Reached roots word) (contains : before.Contains word payload)
    (refers : payload.Refers next) : before.Reached roots next := by
  obtain ⟨isRef, size, found⟩ := Heap.contains_iff.1 contains
  exact .follow reached isRef found refers

theorem RepresentsCells.collected (collected : Heap.Collected before roots after freed)
    (represents : RepresentsCells compilation lazies before cells) :
    RepresentsCells compilation (lazies.reached before roots) after cells where
  apart := fun leftKnown rightKnown =>
    represents.apart (Lazies.reached_eq_some.1 leftKnown).1 (Lazies.reached_eq_some.1 rightKnown).1
  each := by
    intro cell word type known
    obtain ⟨before, reached⟩ := Lazies.reached_eq_some.1 known
    obtain ⟨content, found, holds⟩ := represents.each before
    exact ⟨content, found, representsCell_keep
      (fun _ reached => keeps_collected collected reached) reached_closed reached
      (fun _ contains => collected_contains collected reached contains) holds⟩

end

end Evaluation

end WordMachine
