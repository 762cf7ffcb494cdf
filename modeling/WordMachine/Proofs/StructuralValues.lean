import WordMachine.Proofs.Representation

/-!
Values that equality functions compare, what it means for two of them to be equal, and which words
of the machine stand for them.
-/

namespace WordMachine.Equality

open Lowering (nullable? Nullable)

/-! ## Values -/

/-- A value without functions and lazy calls. Bools, chars and entries of enums are ints. A value of
a union has the number of its member. -/
inductive Datum where
  | int (value : Int32)
  | long (value : Int64)
  | float (bits : Number.Single)
  | text (content : Bytes)
  | struct (fields : List Datum)
  | union (number : Nat) (value : Datum)
  deriving Inhabited

namespace Datum

mutual

/-- Structural equality. Floats are compared as numbers. -/
def equal : Datum → Datum → Bool
  | .int left, .int right => left == right
  | .long left, .long right => left == right
  | .float left, .float right => Number.Single.eq left right
  | .text left, .text right => left == right
  | .struct left, .struct right => equalAll left right
  | .union leftNumber left, .union rightNumber right =>
    leftNumber == rightNumber && equal left right
  | _, _ => false

def equalAll : List Datum → List Datum → Bool
  | [], [] => true
  | left :: lefts, right :: rights => equal left right && equalAll lefts rights
  | _, _ => false

end

mutual

/-- How many structs and unions lie in each other. -/
def depth : Datum → Nat
  | .struct fields => depthAll fields + 1
  | .union _ value => value.depth + 1
  | _ => 0

def depthAll : List Datum → Nat
  | [] => 0
  | field :: fields => max field.depth (depthAll fields)

end

theorem depth_le_depthAll {field : Datum} {fields : List Datum} (member : field ∈ fields) :
    field.depth ≤ depthAll fields := by
  induction fields with
  | nil => cases member
  | cons first fields ih =>
    rw [depthAll]
    rcases List.mem_cons.1 member with rfl | member
    · exact Nat.le_max_left _ _
    · exact Nat.le_trans (ih member) (Nat.le_max_right _ _)

end Datum

/-! ## Words -/

/-- Whether values of a kind are stored as ints. -/
def IsNumber (kind : TypeKind) : Prop :=
  kind = .int ∨ kind = .bool ∨ kind = .char ∨ kind = .enumeration

/-- Whether a word is a long, with or without an object. -/
def IsLong (heap : Heap) (word : Word) (value : Int64) : Prop :=
  word = .ofInlineLong value ∧ 0 ≤ value ∨ heap.Contains word (.long value)

/-- Whether a word stands for a value of a type. Any word stands for a struct without fields; the
value of a union is kept together with its number, or in place of the union if that is nullable. -/
inductive Represents (program : Program) (heap : Heap) : TypeId → Datum → Word → Prop
  | int {type : TypeId} {kind : TypeKind} {word : Word} :
      program.kind? type = some kind →
      IsNumber kind →
      Represents program heap type (.int word.toInt) word
  | long {type : TypeId} {value : Int64} {word : Word} :
      program.kind? type = some .long →
      IsLong heap word value →
      Represents program heap type (.long value) word
  | float {type : TypeId} {word : Word} :
      program.kind? type = some .float →
      Represents program heap type (.float word.bits32) word
  | text {type : TypeId} {content : Bytes} {word : Word} :
      program.kind? type = some .string →
      heap.Spells word content →
      Represents program heap type (.text content) word
  | empty {type : TypeId} {definition : StructDef} (word : Word) :
      program.kind? type = some .struct →
      program.struct? type = some definition →
      definition.fields.getD [] = [] →
      Represents program heap type (.struct []) word
  | single {type : TypeId} {definition : StructDef} {field : FieldDecl} {value : Datum}
      {word : Word} :
      program.kind? type = some .struct →
      program.struct? type = some definition →
      definition.fields.getD [] = [field] →
      Represents program heap field.type value word →
      Represents program heap type (.struct [value]) word
  | wide {type : TypeId} {definition : StructDef} {values : List Datum} {word : Word}
      {words : Array Word} :
      program.kind? type = some .struct →
      program.struct? type = some definition →
      2 ≤ (definition.fields.getD []).length →
      heap.Contains word (.struct words) →
      values.length = (definition.fields.getD []).length →
      words.size = (definition.fields.getD []).length →
      (∀ (position : Nat) (field : FieldDecl) (value : Datum) (inner : Word),
        (definition.fields.getD [])[position]? = some field → values[position]? = some value →
          words[position]? = some inner → Represents program heap field.type value inner) →
      Represents program heap type (.struct values) word
  | null {type : TypeId} {definition : UnionDef} {nullable : Nullable} {number : Nat} :
      program.kind? type = some .union →
      nullable? program type = some nullable →
      program.union? type = some definition →
      (definition.members.getD [])[number]? = some nullable.nullType →
      Represents program heap type (.union number (.struct [])) .null
  | present {type : TypeId} {definition : UnionDef} {nullable : Nullable} {number : Nat}
      {fields : List Datum} {word : Word} :
      program.kind? type = some .union →
      nullable? program type = some nullable →
      program.union? type = some definition →
      (definition.members.getD [])[number]? = some nullable.structType →
      Represents program heap nullable.structType (.struct fields) word →
      Represents program heap type (.union number (.struct fields)) word
  | tagged {type member : TypeId} {definition : UnionDef} {number : Nat} {value : Datum}
      {word tag inner : Word} :
      program.kind? type = some .union →
      nullable? program type = none →
      program.union? type = some definition →
      (definition.members.getD [])[number]? = some member →
      heap.Contains word (.struct #[tag, inner]) →
      tag.toInt = Int32.ofNat number →
      Represents program heap member value inner →
      Represents program heap type (.union number value) word

variable {program : Program} {type : TypeId} {value : Datum} {word : Word}

/-! ## Changes of the heap -/

/-- Whether whatever words stand for in a heap they also stand for in another one. -/
structure Preserves (before after : Heap) : Prop where
  struct : ∀ {word : Word} {fields : Array Word}, before.Contains word (.struct fields) →
    after.Contains word (.struct fields)
  long : ∀ {word : Word} {value : Int64}, before.Contains word (.long value) →
    after.Contains word (.long value)
  text : ∀ {word : Word} {content : Bytes}, before.Spells word content →
    after.Spells word content

theorem Preserves.refl (heap : Heap) : Preserves heap heap :=
  ⟨id, id, id⟩

theorem Preserves.trans {first second third : Heap} (before : Preserves first second)
    (after : Preserves second third) : Preserves first third :=
  ⟨fun contains => after.struct (before.struct contains),
    fun contains => after.long (before.long contains),
    fun spells => after.text (before.text spells)⟩

theorem IsLong.read {before after : Heap} {number : Int64} (stored : IsLong before word number)
    (preserves : Preserves before after) : after.long word = .ok number := by
  unfold Heap.long
  rcases stored with ⟨rfl, positive⟩ | boxed
  · rw [Word.isRef_ofInlineLong, if_neg Bool.false_ne_true,
      Word.toInlineLong_ofInlineLong positive]
  · obtain ⟨size, found⟩ := preserves.long boxed
    rw [(Heap.deref_eq_ok.1 found).1, if_pos rfl, found]

/-- A link that remembers its text stands for the same text. -/
theorem preserves_remember {heap : Heap} {content : Bytes} (spells : heap.Spells word content) :
    Preserves heap (heap.remember word content) := by
  have keeps : ∀ other,
      Evaluation.Keeps (fun _ => none) (fun _ => none) heap (heap.remember word content) other :=
    fun other => Evaluation.keeps_remember spells other
  refine ⟨fun contains => (keeps _).struct contains, fun contains => (keeps _).long contains,
    fun others => ?_⟩
  exact Evaluation.spells_keep (fun other (_ : True) => keeps other) (fun _ _ _ _ _ _ => trivial)
    trivial others

/-- What a word stands for is kept with everything it leads to. -/
theorem Represents.keep {before after : Heap} {Held : Word → Prop}
    {lazies later : Evaluation.Lazies}
    (keeps : ∀ word, Held word → Evaluation.Keeps lazies later before after word)
    (closed : ∀ word payload next, Held word → before.Contains word payload →
      payload.Refers next → Held next) (represents : Represents program before type value word)
    (held : Held word) : Represents program after type value word := by
  induction represents with
  | int kind number => exact .int kind number
  | long kind stored =>
    apply Represents.long kind
    rcases stored with inlined | boxed
    · exact Or.inl inlined
    · exact Or.inr ((keeps _ held).long boxed)
  | float kind => exact .float kind
  | text kind spells => exact .text kind (Evaluation.spells_keep keeps closed held spells)
  | empty word kind known none => exact .empty word kind known none
  | single kind known one _ ih =>
    exact .single kind known one (ih held)
  | wide kind known many contains length size _ ih =>
    refine .wide kind known many ((keeps _ held).struct contains) length size ?_
    intro position field value inner declared listed stored
    apply ih position field value inner declared listed stored
    exact closed _ _ _ held contains (.field (Array.mem_of_getElem? stored))
  | null kind form known listed => exact .null kind form known listed
  | present kind form known listed _ ih =>
    exact .present kind form known listed (ih held)
  | tagged kind form known listed contains numbered _ ih =>
    refine .tagged kind form known listed ((keeps _ held).struct contains) numbered ?_
    exact ih (closed _ _ _ held contains (.field (by simp)))

theorem Represents.collected {heap : Heap} (sound : heap.Sound) {roots : List Word}
    (represents : Represents program heap type value word) (root : word ∈ roots) :
    Represents program ({ heap with requested := false }.collect roots).1 type value word := by
  have unasked := sound.pace heap.left false
  have collected := (Heap.sweep_mark_collected unasked.wellFormed unasked.accounted roots).pace
    ({ heap with requested := false }.mark roots).sweep.1.interval
  have same : Represents program { heap with requested := false } type value word :=
    represents.keep (fun word (_ : True) =>
      @Evaluation.keeps_of_contains (fun _ => none) heap { heap with requested := false }
        (fun _ => none) (fun contains => contains) id word) (fun _ _ _ _ _ _ => trivial) trivial
  exact same.keep
    (fun _ reached => @Evaluation.keeps_collected (fun _ => none) _ _ _ _ _ collected reached)
    Evaluation.reached_closed (.root root)

/-! ## Kinds of values -/

def Datum.HasKind : Datum → TypeKind → Prop
  | .int _, kind => IsNumber kind
  | .long _, kind => kind = .long
  | .float _, kind => kind = .float
  | .text _, kind => kind = .string
  | .struct _, kind => kind = .struct
  | .union _ _, kind => kind = .union

section

variable {program : Program} {heap : Heap} {type : TypeId} {value : Datum} {word : Word}
variable {definition : StructDef} {nullable : Nullable}

theorem Represents.hasKind (represents : Represents program heap type value word) :
    ∃ kind, program.kind? type = some kind ∧ value.HasKind kind := by
  cases represents with
  | int kind number => exact ⟨_, kind, number⟩
  | long kind _ => exact ⟨_, kind, rfl⟩
  | float kind => exact ⟨_, kind, rfl⟩
  | text kind _ => exact ⟨_, kind, rfl⟩
  | empty _ kind _ _ => exact ⟨_, kind, rfl⟩
  | single kind _ _ _ => exact ⟨_, kind, rfl⟩
  | wide kind _ _ _ _ _ _ => exact ⟨_, kind, rfl⟩
  | null kind _ _ _ => exact ⟨_, kind, rfl⟩
  | present kind _ _ _ _ => exact ⟨_, kind, rfl⟩
  | tagged kind _ _ _ _ _ _ => exact ⟨_, kind, rfl⟩

theorem Represents.kind_of (represents : Represents program heap type value word)
    {kind : TypeKind} (known : program.kind? type = some kind) : value.HasKind kind := by
  obtain ⟨other, found, holds⟩ := represents.hasKind
  rw [known] at found
  cases found
  exact holds

/-! ### Values of a type with a known definition -/

theorem Represents.of_empty (represents : Represents program heap type value word)
    (kind : program.kind? type = some .struct) (known : program.struct? type = some definition)
    (none : definition.fields.getD [] = []) : value = .struct [] := by
  have isStruct := represents.kind_of kind
  cases represents with
  | empty _ _ _ _ => rfl
  | single _ found one _ =>
    rw [known] at found
    cases found
    rw [none] at one
    cases one
  | wide _ found many _ _ _ _ =>
    rw [known] at found
    cases found
    rw [none] at many
    cases many
  | int _ _ => simp [Datum.HasKind, IsNumber] at isStruct
  | _ => cases isStruct

theorem Represents.of_single {field : FieldDecl}
    (represents : Represents program heap type value word)
    (kind : program.kind? type = some .struct) (known : program.struct? type = some definition)
    (one : definition.fields.getD [] = [field]) :
    ∃ inner, value = .struct [inner] ∧ Represents program heap field.type inner word := by
  have isStruct := represents.kind_of kind
  cases represents with
  | empty _ _ found none =>
    rw [known] at found
    cases found
    rw [one] at none
    cases none
  | single _ found same inner =>
    rw [known] at found
    cases found
    rw [one] at same
    cases same
    exact ⟨_, rfl, inner⟩
  | wide _ found many _ _ _ _ =>
    rw [known] at found
    cases found
    rw [one] at many
    exact absurd many (by simp)
  | int _ _ => simp [Datum.HasKind, IsNumber] at isStruct
  | _ => cases isStruct

/-- Whether the words of a struct stand for its values. -/
structure StandsFor (program : Program) (heap : Heap) (fields : List FieldDecl)
    (values : List Datum) (words : Array Word) : Prop where
  length : values.length = fields.length
  size : words.size = fields.length
  each : ∀ (position : Nat) (field : FieldDecl) (value : Datum) (inner : Word),
    fields[position]? = some field → values[position]? = some value →
      words[position]? = some inner → Represents program heap field.type value inner

theorem Represents.of_wide (represents : Represents program heap type value word)
    (kind : program.kind? type = some .struct) (known : program.struct? type = some definition)
    (many : 2 ≤ (definition.fields.getD []).length) :
    ∃ values words, value = .struct values ∧ heap.Contains word (.struct words) ∧
      StandsFor program heap (definition.fields.getD []) values words := by
  have isStruct := represents.kind_of kind
  cases represents with
  | empty _ _ found none =>
    rw [known] at found
    cases found
    rw [none] at many
    cases many
  | single _ found one _ =>
    rw [known] at found
    cases found
    rw [one] at many
    exact absurd many (by simp)
  | wide _ found _ contains length size each =>
    rw [known] at found
    cases found
    exact ⟨_, _, rfl, contains, length, size, each⟩
  | int _ _ => simp [Datum.HasKind, IsNumber] at isStruct
  | _ => cases isStruct

theorem Represents.isNull_eq {fields : List Datum}
    (represents : Represents program heap type (.struct fields) word)
    (wide : Lowering.isWideStruct program type = true) : word.isNull = false := by
  cases represents with
  | empty _ _ known none => simp [Lowering.isWideStruct, Program.fieldCount?, known, none] at wide
  | single _ known one _ => simp [Lowering.isWideStruct, Program.fieldCount?, known, one] at wide
  | wide _ _ _ contains _ _ _ => exact contains.isNull_eq

theorem nullable_listed {definition : UnionDef} (form : nullable? program type = some nullable)
    (known : program.union? type = some definition) :
    (definition.members.getD [] = [nullable.nullType, nullable.structType] ∨
        definition.members.getD [] = [nullable.structType, nullable.nullType]) ∧
      Lowering.isWideStruct program nullable.structType = true ∧
      nullable.nullType ≠ nullable.structType := by
  have apart : ∀ {empty wide : TypeId}, Lowering.isEmptyStruct program empty = true →
      Lowering.isWideStruct program wide = true → empty ≠ wide := by
    rintro empty wide isEmpty isWide rfl
    have none : program.fieldCount? empty = some 0 := by
      simpa [Lowering.isEmptyStruct] using isEmpty
    simp [Lowering.isWideStruct, none] at isWide
  simp only [nullable?, known, Option.bind_some] at form
  split at form
  · next first second listed =>
    rw [listed]
    split at form
    · next both =>
      cases form
      rw [Bool.and_eq_true] at both
      exact ⟨Or.inl rfl, both.2, apart both.1 both.2⟩
    · split at form
      · next both =>
        cases form
        rw [Bool.and_eq_true] at both
        exact ⟨Or.inr rfl, both.2, apart both.1 both.2⟩
      · cases form
  · cases form

theorem number_eq_of_nullable {definition : UnionDef} {left right : Nat}
    {leftMember rightMember : TypeId} (form : nullable? program type = some nullable)
    (known : program.union? type = some definition)
    (leftListed : (definition.members.getD [])[left]? = some leftMember)
    (rightListed : (definition.members.getD [])[right]? = some rightMember) :
    left = right ↔ leftMember = rightMember := by
  obtain ⟨listed, _, apart⟩ := nullable_listed form known
  have distinct : (definition.members.getD []).Nodup := by
    rcases listed with listed | listed <;> rw [listed] <;> simp [apart, apart.symm]
  constructor
  · rintro rfl
    rw [leftListed] at rightListed
    exact Option.some.inj rightListed
  · rintro rfl
    exact (List.getElem?_inj (List.getElem?_eq_some_iff.1 leftListed).1 distinct).1
      (leftListed.trans rightListed.symm)

theorem Represents.of_nullable (represents : Represents program heap type value word)
    (kind : program.kind? type = some .union) (form : nullable? program type = some nullable) :
    ∃ definition number member fields, program.union? type = some definition ∧
      (definition.members.getD [])[number]? = some member ∧ value = .union number (.struct fields) ∧
      (member = nullable.nullType ∧ fields = [] ∧ word = .null ∨
        member = nullable.structType ∧
          Represents program heap nullable.structType (.struct fields) word) := by
  have isUnion := represents.kind_of kind
  cases represents with
  | null _ same known listed =>
    rw [form] at same
    cases same
    exact ⟨_, _, _, _, known, listed, rfl, Or.inl ⟨rfl, rfl, rfl⟩⟩
  | present _ same known listed inner =>
    rw [form] at same
    cases same
    exact ⟨_, _, _, _, known, listed, rfl, Or.inr ⟨rfl, inner⟩⟩
  | tagged _ none _ _ _ _ _ =>
    rw [form] at none
    cases none
  | int _ _ => simp [Datum.HasKind, IsNumber] at isUnion
  | _ => cases isUnion

theorem Represents.of_tagged {definition : UnionDef}
    (represents : Represents program heap type value word) (kind : program.kind? type = some .union)
    (form : nullable? program type = none) (known : program.union? type = some definition) :
    ∃ number member inner tag innerWord, value = .union number inner ∧
      (definition.members.getD [])[number]? = some member ∧
      heap.Contains word (.struct #[tag, innerWord]) ∧ tag.toInt = Int32.ofNat number ∧
      Represents program heap member inner innerWord := by
  have isUnion := represents.kind_of kind
  cases represents with
  | null _ same _ _ =>
    rw [form] at same
    cases same
  | present _ same _ _ _ =>
    rw [form] at same
    cases same
  | tagged _ _ found listed contains numbered inner =>
    rw [known] at found
    cases found
    exact ⟨_, _, _, _, _, rfl, listed, contains, numbered, inner⟩
  | int _ _ => simp [Datum.HasKind, IsNumber] at isUnion
  | _ => cases isUnion

end

end WordMachine.Equality
