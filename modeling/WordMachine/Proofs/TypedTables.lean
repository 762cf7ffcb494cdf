import WordMachine.Lowering.Layout
import WordMachine.Proofs.Typing
import Mathlib

/-!
What fitting tables say about single types: structs and unions have the shapes of their definitions,
and members of a union have numbers of their own.
-/

namespace WordMachine

theorem Program.lookup_eq_some {entry : Type} {id : entry → UInt32} {table : List entry}
    {number : UInt32} {found : entry} (known : lookup id table number = some found) :
    found ∈ table ∧ id found = number :=
  ⟨List.mem_of_find?_eq_some known, by simpa using List.find?_some known⟩

namespace Evaluation

open Lowering (nullable? memberNumber Nullable isEmptyStruct isWideStruct)

structure TablesFit (program : Program) : Prop where
  int : program.kind? TypeId.int = some .int
  long : program.kind? TypeId.long = some .long
  float : program.kind? TypeId.float = some .float
  bool : program.kind? TypeId.bool = some .bool
  char : program.kind? TypeId.char = some .char
  string : program.kind? TypeId.string = some .string
  func : ∀ {id : FuncId} {decl : FuncDecl}, program.func? id = some decl → decl.id = id
  struct : ∀ {type : TypeId} {definition : StructDef}, program.struct? type = some definition →
    program.kind? type = some .struct
  union : ∀ {type : TypeId} {definition : UnionDef}, program.union? type = some definition →
    program.kind? type = some .union ∧ (definition.members.getD []).length ≤ 4294967296

theorem tablesFit_of_eq {program : Program} (fits : tablesFit program = true) :
    TablesFit program := by
  unfold tablesFit at fits
  simp only [Bool.and_eq_true, beq_iff_eq, List.all_eq_true, decide_eq_true_eq] at fits
  obtain ⟨⟨⟨⟨⟨⟨⟨⟨int, long⟩, float⟩, bool⟩, char⟩, string⟩, funcs⟩, structs⟩, unions⟩ := fits
  refine ⟨int, long, float, bool, char, string, ?_, ?_, ?_⟩
  · intro id decl known
    have numbered := funcs (decl, id.toNat) (List.mk_mem_zipIdx_iff_getElem?.2 (by
      rw [Array.getElem?_toList]
      exact known))
    exact UInt32.toNat_inj.1 numbered
  · intro type definition known
    obtain ⟨member, same⟩ := Program.lookup_eq_some known
    exact same ▸ structs definition member
  · intro type definition known
    obtain ⟨member, same⟩ := Program.lookup_eq_some known
    exact same ▸ unions definition member

section

variable {program : Program} {type : TypeId}

theorem hasScalar_iff {scalar : Scalar} :
    hasScalar program type scalar = true ↔ shape? program type = some (.scalar scalar) := by
  unfold hasScalar
  exact beq_iff_eq

theorem hasScalar_of_kind {kind : TypeKind} {scalar : Scalar}
    (known : program.kind? type = some kind)
    (listed : (kind, scalar) ∈ [(TypeKind.int, Scalar.int), (.long, .long), (.float, .float),
      (.string, .string)]) : hasScalar program type scalar = true := by
  rw [hasScalar_iff, shape?, known]
  simp only [List.mem_cons, Prod.mk.injEq, List.not_mem_nil, or_false] at listed
  rcases listed with ⟨rfl, rfl⟩ | ⟨rfl, rfl⟩ | ⟨rfl, rfl⟩ | ⟨rfl, rfl⟩ <;> rfl

theorem TablesFit.exists_scalar (tables : TablesFit program) (scalar : Scalar) :
    ∃ type, hasScalar program type scalar = true := by
  cases scalar with
  | int => exact ⟨_, hasScalar_of_kind tables.int (by simp)⟩
  | long => exact ⟨_, hasScalar_of_kind tables.long (by simp)⟩
  | float => exact ⟨_, hasScalar_of_kind tables.float (by simp)⟩
  | string => exact ⟨_, hasScalar_of_kind tables.string (by simp)⟩

theorem TablesFit.shape_struct (tables : TablesFit program) {definition : StructDef}
    (known : program.struct? type = some definition) :
    shape? program type = some (.struct ((definition.fields.getD []).map FieldDecl.type)) := by
  simp [shape?, tables.struct known, known]

theorem TablesFit.shape_union (tables : TablesFit program) {definition : UnionDef}
    (known : program.union? type = some definition) :
    shape? program type = some (.union (definition.members.getD [])) := by
  simp [shape?, (tables.union known).1, known]

theorem TablesFit.shape_of_fieldCount (tables : TablesFit program) {count : Nat}
    (counted : program.fieldCount? type = some count) :
    ∃ fields, shape? program type = some (.struct fields) ∧ fields.length = count := by
  unfold Program.fieldCount? at counted
  obtain ⟨definition, known, same⟩ := Option.map_eq_some_iff.1 counted
  exact ⟨_, tables.shape_struct known, by rw [List.length_map]; exact same⟩

theorem TablesFit.nullable (tables : TablesFit program) {nullable : Nullable}
    (form : nullable? program type = some nullable) :
    (∃ members, shape? program type = some (.union members) ∧
        (∀ member, member ∈ members ↔
          member = nullable.nullType ∨ member = nullable.structType)) ∧
      shape? program nullable.nullType = some (.struct []) ∧
      (∃ fields, shape? program nullable.structType = some (.struct fields) ∧
        2 ≤ fields.length) := by
  unfold nullable? at form
  split at form
  · next first second known =>
    obtain ⟨definition, found, listed⟩ := Option.bind_eq_some_iff.1 known
    have shape := tables.shape_union found
    rw [listed, Option.getD_some] at shape
    have empty : ∀ {member : TypeId}, isEmptyStruct program member = true →
        shape? program member = some (.struct []) := by
      intro member isEmpty
      obtain ⟨fields, same, none⟩ :=
        tables.shape_of_fieldCount (show program.fieldCount? member = some 0 by
          simpa [isEmptyStruct] using isEmpty)
      rw [same, List.eq_nil_of_length_eq_zero none]
    have wide : ∀ {member : TypeId}, isWideStruct program member = true →
        ∃ fields, shape? program member = some (.struct fields) ∧ 2 ≤ fields.length := by
      intro member isWide
      unfold isWideStruct at isWide
      split at isWide
      · next count counted =>
        obtain ⟨fields, same, length⟩ := tables.shape_of_fieldCount counted
        exact ⟨fields, same, length ▸ of_decide_eq_true isWide⟩
      · cases isWide
    split at form
    · next both =>
      cases form
      rw [Bool.and_eq_true] at both
      exact ⟨⟨_, shape, fun member => by simp⟩, empty both.1, wide both.2⟩
    · split at form
      · next both =>
        cases form
        rw [Bool.and_eq_true] at both
        exact ⟨⟨_, shape, fun member => by simp [or_comm]⟩, empty both.1, wide both.2⟩
      · cases form
  · cases form

theorem TablesFit.nullable_ne (tables : TablesFit program) {nullable : Nullable}
    (form : nullable? program type = some nullable) : nullable.nullType ≠ nullable.structType := by
  obtain ⟨_, empty, fields, wide, many⟩ := tables.nullable form
  intro same
  rw [same, wide] at empty
  cases empty
  cases many

theorem TablesFit.memberNumber (tables : TablesFit program) {member : TypeId} {number : Int32}
    (numbered : memberNumber program type member = .ok number) :
    ∃ members, shape? program type = some (.union members) ∧ members.length ≤ 4294967296 ∧
      ∃ position, members[position]? = some member ∧ number = Int32.ofNat position := by
  unfold Lowering.memberNumber at numbered
  split at numbered
  · cases numbered
  · next definition known =>
    split at numbered
    · next position found =>
      cases numbered
      obtain ⟨inside, same, _⟩ := List.findIdx?_eq_some_iff_getElem.1 found
      exact ⟨_, tables.shape_union known, (tables.union known).2, position,
        List.getElem?_eq_some_iff.2 ⟨inside, by simpa using same⟩, rfl⟩
    · cases numbered

theorem TablesFit.memberNumber_inj (tables : TablesFit program) {left right : TypeId}
    {number : Int32} (first : Lowering.memberNumber program type left = .ok number)
    (second : Lowering.memberNumber program type right = .ok number) : left = right := by
  obtain ⟨members, shape, small, position, inside, same⟩ := tables.memberNumber first
  obtain ⟨others, otherShape, _, other, otherInside, otherSame⟩ := tables.memberNumber second
  rw [shape] at otherShape
  cases otherShape
  have bound := (List.getElem?_eq_some_iff.1 inside).1
  have otherBound := (List.getElem?_eq_some_iff.1 otherInside).1
  have equal : position = other := by
    rw [same] at otherSame
    have bits : (UInt32.ofNat position).toNat = (UInt32.ofNat other).toNat :=
      congrArg (fun value : Int32 => value.toUInt32.toNat) otherSame
    rw [UInt32.toNat_ofNat_of_lt' (Nat.lt_of_lt_of_le bound small),
      UInt32.toNat_ofNat_of_lt' (Nat.lt_of_lt_of_le otherBound small)] at bits
    exact bits
  rw [equal, otherInside] at inside
  exact (Option.some.inj inside).symm

end

/-! ## Types of expressions -/

section

variable {scope : Scope} {usable : FuncId → Bool}

theorem lastType?_eq (items : List Expr) :
    Expr.type?.lastType? items = items.getLast?.bind Expr.type? := by
  induction items with
  | nil => rfl
  | cons item items ih =>
    cases items with
    | nil => rfl
    | cons next items =>
      rw [List.getLast?_cons_cons]
      exact ih

mutual

theorem exists_type? :
    (expr : Expr) → isTyped scope usable expr = true → ∃ type, expr.type? = some type
  | .missing, typed => by cases typed
  | .assign slot value, typed => by
    simp only [isTyped, Bool.and_eq_true] at typed
    exact exists_type? value typed.1
  | .choose conditions branches, typed => by
    simp only [isTyped, Bool.and_eq_true, beq_iff_eq] at typed
    obtain ⟨⟨⟨⟨_, branchesTyped⟩, many⟩, _⟩, _⟩ := typed
    have each := exists_types? branches branchesTyped
    cases branches with
    | nil => cases many
    | cons first _ => exact each first List.mem_cons_self
  | .group items, typed => by
    simp only [isTyped, Bool.and_eq_true, Bool.not_eq_true', List.isEmpty_eq_false_iff] at typed
    have each := exists_types? items typed.1
    change ∃ type, Expr.type?.lastType? items = some type
    rw [lastType?_eq, List.getLast?_eq_some_getLast typed.2]
    exact each _ (List.getLast_mem typed.2)
  | .call _ _ _ result, _ => ⟨result, rfl⟩
  | .callDynamic _ _ _ result, _ => ⟨result, rfl⟩
  | .callSelf _ result, _ => ⟨result, rfl⟩
  | .closure _ _ delegate, _ => ⟨delegate, rfl⟩
  | .slot _ type, _ => ⟨type, rfl⟩
  | .field _ _ type, _ => ⟨type, rfl⟩
  | .unionCheck _ _, _ => ⟨_, rfl⟩
  | .unionGet _ _ _, _ => ⟨_, rfl⟩
  | .function _ delegate, _ => ⟨delegate, rfl⟩
  | .enumeration type _, _ => ⟨type, rfl⟩
  | .fail type, _ => ⟨type, rfl⟩
  | .bool _, _ => ⟨_, rfl⟩
  | .float _, _ => ⟨_, rfl⟩
  | .int _, _ => ⟨_, rfl⟩
  | .long _, _ => ⟨_, rfl⟩
  | .string _, _ => ⟨_, rfl⟩
  | .char _, _ => ⟨_, rfl⟩

theorem exists_types? :
    (items : List Expr) → areTyped scope usable items = true →
      ∀ item ∈ items, ∃ type, item.type? = some type
  | [], _ => fun _ member => nomatch member
  | item :: items, typed => by
    simp only [areTyped, Bool.and_eq_true] at typed
    have first := exists_type? item typed.1
    have rest := exists_types? items typed.2
    intro other member
    rcases List.mem_cons.1 member with rfl | member
    · exact first
    · exact rest other member

end

theorem typesOf_cons {item : Expr} {type : TypeId} (typed : item.type? = some type)
    (items : List Expr) : typesOf (item :: items) = type :: typesOf items := by
  unfold typesOf
  rw [List.filterMap_cons, typed]

theorem length_typesOf {items : List Expr} (typed : areTyped scope usable items = true) :
    (typesOf items).length = items.length := by
  induction items with
  | nil => rfl
  | cons item items ih =>
    simp only [areTyped, Bool.and_eq_true] at typed
    obtain ⟨type, known⟩ := exists_type? item typed.1
    rw [typesOf_cons known, List.length_cons, List.length_cons, ih typed.2]

end

end Evaluation

end WordMachine
