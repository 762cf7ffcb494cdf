import WordMachine.Proofs.LoweringFailures

/-!
Which references to a field of a struct or to a member of a union have code. The number of a field
is looked at only where the struct is an object, and a member only where the union keeps member
numbers: a struct with one field is that field whatever number is asked for, and a union with an
empty member takes every type for one of its members.
-/

namespace WordMachine.Lowering

/-- The members of a union; a union without a definition has none. -/
def unionMembers (program : Program) (union : TypeId) : List TypeId :=
  ((program.union? union).bind UnionDef.members).getD []

/-- Whether a field of a struct with so many fields is accepted. -/
def AcceptsField (count : Nat) (position : Int) : Prop :=
  (0 ≤ position ∧ position < count) ∨ count = 1

def AcceptsMember (program : Program) (union member : TypeId) : Prop :=
  member ∈ unionMembers program union ∨ (nullable? program union).isSome = true

def fieldCause (program : Program) (type : TypeId) (position : Int) : Cause :=
  if program.fieldCount? type = some 0 then .fieldOfEmpty (program.typeName type)
  else .fieldOutOfRange position (program.typeName type)

def memberCause (program : Program) (union member : TypeId) : Cause :=
  if (program.union? union).isSome then
    .notMember (program.typeName member) (program.typeName union)
  else .notUnion (program.typeName union)

/-! ## Decisions -/

/-- There is a result where the reference is accepted, and elsewhere the cause is reported. -/
inductive Decides {α : Type} (accepted : Prop) (cause : Cause) : Except Cause α → Prop
  | accept {value : α} (holds : accepted) : Decides accepted cause (.ok value)
  | reject (fails : ¬accepted) (reported : cause.isInconsistent = false) :
      Decides accepted cause (.error cause)

section

variable {α β : Type} {accepted : Prop} {cause : Cause}
variable {result : Except Cause α}

theorem Decides.of_accepted {value : α} (success : result = .ok value) (holds : accepted) :
    Decides accepted cause result := by
  rw [success]
  exact .accept holds

theorem Decides.iff {other : Prop} (decides : Decides accepted cause result)
    (same : accepted ↔ other) : Decides other cause result := by
  rwa [propext same] at decides

/-- A step that succeeds leaves the decision to the steps after it. -/
theorem Decides.after {work : Lower α} {next : α → Lower β} {count between : Nat} {value : α}
    (done : work count = .ok (value, between))
    (rest : Decides accepted cause (next value between)) :
    Decides accepted cause ((work >>= next) count) := by
  change Decides accepted cause (work count >>= fun pair => next pair.1 pair.2)
  rw [done]
  exact rest

theorem Decides.lift (decides : Decides accepted cause result) (count : Nat) :
    Decides accepted cause ((liftM result : Lower α) count) := by
  cases decides with
  | accept holds => exact .accept holds
  | reject fails reported => exact .reject fails reported

/-- Steps after the decision that cannot fail leave it as it is. -/
theorem Decides.before {work : Lower α} {next : α → Lower β} {count : Nat}
    (decides : Decides accepted cause (work count))
    (rest : ∀ value between, ∃ outcome, next value between = .ok outcome) :
    Decides accepted cause ((work >>= next) count) := by
  change Decides accepted cause (work count >>= fun pair => next pair.1 pair.2)
  cases done : work count with
  | ok pair =>
    rw [done] at decides
    cases decides with
    | accept holds =>
      obtain ⟨outcome, success⟩ := rest pair.1 pair.2
      exact .of_accepted success holds
  | error reported =>
    rw [done] at decides
    cases decides with
    | reject fails reported => exact .reject fails reported

end

/-! ## Fields -/

theorem decides_selectField {context : Context} {type : TypeId} {count : Nat} {position : Int}
    (isStruct : context.program.kind? type = some .struct)
    (defined : context.program.fieldCount? type = some count) (fits : position ≤ 255) :
    Decides (AcceptsField count position) (fieldCause context.program type position)
      (selectField context type position) := by
  have known : (context.program.kind? type != some .struct) = false := by simp [isStruct]
  match count, defined with
  | 0, defined =>
    have result : selectField context type position =
        .error (.fieldOfEmpty (context.program.typeName type)) := by
      simp only [selectField, known, defined]
      rfl
    have refused : ¬AcceptsField 0 position := by
      unfold AcceptsField
      omega
    rw [result, fieldCause, if_pos defined]
    exact .reject refused rfl
  | 1, defined =>
    have result : selectField context type position = .ok [] := by
      simp only [selectField, known, defined]
      rfl
    exact .of_accepted result (.inr rfl)
  | count + 2, defined =>
    have result : selectField context type position =
        if position < 0 ∨ ((count + 2 : Nat) : Int) ≤ position then
          .error (.fieldOutOfRange position (context.program.typeName type))
        else (fieldByte position).map fun byte => emit (.loadField byte) := by
      simp only [selectField, known, Bool.false_eq_true, if_false, defined]
      split <;> rfl
    by_cases outside : position < 0 ∨ ((count + 2 : Nat) : Int) ≤ position
    · have refused : ¬AcceptsField (count + 2) position := by
        unfold AcceptsField
        omega
      have several : ¬context.program.fieldCount? type = some 0 := by simp [defined]
      rw [result, if_pos outside, fieldCause, if_neg several]
      exact .reject refused rfl
    · have byte : fieldByte position = .ok position.toNat.toUInt8 := by
        apply if_pos
        omega
      have inside : AcceptsField (count + 2) position := by
        unfold AcceptsField
        omega
      rw [if_neg outside, byte] at result
      exact .of_accepted result inside

/-! ## Members -/

theorem decides_memberNumber (program : Program) (union member : TypeId) :
    Decides (member ∈ unionMembers program union) (memberCause program union member)
      (memberNumber program union member) := by
  cases defined : program.union? union with
  | none =>
    have refused : member ∉ unionMembers program union := by simp [unionMembers, defined]
    simp only [memberNumber, memberCause, defined]
    exact .reject refused rfl
  | some definition =>
    have members : unionMembers program union = definition.members.getD [] := by
      simp [unionMembers, defined]
    simp only [memberNumber, memberCause, defined, UnionDef.memberIndex?, members]
    cases found : (definition.members.getD []).findIdx? (· == member) with
    | none =>
      have refused : member ∉ definition.members.getD [] := by
        intro among
        have differs := List.findIdx?_eq_none_iff.1 found member among
        simp at differs
      exact .reject refused rfl
    | some position =>
      obtain ⟨bound, same, _⟩ := List.findIdx?_eq_some_iff_getElem.1 found
      have among : member ∈ definition.members.getD [] := by
        rw [← eq_of_beq same]
        exact List.getElem_mem bound
      exact .accept among

theorem acceptsMember_of_tagged {program : Program} {union member : TypeId}
    (tagged : nullable? program union = none) :
    member ∈ unionMembers program union ↔ AcceptsMember program union member := by
  simp [AcceptsMember, tagged]

theorem acceptsMember_of_nullable {program : Program} {union : TypeId} {nullable : Nullable}
    (form : nullable? program union = some nullable) (member : TypeId) :
    AcceptsMember program union member :=
  .inr (by simp [form])

theorem decides_checkMember (context : Context) (union target : TypeId) :
    Decides (AcceptsMember context.program union target) (memberCause context.program union target)
      (checkMember context union target) := by
  cases form : nullable? context.program union with
  | some nullable =>
    simp only [checkMember, form]
    exact .accept (acceptsMember_of_nullable form target)
  | none =>
    have decides := (decides_memberNumber context.program union target).iff
      (acceptsMember_of_tagged form)
    simp only [checkMember, form]
    generalize memberNumber context.program union target = number at decides ⊢
    cases decides with
    | accept holds => exact .accept holds
    | reject fails reported => exact .reject fails reported

theorem decides_getMember (context : Context) (union target : TypeId) (slot : UInt8) (count : Nat) :
    Decides (AcceptsMember context.program union target) (memberCause context.program union target)
      (getMember context union target slot count) := by
  cases form : nullable? context.program union with
  | some nullable =>
    simp only [getMember, form]
    exact .accept (acceptsMember_of_nullable form target)
  | none =>
    simp only [getMember, form]
    apply Decides.after rfl
    apply Decides.after rfl
    have decides := (decides_memberNumber context.program union target).iff
      (acceptsMember_of_tagged form)
    exact (decides.lift _).before fun number between => ⟨_, rfl⟩

/-! ## Expressions -/

section

variable {context : Context} {operand : Expr} {type : TypeId} {code : Code} {first last : Nat}

theorem typeOf_known (known : operand.type? = some type) : typeOf operand = .ok type :=
  typeOf_eq_ok.2 known

theorem decides_field {count : Nat} {position : Int64} (known : operand.type? = some type)
    (lowered : lower context operand false first = .ok (code, last))
    (isStruct : context.program.kind? type = some .struct)
    (defined : context.program.fieldCount? type = some count) (fits : position.toInt ≤ 255)
    (result : TypeId) (tail : Bool) :
    Decides (AcceptsField count position.toInt) (fieldCause context.program type position.toInt)
      (lower context (.field operand position result) tail first) := by
  rw [lower, typeOf_known known]
  apply Decides.after lowered
  apply Decides.after rfl
  exact ((decides_selectField isStruct defined fits).lift last).before fun selected between =>
    ⟨_, rfl⟩

theorem decides_unionCheck (known : operand.type? = some type)
    (lowered : lower context operand false first = .ok (code, last)) (target : TypeId)
    (tail : Bool) :
    Decides (AcceptsMember context.program type target) (memberCause context.program type target)
      (lower context (.unionCheck operand target) tail first) := by
  rw [lower, typeOf_known known]
  apply Decides.after lowered
  apply Decides.after rfl
  exact ((decides_checkMember context type target).lift last).before fun checked between =>
    ⟨_, rfl⟩

theorem decides_unionGet {slot : SlotId} (known : operand.type? = some type)
    (lowered : lower context operand false first = .ok (code, last)) (fits : slot.toNat < 256)
    (target : TypeId) (tail : Bool) :
    Decides (AcceptsMember context.program type target) (memberCause context.program type target)
      (lower context (.unionGet operand target slot) tail first) := by
  have byte : slotByte slot = .ok slot.toUInt8 := if_pos fits
  rw [lower, typeOf_known known, byte]
  apply Decides.after lowered
  apply Decides.after rfl
  apply Decides.after rfl
  exact (decides_getMember context type target slot.toUInt8 last).before fun gotten between =>
    ⟨_, rfl⟩

theorem decides_makeUnion {func : FuncId} {decl : FuncDecl} (known : operand.type? = some type)
    (lowered : lower context operand false first = .ok (code, last))
    (declared : context.program.func? func = some decl)
    (makes : FuncKind.ofCode? decl.kind = some .makeUnion) (mode : UInt8) (union : TypeId)
    (tail : Bool) :
    Decides (AcceptsMember context.program union type) (memberCause context.program union type)
      (lower context (.call func [operand] mode union) tail first) := by
  rw [lower_makeUnion declared makes]
  simp only [typeOf_known known]
  apply Decides.after rfl
  cases form : nullable? context.program union with
  | some nullable =>
    apply Decides.after lowered
    exact .accept (acceptsMember_of_nullable form type)
  | none =>
    have decides := (decides_memberNumber context.program union type).iff
      (acceptsMember_of_tagged form)
    generalize memberNumber context.program union type = number at decides ⊢
    cases decides with
    | accept holds =>
      apply Decides.after rfl
      apply Decides.after lowered
      exact .accept holds
    | reject fails reported => exact .reject fails reported

/-- Where an operand has code, an access to one of its fields, a question for a member, an access to
a member and a union that is made of it have code just if the reference is accepted. -/
theorem references_decided (known : operand.type? = some type)
    (lowered : lower context operand false first = .ok (code, last)) (tail : Bool) :
    (∀ (count : Nat) (position : Int64) (result : TypeId),
      context.program.kind? type = some .struct →
      context.program.fieldCount? type = some count → position.toInt ≤ 255 →
        Decides (AcceptsField count position.toInt)
          (fieldCause context.program type position.toInt)
          (lower context (.field operand position result) tail first)) ∧
    (∀ target : TypeId,
      Decides (AcceptsMember context.program type target)
        (memberCause context.program type target)
        (lower context (.unionCheck operand target) tail first)) ∧
    (∀ (target : TypeId) (slot : SlotId), slot.toNat < 256 →
      Decides (AcceptsMember context.program type target)
        (memberCause context.program type target)
        (lower context (.unionGet operand target slot) tail first)) ∧
    (∀ (func : FuncId) (decl : FuncDecl) (mode : UInt8) (union : TypeId),
      context.program.func? func = some decl → FuncKind.ofCode? decl.kind = some .makeUnion →
        Decides (AcceptsMember context.program union type)
          (memberCause context.program union type)
          (lower context (.call func [operand] mode union) tail first)) := by
  refine ⟨?_, ?_, ?_, ?_⟩
  · intro count position result isStruct defined fits
    exact decides_field known lowered isStruct defined fits result tail
  · intro target
    exact decides_unionCheck known lowered target tail
  · intro target slot fits
    exact decides_unionGet known lowered fits target tail
  · intro func decl mode union declared makes
    exact decides_makeUnion known lowered declared makes mode union tail

end

/-! ## A box and a nullable union -/

/-- A struct with one field (type 7), pairs (type 8), an empty struct (type 9) and the union of the
last two (type 10), with a function that makes that union. -/
def boxesAndPairs : Context where
  program :=
    ((((Program.empty.declare "Box" (.struct (some [{}]))).declare "Pair"
      (.struct (some [{}, {}]))).declare "None" (.struct (some []))).declare "Maybe"
      (.union (some [8, 9]))).declareFunc "Maybe" 89 (some [8]) 10
  scope := ByteArray.empty
  slots := []
  func := none

theorem references_decided_collapsed :
    Decides (AcceptsField 1 5) (fieldCause boxesAndPairs.program 7 5)
        (lower boxesAndPairs (.field (.slot 0 7) 5 0) false 0) ∧
      Decides (AcceptsMember boxesAndPairs.program 10 0) (memberCause boxesAndPairs.program 10 0)
        (lower boxesAndPairs (.unionGet (.slot 0 10) 0 1) false 0) := by
  have box : lower boxesAndPairs (.slot 0 7) false 0 = .ok (emit (.loadConst 0), 0) := rfl
  have maybe : lower boxesAndPairs (.slot 0 10) false 0 = .ok (emit (.loadConst 0), 0) := rfl
  constructor
  · exact (references_decided rfl box false).1 1 5 0 rfl rfl (by decide)
  · exact (references_decided rfl maybe false).2.2.1 0 1 (by decide)

/-- The number of a field is not looked at in a struct with one field, nor a type in a nullable
union. -/
theorem collapsed_references_unchecked :
    (¬∀ (context : Context) (operand : Expr) (type : TypeId) (code : Code) (count : Nat)
        (position : Int64), operand.type? = some type →
      lower context operand false 0 = .ok (code, 0) →
      context.program.kind? type = some .struct →
      context.program.fieldCount? type = some count → position.toInt ≤ 255 →
        ((lower context (.field operand position 0) false 0).isOk = true ↔
          0 ≤ position.toInt ∧ position.toInt < count)) ∧
    ¬∀ (context : Context) (operand : Expr) (type target : TypeId) (code : Code),
      operand.type? = some type → lower context operand false 0 = .ok (code, 0) →
        ((lower context (.unionCheck operand target) false 0).isOk = true ↔
          target ∈ unionMembers context.program type) := by
  constructor
  · intro checked
    have same := checked boxesAndPairs (.slot 0 7) 7 _ 1 5 rfl rfl rfl rfl (by decide)
    exact absurd (same.1 rfl) (by decide)
  · intro checked
    have same := checked boxesAndPairs (.slot 0 10) 10 0 _ rfl rfl
    exact absurd (same.1 rfl) (by decide)

end WordMachine.Lowering
