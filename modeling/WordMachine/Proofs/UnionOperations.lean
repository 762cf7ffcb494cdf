import WordMachine.Proofs.Standing

/-!
Making a union of a value, and then asking for a member of it. Both representations of unions give
the same answers: the check and the access tell the member the union was made of, and an access that
succeeds finds the word of the value.
-/

namespace WordMachine.Lowering

open Session (Finds Stands)

/-! ## Members -/

section

variable {program : Program} {union : TypeId} {definition : UnionDef} {members : List TypeId}

theorem memberNumber_inj (known : program.union? union = some definition)
    (listed : definition.members = some members) (distinct : members.Nodup) {left right : TypeId}
    {number : Int32} (first : memberNumber program union left = .ok number)
    (second : memberNumber program union right = .ok number) : left = right := by
  have placed : ∀ {member : TypeId}, memberNumber program union member = .ok number →
      ∃ position, members[position]? = some member ∧ number = Int32.ofNat position := by
    intro member numbered
    simp only [memberNumber, known, UnionDef.memberIndex?, listed, Option.getD_some] at numbered
    split at numbered
    · next position found =>
      cases numbered
      obtain ⟨inside, same, _⟩ := List.findIdx?_eq_some_iff_getElem.1 found
      exact ⟨position, List.getElem?_eq_some_iff.2 ⟨inside, by simpa using same⟩, rfl⟩
    · cases numbered
  have few : members.length ≤ 2 ^ 32 := by
    have apart : (members.map UInt32.toNat).Nodup :=
      distinct.map fun _ _ same => UInt32.toNat_inj.1 same
    have bounded := Heap.length_le_of_nodup apart (by
      intro number member
      obtain ⟨type, _, rfl⟩ := List.mem_map.1 member
      exact type.toNat_lt)
    rwa [List.length_map] at bounded
  obtain ⟨position, inside, same⟩ := placed first
  obtain ⟨other, otherInside, otherSame⟩ := placed second
  have bound := (List.getElem?_eq_some_iff.1 inside).1
  have otherBound := (List.getElem?_eq_some_iff.1 otherInside).1
  have equal : position = other := by
    rw [same] at otherSame
    have bits : (UInt32.ofNat position).toNat = (UInt32.ofNat other).toNat :=
      congrArg (fun value : Int32 => value.toUInt32.toNat) otherSame
    rw [UInt32.toNat_ofNat_of_lt' (Nat.lt_of_lt_of_le bound few),
      UInt32.toNat_ofNat_of_lt' (Nat.lt_of_lt_of_le otherBound few)] at bits
    exact bits
  rw [equal, otherInside] at inside
  exact (Option.some.inj inside).symm

theorem nullable_members (known : program.union? union = some definition)
    (listed : definition.members = some members) {nullable : Nullable}
    (form : nullable? program union = some nullable) :
    (∀ member ∈ members, member = nullable.nullType ∨ member = nullable.structType) ∧
      isWideStruct program nullable.structType = true ∧
      nullable.nullType ≠ nullable.structType := by
  have apart : ∀ {empty wide : TypeId}, isEmptyStruct program empty = true →
      isWideStruct program wide = true → empty ≠ wide := by
    rintro empty wide isEmpty isWide rfl
    have none : program.fieldCount? empty = some 0 := by simpa [isEmptyStruct] using isEmpty
    simp [isWideStruct, none] at isWide
  simp only [nullable?, known, Option.bind_some, listed] at form
  split at form
  · next first second same =>
    cases same
    split at form
    · next both =>
      cases form
      rw [Bool.and_eq_true] at both
      exact ⟨by simp, both.2, apart both.1 both.2⟩
    · split at form
      · next both =>
        cases form
        rw [Bool.and_eq_true] at both
        exact ⟨by simp [or_comm], both.2, apart both.1 both.2⟩
      · cases form
  · cases form

end

/-! ## Making a union -/

/-- What is put on the stack before the value of a member when a union is made of it. -/
def memberLead (program : Program) (union member : TypeId) : List Int32 :=
  match nullable? program union, memberNumber program union member with
  | none, .ok number => [number]
  | _, _ => []

def memberLeadCode (program : Program) (union member : TypeId) : Code :=
  (memberLead program union member).flatMap fun number => emit (.loadInt number)

/-- The word in which a union keeps the value of a member. The empty member of a nullable union has
no value but is the null reference itself. -/
def memberWord (program : Program) (union member : TypeId) (word : Word) : Word :=
  match nullable? program union with
  | some nullable => if member == nullable.nullType then .null else word
  | none => word

/-- Whether code at a place leaves a word, and constants, of which something holds: every session on
the way of a given one that stands at the start of it gets to its end with one more operand. -/
def Evaluates (image : Image) (first last : Nat) (operands : List Word) (window : Window)
    (session : Session) (result : Word → List Word → Prop) : Prop :=
  ∀ count before, Session.Path count session before →
    before.Stands image first operands window →
    before.Leads fun after => ∃ word constants, result word constants ∧
      constants.length = window.constants.length ∧
      after.Stands image last (word :: operands) { window with constants }

/-- Whether a word can stand for a value of a type: a struct of two or more fields is an object. -/
def CanStand (program : Program) (type : TypeId) (word : Word) : Prop :=
  isWideStruct program type = true → word.isNull = false

inductive Made (program : Program) (union member : TypeId) (word : Word) : Word → Known → Prop
  | nullable {nullable : Nullable} : nullable? program union = some nullable →
      (memberWord program union member word).isNull = (member == nullable.nullType) →
      Made program union member word (memberWord program union member word) []
  | tagged {number : Int32} (made : Word) : nullable? program union = none →
      memberNumber program union member = .ok number →
      Made program union member word made [(made, #[.ofInt number, word])]

section

variable {context : Context} {image : Image} {func : FuncId} {decl : FuncDecl} {value : Expr}
variable {mode : UInt8} {union member target : TypeId} {definition : UnionDef}
variable {members : List TypeId} {tail : Bool} {code : Code} {position : Nat}
variable {rest : Code} {operands : List Word} {window : Window} {session : Session} {word : Word}

theorem lowered_union (declared : context.program.func? func = some decl)
    (kind : FuncKind.ofCode? decl.kind = some .makeUnion) (typed : value.type? = some member)
    (lowered : Lowered context (.call func [value] mode union) tail code) :
    ∃ valueCode rest, Lowered context value false valueCode ∧
      code = memberLeadCode context.program union member ++ valueCode ++ rest ∧
      ((∃ nullable, nullable? context.program union = some nullable ∧
          rest = if member == nullable.nullType then plain .pop ++ plain .makeNull else []) ∨
        (nullable? context.program union = none ∧
          ∃ number, memberNumber context.program union member = .ok number ∧
            rest = emit (.makeStruct 2))) := by
  obtain ⟨count, after, success⟩ := lowered
  rw [lower_makeUnion declared kind] at success
  simp only [bind_eq_ok, typeOf, typed] at success
  obtain ⟨type, _, same, success⟩ := success
  cases same
  cases form : nullable? context.program union with
  | some nullable =>
    simp only [form, bind_eq_ok, pure_eq_ok] at success
    obtain ⟨valueCode, _, lowersValue, same⟩ := success
    cases same
    exact ⟨valueCode, _, ⟨_, _, lowersValue⟩, by simp [memberLeadCode, memberLead, form],
      .inl ⟨nullable, rfl, rfl⟩⟩
  | none =>
    simp only [form, bind_eq_ok, pure_eq_ok, lift_eq_ok] at success
    obtain ⟨number, _, ⟨numbered, rfl⟩, valueCode, _, lowersValue, same⟩ := success
    cases same
    exact ⟨valueCode, _, ⟨_, _, lowersValue⟩,
      by simp [memberLeadCode, memberLead, form, numbered], .inr ⟨rfl, number, numbered, rfl⟩⟩

theorem leads_union {valueCode : Code} {result : Word → List Word → Prop}
    (small : image.assembly.code.size < 2 ^ 32)
    (known : context.program.union? union = some definition)
    (listed : definition.members = some members) (own : member ∈ members)
    (form : (∃ nullable, nullable? context.program union = some nullable ∧
          rest = if member == nullable.nullType then plain .pop ++ plain .makeNull else []) ∨
        (nullable? context.program union = none ∧
          ∃ number, memberNumber context.program union member = .ok number ∧
            rest = emit (.makeStruct 2))) (laid : Code.Laid image position
      (memberLeadCode context.program union member ++ valueCode ++ rest))
    (stands : session.Stands image position operands window) (evaluates : Evaluates image
      (position + Code.size (memberLeadCode context.program union member))
      (position + Code.size (memberLeadCode context.program union member ++ valueCode))
      ((memberLead context.program union member).map Word.ofInt ++ operands) window
      session fun word constants => CanStand context.program member word ∧ result word constants) :
    session.Leads fun after => ∃ word constants made entries,
      result word constants ∧ constants.length = window.constants.length ∧
      Made context.program union member word made entries ∧
      after.Finds image
        (position + Code.size (memberLeadCode context.program union member ++ valueCode ++ rest))
        (made :: operands) { window with constants } entries := by
  rw [Code.laid_append, Code.laid_append] at laid
  obtain ⟨⟨laidLead, _⟩, laidRest⟩ := laid
  rcases form with ⟨nullable, form, rfl⟩ | ⟨form, number, numbered, rfl⟩
  · obtain ⟨among, wide, apart⟩ := nullable_members known listed form
    have noLead : memberLead context.program union member = [] := by simp [memberLead, form]
    have noCode : memberLeadCode context.program union member = [] := by
      simp [memberLeadCode, noLead]
    rw [noLead, noCode] at evaluates
    rw [noCode] at laidRest ⊢
    refine (evaluates 0 session rfl stands).trans ?_
    rintro middle ⟨word, constants, ⟨canStand, holds⟩, length, stands⟩
    rw [Code.size_append, ← Nat.add_assoc]
    by_cases empty : member = nullable.nullType
    · subst empty
      have kept : memberWord context.program union nullable.nullType word = .null := by
        simp [memberWord, form]
      rw [beq_self_eq_true, if_pos rfl] at laidRest ⊢
      obtain ⟨dropped, nulled, _⟩ := laidRest
      refine (stands.finds.drop [] small dropped (by simp)).trans fun after finds => ?_
      refine (finds.makeNull small nulled).mono fun after finds => ?_
      refine ⟨word, constants, _, [], holds, length, .nullable form ?_, ?_⟩
      · rw [kept, Word.isNull_null, beq_self_eq_true]
      · rw [kept]
        exact finds
    · have kept : memberWord context.program union member word = word := by
        simp [memberWord, form, empty]
      have present : member = nullable.structType := (among member own).resolve_left empty
      rw [beq_false_of_ne empty, if_neg Bool.false_ne_true]
      refine .here ⟨word, constants, _, [], holds, length, .nullable form ?_, ?_⟩
      · rw [kept, beq_false_of_ne empty]
        exact canStand (present ▸ wide)
      · rw [kept]
        exact stands.finds
  · have lead : memberLead context.program union member = [number] := by
      simp [memberLead, form, numbered]
    have leadCode : memberLeadCode context.program union member = emit (.loadInt number) := by
      simp [memberLeadCode, lead]
    rw [lead, leadCode] at evaluates
    rw [leadCode] at laidLead laidRest ⊢
    obtain ⟨count, before, path, loaded | out⟩ := stands.finds.loadInt small laidLead.1
    · have reaches : session.Leads fun other => other = before :=
        ⟨count, before, path, Or.inl rfl⟩
      refine reaches.trans ?_
      intro other same
      rw [same]
      refine (evaluates count before path loaded.toStands).trans ?_
      rintro middle ⟨word, constants, ⟨_, holds⟩, length, stands⟩
      refine (stands.finds.makePair small laidRest.1).mono ?_
      rintro after ⟨made, finds⟩
      refine ⟨word, constants, made, _, holds, length, .tagged made form numbered, ?_⟩
      rw [Code.size_append, ← Nat.add_assoc]
      exact finds
    · exact ⟨count, before, path, Or.inr out⟩

/-! ## Asking for a member -/

theorem told_present {nullable : Nullable} (apart : nullable.nullType ≠ nullable.structType)
    (among : member = nullable.nullType ∨ member = nullable.structType) :
    ((Word.ofBool (member == nullable.nullType)).toInt == 0) =
      (member == nullable.structType) := by
  rcases among with rfl | rfl
  · rw [beq_self_eq_true, beq_false_of_ne apart]
    rfl
  · rw [beq_self_eq_true, beq_false_of_ne apart.symm]
    rfl

theorem told_member {program : Program} {number other : Int32}
    (known : program.union? union = some definition) (listed : definition.members = some members)
    (distinct : members.Nodup) (numbered : memberNumber program union member = .ok number)
    (otherNumbered : memberNumber program union target = .ok other) :
    ((Word.ofInt number).toInt == (Word.ofInt other).toInt) = (member == target) := by
  rw [Word.toInt_ofInt, Word.toInt_ofInt]
  by_cases equal : member = target
  · rw [equal, otherNumbered] at numbered
    rw [Except.ok.inj numbered, beq_iff_eq.2 equal, beq_self_eq_true]
  · rw [beq_false_of_ne equal]
    refine beq_false_of_ne fun same => equal ?_
    exact memberNumber_inj known listed distinct (same ▸ numbered) otherNumbered

theorem leads_check {made : Word} {entries : Known} (small : image.assembly.code.size < 2 ^ 32)
    (known : context.program.union? union = some definition)
    (listed : definition.members = some members) (distinct : members.Nodup) (own : member ∈ members)
    (asked : target ∈ members) (checks : checkMember context union target = .ok rest)
    (laid : Code.Laid image position rest)
    (union_made : Made context.program union member word made entries)
    (finds : session.Finds image position (made :: operands) window entries) :
    session.Leads fun after =>
      after.Stands image (position + Code.size rest)
        (.ofBool (member == target) :: operands) window := by
  cases union_made with
  | @nullable nullable form isNull =>
    obtain ⟨among, _, apart⟩ := nullable_members known listed form
    simp only [checkMember, form] at checks
    have same : rest = plain .isNull ++
        if target == nullable.structType then plain .notInt else [] :=
      (Except.ok.inj checks).symm
    rw [same] at laid ⊢
    obtain ⟨nulls, negates⟩ := laid
    refine (finds.isNull [] small nulls (by simp)).trans fun after finds => ?_
    rw [isNull] at finds
    rcases among target asked with rfl | rfl
    · rw [beq_false_of_ne apart, if_neg Bool.false_ne_true]
      exact .here finds.toStands
    · rw [beq_self_eq_true, if_pos rfl] at negates ⊢
      refine (finds.notInt [] small negates.1 (by simp)).mono fun after finds => ?_
      rw [told_present apart (among member own)] at finds
      exact finds.toStands
  | @tagged number made form numbered =>
    simp only [checkMember, form] at checks
    obtain ⟨other, otherNumbered, same⟩ := except_bind_eq_ok.1 checks
    have whole : rest = emit (.loadField 0) ++ emit (.loadInt other) ++ plain .eqInt :=
      (Except.ok.inj same).symm
    rw [whole] at laid ⊢
    obtain ⟨selects, loads, compares, _⟩ := laid
    refine (finds.loadField [] small selects List.mem_cons_self rfl (by simp)).trans
      fun after finds => ?_
    refine (finds.loadInt small loads).trans fun after finds => ?_
    refine (finds.eqInt [] small compares (by simp)).mono fun after finds => ?_
    change after.Finds image _
      (.ofBool ((Word.ofInt number).toInt == (Word.ofInt other).toInt) :: operands) window []
      at finds
    rw [told_member known listed distinct numbered otherNumbered] at finds
    exact finds.toStands

/-- What an access to a union that was made of a word does to the constants. -/
structure Accessed (program : Program) (union member target : TypeId) (word : Word) (place : Nat)
    (before after : List Word) : Prop where
  length : after.length = before.length
  others : ∀ index, index ≠ place → after[index]? = before[index]?
  found : member = target → after[place]? = some (memberWord program union member word)
  kept : member ≠ target → nullable? program union = none → after[place]? = before[place]?

theorem accessed_set {program : Program} {kept : Word} {place : Nat} {before : List Word}
    (inside : place < before.length)
    (found : member = target → kept = memberWord program union member word)
    (form : member ≠ target → nullable? program union ≠ none) :
    Accessed program union member target word place before (before.set place kept) where
  length := List.length_set
  others := fun index other => List.getElem?_set_ne other.symm
  found := fun same => by rw [List.getElem?_set_self inside, found same]
  kept := fun other none => absurd none (form other)

theorem leads_access {made : Word} {entries : Known} {slot : UInt8} {first last : Nat}
    (small : image.assembly.code.size < 2 ^ 32)
    (known : context.program.union? union = some definition)
    (listed : definition.members = some members) (distinct : members.Nodup) (own : member ∈ members)
    (asked : target ∈ members) (reserved : window.base + slot.toNat < window.constants.length)
    (accesses : getMember context union target slot first = .ok (rest, last))
    (laid : Code.Laid image position rest)
    (union_made : Made context.program union member word made entries)
    (finds : session.Finds image position (made :: operands) window entries) :
    session.Leads fun after => ∃ constants,
      Accessed context.program union member target word (window.base + slot.toNat) window.constants
        constants ∧
      after.Stands image (position + Code.size rest)
        (.ofBool (member == target) :: operands) { window with constants } := by
  cases union_made with
  | @nullable nullable form isNull =>
    obtain ⟨among, _, apart⟩ := nullable_members known listed form
    obtain ⟨_, rfl⟩ := getMember_nullable form accesses
    obtain ⟨doubles, stores, nulls, negates⟩ := laid
    have accessed : Accessed context.program union member target word
        (window.base + slot.toNat) window.constants
        (window.constants.set (window.base + slot.toNat)
          (memberWord context.program union member word)) :=
      accessed_set reserved (fun _ => rfl) fun _ none => by simp [form] at none
    refine (finds.dup small doubles).trans fun after finds => ?_
    refine (finds.storeConst [] small stores reserved (by simp)).trans fun after finds => ?_
    refine (finds.isNull [] small nulls (by simp)).trans fun after finds => ?_
    rw [isNull] at finds
    rcases among target asked with rfl | rfl
    · rw [beq_false_of_ne apart, if_neg Bool.false_ne_true]
      exact .here ⟨_, accessed, finds.toStands⟩
    · rw [beq_self_eq_true, if_pos rfl] at negates ⊢
      refine (finds.notInt [] small negates.1 (by simp)).mono fun after finds => ?_
      rw [told_present apart (among member own)] at finds
      exact ⟨_, accessed, finds.toStands⟩
  | @tagged number made form numbered =>
    obtain ⟨same, done, other, _, _, _, otherNumbered, split⟩ := getMember_tagged form accesses
    have total : Code.size rest = 34 := by
      rw [split]
      simp [Code.size, plain, emit, bind, Fragment.Command.size, Fragment.Command.bytes,
        Instruction.bytes, Bytes.le32]
    rw [split] at laid
    rw [total]
    obtain ⟨doubles, selects, loads, compares, branches, drops, denies, leaves, sameBound, takes,
      stores, affirms, doneBound, _⟩ := laid
    have sameNear : image.address same < 2 ^ 32 := by
      rw [sameBound]
      exact Nat.lt_of_le_of_lt (Nat.le_trans (Nat.le_add_right _ _) takes.inside) small
    have doneNear : image.address done < 2 ^ 32 := by
      rw [doneBound]
      exact Nat.lt_of_le_of_lt affirms.inside small
    refine (finds.dup small doubles).trans fun after finds => ?_
    refine (finds.loadField [(made, #[.ofInt number, word])] small selects List.mem_cons_self
      rfl (by simp)).trans fun after finds => ?_
    refine (finds.loadInt small loads).trans fun after finds => ?_
    refine (finds.eqInt [(made, #[.ofInt number, word])] small compares (by simp)).trans
      fun after finds => ?_
    change after.Finds image _
      (.ofBool ((Word.ofInt number).toInt == (Word.ofInt other).toInt) :: made :: operands) window
      [(made, #[.ofInt number, word])] at finds
    rw [told_member known listed distinct numbered otherNumbered] at finds
    refine (finds.jumpIf [(made, #[.ofInt number, word])] small branches sameNear
      (by simp)).trans fun after finds => ?_
    by_cases equal : member = target
    · rw [beq_iff_eq.2 equal, if_pos rfl, sameBound] at finds
      refine (finds.loadField [] small takes List.mem_cons_self rfl (by simp)).trans
        fun after finds => ?_
      refine (finds.storeConst [] small stores reserved (by simp)).trans
        fun after finds => ?_
      refine (finds.loadInt small affirms).mono fun after finds => ?_
      rw [beq_iff_eq.2 equal]
      refine ⟨_, accessed_set reserved (fun _ => ?_) fun other => absurd equal other,
        finds.toStands⟩
      simp [memberWord, form]
    · rw [beq_false_of_ne equal, if_neg Bool.false_ne_true] at finds
      refine (finds.drop [] small drops (by simp)).trans fun after finds => ?_
      refine (finds.loadInt small denies).trans fun after finds => ?_
      refine (finds.jumpTo small leaves doneNear).mono fun after finds => ?_
      rw [doneBound] at finds
      rw [beq_false_of_ne equal]
      exact ⟨window.constants, ⟨rfl, fun _ _ => rfl, fun same => absurd same equal,
        fun _ _ => rfl⟩, finds.toStands⟩

/-! ## Results -/

/-- The code that makes a union of a value and then asks for a member. Where the code of the value
leaves a word and constants, all of it leaves an answer, and constants that may have changed. -/
def Asks (context : Context) (image : Image) (value : Expr) (union member : TypeId) (code : Code)
    (position : Nat) (answer : Bool) (allowed : Window → Prop)
    (changed : Window → Word → List Word → List Word → Prop) : Prop :=
  ∃ valueCode rest, Lowered context value false valueCode ∧
    code = memberLeadCode context.program union member ++ valueCode ++ rest ∧
    ∀ (operands : List Word) (window : Window) (session : Session)
      (result : Word → List Word → Prop), session.Stands image position operands window →
      allowed window →
      Evaluates image (position + Code.size (memberLeadCode context.program union member))
        (position + Code.size (memberLeadCode context.program union member ++ valueCode))
        ((memberLead context.program union member).map Word.ofInt ++ operands) window session
        (fun word constants => CanStand context.program member word ∧ result word constants) →
      session.Leads fun after => ∃ word constants final, result word constants ∧
        changed window word constants final ∧
        after.Stands image (position + Code.size code) (.ofBool answer :: operands)
          { window with constants := final }

/-- A union made of a value answers a check for a member with whether it was made of that member,
and so does an access, which then has the word of the value in its constant and else, if members are
told apart by numbers, leaves the constant alone. No other constant changes. -/
theorem union_operations_agree {slot : SlotId} (small : image.assembly.code.size < 2 ^ 32)
    (declared : context.program.func? func = some decl)
    (kind : FuncKind.ofCode? decl.kind = some .makeUnion)
    (known : context.program.union? union = some definition)
    (listed : definition.members = some members) (distinct : members.Nodup)
    (typed : value.type? = some member) (own : member ∈ members) (asked : target ∈ members)
    (laid : Code.Laid image position code) :
    (Lowered context (.unionCheck (.call func [value] mode union) target) tail code →
      Asks context image value union member code position (member == target) (fun _ => True)
        fun _ _ constants final => final = constants) ∧
    (Lowered context (.unionGet (.call func [value] mode union) target slot) tail code →
      Asks context image value union member code position (member == target)
        (fun window => window.base + slot.toNat < window.constants.length)
        fun window word constants final =>
          Accessed context.program union member target word (window.base + slot.toNat) constants
            final) := by
  constructor
  · intro lowered
    obtain ⟨unionCode, type, rest, lowersUnion, typedUnion, checks, same⟩ :=
      lowered_unionCheck lowered
    cases typedUnion
    obtain ⟨valueCode, making, lowersValue, split, form⟩ :=
      lowered_union declared kind typed lowersUnion
    refine ⟨valueCode, making ++ rest, lowersValue, by rw [same, split, List.append_assoc], ?_⟩
    intro operands window session result stands _ evaluates
    rw [same, Code.laid_append] at laid
    obtain ⟨laidUnion, laidRest⟩ := laid
    rw [split] at laidUnion laidRest
    refine (leads_union small known listed own form laidUnion stands evaluates).trans ?_
    rintro after ⟨word, constants, made, entries, holds, length, union_made, finds⟩
    refine (leads_check small known listed distinct own asked checks laidRest union_made
      finds).mono fun final stands => ⟨word, constants, constants, holds, rfl, ?_⟩
    rw [same, split, Code.size_append, ← Nat.add_assoc]
    exact stands
  · intro lowered
    obtain ⟨unionCode, type, byte, rest, lowersUnion, typedUnion, fits, ⟨first, last, accesses⟩,
      same⟩ := lowered_unionGet lowered
    cases typedUnion
    obtain ⟨valueCode, making, lowersValue, split, form⟩ :=
      lowered_union declared kind typed lowersUnion
    refine ⟨valueCode, making ++ rest, lowersValue, by rw [same, split, List.append_assoc], ?_⟩
    intro operands window session result stands reserved evaluates
    rw [same, Code.laid_append] at laid
    obtain ⟨laidUnion, laidRest⟩ := laid
    rw [split] at laidUnion laidRest
    have number : slot.toNat = byte.toNat := by
      unfold slotByte at fits
      split at fits
      · next bound =>
        cases fits
        exact (Nat.mod_eq_of_lt bound).symm
      · cases fits
    rw [number] at reserved ⊢
    refine (leads_union small known listed own form laidUnion stands evaluates).trans ?_
    rintro after ⟨word, constants, made, entries, holds, length, union_made, finds⟩
    refine (leads_access small known listed distinct own asked ?_ accesses laidRest union_made
      finds).mono ?_
    · rw [length]
      exact reserved
    · rintro final ⟨changed, accessed, stands⟩
      refine ⟨word, constants, changed, holds, accessed, ?_⟩
      rw [same, split, Code.size_append, ← Nat.add_assoc]
      exact stands

end

/-! ## A nullable union -/

/-- Pairs, an empty struct, and the union of both. -/
def maybePair : Context where
  program :=
    { structs := [{ id := 7, fields := some [{}, {}] }, { id := 8, fields := some [] }]
      unions := [{ id := 9, members := some [7, 8] }]
      funcs := #[{ kind := 89 }] }
  scope := ByteArray.empty
  slots := []
  func := none

/-- Asks the union of an empty struct for a member. -/
def askMaybe (target : TypeId) : Expr :=
  .unionGet (.call 0 [.slot 1 8] 0 9) target 0

def maybeCode (target : TypeId) : Code :=
  emit (.loadConst 1) ++ plain .pop ++ plain .makeNull ++ plain .dup ++ emit (.storeConst 0) ++
    plain .isNull ++ if target == 7 then plain .notInt else []

def maybeImage (target : TypeId) : Image where
  assembly :=
    { code := ⟨#[Opcode.loadConst.code, 1, Opcode.pop.code, Opcode.makeNull.code, Opcode.dup.code,
        Opcode.storeConst.code, 0, Opcode.isNull.code] ++
          if target == 7 then #[Opcode.notInt.code] else #[]⟩
      literals := #[]
      entries := #[0] }
  address := fun _ => 0
  Bound := fun _ => True

/-- Five in the first constant and an empty struct in the second. -/
def maybeStart (target : TypeId) : Session :=
  let machine := Machine.new (maybeImage target).assembly { evalStack := 2 } default .off
  { executor :=
      { Executor.start machine.shared.settings 0 with
        consts := { capacity := 2, slots := #[.ofInt 5, .ofInt 0] } }
    shared := machine.shared }

theorem lowered_askMaybe (target : TypeId) :
    Lowered maybePair (askMaybe target) false (maybeCode target) :=
  ⟨0, 0, rfl⟩

theorem laid_maybeCode :
    Code.Laid (maybeImage 7) 0 (maybeCode 7) ∧
    Code.Laid (maybeImage 8) 0 (maybeCode 8) := by
  have at_plain : ∀ {image : Image} {position : Nat} {op : Opcode},
      Exec.fetch? image.assembly.code position = some (op, 1) → op.size = 1 →
      (Instruction.plain op).At image position := by
    intro image position op fetched size
    exact ⟨by rw [fetched]; change some (op, 1) = some (op, op.size); rw [size], size, nofun⟩
  refine ⟨⟨⟨rfl, rfl, nofun⟩, at_plain rfl rfl, at_plain rfl rfl, at_plain rfl rfl,
    ⟨rfl, rfl, nofun⟩, at_plain rfl rfl, at_plain rfl rfl, trivial⟩,
    ⟨rfl, rfl, nofun⟩, at_plain rfl rfl, at_plain rfl rfl, at_plain rfl rfl,
    ⟨rfl, rfl, nofun⟩, at_plain rfl rfl, trivial⟩

theorem stands_maybeStart (target : TypeId) :
    (maybeStart target).Stands (maybeImage target) 0 [] ⟨0, [.ofInt 5, .ofInt 0], #[]⟩ where
  assembly := rfl
  calm := ⟨rfl, rfl, rfl, rfl⟩
  wait := rfl
  sound := Heap.Sound.new _ _
  room := show 0 + 1 < 2 ^ 32 by decide
  ip := rfl
  stacked := rfl
  base := rfl
  constants := rfl
  frames := rfl

/-- What asking for a member comes to when the empty struct is read from its constant. -/
theorem Asks.maybe {target : TypeId} {answer : Bool} {allowed : Window → Prop}
    {changed : Window → Word → List Word → List Word → Prop}
    (asks : Asks maybePair (maybeImage target) (.slot 1 8) 9 8 (maybeCode target) 0 answer allowed
      changed) (small : (maybeImage target).assembly.code.size < 2 ^ 32)
    (laid : Code.Laid (maybeImage target) 0 (maybeCode target))
    (allows : allowed ⟨0, [.ofInt 5, .ofInt 0], #[]⟩) :
    (maybeStart target).Leads fun after => ∃ final,
      changed ⟨0, [.ofInt 5, .ofInt 0], #[]⟩ (.ofInt 0) [.ofInt 5, .ofInt 0] final ∧
        after.Stands (maybeImage target) (0 + Code.size (maybeCode target)) [.ofBool answer]
          ⟨0, final, #[]⟩ := by
  obtain ⟨valueCode, rest, lowers, _, leads⟩ := asks
  obtain ⟨byte, fits, rfl⟩ := lowered_slot lowers
  cases fits
  have reads : Evaluates (maybeImage target) 0 2 [] ⟨0, [.ofInt 5, .ofInt 0], #[]⟩
      (maybeStart target) fun word constants => CanStand maybePair.program 8 word ∧
        word = .ofInt 0 ∧ constants = [.ofInt 5, .ofInt 0] := by
    intro count before _ stands
    refine (stands.finds.loadConst small laid.1 (show _ = some (.ofInt 0) from rfl)).mono ?_
    intro after finds
    exact ⟨_, _, ⟨nofun, rfl, rfl⟩, rfl, finds.toStands⟩
  refine (leads [] _ _ _ (stands_maybeStart target) allows reads).mono ?_
  rintro after ⟨_, _, final, ⟨rfl, rfl⟩, changes, stands⟩
  exact ⟨final, changes, stands⟩

/-- An access that succeeds with the empty member finds the null reference. -/
theorem union_operations_agree_maybe :
    (maybeStart 8).Leads fun after => ∃ final,
      final[0]? = some .null ∧ final[1]? = some (.ofInt 0) ∧
        after.Stands (maybeImage 8) 8 [.ofBool true] ⟨0, final, #[]⟩ := by
  have asks : Asks maybePair (maybeImage 8) (.slot 1 8) 9 8 (maybeCode 8) 0 true _ _ :=
    (union_operations_agree (by decide) rfl rfl rfl rfl (by decide) rfl (by decide) (by decide)
      laid_maybeCode.2).2 (lowered_askMaybe 8)
  refine (asks.maybe (by decide) laid_maybeCode.2 (show 0 < 2 by decide)).mono ?_
  rintro after ⟨final, accessed, stands⟩
  exact ⟨final, accessed.found rfl, accessed.others 1 (by decide), stands⟩

/-- As an empty struct is kept as the null reference, and as an access stores before it tests, it
is not so that an access leaves the word of the value in its constant if it succeeds and the
constant alone if it fails. -/
theorem access_overwrites_maybe :
    (¬Asks maybePair (maybeImage 7) (.slot 1 8) 9 8 (maybeCode 7) 0 false
        (fun window => window.base < window.constants.length)
        fun _ _ constants final => final = constants) ∧
      ¬Asks maybePair (maybeImage 8) (.slot 1 8) 9 8 (maybeCode 8) 0 true
        (fun window => window.base < window.constants.length)
        fun window word constants final => final = constants.set window.base word := by
  constructor
  · intro asks
    have ends : (Session.next^[8] (maybeStart 7)).executor.state ≠ .running := by decide
    have lasts : ∀ count ≤ 8, ¬(Session.next^[count] (maybeStart 7)).RunsOut := by
      unfold Session.RunsOut
      decide
    have misses : ∀ count ≤ 8,
        ¬((Session.next^[count] (maybeStart 7)).executor.ip.toNat = 9 ∧
          (Session.next^[count] (maybeStart 7)).executor.consts.slots.toList =
            [.ofInt 5, .ofInt 0]) := by decide
    have leads := asks.maybe (by decide) laid_maybeCode.1 (show 0 < 2 by decide)
    refine Session.not_leads 8 ends (fun count few => ⟨?_, lasts count few⟩) leads
    rintro ⟨final, rfl, stands⟩
    exact misses count few ⟨stands.ip, stands.constants⟩
  · intro asks
    have ends : (Session.next^[8] (maybeStart 8)).executor.state ≠ .running := by decide
    have lasts : ∀ count ≤ 8, ¬(Session.next^[count] (maybeStart 8)).RunsOut := by
      unfold Session.RunsOut
      decide
    have misses : ∀ count ≤ 8,
        ¬((Session.next^[count] (maybeStart 8)).executor.ip.toNat = 8 ∧
          (Session.next^[count] (maybeStart 8)).executor.consts.slots.toList =
            [.ofInt 0, .ofInt 0]) := by decide
    have leads := asks.maybe (by decide) laid_maybeCode.2 (show 0 < 2 by decide)
    refine Session.not_leads 8 ends (fun count few => ⟨?_, lasts count few⟩) leads
    rintro ⟨final, rfl, stands⟩
    exact misses count few ⟨stands.ip, stands.constants⟩

end WordMachine.Lowering
