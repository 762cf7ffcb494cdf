import WordMachine.Proofs.BuiltInCalls
import WordMachine.Proofs.CallMoves
import WordMachine.Proofs.GeneratedEquality

/-!
What calls of equality functions do among everything else a program does: collections may come in
between, and the caller finds its configuration as it was, with the answer in place of the operands.
What is known of a value and its word from the shape of its type comes first: the fields of a
struct, the member of a union, and where their words are.
-/

namespace WordMachine.Evaluation

open Lowering (Code ComparesFields EqualityBody Nullable SelectsMember answer bind callTo
  compareMembers compareValues comparesFields_cons comparesFields_nil emit equalityLabel fieldByte
  loadBoth memberNumber nullable? plain selectsMember_cons selectsMember_nil)
open Equality (body_of_nullable body_of_struct body_of_tagged laid_compareMembers length_le_size
  ofNat_inj toNat_of_fieldByte)

section

variable {compilation : Compilation} {lazies : Lazies} {heap : Heap} {type : TypeId}
variable {value : Value} {word : Word}
variable {types : List TypeId}

theorem Represents.hasShape {shape : TypeShape}
    (represents : Represents compilation lazies heap type value word)
    (known : shape? compilation.program type = some shape) : HasShape value shape := by
  obtain ⟨other, same, has⟩ := represents.shape
  rw [known] at same
  cases same
  exact has

/-! ## Structs -/

theorem Represents.exists_fields (represents : Represents compilation lazies heap type value word)
    (shape : shape? compilation.program type = some (.struct types)) :
    ∃ fields, value = .struct fields ∧ fields.length = types.length := by
  have has := represents.hasShape shape
  cases value <;> simp [HasShape] at has ⊢
  exact has.symm

theorem covers_field {field : TypeId}
    (shape : shape? compilation.program type = some (.struct [field])) :
    Covers compilation (type, .struct [value]) (field, value) := by
  intro lazies heap word represents
  change Represents compilation lazies heap type (.struct [value]) word at represents
  generalize whole : Value.struct [value] = content at represents
  cases represents with
  | single other inner =>
    cases whole
    rw [shape] at other
    cases other
    exact inner
  | @wide _ items _ fields _ many _ _ _ =>
    have length := congrArg List.length (Value.struct.inj whole)
    rw [List.length_map, List.length_singleton] at length
    omega
  | _ => cases whole

theorem Represents.field {values : List Value} {position : Nat} {field : TypeId}
    (represents : Represents compilation lazies heap type (.struct values) word)
    (shape : shape? compilation.program type = some (.struct types)) (many : 2 ≤ types.length)
    (typed : types[position]? = some field) (selected : values[position]? = some value) :
    ∃ fields inner, heap.Contains word (.struct fields) ∧ fields[position]? = some inner ∧
      Represents compilation lazies heap field value inner := by
  generalize whole : Value.struct values = content at represents
  cases represents with
  | empty _ other =>
    rw [shape] at other
    cases other
    cases many
  | single other _ =>
    rw [shape] at other
    cases other
    exact absurd many (by simp)
  | @wide _ items _ fields other _ contains length each =>
    cases whole
    rw [shape] at other
    cases other
    have all := List.forall₂_iff_zip.2 ⟨length, fun member => each _ _ member⟩
    have item : items[position]? = some (field, value) := by
      rw [List.getElem?_map] at typed selected
      cases found : items[position]? with
      | none =>
        rw [found] at typed
        cases typed
      | some item =>
        rw [found] at typed selected
        cases typed
        cases selected
        rfl
    obtain ⟨inner, stored, stands⟩ := forall₂_getElem? all item
    exact ⟨fields, inner, contains, by rw [← Array.getElem?_toList]; exact stored, stands⟩
  | _ => cases whole

theorem Represents.isNull_wide (represents : Represents compilation lazies heap type value word)
    (shape : shape? compilation.program type = some (.struct types)) (many : 2 ≤ types.length) :
    word.isNull = false := by
  obtain ⟨fields, rfl, length⟩ := represents.exists_fields shape
  have first : 0 < types.length := by omega
  obtain ⟨_, _, contains, _, _⟩ := represents.field shape many
    (List.getElem?_eq_getElem first) (List.getElem?_eq_getElem (length.symm ▸ first))
  exact contains.isNull_eq

/-! ## Unions -/

theorem Represents.exists_member {members : List TypeId}
    (represents : Represents compilation lazies heap type value word)
    (shape : shape? compilation.program type = some (.union members)) :
    ∃ member inner, value = .union member inner ∧ member ∈ members := by
  have has := represents.hasShape shape
  cases value <;> simp [HasShape] at has ⊢
  exact has

theorem Represents.nullable_cases {nullable : Nullable} {member : TypeId}
    (represents : Represents compilation lazies heap type (.union member value) word)
    (form : nullable? compilation.program type = some nullable) :
    member = nullable.nullType ∧ value = .struct [] ∧ word = .null ∨
      member = nullable.structType ∧ word.isNull = false ∧
        Represents compilation lazies heap nullable.structType value word := by
  cases represents with
  | null other =>
    rw [form] at other
    cases other
    exact Or.inl ⟨rfl, rfl, rfl⟩
  | present other inner =>
    rw [form] at other
    cases other
    obtain ⟨_, _, fields, shape, many⟩ := compilation.tables.nullable form
    exact Or.inr ⟨rfl, inner.isNull_wide shape many, inner⟩
  | tagged other _ _ _ =>
    rw [form] at other
    cases other

theorem Represents.tagged_parts {member : TypeId}
    (represents : Represents compilation lazies heap type (.union member value) word)
    (form : nullable? compilation.program type = none) :
    ∃ number inner, memberNumber compilation.program type member = .ok number ∧
      heap.Contains word (.struct #[.ofInt number, inner]) ∧
      Represents compilation lazies heap member value inner := by
  cases represents with
  | null other =>
    rw [form] at other
    cases other
  | present other _ =>
    rw [form] at other
    cases other
  | tagged _ number contains inner => exact ⟨_, _, number, contains, inner⟩

/-! ## Functions and lazy calls -/

theorem Represents.exists_function {input : List TypeId} {output : TypeId}
    (represents : Represents compilation lazies heap type value word)
    (shape : shape? compilation.program type = some (.delegate input output)) :
    ∃ func bound, value = .function func bound := by
  have has := represents.hasShape shape
  cases value <;> simp [HasShape] at has ⊢

theorem Represents.exists_lazy {result : TypeId}
    (represents : Represents compilation lazies heap type value word)
    (shape : shape? compilation.program type = some (.lazy result)) :
    ∃ cell, value = .lazy cell := by
  have has := represents.hasShape shape
  cases value <;> simp [HasShape] at has ⊢

end

/-! ## Numbers -/

theorem hasScalar_number {program : Program} {type : TypeId} {kind : TypeKind}
    (known : program.kind? type = some kind)
    (number : kind = .int ∨ kind = .bool ∨ kind = .char ∨ kind = .enumeration) :
    hasScalar program type .int = true := by
  rw [hasScalar_iff, shape?, known]
  rcases number with rfl | rfl | rfl | rfl <;> rfl

theorem Compilation.bool_scalar (compilation : Compilation) :
    hasScalar compilation.program TypeId.bool .int = true :=
  hasScalar_number compilation.tables.bool (by simp)

section

variable {compilation : Compilation} {level : Level} {type : TypeId} {left right : Value}
variable {operands rest : List Typed} {effects : Effects} {position : Nat} {session : Session}
variable {window : List (Option Typed)}
variable {code : Code} {scope : Bytes} {nullable : Nullable} {member : TypeId} {value : Value}

/-! ## Answers -/

/-- Whether a session is about to return a truth value. -/
def Answering (compilation : Compilation) (level : Level) (rest : List Typed) (effects : Effects)
    (value : Bool) : Session → Prop :=
  Returning compilation level ((TypeId.bool, .int (flag value)) :: rest) effects

/-- The window of an equality function with its operands stored. -/
def comparing (type : TypeId) (left right : Value) : List (Option Typed) :=
  [some (type, left), some (type, right)]

theorem leads_answer (value : Bool)
    (placed : Placed compilation.image position (answer (flag value)))
    (depicts : Depicts compilation position (level.config window rest effects) session) :
    session.Leads (Answering compilation level rest effects value) := by
  refine (depicts.loadInt placed.first.single compilation.bool_scalar).leads.mono
    fun after shown => ?_
  exact ⟨_, window, placed.second.single, shown⟩

/-! ## Scalars -/

theorem leads_compareScalar {scalar : Scalar} {test : scalar.Carrier → scalar.Carrier → Bool}
    (calculates : Calculates compilation code
      (.binary scalar scalar .int fun first second => flag (test first second)))
    (same : ∀ first second, (Value.ofScalar scalar first).equal (.ofScalar scalar second) =
      test first second) (typed : hasScalar compilation.program type scalar = true)
    (placed : Placed compilation.image position code) (depicts : Depicts compilation position
      (level.config window ((type, right) :: (type, left) :: rest) effects) session) :
    session.Leads (Depicts compilation (position + Code.size code)
      (level.config window ((TypeId.bool, .int (flag (left.equal right))) :: rest) effects)) := by
  obtain ⟨first, rfl⟩ := depicts.exists_scalar
    (List.mem_cons_of_mem _ List.mem_cons_self : (type, left) ∈ _) typed
  obtain ⟨second, rfl⟩ := depicts.exists_scalar (List.mem_cons_self : (type, right) ∈ _) typed
  have led := calculates.leads [(type, .ofScalar scalar first), (type, .ofScalar scalar second)]
    rest placed (by simp [haveScalars, Operation.inputs, typed]) compilation.bool_scalar depicts
  rw [List.map_cons, List.map_singleton, Operation.apply_binary] at led
  rw [same]
  exact led

/-! ## Parts -/

/-- Whether equality functions tell of a value what equals it. -/
structure Decided (compilation : Compilation) (left : Value) : Prop where
  leads : ∀ {type : TypeId} {right : Value} {level : Level} {rest : List Typed} {effects : Effects}
    {session : Session}, compilation.image.Bound (equalityLabel type) →
    Depicts compilation (compilation.target (equalityLabel type))
      (level.config [] ((type, right) :: (type, left) :: rest) effects) session →
    session.Leads (Answering compilation level rest effects (left.equal right))

theorem leads_compareValues (decided : Decided compilation left)
    (compared : compareValues compilation.program type = .ok code)
    (placed : Placed compilation.image position code) (depicts : Depicts compilation position
      (level.config window ((type, right) :: (type, left) :: rest) effects) session) :
    session.Leads (Depicts compilation (position + Code.size code)
      (level.config window ((TypeId.bool, .int (flag (left.equal right))) :: rest) effects)) := by
  have number : ∀ {kind : TypeKind}, compilation.program.kind? type = some kind →
      kind = .int ∨ kind = .bool ∨ kind = .char ∨ kind = .enumeration →
      Placed compilation.image position (plain .eqInt) →
      session.Leads (Depicts compilation (position + Code.size (plain .eqInt))
        (level.config window ((TypeId.bool, .int (flag (left.equal right))) :: rest) effects)) :=
    fun known number placed => leads_compareScalar
      (calculates_plain (computes_intTest fun _ _ => rfl))
      (fun _ _ => by simp [Value.ofScalar, Value.equal])
      (hasScalar_number known number) placed depicts
  have calls : Placed compilation.image position (callTo (equalityLabel type) 2 .normal) →
      session.Leads (Depicts compilation
        (position + Code.size (callTo (equalityLabel type) 2 .normal))
        (level.config window ((TypeId.bool, .int (flag (left.equal right))) :: rest) effects)) := by
    intro placed
    have here : (Instruction.call (equalityLabel type) 2
      (Lowering.positionMode false).code).At compilation.image position := placed.single
    have inside : position + 7 ≤ compilation.image.assembly.code.size := here.inside
    refine (depicts.call false here).leads.trans fun after shown => ?_
    refine (decided.leads (here.bound _ rfl) shown).trans fun after answering => ?_
    exact Returning.delivered answering (Nat.lt_of_le_of_lt inside compilation.layout.small)
  unfold compareValues at compared
  split at compared
  case h_1 known | h_2 known | h_3 known | h_4 known =>
    cases compared
    exact number known (by simp) placed
  case h_5 known =>
    cases compared
    exact leads_compareScalar (calculates_plain (computes_longTest fun _ _ => rfl))
      (fun _ _ => by simp [Value.ofScalar, Value.equal]) (hasScalar_of_kind known (by simp)) placed
      depicts
  case h_6 known =>
    cases compared
    exact leads_compareScalar (calculates_plain (computes_floatTest fun _ _ => rfl))
      (fun _ _ => by simp [Value.ofScalar, Value.equal]) (hasScalar_of_kind known (by simp)) placed
      depicts
  case h_7 known =>
    cases compared
    exact leads_compareScalar (calculates_plain computes_eqString)
      (fun _ _ => by simp [Value.ofScalar, Value.equal]) (hasScalar_of_kind known (by simp)) placed
      depicts
  case h_8 known | h_9 known =>
    cases compared
    exact calls placed
  case h_10 => cases compared

theorem leads_loadBoth {index : UInt8} (leftField rightField : Typed)
    (placed : Placed compilation.image position (loadBoth index))
    (leftStands : ∀ {lazies : Lazies} {heap : Heap} {word : Word},
      Represents compilation lazies heap type left word →
        ∃ fields inner, heap.Contains word (.struct fields) ∧ fields[index.toNat]? = some inner ∧
          Represents compilation lazies heap leftField.1 leftField.2 inner)
    (rightStands : ∀ {lazies : Lazies} {heap : Heap} {word : Word},
      Represents compilation lazies heap type right word →
        ∃ fields inner, heap.Contains word (.struct fields) ∧ fields[index.toNat]? = some inner ∧
          Represents compilation lazies heap rightField.1 rightField.2 inner)
    (depicts : Depicts compilation position
      (level.config (comparing type left right) rest effects) session) :
    session.Leads (Depicts compilation (position + Code.size (loadBoth index))
      (level.config (comparing type left right) (rightField :: leftField :: rest) effects)) := by
  obtain ⟨loads, takes, loadsOther, takesOther, _⟩ := placed.laid
  refine (depicts.loadConst loads rfl).leads.trans fun after shown => ?_
  refine (shown.loadField leftField takes leftStands).leads.trans fun after shown => ?_
  refine (shown.loadConst loadsOther rfl).leads.trans fun after shown => ?_
  exact (shown.loadField rightField takesOther rightStands).leads

/-! ## Structs -/

theorem leads_compareFields {types : List TypeId} {lefts rights : List Value}
    (shape : shape? compilation.program type = some (.struct types)) (many : 2 ≤ types.length)
    (leftLength : lefts.length = types.length) (rightLength : rights.length = types.length)
    (decided : ∀ value ∈ lefts, Decided compilation value) {index : Nat} {fields : List FieldDecl}
    (compares : ComparesFields compilation.program scope index fields code)
    (listed : types.drop index = fields.map FieldDecl.type)
    (placed : Placed compilation.image position (code ++ answer 1))
    (depicts : Depicts compilation position
      (level.config (comparing type (.struct lefts) (.struct rights)) rest effects) session) :
    session.Leads (Answering compilation level rest effects
      (Value.equalAll (lefts.drop index) (rights.drop index))) := by
  induction fields generalizing index code position session with
  | nil =>
    rw [comparesFields_nil compares, List.nil_append] at placed
    have past : types.length ≤ index := List.drop_eq_nil_iff.1 listed
    rw [List.drop_eq_nil_iff.2 (leftLength ▸ past), List.drop_eq_nil_iff.2 (rightLength ▸ past)]
    exact leads_answer true placed depicts
  | cons field fields ih =>
    obtain ⟨next, byte, compare, others, _, fits, compared, comparesOthers, rfl⟩ :=
      comparesFields_cons compares
    have inside : index < types.length := by
      by_contra past
      rw [List.drop_eq_nil_iff.2 (Nat.le_of_not_lt past)] at listed
      cases listed
    have typed : types[index]? = some field.type := by
      rw [← List.head?_drop, listed]
      rfl
    have following : types.drop (index + 1) = fields.map FieldDecl.type := by
      rw [← List.tail_drop, listed]
      rfl
    have leftInside : index < lefts.length := leftLength ▸ inside
    have rightInside : index < rights.length := rightLength ▸ inside
    have place : byte.toNat = index := toNat_of_fieldByte fits
    rw [List.drop_eq_getElem_cons leftInside, List.drop_eq_getElem_cons rightInside,
      Value.equalAll]
    simp only [List.append_assoc] at placed
    have stands : ∀ {values : List Value} {value : Value}, values[index]? = some value →
        ∀ {lazies : Lazies} {heap : Heap} {word : Word},
          Represents compilation lazies heap type (.struct values) word →
            ∃ fields inner, heap.Contains word (.struct fields) ∧
              fields[byte.toNat]? = some inner ∧
              Represents compilation lazies heap field.type value inner := by
      intro values value selected lazies heap word represents
      rw [place]
      exact represents.field shape many typed selected
    -- The code loads the fields, compares them, and goes on or answers.
    have loaded := leads_loadBoth (field.type, lefts[index]) (field.type, rights[index])
      placed.first (stands (List.getElem?_eq_getElem leftInside))
      (stands (List.getElem?_eq_getElem rightInside)) depicts
    refine loaded.trans fun after shown => ?_
    refine (leads_compareValues (decided _ (List.getElem_mem leftInside)) compared
      placed.second.first shown).trans fun after shown => ?_
    have branch := placed.second.second
    have goes := branch.second.second.first.target_eq
    refine (shown.jumpIf branch.first.single).leads.trans fun after shown => ?_
    cases same : (lefts[index]).equal (rights[index]) with
    | false =>
      rw [same, if_neg (by decide)] at shown
      rw [Bool.false_and]
      exact leads_answer false branch.second.first shown
    | true =>
      rw [same, if_pos (by decide)] at shown
      rw [Bool.true_and]
      rw [goes] at shown
      exact ih comparesOthers following branch.second.second.second shown

theorem leads_single {field : TypeId} {leftField rightField : Value} {compare : Code}
    (shape : shape? compilation.program type = some (.struct [field]))
    (decided : Decided compilation leftField)
    (compared : compareValues compilation.program field = .ok compare)
    (placed : Placed compilation.image position
      (emit (.loadConst 0) ++ emit (.loadConst 1) ++ compare ++ plain .ret))
    (depicts : Depicts compilation position
      (level.config (comparing type (.struct [leftField]) (.struct [rightField])) rest effects)
      session) :
    session.Leads (Answering compilation level rest effects (leftField.equal rightField)) := by
  simp only [List.append_assoc] at placed
  refine (depicts.loadConst placed.first.single rfl).leads.trans fun after shown => ?_
  refine ((shown.retype (covers_field shape)).loadConst placed.second.first.single
    rfl).leads.trans fun after shown => ?_
  refine (leads_compareValues decided compared placed.second.second.first
    (shown.retype (covers_field shape))).mono fun after shown => ?_
  exact ⟨_, _, placed.second.second.second.single, shown⟩

/-! ## Unions -/

theorem Represents.isNull_nullable {lazies : Lazies} {heap : Heap} {word : Word}
    (represents : Represents compilation lazies heap type (.union member value) word)
    (form : nullable? compilation.program type = some nullable) :
    word.isNull = (member == nullable.nullType) := by
  rcases represents.nullable_cases form with ⟨rfl, _, rfl⟩ | ⟨rfl, present, _⟩
  · rw [beq_self_eq_true]
    rfl
  · rw [present]
    exact (beq_false_of_ne (compilation.tables.nullable_ne form).symm).symm

theorem covers_present (form : nullable? compilation.program type = some nullable) :
    Covers compilation (type, .union nullable.structType value) (nullable.structType, value) := by
  intro lazies heap word represents
  rcases Represents.nullable_cases represents form with ⟨same, _, _⟩ | ⟨_, _, inner⟩
  · exact absurd same.symm (compilation.tables.nullable_ne form)
  · exact inner

theorem leads_nullable {leftNull rightNull : Label} {leftMember rightMember : TypeId}
    {leftInner rightInner : Value} (form : nullable? compilation.program type = some nullable)
    (decided : Decided compilation leftInner)
    (leftStands : ∃ lazies heap word, Represents compilation lazies heap type
      (.union leftMember leftInner) word)
    (rightStands : ∃ lazies heap word, Represents compilation lazies heap type
      (.union rightMember rightInner) word) (placed : Placed compilation.image position
      (emit (.loadConst 0) ++ plain .isNull ++ emit (.jumpIf leftNull) ++
        emit (.loadConst 1) ++ plain .isNull ++ emit (.jumpIf rightNull) ++
        emit (.loadConst 0) ++ emit (.loadConst 1) ++
        callTo (equalityLabel nullable.structType) 2 .tail ++
        bind leftNull ++ emit (.loadConst 1) ++ plain .isNull ++ plain .ret ++
        bind rightNull ++ answer 0)) (depicts : Depicts compilation position
      (level.config (comparing type (.union leftMember leftInner) (.union rightMember rightInner))
        rest effects) session) :
    session.Leads (Answering compilation level rest effects
      ((Value.union leftMember leftInner).equal (.union rightMember rightInner))) := by
  have typed := compilation.bool_scalar
  have different := compilation.tables.nullable_ne form
  simp only [List.append_assoc] at placed
  have second : Placed compilation.image (position + 8) _ := placed.second.second.second
  have calls : Placed compilation.image (position + 16) _ := second.second.second.second
  have atLeft : Placed compilation.image (position + 27) _ := calls.second.second.second
  have leftPlace := atLeft.first.target_eq
  have atRight := atLeft.second.second.second.second
  have rightPlace := atRight.first.target_eq
  obtain ⟨_, _, _, leftRepresents⟩ := leftStands
  obtain ⟨_, _, _, rightRepresents⟩ := rightStands
  refine (depicts.loadConst placed.first.single rfl).leads.trans fun after shown => ?_
  refine (shown.isNull placed.second.first.single typed fun represents =>
    Represents.isNull_nullable represents form).leads.trans fun after shown => ?_
  refine (shown.jumpIf placed.second.second.first.single).leads.trans fun after shown => ?_
  rcases leftRepresents.nullable_cases form with ⟨rfl, rfl, _⟩ | ⟨rfl, _, _⟩
  · -- The left operand is null: the answer is whether the right one is.
    rw [beq_self_eq_true, if_pos (by decide)] at shown
    rw [leftPlace] at shown
    refine (shown.loadConst atLeft.second.first.single rfl).leads.trans fun after shown => ?_
    refine (shown.isNull atLeft.second.second.first.single typed fun represents =>
      Represents.isNull_nullable represents form).leads.mono fun after shown => ?_
    have same : (Value.union nullable.nullType (.struct [])).equal (.union rightMember rightInner) =
        (rightMember == nullable.nullType) := by
      rw [Value.equal]
      rcases rightRepresents.nullable_cases form with ⟨rfl, rfl, _⟩ | ⟨rfl, _, _⟩
      · simp [Value.equal, Value.equalAll]
      · rw [beq_false_of_ne different, beq_false_of_ne different.symm, Bool.false_and]
    rw [same]
    exact ⟨_, _, atLeft.second.second.second.first.single, shown⟩
  · rw [beq_false_of_ne different.symm, if_neg (by decide)] at shown
    refine (shown.loadConst second.first.single rfl).leads.trans fun after shown => ?_
    refine (shown.isNull second.second.first.single typed fun represents =>
      Represents.isNull_nullable represents form).leads.trans fun after shown => ?_
    refine (shown.jumpIf second.second.second.first.single).leads.trans fun after shown => ?_
    rcases rightRepresents.nullable_cases form with ⟨rfl, rfl, _⟩ | ⟨rfl, _, _⟩
    · rw [beq_self_eq_true, if_pos (by decide)] at shown
      rw [rightPlace] at shown
      rw [Value.equal, beq_false_of_ne different.symm, Bool.false_and]
      exact leads_answer false atRight.second shown
    · -- Neither operand is null: the equality of the struct type takes over.
      rw [beq_false_of_ne different.symm, if_neg (by decide)] at shown
      refine (shown.loadConst calls.first.single rfl).leads.trans fun after shown => ?_
      refine (Depicts.loadConst (shown.retype (covers_present form)) calls.second.first.single
        rfl).leads.trans fun after shown => ?_
      have here := calls.second.second.first.single
      have shown := shown.retype (covers_present form)
      refine (Depicts.call shown true here).leads.trans fun after shown => ?_
      rw [Value.equal, beq_self_eq_true, Bool.true_and]
      exact decided.leads (here.bound _ rfl) shown

/-- Two ints on top of the stack are compared. -/
theorem leads_eqInt {first second : Int32}
    (placed : Placed compilation.image position (plain .eqInt))
    (depicts : Depicts compilation position (level.config window
      ((TypeId.int, .int second) :: (TypeId.int, .int first) :: rest) effects) session) :
    session.Leads (Depicts compilation (position + 1)
      (level.config window ((TypeId.bool, .int (flag (first == second))) :: rest) effects)) := by
  have compared := leads_compareScalar (calculates_plain (computes_intTest fun _ _ => rfl))
    (fun _ _ => by simp [Value.ofScalar, Value.equal])
    (hasScalar_of_kind compilation.tables.int (by simp)) placed depicts
  rw [Value.equal] at compared
  exact compared

theorem leads_selectMember {number : Nat} {members : List TypeId} {labels : List Label}
    {label : Label} (index : Nat) (selects : SelectsMember scope number members code labels)
    (placed : Placed compilation.image position code) (few : number + members.length < 2 ^ 32)
    (found : labels[index]? = some label)
    (numbered : ∀ {lazies : Lazies} {heap : Heap} {word : Word},
      Represents compilation lazies heap type left word →
        ∃ fields inner, heap.Contains word (.struct fields) ∧ fields[0]? = some inner ∧
          Represents compilation lazies heap TypeId.int (.int (Int32.ofNat (number + index))) inner)
    (depicts : Depicts compilation position
      (level.config (comparing type left right) rest effects) session) :
    session.Leads (Depicts compilation (compilation.target label)
      (level.config (comparing type left right) rest effects)) := by
  induction members generalizing number index code labels position session with
  | nil =>
    obtain ⟨_, rfl⟩ := selectsMember_nil selects
    cases found
  | cons member members ih =>
    obtain ⟨first, others, labels, _, selectsOthers, rfl, rfl⟩ := selectsMember_cons selects
    rw [List.length_cons] at few
    simp only [List.append_assoc] at placed
    have branch := placed.second.second.second.second
    refine (depicts.loadConst placed.first.single rfl).leads.trans fun after shown => ?_
    refine (shown.loadField (TypeId.int, .int (Int32.ofNat (number + index)))
      placed.second.first.single numbered).leads.trans fun after shown => ?_
    refine (shown.loadInt placed.second.second.first.single
      (hasScalar_of_kind compilation.tables.int (by simp))).leads.trans fun after shown => ?_
    refine (leads_eqInt placed.second.second.second.first shown).trans fun after shown => ?_
    have inside : index < labels.length + 1 := by
      have bound := (List.getElem?_eq_some_iff.1 found).1
      rwa [List.length_cons] at bound
    have listed := (length_le_size selectsOthers).2
    rw [ofNat_inj (by omega) (by omega)] at shown
    refine (shown.jumpIf branch.first.single).leads.trans fun after shown => ?_
    cases index with
    | zero =>
      cases found
      rw [Nat.add_zero, beq_self_eq_true, if_pos (by decide)] at shown
      exact .here shown
    | succ index =>
      rw [beq_false_of_ne (by omega), if_neg (by decide)] at shown
      have next : number + (index + 1) = number + 1 + index := by omega
      rw [next] at numbered
      exact ih index selectsOthers branch.second (by omega) found numbered shown

/-- Code that ends in a return stands inside the code of its image. -/
theorem placed_of_laid {image : Image} (laid : Code.Laid image position (code ++ plain .ret)) :
    Placed image position (code ++ plain .ret) where
  laid := laid
  inside := by
    have inside := ((Code.laid_append _ _ _).1 laid).2.1.inside
    rw [Code.size_append, ← Nat.add_assoc]
    exact inside

theorem placed_compareMembers {equal label : Label} {index : Nat} {members : List (TypeId × Label)}
    (compared : compareMembers compilation.program equal members = .ok code)
    (placed : Placed compilation.image position code)
    (found : members[index]? = some (member, label)) :
    ∃ compare, compareValues compilation.program member = .ok compare ∧
      Placed compilation.image (compilation.target label)
        (loadBoth 1 ++ (compare ++ (emit (.jumpIf equal) ++ answer 0))) := by
  obtain ⟨compare, comparedMember, laid⟩ := laid_compareMembers compared placed.laid found
  have whole : Placed compilation.image (compilation.image.address label)
      (loadBoth 1 ++ compare ++ emit (.jumpIf equal) ++ emit (.loadInt 0) ++ plain .ret) :=
    placed_of_laid (by simpa only [answer, List.append_assoc] using laid)
  have near := Nat.lt_of_le_of_lt whole.inside compilation.layout.small
  have place : compilation.target label = compilation.image.address label :=
    UInt32.toNat_ofNat_of_lt' (Nat.lt_of_le_of_lt (Nat.le_add_right _ _) near)
  refine ⟨compare, comparedMember, ?_⟩
  rw [place]
  simpa only [answer, List.append_assoc] using whole

theorem Represents.tagged_fields {lazies : Lazies} {heap : Heap} {word : Word} {number : Int32}
    (represents : Represents compilation lazies heap type (.union member value) word)
    (form : nullable? compilation.program type = none)
    (known : memberNumber compilation.program type member = .ok number) :
    ∃ fields first second, heap.Contains word (.struct fields) ∧ fields[0]? = some first ∧
      fields[1]? = some second ∧
      Represents compilation lazies heap TypeId.int (.int number) first ∧
      Represents compilation lazies heap member value second := by
  obtain ⟨other, inner, same, contains, stands⟩ := represents.tagged_parts form
  rw [known] at same
  cases same
  exact ⟨_, _, _, contains, rfl, rfl,
    .int _ (hasScalar_of_kind compilation.tables.int (by simp)), stands⟩

theorem memberNumber_beq {left right : TypeId} {leftNumber rightNumber : Int32}
    (leftKnown : memberNumber compilation.program type left = .ok leftNumber)
    (rightKnown : memberNumber compilation.program type right = .ok rightNumber) :
    (leftNumber == rightNumber) = (left == right) := by
  by_cases same : left = right
  · subst same
    rw [leftKnown] at rightKnown
    cases rightKnown
    rw [beq_self_eq_true, beq_self_eq_true]
  · rw [beq_false_of_ne same]
    refine beq_false_of_ne fun equal => same ?_
    subst equal
    exact compilation.tables.memberNumber_inj leftKnown rightKnown

theorem leads_tagged {definition : UnionDef} {sameMember equal : Label} {select compare : Code}
    {labels : List Label} {leftMember rightMember : TypeId} {leftInner rightInner : Value}
    (form : nullable? compilation.program type = none)
    (listed : compilation.program.union? type = some definition)
    (decided : Decided compilation leftInner)
    (leftStands : ∃ lazies heap word, Represents compilation lazies heap type
      (.union leftMember leftInner) word)
    (rightStands : ∃ lazies heap word, Represents compilation lazies heap type
      (.union rightMember rightInner) word)
    (selects : SelectsMember scope 0 (definition.members.getD []) select labels)
    (compared : compareMembers compilation.program equal
      ((definition.members.getD []).zip labels) = .ok compare)
    (placed : Placed compilation.image position
      (loadBoth 0 ++ plain .eqInt ++ emit (.jumpIf sameMember) ++ answer 0 ++
        bind sameMember ++ select ++ plain .fail ++ compare ++ bind equal ++ answer 1))
    (depicts : Depicts compilation position
      (level.config (comparing type (.union leftMember leftInner) (.union rightMember rightInner))
        rest effects) session) :
    session.Leads (Answering compilation level rest effects
      ((Value.union leftMember leftInner).equal (.union rightMember rightInner))) := by
  simp only [List.append_assoc] at placed
  have branch := placed.second.second
  have selecting := branch.second.second
  have equalPlaced := selecting.second.second.second.second
  obtain ⟨_, _, _, leftRepresents⟩ := leftStands
  obtain ⟨_, _, _, rightRepresents⟩ := rightStands
  obtain ⟨leftNumber, _, leftKnown, _, _⟩ := leftRepresents.tagged_parts form
  obtain ⟨rightNumber, _, rightKnown, _, _⟩ := rightRepresents.tagged_parts form
  have numbers := memberNumber_beq leftKnown rightKnown
  have leftTag : ∀ {lazies : Lazies} {heap : Heap} {word : Word},
      Represents compilation lazies heap type (.union leftMember leftInner) word →
        ∃ fields inner, heap.Contains word (.struct fields) ∧ fields[0]? = some inner ∧
          Represents compilation lazies heap TypeId.int (.int leftNumber) inner := by
    intro lazies heap word represents
    obtain ⟨fields, tag, _, contains, first, _, stands, _⟩ :=
      represents.tagged_fields form leftKnown
    exact ⟨fields, tag, contains, first, stands⟩
  have rightTag : ∀ {lazies : Lazies} {heap : Heap} {word : Word},
      Represents compilation lazies heap type (.union rightMember rightInner) word →
        ∃ fields inner, heap.Contains word (.struct fields) ∧ fields[0]? = some inner ∧
          Represents compilation lazies heap TypeId.int (.int rightNumber) inner := by
    intro lazies heap word represents
    obtain ⟨fields, tag, _, contains, first, _, stands, _⟩ :=
      represents.tagged_fields form rightKnown
    exact ⟨fields, tag, contains, first, stands⟩
  refine (leads_loadBoth (TypeId.int, .int leftNumber) (TypeId.int, .int rightNumber) placed.first
    leftTag rightTag depicts).trans fun after shown => ?_
  refine (leads_eqInt placed.second.first shown).trans fun after shown => ?_
  refine (shown.jumpIf branch.first.single).leads.trans fun after selected => ?_
  rw [numbers] at selected
  rw [Value.equal]
  by_cases same : leftMember = rightMember
  · subst same
    rw [beq_self_eq_true, if_pos (by decide), selecting.first.target_eq] at selected
    rw [beq_self_eq_true, Bool.true_and]
    obtain ⟨members, shape, _, index, inside, rfl⟩ := compilation.tables.memberNumber leftKnown
    rw [compilation.tables.shape_union listed] at shape
    cases shape
    obtain ⟨few, length⟩ := length_le_size selects
    have bounded := (List.getElem?_eq_some_iff.1 inside).1
    obtain ⟨label, found⟩ : ∃ label, labels[index]? = some label :=
      ⟨_, List.getElem?_eq_getElem (length.symm ▸ bounded)⟩
    have total : (definition.members.getD []).length < 2 ^ 32 := by
      have inside := selecting.second.first.inside
      have small : compilation.image.assembly.code.size < 2 ^ 32 := compilation.layout.small
      omega
    have atMember := leads_selectMember index selects selecting.second.first
      (by rw [Nat.zero_add]; exact total) found (by rw [Nat.zero_add]; exact leftTag) selected
    refine atMember.trans fun after shown => ?_
    obtain ⟨compareMember, comparedMember, placedMember⟩ := placed_compareMembers compared
      selecting.second.second.second.first (List.getElem?_zip_eq_some.2 ⟨inside, found⟩)
    have inner : ∀ {value : Value} {lazies : Lazies} {heap : Heap} {word : Word},
        Represents compilation lazies heap type (.union leftMember value) word →
          ∃ fields inner, heap.Contains word (.struct fields) ∧ fields[1]? = some inner ∧
            Represents compilation lazies heap leftMember value inner := by
      intro value lazies heap word represents
      obtain ⟨fields, _, inner, contains, _, second, _, stands⟩ :=
        represents.tagged_fields form leftKnown
      exact ⟨fields, inner, contains, second, stands⟩
    refine (leads_loadBoth (leftMember, leftInner) (leftMember, rightInner) placedMember.first inner
      inner shown).trans fun after shown => ?_
    refine (leads_compareValues decided comparedMember placedMember.second.first
      shown).trans fun after shown => ?_
    refine (shown.jumpIf placedMember.second.second.first.single).leads.trans
      fun after shown => ?_
    cases agreed : leftInner.equal rightInner with
    | false =>
      rw [agreed, if_neg (by decide)] at shown
      exact leads_answer false placedMember.second.second.second shown
    | true =>
      rw [agreed, if_pos (by decide), equalPlaced.first.target_eq] at shown
      exact leads_answer true equalPlaced.second shown
  · rw [beq_false_of_ne same, if_neg (by decide)] at selected
    rw [beq_false_of_ne same, Bool.false_and]
    exact leads_answer false branch.second.first selected

/-! ## Whole functions -/

/-- An equality function first stores its operands. -/
theorem leads_body (bound : compilation.image.Bound (equalityLabel type)) :
    ∃ body place, EqualityBody compilation.program (equalityLabel type) type body ∧
      Placed compilation.image place body ∧
      ∀ {left right : Value} {level : Level} {rest : List Typed} {effects : Effects}
        {session : Session},
        Depicts compilation (compilation.target (equalityLabel type))
          (level.config [] ((type, right) :: (type, left) :: rest) effects) session →
        session.Leads (Depicts compilation place
          (level.config (comparing type left right) rest effects)) := by
  obtain ⟨start, code, unitCode, laid, inside⟩ := compilation.layout.equality type bound
  cases unitCode with
  | equality _ body compares =>
    have placed : Placed compilation.image start _ := ⟨laid, inside⟩
    simp only [List.append_assoc] at placed
    have stores := placed.second.second
    refine ⟨body, _, compares, stores.second.second.first, ?_⟩
    intro left right level rest effects session depicts
    rw [placed.first.target_eq] at depicts
    refine (depicts.reserveConsts placed.second.first.single).leads.trans fun after shown => ?_
    refine (shown.storeConst (some (type, right)) stores.first.single (by decide)
      (covers_refl _)).leads.trans fun after shown => ?_
    exact (shown.storeConst (some (type, left)) stores.second.first.single Nat.two_pos
      (covers_refl _)).leads

/-- Equality functions tell what equals a value, since those of its parts do. -/
theorem decided (compilation : Compilation) (left : Value) : Decided compilation left := by
  constructor
  intro type right level rest effects session bound depicts
  obtain ⟨body, place, compares, placed, starts⟩ := leads_body bound
  obtain ⟨_, _, leftRepresents⟩ := depicts.represented (List.mem_cons_of_mem _ List.mem_cons_self)
  obtain ⟨_, _, rightRepresents⟩ := depicts.represented List.mem_cons_self
  refine (starts depicts).trans fun after shown => ?_
  -- The parts of a struct, and the value of a union's member, are smaller.
  cases compares with
  | empty definition _ found none =>
    have shape := compilation.tables.shape_struct found
    rw [none] at shape
    obtain ⟨lefts, rfl, leftLength⟩ := leftRepresents.exists_fields shape
    obtain ⟨rights, rfl, rightLength⟩ := rightRepresents.exists_fields shape
    cases List.length_eq_zero_iff.1 leftLength
    cases List.length_eq_zero_iff.1 rightLength
    rw [Value.equal, Value.equalAll]
    exact leads_answer true placed shown
  | single definition field compare _ found one compared =>
    have shape := compilation.tables.shape_struct found
    rw [one] at shape
    obtain ⟨lefts, rfl, leftLength⟩ := leftRepresents.exists_fields shape
    obtain ⟨rights, rfl, rightLength⟩ := rightRepresents.exists_fields shape
    obtain ⟨leftField, rfl⟩ := List.length_eq_one_iff.1 leftLength
    obtain ⟨rightField, rfl⟩ := List.length_eq_one_iff.1 rightLength
    have smaller := decided compilation leftField
    rw [Value.equal, Value.equalAll, Value.equalAll, Bool.and_true]
    exact leads_single shape smaller compared placed shown
  | wide definition compare _ found many compares =>
    have shape := compilation.tables.shape_struct found
    obtain ⟨lefts, rfl, leftLength⟩ := leftRepresents.exists_fields shape
    obtain ⟨rights, rfl, rightLength⟩ := rightRepresents.exists_fields shape
    rw [Value.equal]
    refine leads_compareFields shape (by rw [List.length_map]; exact many) leftLength rightLength
      (fun value member => ?_) compares rfl placed shown
    have less := List.sizeOf_lt_of_mem member
    exact decided compilation value
  | nullable nullable leftNull rightNull _ form _ _ =>
    obtain ⟨⟨members, shape, _⟩, _⟩ := compilation.tables.nullable form
    obtain ⟨leftMember, leftInner, rfl, _⟩ := leftRepresents.exists_member shape
    obtain ⟨rightMember, rightInner, rfl, _⟩ := rightRepresents.exists_member shape
    exact leads_nullable form (decided compilation leftInner) ⟨_, _, _, leftRepresents⟩
      ⟨_, _, _, rightRepresents⟩ placed shown
  | tagged definition sameMember equal select compare labels _ form found _ _ selects compared =>
    have shape := compilation.tables.shape_union found
    obtain ⟨leftMember, leftInner, rfl, _⟩ := leftRepresents.exists_member shape
    obtain ⟨rightMember, rightInner, rfl, _⟩ := rightRepresents.exists_member shape
    exact leads_tagged form found (decided compilation leftInner) ⟨_, _, _, leftRepresents⟩
      ⟨_, _, _, rightRepresents⟩ ⟨_, _, selects⟩ compared placed shown
termination_by sizeOf left

end

end WordMachine.Evaluation
