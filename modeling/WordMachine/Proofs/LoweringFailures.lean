import WordMachine.Proofs.LoweredCode
import WordMachine.Proofs.ObjectCode
import WordMachine.Proofs.WholeExpressions

/-!
How lowering can fail. A program whose expressions are whole is answered with an assembly, with a
cause that lowering looks for, or with a label that is bound twice or not at all; the one exception
is a struct or union that is compared and has no definition.
-/

namespace WordMachine

def AssembleError.isLabel : AssembleError → Bool
  | .duplicateLabel _ => true
  | .undefinedLabel _ => true
  | .undefinedEntry _ => true
  | .unknownOpcode _ => false
  | .missingOperands _ => false

/-- Whether a building call has all it needs. -/
def Fragment.Command.isComplete : Fragment.Command → Bool
  | .emit (.plain op) => op.operands.isEmpty
  | .code _ => false
  | _ => true

namespace Lowering

variable {program : Program} {α : Type} {arguments : List Expr}

/-- Whether an error is one that lowering reports, and not one that it dies of. -/
def Error.isReported : Error → Bool
  | .unit _ cause => !cause.isInconsistent
  | .labels error => error.isLabel

/-! ## Answers -/

inductive Answers {α : Type} (good : α → Prop) : Except Cause α → Prop
  | ok {value : α} (holds : good value) : Answers good (.ok value)
  | error {cause : Cause} (reported : cause.isInconsistent = false) : Answers good (.error cause)

def Gives {α : Type} (good : α → Prop) (work : Lower α) : Prop :=
  ∀ count, Answers (fun pair => good pair.1) (work count)

section

variable {α β : Type} {good : α → Prop} {better : β → Prop}

theorem Answers.bind {result : Except Cause α} {next : α → Except Cause β}
    (first : Answers good result) (rest : ∀ value, good value → Answers better (next value)) :
    Answers better (result >>= next) := by
  cases first with
  | ok holds => exact rest _ holds
  | error reported => exact .error reported

theorem Gives.pure {value : α} (holds : good value) : Gives good (pure value) :=
  fun _ => .ok holds

theorem Gives.bind {work : Lower α} {next : α → Lower β} (first : Gives good work)
    (rest : ∀ value, good value → Gives better (next value)) : Gives better (work >>= next) :=
  fun count => Answers.bind (first count) fun pair holds => rest pair.1 holds pair.2

theorem Gives.lift {result : Except Cause α} (answers : Answers good result) :
    Gives good (liftM result) := by
  intro count
  cases answers with
  | ok holds => exact .ok holds
  | error reported => exact .error reported

end

theorem gives_fresh (scope : Bytes) : Gives (fun _ => True) (fresh scope) :=
  fun _ => .ok trivial

theorem gives_freshFor (scope : Bytes) (items : List α) :
    Gives (fun _ => True) (freshFor scope items) := by
  induction items with
  | nil => exact .pure trivial
  | cons item items ih =>
    rw [freshFor]
    exact (gives_fresh scope).bind fun _ _ => ih.bind fun _ _ => .pure trivial

theorem answers_slotByte (slot : SlotId) : Answers (fun _ => True) (slotByte slot) := by
  unfold slotByte
  split
  · exact .ok trivial
  · exact .error rfl

theorem answers_argumentByte (count : Nat) : Answers (fun _ => True) (argumentByte count) := by
  unfold argumentByte
  split
  · exact .ok trivial
  · exact .error rfl

theorem answers_sizeByte (count : Nat) : Answers (fun _ => True) (sizeByte count) := by
  unfold sizeByte
  split
  · exact .ok trivial
  · exact .error rfl

theorem answers_fieldByte (position : Int) : Answers (fun _ => True) (fieldByte position) := by
  unfold fieldByte
  split
  · exact .ok trivial
  · exact .error rfl

theorem answers_memberNumber (program : Program) (union member : TypeId) :
    Answers (fun _ => True) (memberNumber program union member) := by
  unfold memberNumber
  split
  · exact .error rfl
  · split
    · exact .ok trivial
    · exact .error rfl

theorem answers_typeOf {expr : Expr} (whole : expr.isWhole = true) :
    Answers (fun _ => True) (typeOf expr) := by
  obtain ⟨type, known⟩ := expr.exists_type?_of_isWhole whole
  unfold typeOf
  rw [known]
  exact .ok trivial

/-! ## Complete code -/

/-- Whether every instruction of a piece of code has its operands. -/
def Code.isComplete (code : Code) : Bool :=
  code.all Fragment.Command.isComplete

abbrev GivesCode (work : Lower Code) : Prop :=
  Gives (fun code => code.isComplete = true) work

namespace Code

@[simp]
theorem isComplete_nil : isComplete [] = true := rfl

@[simp]
theorem isComplete_append (left right : Code) :
    isComplete (left ++ right) = (isComplete left && isComplete right) :=
  List.all_append

@[simp]
theorem isComplete_emit (instruction : Instruction) :
    isComplete (emit instruction) = (Fragment.Command.emit instruction).isComplete := by
  simp [isComplete, emit]

@[simp]
theorem isComplete_plain (op : Opcode) : isComplete (plain op) = op.operands.isEmpty :=
  isComplete_emit (.plain op)

@[simp]
theorem isComplete_bind (label : Label) : isComplete (bind label) = true := rfl

@[simp]
theorem isComplete_callTo (label : Label) (arguments : UInt8) (mode : CallMode) :
    isComplete (callTo label arguments mode) = true := rfl

theorem isComplete_flatMap_plain {ops : List Opcode}
    (bare : ∀ op ∈ ops, op.operands.isEmpty = true) : isComplete (ops.flatMap plain) = true := by
  induction ops with
  | nil => rfl
  | cons op ops ih =>
    rw [List.flatMap_cons, isComplete_append, isComplete_plain, bare op List.mem_cons_self,
      ih fun other member => bare other (List.mem_cons_of_mem _ member)]
    rfl

theorem isComplete_replicate_pop (count : Nat) :
    isComplete (List.replicate count (plain .pop)).flatten = true := by
  induction count with
  | zero => rfl
  | succ count ih =>
    rw [List.replicate_succ, List.flatten_cons, isComplete_append, ih]
    rfl

end Code

theorem operands_operations? {kind : FuncKind} {ops : List Opcode}
    (found : kind.operations? = some ops) : ∀ op ∈ ops, op.operands.isEmpty = true := by
  cases kind <;> cases found <;> decide

/-! ## Expressions -/

attribute [local simp] Fragment.Command.isComplete Opcode.operands

theorem answers_operandType (whole : Expr.areWhole arguments = true) :
    Answers (fun _ => True) (afterArguments.operandType arguments) := by
  unfold afterArguments.operandType
  split
  · next left right =>
    simp only [Expr.areWhole, Bool.and_true, Bool.and_eq_true] at whole
    refine (answers_typeOf whole.1).bind fun type _ => ?_
    refine (answers_typeOf whole.2).bind fun other _ => ?_
    split
    · exact .ok trivial
    · exact .error rfl
  · exact .error rfl

theorem answers_afterArguments {decl : FuncDecl} {mode : UInt8} {tail : Bool}
    (whole : Expr.areWhole arguments = true) :
    Answers (fun code => code.isComplete = true) (afterArguments decl arguments mode tail) := by
  unfold afterArguments
  split
  · exact .error rfl
  · next kind found =>
    split
    · next ops known => exact .ok (Code.isComplete_flatMap_plain (operands_operations? known))
    split
    case h_2 =>
      split
      · exact .ok rfl
      · exact .ok (Code.isComplete_replicate_pop _)
    case h_3 => exact (answers_argumentByte _).bind fun _ _ => .ok rfl
    case h_17 =>
      split
      · exact .ok rfl
      · exact .ok rfl
      · exact (answers_sizeByte _).bind fun _ _ => .ok rfl
    case h_18 => exact (answers_operandType whole).bind fun _ _ => .ok rfl
    case h_19 => exact (answers_operandType whole).bind fun _ _ => .ok rfl
    all_goals
      first
      | exact .ok rfl
      | exact .error rfl

theorem answers_selectField (context : Context) (type : TypeId) (position : Int) :
    Answers (fun code => code.isComplete = true) (selectField context type position) := by
  by_cases isStruct : (context.program.kind? type != some .struct) = true
  · simp only [selectField, isStruct, if_true]
    exact .error rfl
  · simp only [selectField, isStruct, Bool.false_eq_true, if_false]
    split
    · exact .error rfl
    · exact .ok rfl
    · next count _ _ _ =>
      by_cases outside : position < 0 ∨ (count : Int) ≤ position
      · simp only [outside, if_true]
        exact .error rfl
      · simp only [outside, if_false]
        exact (answers_fieldByte _).bind fun _ _ => .ok rfl
    · exact .error rfl

theorem answers_checkMember (context : Context) (union target : TypeId) :
    Answers (fun code => code.isComplete = true) (checkMember context union target) := by
  unfold checkMember
  split
  · refine .ok ?_
    split <;> rfl
  · exact (answers_memberNumber _ _ _).bind fun _ _ => .ok rfl

theorem gives_getMember (context : Context) (union target : TypeId) (slot : UInt8) :
    GivesCode (getMember context union target slot) := by
  unfold getMember
  split
  · refine .pure ?_
    split <;> rfl
  · exact (gives_fresh _).bind fun _ _ => (gives_fresh _).bind fun _ _ =>
      (Gives.lift (answers_memberNumber _ _ _)).bind fun _ _ => .pure rfl

theorem answers_forM {items : List α} {check : α → Except Cause Unit}
    (each : ∀ item ∈ items, Answers (fun _ => True) (check item)) :
    Answers (fun _ => True) (items.forM check) := by
  induction items with
  | nil => exact .ok trivial
  | cons item items ih =>
    exact (each item List.mem_cons_self).bind fun _ _ =>
      ih fun other member => each other (List.mem_cons_of_mem _ member)

theorem answers_checkSelf {context : Context} (result : TypeId)
    (whole : Expr.areWhole arguments = true) :
    Answers (fun _ => True) (checkSelf context arguments result) := by
  cases enclosing : context.func with
  | none =>
    simp only [checkSelf, enclosing]
    exact .error rfl
  | some func =>
    by_cases other : (func.output != result) = true
    · simp only [checkSelf, enclosing, other]
      exact .error rfl
    · by_cases count :
        (arguments.length != (SlotTable.freeInputs context.slots).length) = true
      · simp only [checkSelf, enclosing, other, count]
        exact .error rfl
      · simp only [checkSelf, enclosing, other, count]
        refine Answers.bind (answers_forM ?_) fun _ _ => .ok trivial
        rintro ⟨⟨argument, slot⟩, position⟩ member
        have among := (List.of_mem_zip (List.fst_mem_of_mem_zipIdx member)).1
        refine (answers_typeOf (Expr.areWhole_iff.1 whole argument among)).bind fun _ _ => ?_
        split
        · exact .error rfl
        · exact .ok trivial

theorem gives_mapM {items : List α} {write : α → Lower Fragment.Command}
    (each : ∀ item, Gives (fun command => command.isComplete = true) (write item)) :
    GivesCode (items.mapM write) := by
  induction items with
  | nil => exact .pure rfl
  | cons item items ih =>
    rw [List.mapM_cons]
    refine (each item).bind fun command complete => ih.bind fun rest others => ?_
    exact .pure (by rw [Code.isComplete, List.all_cons, complete]; exact others)

mutual

variable {context : Context}

/-- A whole expression has complete code, or there is a reported cause why not. -/
theorem gives_lower :
    (expr : Expr) → expr.isWhole = true → (tail : Bool) → GivesCode (lower context expr tail)
  | .missing, whole, _ => by simp [Expr.isWhole] at whole
  | .assign slot value, whole, tail => by
    rw [Expr.isWhole] at whole
    rw [lower]
    refine (gives_lower value whole false).bind fun code complete => ?_
    refine (Gives.lift (answers_slotByte slot)).bind fun _ _ => .pure ?_
    simp [complete]
  | .choose conditions branches, whole, tail => by
    simp only [Expr.isWhole, Bool.and_eq_true, beq_iff_eq] at whole
    rw [lower, if_neg (by simp [whole.1])]
    refine (gives_freshFor _ _).bind fun labels _ => (gives_fresh _).bind fun done _ => ?_
    refine (gives_lowerConditions conditions whole.2.1 labels).bind fun tests complete => ?_
    refine (gives_lowerLast branches whole.2.2 tail).bind fun last completeLast => ?_
    refine (gives_lowerBranches branches whole.2.2 labels done tail).bind fun chosen others => ?_
    refine .pure ?_
    simp [complete, completeLast, others]
  | .call func arguments mode result, whole, tail => by
    rw [Expr.isWhole] at whole
    have all : GivesCode (lowerAll context arguments) := gives_lowerAll arguments whole
    cases declared : context.program.func? func with
    | none =>
      rw [lower_undeclared declared]
      exact fun _ => .error rfl
    | some decl =>
      by_cases kind : FuncKind.ofCode? decl.kind = some .makeUnion
      · rw [lower_makeUnion declared kind]
        split
        · next argument =>
          have single : GivesCode (lower context argument false) := by
            rwa [lowerAll_single] at all
          simp only [Expr.areWhole, Bool.and_true] at whole
          refine (Gives.lift (answers_typeOf whole)).bind fun member _ => ?_
          split
          · refine single.bind fun code complete => .pure ?_
            split <;> simp [complete]
          · refine (Gives.lift (answers_memberNumber _ _ _)).bind fun number _ => ?_
            refine single.bind fun code complete => .pure ?_
            simp [complete]
        · exact fun _ => .error rfl
      · rw [lower_call declared kind]
        refine all.bind fun code complete => ?_
        refine (Gives.lift (answers_afterArguments whole)).bind fun rest others => .pure ?_
        simp [complete, others]
  | .callDynamic target arguments fork result, whole, tail => by
    simp only [Expr.isWhole, Bool.and_eq_true] at whole
    rw [lower]
    refine (gives_lowerAll arguments whole.2).bind fun code complete => ?_
    refine (gives_lower target whole.1 false).bind fun targetCode others => ?_
    refine (Gives.lift (answers_argumentByte _)).bind fun _ _ => .pure ?_
    simp [complete, others]
  | .callSelf arguments result, whole, tail => by
    rw [Expr.isWhole] at whole
    rw [lower]
    refine (Gives.lift (answers_checkSelf result whole)).bind fun func _ => ?_
    refine (gives_lowerAll arguments whole).bind fun code complete => ?_
    refine (gives_mapM fun slot => (Gives.lift (answers_slotByte slot)).bind fun _ _ =>
      Gives.pure rfl).bind fun bound others => ?_
    refine (Gives.lift (answers_argumentByte _)).bind fun _ _ => .pure ?_
    simp [complete, others]
  | .closure func bound delegate, whole, tail => by
    rw [Expr.isWhole] at whole
    rw [lower]
    refine (gives_lowerAll bound whole).bind fun code complete => ?_
    refine (Gives.lift (answers_sizeByte _)).bind fun _ _ => .pure ?_
    simp [complete]
  | .slot slot type, _, tail => by
    rw [lower]
    exact (Gives.lift (answers_slotByte slot)).bind fun _ _ => .pure rfl
  | .field operand position type, whole, tail => by
    rw [Expr.isWhole] at whole
    rw [lower]
    refine (gives_lower operand whole false).bind fun code complete => ?_
    refine (Gives.lift (answers_typeOf whole)).bind fun type _ => ?_
    refine (Gives.lift (answers_selectField _ _ _)).bind fun rest others => .pure ?_
    simp [complete, others]
  | .group items, whole, tail => by
    simp only [Expr.isWhole, Bool.and_eq_true, Bool.not_eq_true'] at whole
    rw [lower, if_neg (by simp [whole.1])]
    exact gives_lowerGroup items whole.2 tail
  | .unionCheck operand target, whole, tail => by
    rw [Expr.isWhole] at whole
    rw [lower]
    refine (gives_lower operand whole false).bind fun code complete => ?_
    refine (Gives.lift (answers_typeOf whole)).bind fun type _ => ?_
    refine (Gives.lift (answers_checkMember _ _ _)).bind fun rest others => .pure ?_
    simp [complete, others]
  | .unionGet operand target slot, whole, tail => by
    rw [Expr.isWhole] at whole
    rw [lower]
    refine (gives_lower operand whole false).bind fun code complete => ?_
    refine (Gives.lift (answers_typeOf whole)).bind fun type _ => ?_
    refine (Gives.lift (answers_slotByte slot)).bind fun byte _ => ?_
    refine (gives_getMember _ _ _ _).bind fun rest others => .pure ?_
    simp [complete, others]
  | .fail type, _, _ => by rw [lower]; exact .pure rfl
  | .bool value, _, _ => by rw [lower]; exact .pure rfl
  | .float bits, _, _ => by rw [lower]; exact .pure rfl
  | .int value, _, _ => by rw [lower]; exact .pure rfl
  | .long value, _, _ => by rw [lower]; exact .pure rfl
  | .string value, _, _ => by rw [lower]; exact .pure rfl
  | .char value, _, _ => by rw [lower]; exact .pure rfl
  | .function func delegate, _, _ => by rw [lower]; exact .pure rfl
  | .enumeration type value, _, _ => by rw [lower]; exact .pure rfl

theorem gives_lowerAll :
    (items : List Expr) → Expr.areWhole items = true → GivesCode (lowerAll context items)
  | [], _ => by rw [lowerAll]; exact .pure rfl
  | item :: items, whole => by
    rw [Expr.areWhole, Bool.and_eq_true] at whole
    rw [lowerAll]
    refine (gives_lower item whole.1 false).bind fun code complete => ?_
    refine (gives_lowerAll items whole.2).bind fun rest others => .pure ?_
    simp [complete, others]

theorem gives_lowerGroup :
    (items : List Expr) → Expr.areWhole items = true → (tail : Bool) →
      GivesCode (lowerGroup context items tail)
  | [], _, _ => by rw [lowerGroup]; exact .pure rfl
  | [last], whole, tail => by
    simp only [Expr.areWhole, Bool.and_true] at whole
    rw [lowerGroup]
    exact gives_lower last whole tail
  | item :: next :: items, whole, tail => by
    rw [Expr.areWhole, Bool.and_eq_true] at whole
    rw [lowerGroup]
    · refine (gives_lower item whole.1 false).bind fun code complete => ?_
      refine (gives_lowerGroup (next :: items) whole.2 tail).bind fun rest others => .pure ?_
      simp [complete, others]
    · exact List.cons_ne_nil _ _

theorem gives_lowerConditions :
    (conditions : List Expr) → Expr.areWhole conditions = true → (labels : List Label) →
      GivesCode (lowerConditions context conditions labels)
  | [], _, labels => by
    rw [lowerConditions]
    · exact .pure rfl
    · intro _ _ _ _ none
      cases none
  | condition :: conditions, _, [] => by
    rw [lowerConditions]
    · exact .pure rfl
    · intro _ _ _ _ _ none
      cases none
  | condition :: conditions, whole, label :: labels => by
    rw [Expr.areWhole, Bool.and_eq_true] at whole
    rw [lowerConditions]
    refine (gives_lower condition whole.1 false).bind fun code complete => ?_
    refine (gives_lowerConditions conditions whole.2 labels).bind fun rest others => .pure ?_
    simp [complete, others]

theorem gives_lowerLast :
    (items : List Expr) → Expr.areWhole items = true → (tail : Bool) →
      GivesCode (lowerLast context items tail)
  | [], _, _ => by rw [lowerLast]; exact .pure rfl
  | [last], whole, tail => by
    simp only [Expr.areWhole, Bool.and_true] at whole
    rw [lowerLast]
    exact gives_lower last whole tail
  | _ :: next :: items, whole, tail => by
    rw [Expr.areWhole, Bool.and_eq_true] at whole
    rw [lowerLast]
    · exact gives_lowerLast (next :: items) whole.2 tail
    · exact List.cons_ne_nil _ _

theorem gives_lowerBranches :
    (branches : List Expr) → Expr.areWhole branches = true → (labels : List Label) →
      (done : Label) → (tail : Bool) → GivesCode (lowerBranches context branches labels done tail)
  | [], _, labels, _, _ => by
    rw [lowerBranches]
    · exact .pure rfl
    · intro _ _ _ _ none
      cases none
  | branch :: branches, _, [], _, _ => by
    rw [lowerBranches]
    · exact .pure rfl
    · intro _ _ _ _ _ none
      cases none
  | branch :: branches, whole, label :: labels, done, tail => by
    rw [Expr.areWhole, Bool.and_eq_true] at whole
    rw [lowerBranches]
    refine (gives_lower branch whole.1 tail).bind fun code complete => ?_
    refine (gives_lowerBranches branches whole.2 labels done tail).bind fun rest others => ?_
    refine .pure ?_
    split <;> simp [complete, others]

end

/-! ## Equality functions -/

theorem answers_compareValues (program : Program) (type : TypeId) :
    Answers (fun code => code.isComplete = true) (compareValues program type) := by
  unfold compareValues
  split
  case h_10 => exact .error rfl
  all_goals exact .ok rfl

theorem gives_compareFields (program : Program) (scope : Bytes) (position : Nat)
    (fields : List FieldDecl) : GivesCode (compareFields program scope position fields) := by
  induction fields generalizing position with
  | nil => exact .pure rfl
  | cons field fields ih =>
    rw [compareFields]
    refine (gives_fresh scope).bind fun next _ => ?_
    refine (Gives.lift (answers_fieldByte _)).bind fun byte _ => ?_
    refine (Gives.lift (answers_compareValues program field.type)).bind fun compare complete => ?_
    refine (ih (position + 1)).bind fun rest others => .pure ?_
    simp [loadBoth, answer, complete, others]

theorem gives_structEquality (program : Program) (scope : Bytes) (fields : List FieldDecl) :
    GivesCode (structEquality program scope fields) := by
  unfold structEquality
  split
  · exact .pure rfl
  · next field =>
    refine (Gives.lift (answers_compareValues program field.type)).bind fun compare complete => ?_
    refine .pure ?_
    simp [complete]
  · refine (gives_compareFields program scope 0 _).bind fun code complete => .pure ?_
    simp [answer, complete]

theorem gives_selectMember (scope : Bytes) (number : Nat) (members : List TypeId) :
    Gives (fun (pair : Code × List Label) => pair.1.isComplete = true)
      (selectMember scope number members) := by
  induction members generalizing number with
  | nil => exact .pure rfl
  | cons member members ih =>
    rw [selectMember]
    refine (gives_fresh scope).bind fun label _ => ?_
    refine (ih (number + 1)).bind fun pair complete => .pure ?_
    simp [complete]

theorem answers_compareMembers (program : Program) (equal : Label)
    (members : List (TypeId × Label)) :
    Answers (fun code => code.isComplete = true) (compareMembers program equal members) := by
  induction members with
  | nil => exact .ok rfl
  | cons pair members ih =>
    obtain ⟨member, label⟩ := pair
    rw [compareMembers]
    refine (answers_compareValues program member).bind fun compare complete => ?_
    refine ih.bind fun rest others => .ok ?_
    simp [loadBoth, answer, complete, others]

theorem gives_unionEquality (program : Program) (scope : Bytes) (members : List TypeId) :
    GivesCode (unionEquality program scope members) := by
  unfold unionEquality
  refine (gives_fresh scope).bind fun sameMember _ => (gives_fresh scope).bind fun equal _ => ?_
  refine (gives_selectMember scope 0 members).bind fun pair complete => ?_
  refine (Gives.lift (answers_compareMembers program equal _)).bind fun compare others => .pure ?_
  simp [loadBoth, answer, complete, others]

theorem gives_nullableEquality (scope : Bytes) (nullable : Nullable) :
    GivesCode (nullableEquality scope nullable) :=
  (gives_fresh scope).bind fun _ _ => (gives_fresh scope).bind fun _ _ => .pure rfl

/-- A type whose parts are known has a complete equality function, or there is a reported cause
why not. -/
theorem gives_equalityFunction {type : TypeId} {parts : List TypeId}
    (known : comparedParts program type = .ok parts) :
    GivesCode (equalityFunction program type) := by
  have framed : ∀ {body : Lower Code}, GivesCode body → GivesCode (body >>= fun code =>
      pure (bind (equalityLabel type) ++ emit (.reserveConsts 2) ++ emit (.storeConst 1) ++
        emit (.storeConst 0) ++ code ++ plain .fail)) :=
    fun given => given.bind fun code complete => .pure (by simp [complete])
  unfold comparedParts at known
  unfold equalityFunction
  split at known
  · next struct =>
    split at known
    · next definition defined =>
      exact framed (gives_structEquality _ _ _)
    · cases known
  · next union =>
    split at known
    · next definition defined =>
      rw [defined]
      cases nullable? program type with
      | some nullable => exact framed (gives_nullableEquality _ _)
      | none => exact framed (gives_unionEquality _ _ _)
    · cases known
  · cases known

/-! ## Compared types -/

/-- The expressions in which equality calls are looked for. -/
def comparingExprs (program : Program) : List Expr :=
  (program.userFuncs.filterMap fun id => (program.def? id).map FuncDef.body) ++
    program.statements.toList.map Statement.expr

/-- The types that an equality call of the program needs a function for: those of its operands and
those of the parts of compared types. -/
inductive Compared (program : Program) : TypeId → Prop
  | operand {expr node operand : Expr} {type : TypeId} (among : expr ∈ comparingExprs program)
      (inside : node ∈ expr.walk fun _ => true)
      (compared : comparedOperand? program node = some operand)
      (typed : operand.type? = some type) : Compared program type
  | part {type part : TypeId} {parts : List TypeId} (whole : Compared program type)
      (known : comparedParts program type = .ok parts) (among : part ∈ parts) :
      Compared program part

/-- Whether a type is declared to be a struct or a union and has no definition. -/
def isUndefined (program : Program) (type : TypeId) : Bool :=
  match program.kind? type with
  | some .struct => (program.struct? type).isNone
  | some .union => (program.union? type).isNone
  | _ => false

theorem comparedParts_eq_error {type : TypeId} {cause : Cause}
    (failed : comparedParts program type = .error cause) :
    cause.isInconsistent = false ∨
      cause = .undefinedType type ∧ isUndefined program type = true := by
  unfold comparedParts at failed
  unfold isUndefined
  split at failed
  · split at failed
    · cases failed
    · next undefined =>
      cases failed
      exact Or.inr ⟨rfl, by simp only [*, Option.isNone_none]⟩
  · split at failed
    · cases failed
    · next undefined =>
      cases failed
      exact Or.inr ⟨rfl, by simp only [*, Option.isNone_none]⟩
  · cases failed
    exact Or.inl rfl

/-- How the search for compared types can end. -/
def Reached (program : Program) : Except Cause (List TypeId) → Prop
  | .ok found => ∀ type ∈ found, ∃ parts, comparedParts program type = .ok parts
  | .error cause => cause.isInconsistent = false ∨
      ∃ type, cause = .undefinedType type ∧ Compared program type ∧ isUndefined program type = true

theorem reached_reachTypes (fuel : Nat) {pending found : List TypeId}
    (compared : ∀ type ∈ pending, Compared program type)
    (known : ∀ type ∈ found, ∃ parts, comparedParts program type = .ok parts) :
    Reached program (reachTypes program fuel pending found) := by
  induction fuel generalizing pending found with
  | zero => exact known
  | succ fuel ih =>
    cases pending with
    | nil => exact known
    | cons type pending =>
      rw [reachTypes]
      have later : ∀ other ∈ pending, Compared program other :=
        fun other member => compared other (List.mem_cons_of_mem _ member)
      split
      · exact ih later known
      · have first := compared type List.mem_cons_self
        cases expanded : comparedParts program type with
        | error cause =>
          rcases comparedParts_eq_error expanded with reported | ⟨rfl, undefined⟩
          · exact Or.inl reported
          · exact Or.inr ⟨type, rfl, first, undefined⟩
        | ok parts =>
          refine ih (fun other member => ?_) fun other member => ?_
          · rcases List.mem_append.1 member with among | among
            · exact .part first expanded among
            · exact later other among
          · rcases List.mem_cons.1 member with rfl | among
            · exact ⟨parts, expanded⟩
            · exact known other among

theorem reached_foldlM {operands : List Expr} {found : List TypeId}
    (compared : ∀ operand ∈ operands, ∃ type, operand.type? = some type ∧ Compared program type)
    (known : ∀ type ∈ found, ∃ parts, comparedParts program type = .ok parts) :
    Reached program (operands.foldlM
      (fun found operand => do
        match operand.type? with
        | none => throw .untyped
        | some type => reachTypes program (reachBound program) [type] found)
      found) := by
  induction operands generalizing found with
  | nil => exact known
  | cons operand operands ih =>
    obtain ⟨type, typed, isCompared⟩ := compared operand List.mem_cons_self
    have later := fun other member => compared other (List.mem_cons_of_mem _ member)
    simp only [List.foldlM_cons, typed]
    have reached : Reached program (reachTypes program (reachBound program) [type] found) :=
      reached_reachTypes _ (fun other member => List.mem_singleton.1 member ▸ isCompared) known
    cases done : reachTypes program (reachBound program) [type] found with
    | error cause =>
      rw [done] at reached
      exact reached
    | ok next =>
      rw [done] at reached
      exact ih later reached

theorem isWhole_of_mem_comparingExprs (whole : program.IsWhole) {expr : Expr}
    (among : expr ∈ comparingExprs program) : expr.isWhole = true := by
  rcases List.mem_append.1 among with among | among
  · obtain ⟨id, _, found⟩ := List.mem_filterMap.1 among
    obtain ⟨definition, defined, rfl⟩ := Option.map_eq_some_iff.1 found
    exact whole.1 definition (List.mem_of_find?_eq_some defined)
  · obtain ⟨statement, member, rfl⟩ := List.mem_map.1 among
    exact whole.2 statement (Array.mem_toList_iff.1 member)

theorem isWhole_of_comparedOperand? {node operand : Expr} (whole : node.isWhole = true)
    (compared : comparedOperand? program node = some operand) : operand.isWhole = true := by
  unfold comparedOperand? at compared
  split at compared
  · next left right mode result =>
    simp only [Expr.isWhole, Expr.areWhole, Bool.and_eq_true] at whole
    split at compared
    · exact Option.some.inj compared ▸ whole.1
    · exact Option.some.inj compared ▸ whole.1
    · cases compared
  · cases compared

def comparedOperands (program : Program) : List Expr :=
  (comparingExprs program).flatMap fun expr =>
    (expr.walk fun _ => true).filterMap (comparedOperand? program)

theorem exists_compared_type (whole : program.IsWhole) {operand : Expr}
    (among : operand ∈ comparedOperands program) :
    ∃ type, operand.type? = some type ∧ Compared program type := by
  obtain ⟨expr, among, inside⟩ := List.mem_flatMap.1 among
  obtain ⟨node, visited, compared⟩ := List.mem_filterMap.1 inside
  have nodeWhole := Expr.isWhole_of_mem_walk expr
    (isWhole_of_mem_comparingExprs whole among) visited
  obtain ⟨type, typed⟩ :=
    operand.exists_type?_of_isWhole (isWhole_of_comparedOperand? nodeWhole compared)
  exact ⟨type, typed, .operand among visited compared typed⟩

/-- The search ends with types whose parts are known, with a reported cause, or at a type without
a definition. -/
theorem reached_equalityTypes (whole : program.IsWhole) :
    Reached program (equalityTypes program) := by
  have searched := reached_foldlM (fun _ => exists_compared_type whole)
    (fun _ (none : _ ∈ []) => nomatch none)
  have sorted : ∀ {result : Except Cause (List TypeId)}, Reached program result →
      Reached program (result >>= fun found => pure (found.mergeSort (· ≤ ·))) := by
    intro result reached
    cases result with
    | error cause => exact reached
    | ok found => exact fun type member => reached type (List.mem_mergeSort.1 member)
  exact sorted searched

/-! ## Units -/

theorem answers_mapM {items : List α} {write : α → Except Cause Fragment.Command}
    (each : ∀ item, Answers (fun command => command.isComplete = true) (write item)) :
    Answers (fun code : Code => code.isComplete = true) (items.mapM write) := by
  induction items with
  | nil => exact .ok rfl
  | cons item items ih =>
    rw [List.mapM_cons]
    refine (each item).bind fun command complete => ih.bind fun rest others => ?_
    refine .ok ?_
    rw [Code.isComplete, List.all_cons, complete]
    exact others

theorem answers_reserve (slots : SlotTable) :
    Answers (fun code => code.isComplete = true) (CodeUnit.reserve slots) := by
  unfold CodeUnit.reserve
  split
  · exact .ok rfl
  · split
    · exact .ok rfl
    · exact .error rfl

theorem answers_storeInputs (slots : SlotTable) :
    Answers (fun code => code.isComplete = true) (CodeUnit.storeInputs slots) :=
  answers_mapM fun slot => (answers_slotByte slot).bind fun _ _ => .ok rfl

def CodeUnit.IsSound (program : Program) : CodeUnit → Prop
  | .equality type => ∃ parts, comparedParts program type = .ok parts
  | .function id => ∃ definition, program.def? id = some definition ∧
      definition.body.isWhole = true
  | .statement _ body => body.expr.isWhole = true

theorem isSound_of_units (whole : program.IsWhole) {all : List CodeUnit}
    (listed : units program = .ok all) : ∀ unit ∈ all, unit.IsSound program := by
  have reached := reached_equalityTypes whole
  unfold units at listed
  split at listed
  · cases listed
  · next types found =>
    rw [found] at reached
    cases listed
    intro unit member
    rcases List.mem_append.1 member with member | member
    · rcases List.mem_append.1 member with member | member
      · obtain ⟨type, among, rfl⟩ := List.mem_map.1 member
        exact reached type among
      · obtain ⟨id, among, rfl⟩ := List.mem_map.1 member
        obtain ⟨func, _, isUser⟩ := List.mem_filterMap.1 among
        split at isUser
        · next holds =>
          cases isUser
          simp only [Bool.and_eq_true, Option.isSome_iff_exists] at holds
          obtain ⟨definition, defined⟩ := holds.2
          exact ⟨definition, defined, whole.1 definition (List.mem_of_find?_eq_some defined)⟩
        · cases isUser
    · obtain ⟨⟨statement, number⟩, among, rfl⟩ := List.mem_map.1 member
      exact whole.2 statement (Array.mem_toList_iff.1 (List.fst_mem_of_mem_zipIdx among))

theorem gives_code {unit : CodeUnit} (sound : unit.IsSound program) :
    GivesCode (unit.code program) := by
  cases unit with
  | equality type =>
    obtain ⟨parts, known⟩ := sound
    exact gives_equalityFunction known
  | function id =>
    obtain ⟨definition, defined, whole⟩ := sound
    simp only [CodeUnit.code, defined]
    refine (Gives.lift (answers_reserve _)).bind fun room completeRoom => ?_
    refine (Gives.lift (answers_storeInputs _)).bind fun inputs completeInputs => ?_
    refine (gives_lower definition.body whole true).bind fun body complete => .pure ?_
    simp [completeRoom, completeInputs, complete]
  | statement number statement =>
    simp only [CodeUnit.code]
    refine (Gives.lift (answers_reserve _)).bind fun room completeRoom => ?_
    refine (gives_lower statement.expr sound false).bind fun body complete => .pure ?_
    simp only [Code.isComplete_append, completeRoom, complete]
    rfl

/-! ## Joining -/

end Lowering

namespace Fragment

variable {fragment : Fragment} {error : AssembleError}

/-- Whether a fragment has no fault but one about a label. -/
def IsSound (fragment : Fragment) : Prop :=
  ∀ error, fragment.fault = some error → error.isLabel = true

theorem isSound_empty (scope : Bytes) : (empty scope).IsSound :=
  fun _ none => nomatch none

theorem IsSound.report (sound : fragment.IsSound) (isLabel : error.isLabel = true) :
    (fragment.report error).IsSound := by
  unfold Fragment.report
  split
  · exact sound
  · intro other same
    cases same
    exact isLabel

theorem IsSound.bindAt (sound : fragment.IsSound) (name : Label) (position : Nat) :
    (fragment.bindAt name position).IsSound := by
  unfold Fragment.bindAt
  split
  · exact sound.report rfl
  · exact sound

theorem IsSound.pushLiteral (sound : fragment.IsSound) (text : Bytes) :
    (fragment.pushLiteral text).IsSound := by
  obtain ⟨literals, literalNumbers, equation, _⟩ := fragment.literalNumber_spec text
  intro error
  unfold Fragment.pushLiteral
  simp only [equation]
  exact sound error

theorem IsSound.apply {command : Command} (sound : fragment.IsSound)
    (complete : command.isComplete = true) : (fragment.apply command).IsSound := by
  cases command with
  | bind label => exact sound.bindAt label _
  | entry label => exact sound
  | code byte => cases complete
  | emit instruction =>
    cases instruction with
    | plain op =>
      have bare : op.operands.isEmpty = true := complete
      simp only [Fragment.apply, emit]
      rw [if_pos bare]
      exact sound
    | loadString text =>
      have pushed : (fragment.pushOp .loadString).IsSound := sound
      exact pushed.pushLiteral text
    | _ => exact sound

theorem IsSound.foldl_apply {code : Lowering.Code} (sound : fragment.IsSound)
    (complete : code.isComplete = true) : (code.foldl Fragment.apply fragment).IsSound := by
  induction code generalizing fragment with
  | nil => exact sound
  | cons command code ih =>
    rw [Lowering.Code.isComplete, List.all_cons, Bool.and_eq_true] at complete
    exact ih (sound.apply complete.1) complete.2

theorem IsSound.adoptLabels (sound : fragment.IsSound) (labels : Std.HashMap Label Nat)
    (base : Nat) : (fragment.adoptLabels labels base).IsSound := by
  unfold Fragment.adoptLabels
  generalize Bytes.sort labels.keys = names
  induction names generalizing fragment with
  | nil => exact sound
  | cons name names ih => exact ih (sound.bindAt name _)

theorem IsSound.append {other : Fragment} (sound : fragment.IsSound) (otherSound : other.IsSound) :
    (fragment.append other).IsSound := by
  intro error
  simp only [Fragment.append, adoptLiterals_fault]
  refine IsSound.adoptLabels ?_ other.labels _ error
  split
  · next first faulty => exact sound.report (otherSound first faulty)
  · exact sound

theorem IsSound.foldl_append {parts : List Fragment} (sound : fragment.IsSound)
    (partsSound : ∀ part ∈ parts, part.IsSound) :
    (parts.foldl Fragment.append fragment).IsSound := by
  induction parts generalizing fragment with
  | nil => exact sound
  | cons part parts ih =>
    exact ih (sound.append (partsSound part List.mem_cons_self))
      fun other member => partsSound other (List.mem_cons_of_mem _ member)

theorem exists_of_foldlM_eq_error {ε α β : Type} {step : β → α → Except ε β} {items : List α}
    {start : β} {error : ε} (failed : items.foldlM step start = .error error) :
    ∃ before item, step before item = .error error := by
  induction items generalizing start with
  | nil => cases failed
  | cons item items ih =>
    rw [List.foldlM_cons] at failed
    cases moved : step start item with
    | error first =>
      rw [moved] at failed
      cases failed
      exact ⟨start, item, moved⟩
    | ok next =>
      rw [moved] at failed
      exact ih failed

theorem exists_of_mapM_eq_error {ε α β : Type} {step : α → Except ε β} {items : List α} {error : ε}
    (failed : items.mapM step = .error error) : ∃ item, step item = .error error := by
  rw [List.mapM_eq_reverse_foldlM_cons] at failed
  cases folded : items.foldlM (fun acc item => (· :: acc) <$> step item) [] with
  | ok all =>
    rw [folded] at failed
    cases failed
  | error first =>
    rw [folded] at failed
    cases failed
    obtain ⟨before, item, moved⟩ := exists_of_foldlM_eq_error folded
    refine ⟨item, ?_⟩
    cases done : step item with
    | ok value =>
      rw [done] at moved
      cases moved
    | error first =>
      rw [done] at moved
      cases moved
      rfl

theorem isLabel_of_resolveUse {code : Bytes} {site : Nat × Label}
    (failed : fragment.resolveUse code site = .error error) : error.isLabel = true := by
  unfold resolveUse at failed
  split at failed
  · cases failed
  · cases failed
    rfl

theorem isLabel_of_resolveEntry {label : Label}
    (failed : fragment.resolveEntry label = .error error) : error.isLabel = true := by
  unfold resolveEntry at failed
  split at failed
  · cases failed
  · cases failed
    rfl

theorem IsSound.close (sound : fragment.IsSound) (failed : fragment.close = .error error) :
    error.isLabel = true := by
  unfold Fragment.close at failed
  cases faulty : fragment.fault with
  | some first =>
    rw [faulty] at failed
    cases failed
    exact sound _ faulty
  | none =>
    simp only [faulty] at failed
    cases filled : fragment.labelUses.foldlM fragment.resolveUse fragment.code with
    | error first =>
      simp only [filled] at failed
      cases failed
      rw [← Array.foldlM_toList] at filled
      obtain ⟨_, _, unresolved⟩ := exists_of_foldlM_eq_error filled
      exact isLabel_of_resolveUse unresolved
    | ok code =>
      cases starts : fragment.entries.mapM fragment.resolveEntry with
      | error first =>
        simp only [filled, starts] at failed
        cases failed
        have listed : fragment.entries.toList.mapM fragment.resolveEntry = .error error := by
          rw [← Array.toList_mapM, starts]
          rfl
        obtain ⟨_, unresolved⟩ := exists_of_mapM_eq_error listed
        exact isLabel_of_resolveEntry unresolved
      | ok entries =>
        simp only [filled, starts] at failed
        cases failed

end Fragment

namespace Lowering

theorem answers_fragment {program : Program} {unit : CodeUnit} (sound : unit.IsSound program) :
    Answers Fragment.IsSound (unit.fragment program) := by
  have given := gives_code sound 0
  have runs : (unit.code program).run 0 = unit.code program 0 := rfl
  unfold CodeUnit.fragment
  rw [runs]
  cases done : unit.code program 0 with
  | error cause =>
    rw [done] at given
    cases given with
    | error reported => exact .error reported
  | ok pair =>
    rw [done] at given
    cases given with
    | ok complete => exact .ok ((Fragment.isSound_empty _).foldl_apply complete)

theorem isReported_of_link {parts : List Fragment} {error : Error}
    (sound : ∀ part ∈ parts, part.IsSound) (failed : link parts = .error error) :
    error.isReported = true := by
  unfold link at failed
  split at failed
  · cases failed
  · next first closed =>
    cases failed
    exact ((Fragment.isSound_empty _).foldl_append sound).close closed

theorem fragments_spec {program : Program} {all : List CodeUnit}
    (sound : ∀ unit ∈ all, unit.IsSound program) :
    match (fragments program all).2 with
    | .ok parts => ∀ part ∈ parts, part.IsSound
    | .error error => error.isReported = true := by
  induction all with
  | nil => exact fun _ none => nomatch none
  | cons unit rest ih =>
    have first := answers_fragment (sound unit List.mem_cons_self)
    have others := ih
      fun other member => sound other (List.mem_cons_of_mem _ member)
    rw [fragments]
    cases made : unit.fragment program with
    | error cause =>
      rw [made] at first
      cases first with
      | error reported => simp [Error.isReported, reported]
    | ok fragment =>
      rw [made] at first
      obtain ⟨firstSound⟩ := first
      cases produced : (fragments program rest).2 with
      | error error =>
        rw [produced] at others
        simp only [produced]
        exact others
      | ok parts =>
        rw [produced] at others
        simp only [produced]
        intro part member
        rcases List.mem_cons.1 member with rfl | member
        · exact firstSound
        · exact others part member

/-- A program that was read has an assembly, or lowering reports why not; it dies of nothing but a
compared struct or union that has no definition. -/
theorem failures_reported {data : Bytes} {program : Program} {error : Error}
    (loaded : Program.load data = .ok program) (failed : generate program = .error error) :
    error.isReported = true ∨ ∃ type, error = .unit ByteArray.empty (.undefinedType type) ∧
      Compared program type ∧ isUndefined program type = true := by
  have whole := Program.isWhole_of_load loaded
  unfold generate outcome at failed
  cases listed : units program with
  | error first =>
    simp only [listed] at failed
    cases failed
    have reached := reached_equalityTypes whole
    unfold units at listed
    split at listed
    · next cause found =>
      cases listed
      rw [found] at reached
      rcases reached with reported | ⟨type, rfl, compared, undefined⟩
      · exact Or.inl (by simpa [Error.isReported] using reported)
      · exact Or.inr ⟨type, rfl, compared, undefined⟩
    · cases listed
  | ok all =>
    refine Or.inl ?_
    have spec := fragments_spec (isSound_of_units whole listed)
    simp only [listed] at failed
    cases produced : (fragments program all).2 with
    | error first =>
      rw [produced] at spec failed
      cases failed
      exact spec
    | ok parts =>
      rw [produced] at spec failed
      exact isReported_of_link spec failed

/-- A file with one struct type, which has no definition, and a statement that compares two values
of it. -/
def undefinedComparison : Bytes :=
  Bytes.ofList ([0x9c, 0xaa] ++ Bytes.toList Program.magic ++
    [0x01, 0x91, 0x93, 0x00, 0x08, 0xa0, 0xc0, 0xc0, 0xc0, 0xc0, 0xc0, 0xc0,
      0x91, 0x95, 0x00, 0xa0, 0x5d, 0xc0, 0x03, 0xc0,
      0x91, 0x92, 0xc0, 0x82, 0xa1, 0x6b, 0x03, 0xa1, 0x61, 0x92,
      0x81, 0xa1, 0x6b, 0x0c, 0x81, 0xa1, 0x6b, 0x0c])

theorem generate_undefinedComparison :
    ∃ program, Program.load undefinedComparison = .ok program ∧
      generate program = .error (.unit ByteArray.empty (.undefinedType 0)) := by
  have outcome : (Program.load undefinedComparison).map generate =
      .ok (.error (.unit ByteArray.empty (.undefinedType 0))) := by
    decide
  cases loaded : Program.load undefinedComparison with
  | error error =>
    rw [loaded] at outcome
    cases outcome
  | ok program =>
    rw [loaded] at outcome
    exact ⟨program, rfl, Except.ok.inj outcome⟩

theorem failures_reported_undefined :
    ∃ program, Program.load undefinedComparison = .ok program ∧
      ∃ error, generate program = .error error ∧
        (error.isReported = true ∨ ∃ type, error = .unit ByteArray.empty (.undefinedType type) ∧
          Compared program type ∧ isUndefined program type = true) := by
  obtain ⟨program, loaded, failed⟩ := generate_undefinedComparison
  exact ⟨program, loaded, _, failed, failures_reported loaded failed⟩

/-- Reading the file succeeds, and lowering what was read dies of the missing definition. -/
theorem undefined_comparison_dies :
    ¬ ∀ (data : Bytes) (program : Program) (error : Error), Program.load data = .ok program →
      generate program = .error error → error.isReported = true := by
  intro promised
  obtain ⟨program, loaded, failed⟩ := generate_undefinedComparison
  exact absurd (promised undefinedComparison program _ loaded failed) (by decide)

end Lowering

end WordMachine
