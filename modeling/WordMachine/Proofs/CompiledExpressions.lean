import WordMachine.Proofs.CodeLabels
import WordMachine.Proofs.PlainExpressions

/-!
The code of all expressions: groups, unions that are made, calls and choices do what their
evaluation does if the code of their parts does, so every expression does by induction.
-/

namespace WordMachine.Evaluation

open Lowering (Code Compiles bind callTo emit funcLabel memberNumber nullable? plain positionMode)

section

variable {compilation : Compilation} {site : Site compilation} {fuel first last : Nat} {tail : Bool}
variable {position : Nat} {level : Level} {operands : List Typed} {state : State}
variable {session : Session} {code : Code}
variable {arguments branches items : List Expr} {result : TypeId}

attribute [local simp] evaluate evaluateAll evaluateGroup countUntilHolds evaluateAt

/-! ## Groups -/

/-- The values of all expressions but the last are dropped. -/
theorem agrees_group {type : TypeId} (each : ∀ item ∈ items, site.Correct fuel item)
    (compiles : Compiles site.context (.group items tail) first code last)
    (typed : areTyped site.scope compilation.usable items = true)
    (known : Expr.type?.lastType? items = some type)
    (placed : Placed compilation.image position code)
    (concludes : Concludes compilation tail (position + Code.size code))
    (depicts : Depicts compilation position
      (level.config (site.window state.locals) operands state.effects) session) :
    Agrees compilation State.effects (fuel + 1)
      (evaluateGroup site.scope (invoke compilation.program fuel) items state)
      (fun value state => Delivered compilation tail (position + Code.size code) level
        (site.window state.locals) ((type, value) :: operands) state.effects) session := by
  induction items generalizing code first position state session with
  | nil => cases known
  | cons item items ih =>
    simp only [areTyped, Bool.and_eq_true] at typed
    cases compiles with
    | final itemCompiles =>
      rw [evaluateGroup]
      exact (each item List.mem_cons_self).agrees itemCompiles typed.1 known placed concludes
        depicts
    | next itemCompiles others =>
      obtain ⟨itemType, itemKnown⟩ := exists_type? item typed.1
      simp only [List.append_assoc] at placed
      rw [evaluateGroup.eq_3 _ _ _ _ (by simp)]
      refine ((each item List.mem_cons_self).operand itemCompiles typed.1 itemKnown placed.first
        depicts).bind fun value middle after shown => ?_
      refine .of_leads (shown.pop placed.second.first.single).leads fun after shown => ?_
      simp only [Code.size_append, ← Nat.add_assoc] at concludes ⊢
      exact ih (fun other member => each other (List.mem_cons_of_mem _ member))
        others typed.2 known placed.second.second concludes shown

theorem correct_group (each : ∀ item ∈ items, site.Correct fuel item) :
    site.Correct fuel (.group items) := by
  refine ⟨fun compiles typed known placed concludes depicts => ?_⟩
  cases compiles with
  | literal none => cases none
  | group filled compiles =>
    rw [isTyped, Bool.and_eq_true] at typed
    rw [evaluate]
    exact agrees_group each compiles typed.1 known placed concludes depicts

/-! ## Calls -/

theorem shape_of_callFits {decl : FuncDecl} {argument : Expr} {member : TypeId} {mode : UInt8}
    (kind : FuncKind.ofCode? decl.kind = some .makeUnion) (known : argument.type? = some member)
    (fits : callFits compilation.program compilation.usable decl (typesOf [argument]) mode result =
      true) :
    ∃ members, shape? compilation.program result = some (.union members) ∧ member ∈ members := by
  have types : typesOf [argument] = [member] := typesOf_cons known []
  unfold callFits kindFits at fits
  simp only [types, kind, operation?] at fits
  split at fits
  · next members shape => exact ⟨members, shape, List.contains_iff_mem.1 fits⟩
  · cases fits

/-- The value of a union is made of the one that its operand leaves. -/
theorem agrees_makeUnion {decl : FuncDecl} {argument : Expr} {member : TypeId} {mode : UInt8}
    {goal : Value → State → Session → Prop} (correct : site.Correct fuel argument)
    (kind : FuncKind.ofCode? decl.kind = some .makeUnion) (known : argument.type? = some member)
    (compiles : Compiles site.context (.one argument false) first code last)
    (typed : areTyped site.scope compilation.usable [argument] = true)
    (placed : Placed compilation.image position code) (depicts : Depicts compilation position
      (level.config (site.window state.locals) operands state.effects) session)
    (made : ∀ {value : Value} {state : State} {after : Session},
      Depicts compilation (position + Code.size code)
        (level.config (site.window state.locals) ((member, value) :: operands) state.effects)
          after →
      after.Leads (goal (.union member value) state)) :
    Agrees compilation State.effects (fuel + 1)
      ((evaluateAll site.scope (invoke compilation.program fuel) [argument] >>= fun values =>
        perform (callDeclared (invoke compilation.program fuel) decl [argument] mode values)) state)
      goal session := by
  have makes : ∀ value,
      callDeclared (invoke compilation.program fuel) decl [argument] mode [value] =
      pure (.union member value) := by
    intro value
    simp only [callDeclared, kind, List.map_cons, List.map_nil, known]
  rw [areTyped, Bool.and_eq_true] at typed
  simp only [evaluateAll, bind_assoc, pure_bind]
  refine (correct.operand compiles typed.1 known placed depicts).bind
    fun value middle after shown => ?_
  refine .perform ?_
  rw [makes]
  exact made shown

theorem correct_call {func : FuncId} {mode : UInt8} (calls : CallsAgree compilation fuel)
    (each : ∀ item ∈ arguments, site.Correct fuel item) :
    site.Correct fuel (.call func arguments mode result) := by
  refine ⟨fun {_ _ _ _ _ position level operands _ _} compiles typed known placed concludes
    depicts => ?_⟩
  cases known
  rw [isTyped, Bool.and_eq_true] at typed
  obtain ⟨argumentsTyped, fits⟩ := typed
  rw [evaluate]
  cases compiles with
  | literal none => cases none
  | @makeNullable _ decl argument member _ _ nullable _ _ code _ declared kind known form
      compiles =>
    have declared : site.scope.program.func? func = some decl := declared
    have form : nullable? compilation.program result = some nullable := form
    simp only [declared] at fits ⊢
    obtain ⟨members, shape, inside⟩ := shape_of_callFits kind known fits
    obtain ⟨⟨others, same, two⟩, empty, fields, wide, many⟩ := compilation.tables.nullable form
    cases shape.symm.trans same
    refine (agrees_makeUnion (each argument List.mem_cons_self) kind known compiles argumentsTyped
      placed.first depicts fun {value state after} shown => ?_).delivered concludes
    rw [Code.size_append, ← Nat.add_assoc]
    rcases (two member).1 inside with rfl | rfl
    · simp only [beq_self_eq_true, if_true] at placed ⊢
      obtain ⟨_, _, represents⟩ := shown.represented List.mem_cons_self
      obtain ⟨fields, same, none⟩ := represents.exists_fields empty
      cases List.length_eq_zero_iff.1 none
      have same : value = .struct [] := same
      subst same
      refine (shown.pop placed.second.first.single).leads.trans fun after shown => ?_
      exact (shown.makeNull (result, .union nullable.nullType (.struct []))
        placed.second.second.single (.null form)).leads
    · simp only [beq_false_of_ne (compilation.tables.nullable_ne form).symm, Bool.false_eq_true,
        if_false]
      exact .here (shown.retype fun represents => .present form represents)
  | @makeTagged _ decl argument member _ _ number _ _ code _ declared kind known form numbered
      compiles =>
    have declared : site.scope.program.func? func = some decl := declared
    have form : nullable? compilation.program result = none := form
    have numbered : memberNumber compilation.program result member = .ok number := numbered
    simp only [declared] at fits ⊢
    simp only [List.append_assoc] at placed
    refine .of_leads (depicts.loadInt placed.first.single
      (hasScalar_of_kind compilation.tables.int (by simp))).leads fun after shown => ?_
    refine (agrees_makeUnion (each argument List.mem_cons_self) kind known compiles argumentsTyped
      placed.second.first shown fun {value state after} shown => ?_).delivered concludes
    simp only [Code.size_append, ← Nat.add_assoc]
    have shown : Depicts compilation _ (level.config (site.window state.locals)
      ([(TypeId.int, .int number), (member, value)].reverse ++ operands) state.effects) after :=
        shown
    refine (shown.makeStruct (result, .union member value) placed.second.second.single rfl
      fun {lazies heap word fields} contains represents => ?_).leads
    obtain ⟨first, _, stands, others, same⟩ := List.forall₂_cons_left_iff.1 represents
    obtain ⟨second, _, inner, none, rfl⟩ := List.forall₂_cons_left_iff.1 others
    cases List.forall₂_nil_left_iff.1 none
    have stored : fields = #[first, second] := by
      rw [← Array.toList_inj, same]
    have tag : first = .ofInt number := by
      cases stands
      rfl
    rw [stored, tag] at contains
    exact .tagged form numbered contains inner
  | @call _ decl _ _ _ _ _ argumentCode rest _ declared union argumentsCompile follows =>
    have declared : site.scope.program.func? func = some decl := declared
    simp only [declared] at fits ⊢
    refine (site.agrees_all each argumentsCompile argumentsTyped placed.first depicts).bind
      fun values middle after delivered => ?_
    obtain ⟨given, types, rfl, shown⟩ := delivered
    have length : arguments.length = given.length := by
      rw [← length_typesOf argumentsTyped, ← types, List.length_map]
    refine .perform ?_
    rw [Code.size_append, ← Nat.add_assoc] at concludes ⊢
    exact calls.declared declared union follows (types ▸ fits) types length placed.second
      concludes shown

theorem correct_callDynamic {target : Expr} {fork : Bool} (calls : CallsAgree compilation fuel)
    (each : ∀ item ∈ arguments, site.Correct fuel item) (correct : site.Correct fuel target) :
    site.Correct fuel (.callDynamic target arguments fork result) := by
  refine ⟨fun {tail _ _ _ _ _ _ _ _ _} compiles typed known placed concludes depicts => ?_⟩
  cases compiles with
  | literal none => cases none
  | callDynamic argumentsCompile targetCompiles fits =>
    cases known
    simp only [isTyped, Bool.and_eq_true, Bool.not_eq_true', beq_iff_eq] at typed
    obtain ⟨⟨⟨argumentsTyped, targetTyped⟩, rfl⟩, shaped⟩ := typed
    obtain ⟨targetType, targetKnown, shape⟩ := Option.bind_eq_some_iff.1 shaped
    have shape :
        shape? compilation.program targetType = some (.delegate (typesOf arguments) result) :=
      shape
    simp only [List.append_assoc] at placed
    rw [evaluate]
    refine (site.agrees_all each argumentsCompile argumentsTyped placed.first depicts).bind
      fun values middle after delivered => ?_
    obtain ⟨given, types, rfl, shown⟩ := delivered
    refine (correct.operand targetCompiles targetTyped targetKnown placed.second.first shown).bind
      fun value middle after shown => ?_
    obtain ⟨_, _, represents⟩ := shown.represented List.mem_cons_self
    obtain ⟨func, bound, rfl⟩ := represents.exists_function shape
    refine .perform ?_
    rw [← types] at shape
    have called := calls.callDynamic tail shape placed.second.second.single shown
    simp only [Code.size_append, ← Nat.add_assoc]
    exact called

theorem Site.exists_slotType {keep : SlotKind → Bool} {slot : SlotId}
    (member : slot ∈ SlotTable.withKind site.slots keep) :
    ∃ type, site.scope.slotType? slot = some type := by
  obtain ⟨decl, inside, kept⟩ := List.mem_filterMap.1 member
  obtain ⟨index, found⟩ := List.mem_iff_getElem?.1 inside
  have same : decl.id = slot := by
    split at kept
    · split at kept
      · exact Option.some.inj kept
      · cases kept
    · cases kept
  have place : slot.toNat = index := same ▸ isNumbered_getElem? site.numbered found
  refine ⟨decl.type, ?_⟩
  change (site.slots[slot.toNat]?).map SlotDecl.type = _
  rw [place, found]
  rfl

theorem correct_callSelf (calls : CallsAgree compilation fuel)
    (each : ∀ item ∈ arguments, site.Correct fuel item) :
    site.Correct fuel (.callSelf arguments result) := by
  refine ⟨fun {tail _ _ _ _ _ _ _ _ _} compiles typed known placed concludes depicts => ?_⟩
  cases compiles with
  | literal none => cases none
  | @callSelf decl _ _ _ _ _ _ _ _ _ checked argumentsCompile loaded fits =>
    cases known
    have enclosing : site.func = some decl := Lowering.func_of_checkSelf checked
    obtain ⟨declared, inputs, inputTypes⟩ := site.inputs decl enclosing
    have here : site.scope.func = some decl := enclosing
    simp only [isTyped, here, Bool.and_eq_true, beq_iff_eq] at typed
    obtain ⟨argumentsTyped, ⟨usable, rfl⟩, types⟩ := typed
    simp only [List.append_assoc] at placed
    rw [evaluate]
    simp only [here]
    refine (site.agrees_all each argumentsCompile argumentsTyped placed.first depicts).bind
      fun values middle after delivered => ?_
    obtain ⟨given, givenTypes, rfl, shown⟩ := delivered
    refine (site.agrees_loadSlots loaded (fun slot member => site.exists_slotType member)
      placed.second.first shown).bind fun values final after delivered => ?_
    obtain ⟨bound, boundTypes, rfl, shown⟩ := delivered
    refine .perform ?_
    -- The arguments and the bound inputs are all inputs, in order.
    have all : decl.input.getD [] = (given ++ bound).map Prod.fst := by
      rw [← inputTypes, inputs, List.map_append, givenTypes, types, boundTypes]
      exact List.filterMap_append
    rw [← List.append_assoc, ← List.reverse_append] at shown
    have called := calls.call tail declared usable all placed.second.second.single shown
    rw [List.map_append] at called
    simp only [Code.size_append, ← Nat.add_assoc]
    exact called

/-! ## Choices -/

theorem isTyped_of_mem (typed : areTyped site.scope compilation.usable items = true) {item : Expr}
    (member : item ∈ items) : isTyped site.scope compilation.usable item = true := by
  induction items with
  | nil => cases member
  | cons first items ih =>
    rw [areTyped, Bool.and_eq_true] at typed
    rcases List.mem_cons.1 member with rfl | member
    · exact typed.1
    · exact ih typed.2 member

/-- Conditions are tested up to the first that holds, whose label is jumped to. -/
theorem agrees_conditions {conditions : List Expr} {labels : List Label}
    (each : ∀ item ∈ conditions, site.Correct fuel item)
    (compiles : Compiles site.context (.tests conditions labels) first code last)
    (typed : areTyped site.scope compilation.usable conditions = true)
    (bools : ∀ type ∈ typesOf conditions, hasScalar compilation.program type .int = true)
    (placed : Placed compilation.image position code) (depicts : Depicts compilation position
      (level.config (site.window state.locals) operands state.effects) session) :
    Agrees compilation State.effects (fuel + 1)
      (countUntilHolds site.scope (invoke compilation.program fuel) conditions state)
      (fun count state after => count ≤ conditions.length ∧
        Depicts compilation
          (match labels[count]? with
            | some label => compilation.target label
            | none => position + Code.size code)
          (level.config (site.window state.locals) operands state.effects) after) session := by
  induction conditions generalizing labels first code position state session with
  | nil =>
    cases compiles
    rw [countUntilHolds]
    exact .here ⟨Nat.le_refl 0, depicts⟩
  | cons condition conditions ih =>
    cases compiles with
    | test itemCompiles others =>
      rw [areTyped, Bool.and_eq_true] at typed
      obtain ⟨type, known⟩ := exists_type? condition typed.1
      rw [typesOf_cons known] at bools
      simp only [List.append_assoc] at placed
      rw [countUntilHolds]
      refine ((each condition List.mem_cons_self).operand itemCompiles typed.1 known placed.first
        depicts).bind fun value middle after shown => ?_
      obtain ⟨holds, rfl⟩ := shown.exists_scalar List.mem_cons_self
        (bools type List.mem_cons_self)
      have jumps := (shown.jumpIf placed.second.first.single).leads
      refine .of_leads jumps fun after shown => ?_
      change Agrees compilation State.effects (fuel + 1) ((do
        if holds != 0 then return 0
        return (← countUntilHolds site.scope (invoke compilation.program fuel) conditions) + 1 :
          Eval Nat) middle) _ _
      by_cases true : (holds != 0) = true
      · rw [if_pos true] at shown ⊢
        exact .here ⟨Nat.zero_le _, shown⟩
      · rw [if_neg true] at shown ⊢
        refine (ih (fun other member => each other (List.mem_cons_of_mem _ member)) others typed.2
          (fun type member => bools type (List.mem_cons_of_mem _ member)) placed.second.second
          shown).bind fun count final after reached => ?_
        obtain ⟨few, reached⟩ := reached
        refine .here ⟨Nat.succ_le_succ few, ?_⟩
        rw [List.getElem?_cons_succ]
        simp only [Code.size_append, ← Nat.add_assoc]
        exact reached

/-- Whether what a function holds at one position gets to another. -/
def Continues (compilation : Compilation) (position stop : Nat) : Prop :=
  ∀ {level : Level} {window : List (Option Typed)} {operands : List Typed} {effects : Effects}
    {session : Session},
    Depicts compilation position (level.config window operands effects) session →
      session.Leads (Depicts compilation stop (level.config window operands effects))

theorem Continues.concludes {stop : Nat} (continues : Continues compilation position stop)
    (concludes : Concludes compilation tail stop) : Concludes compilation tail position :=
  fun isTail _ _ _ _ _ depicts => (continues depicts).trans fun _ shown => concludes isTail shown

theorem Continues.delivered {stop : Nat} {window : List (Option Typed)} {effects : Effects}
    (continues : Continues compilation position stop)
    (delivered : Delivered compilation tail position level window operands effects session) :
    session.Leads (Delivered compilation tail stop level window operands effects) := by
  cases tail with
  | false => exact continues delivered
  | true => exact .here delivered

/-- An expression whose code goes on to a later position does what its evaluation does up to
there. -/
theorem Site.Correct.continued {expr : Expr} {type : TypeId} {stop : Nat}
    (correct : site.Correct fuel expr)
    (compiles : Compiles site.context (.one expr tail) first code last)
    (typed : isTyped site.scope compilation.usable expr = true) (known : expr.type? = some type)
    (placed : Placed compilation.image position code)
    (continues : Continues compilation (position + Code.size code) stop)
    (concludes : Concludes compilation tail stop) (depicts : Depicts compilation position
      (level.config (site.window state.locals) operands state.effects) session) :
    Agrees compilation State.effects (fuel + 1)
      (evaluate site.scope (invoke compilation.program fuel) expr state)
      (fun value state => Delivered compilation tail stop level (site.window state.locals)
        ((type, value) :: operands) state.effects) session :=
  (correct.agrees compiles typed known placed (continues.concludes concludes) depicts).trans
    fun _ _ _ delivered => continues.delivered delivered

theorem placed_branch {labels : List Label} {done label : Label} {index : Nat}
    (compiles : Compiles site.context (.branches branches labels done tail) first code last)
    (placed : Placed compilation.image position code)
    (ends : compilation.target done = position + Code.size code)
    (found : labels[index]? = some label) :
    ∃ branch first branchCode last, branches[index]? = some branch ∧
      Compiles site.context (.one branch tail) first branchCode last ∧
      Placed compilation.image (compilation.target label) branchCode ∧
      Continues compilation (compilation.target label + Code.size branchCode)
        (position + Code.size code) := by
  induction branches generalizing labels first code position index with
  | nil =>
    cases compiles
    cases found
  | cons branch branches ih =>
    cases compiles with
    | @branch _ _ start labels _ _ _ branchCode _ rest _ branchCompiles others =>
      simp only [List.append_assoc] at placed
      cases index with
      | zero =>
        cases found
        refine ⟨branch, _, branchCode, _, rfl, branchCompiles, ?_, ?_⟩
        · rw [placed.first.target_eq]
          exact placed.second.first
        · intro level window operands effects session depicts
          rw [placed.first.target_eq] at depicts
          cases labels with
          | nil =>
            cases others
            simp only [List.isEmpty_nil, if_true, List.append_nil, Code.size_append,
              ← Nat.add_assoc]
            exact .here depicts
          | cons second labels =>
            simp only [List.isEmpty_cons, Bool.false_eq_true, if_false] at placed
            have jumped := (depicts.jump placed.second.second.first.single).leads
            rw [ends] at jumped
            exact jumped
      | succ index =>
        have total : position + Code.size (bind start ++ branchCode ++
            (if labels.isEmpty then [] else emit (.jump done)) ++ rest) =
            position + Code.size (bind start) + Code.size branchCode +
              Code.size (if labels.isEmpty then [] else emit (.jump done)) +
                Code.size rest := by
          simp only [Code.size_append, ← Nat.add_assoc]
        rw [total] at ends ⊢
        exact ih others placed.second.second.second ends found

theorem evaluateAt_eq {scope : Scope} {call : Invoke} {index : Nat} {branch : Expr}
    (found : branches[index]? = some branch) :
    evaluateAt scope call branches index = evaluate scope call branch := by
  induction branches generalizing index with
  | nil => cases found
  | cons first branches ih =>
    cases index with
    | zero =>
      cases found
      rw [evaluateAt]
    | succ index =>
      rw [evaluateAt]
      exact ih found

theorem correct_choose {conditions : List Expr}
    (eachCondition : ∀ item ∈ conditions, site.Correct fuel item)
    (eachBranch : ∀ item ∈ branches, site.Correct fuel item) :
    site.Correct fuel (.choose conditions branches) := by
  refine ⟨fun {tail _ _ _ type position level operands _ _} compiles typed known placed concludes
    depicts => ?_⟩
  cases compiles with
  | literal none => cases none
  | @choose _ branches otherwise labels done _ tests other chosen _ _ _ _ _ _ many made _ tested
      left branched =>
    simp only [isTyped, Bool.and_eq_true, List.all_eq_true, beq_iff_eq] at typed
    obtain ⟨⟨⟨⟨conditionsTyped, branchesTyped⟩, _⟩, bools⟩, sameTypes⟩ := typed
    have branchKnown : ∀ branch ∈ branches ++ [otherwise], branch.type? = some type := by
      intro branch member
      rw [sameTypes branch member, ← known]
      cases branches <;> simp [Expr.type?]
    simp only [List.append_assoc] at placed
    have total : position + Code.size (tests ++ other ++ emit (.jump done) ++ chosen ++ bind done) =
        position + Code.size tests + Code.size other + Code.size (emit (.jump done)) +
          Code.size chosen := by
      simp only [Code.size_append, ← Nat.add_assoc]
      rfl
    rw [total] at concludes ⊢
    have ends := placed.second.second.second.second.target_eq
    rw [evaluate]
    refine (agrees_conditions eachCondition tested conditionsTyped bools placed.first
      depicts).bind fun count middle after reached => ?_
    obtain ⟨few, shown⟩ := reached
    cases found : labels[count]? with
    | some label =>
      simp only [found] at shown
      obtain ⟨branch, _, branchCode, _, inside, compiles, branchPlaced, continues⟩ :=
        placed_branch branched placed.second.second.second.first ends found
      have here : (branches ++ [otherwise])[count]? = some branch := by
        rw [List.getElem?_append_left (List.getElem?_eq_some_iff.1 inside).1, inside]
      have member := List.mem_of_getElem? here
      rw [evaluateAt_eq here]
      exact (eachBranch branch member).continued compiles (isTyped_of_mem branchesTyped member)
        (branchKnown branch member) branchPlaced continues concludes shown
    | none =>
      simp only [found] at shown
      have all : count = branches.length := by
        have past := List.getElem?_eq_none_iff.1 found
        have length : labels.length = conditions.length := (Lowering.freshFor_eq_ok made).1
        omega
      subst all
      have member : otherwise ∈ branches ++ [otherwise] := by simp
      rw [evaluateAt_eq List.getElem?_concat_length]
      refine (eachBranch otherwise member).continued left (isTyped_of_mem branchesTyped member)
        (branchKnown otherwise member) placed.second.first ?_ concludes shown
      intro level window operands effects session depicts
      have jumped := (depicts.jump placed.second.second.first.single).leads
      rw [ends] at jumped
      exact jumped

/-! ## All expressions -/

mutual

theorem correct (calls : CallsAgree compilation fuel) : (expr : Expr) → site.Correct fuel expr
  | .missing => ⟨fun compiles => by cases compiles with | literal none => cases none⟩
  | .assign _ value => correct_assign (correct calls value)
  | .choose conditions branches =>
    correct_choose (correct_each calls conditions) (correct_each calls branches)
  | .call _ arguments _ _ => correct_call calls (correct_each calls arguments)
  | .callDynamic target arguments _ _ =>
    correct_callDynamic calls (correct_each calls arguments) (correct calls target)
  | .callSelf arguments _ => correct_callSelf calls (correct_each calls arguments)
  | .closure _ bound _ => correct_closure (correct_each calls bound)
  | .slot slot type => correct_slot slot type
  | .field operand _ _ => correct_field (correct calls operand)
  | .group items => correct_group (correct_each calls items)
  | .unionCheck operand _ => correct_unionCheck (correct calls operand)
  | .unionGet operand _ _ => correct_unionGet (correct calls operand)
  | .fail type => correct_fail type
  | .bool value => correct_bool value
  | .float bits => correct_float bits
  | .int value => correct_int value
  | .long value => correct_long value
  | .string text => correct_string text
  | .char byte => correct_char byte
  | .function func type => correct_function func type
  | .enumeration type value => correct_enumeration type value

theorem correct_each (calls : CallsAgree compilation fuel) :
    (items : List Expr) → ∀ item ∈ items, site.Correct fuel item
  | [] => fun _ member => nomatch member
  | item :: items => List.forall_mem_cons.2 ⟨correct calls item, correct_each calls items⟩

end

end

end WordMachine.Evaluation
