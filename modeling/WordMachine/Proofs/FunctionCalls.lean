import WordMachine.Proofs.EqualityCalls
import WordMachine.Proofs.ExpressionSites

/-!
Calls once their arguments are on the stack: of user functions, at once or delayed, of function
values, and of built-in functions. User functions are called with less fuel, so they may be taken
to do what their evaluation does.
-/

namespace WordMachine

theorem Instruction.At.near_end {image : Image} {position : Nat} {instruction : Instruction}
    (here : instruction.At image position) (small : image.assembly.code.size < 2 ^ 32) :
    position + instruction.op.size < 2 ^ 32 :=
  Nat.lt_of_le_of_lt here.inside small

namespace Evaluation

open Lowering (Code afterArguments callTo emit equalityLabel funcLabel plain positionMode)

/-- Whether the code of user functions does what their evaluation does, with some fuel. -/
structure CallsAgree (compilation : Compilation) (fuel : Nat) : Prop where
  agrees : ∀ {func : FuncId} {decl : FuncDecl} {items rest : List Typed} {level : Level}
    {effects : Effects} {session : Session},
    compilation.program.func? func = some decl →
    isUsable compilation.program compilation.usable decl = true →
    decl.input.getD [] = items.map Prod.fst →
    Depicts compilation (compilation.entry func).toNat
      (level.config [] (items.reverse ++ rest) effects) session →
    Agrees compilation id fuel (invoke compilation.program fuel func (items.map Prod.snd) effects)
      (fun value effects => Returning compilation level ((decl.output, value) :: rest) effects)
      session

section

variable {compilation : Compilation} {fuel position : Nat} {tail : Bool} {session : Session}
variable {level : Level} {window : List (Option Typed)} {items rest : List Typed}
variable {effects : Effects} {func : FuncId} {decl : FuncDecl} {result : TypeId} {code : Code}
variable {type : TypeId} {arguments : List Expr} {mode : UInt8} {cell : Nat} {kind : FuncKind}

theorem Returning.retype {item other : Typed}
    (returning : Returning compilation level (item :: rest) effects session)
    (covers : Covers compilation item other) :
    Returning compilation level (other :: rest) effects session := by
  obtain ⟨position, window, here, depicts⟩ := returning
  exact ⟨position, window, here, depicts.retype covers⟩

/-! ## User functions -/

theorem CallsAgree.call {count : UInt8} (calls : CallsAgree compilation fuel) (tail : Bool)
    (declared : compilation.program.func? func = some decl)
    (usable : isUsable compilation.program compilation.usable decl = true)
    (inputs : decl.input.getD [] = items.map Prod.fst)
    (here : (Instruction.call (funcLabel func) count (positionMode tail).code).At compilation.image
      position)
    (depicts : Depicts compilation position (level.config window (items.reverse ++ rest) effects)
      session) :
    Agrees compilation id (fuel + 1)
      (invoke compilation.program fuel func (items.map Prod.snd) effects)
      (fun value effects => Delivered compilation tail (position + 7) level window
        ((decl.output, value) :: rest) effects) session := by
  refine .of_advances (depicts.call tail here) fun after shown => ?_
  exact (calls.agrees declared usable inputs shown).trans fun _ _ _ returning =>
    returning.delivered (here.near_end compilation.layout.small)

/-- The function value on top of the stack is called with the arguments below it. -/
theorem CallsAgree.callDynamic {bound : List Value} {count : UInt8}
    (calls : CallsAgree compilation fuel) (tail : Bool)
    (shape : shape? compilation.program type = some (.delegate (items.map Prod.fst) result))
    (here : (Instruction.callDynamic count (positionMode tail).code).At compilation.image position)
    (depicts : Depicts compilation position
      (level.config window ((type, .function func bound) :: (items.reverse ++ rest)) effects)
      session) :
    Agrees compilation id (fuel + 1)
      (invoke compilation.program fuel func (items.map Prod.snd ++ bound) effects)
      (fun value effects => Delivered compilation tail (position + 3) level window
        ((result, value) :: rest) effects) session := by
  obtain ⟨given, rfl, fits, advances⟩ := depicts.callDynamic here
  obtain ⟨decl, input, declared, usable, other, inputs⟩ := delegateFits_shape fits
  rw [shape] at other
  cases other
  rw [← List.map_append] at inputs
  refine .of_advances advances fun after shown => ?_
  rw [← List.append_assoc, ← List.reverse_append] at shown
  have called := calls.agrees declared usable inputs shown
  rw [List.map_append] at called
  exact called.trans fun _ _ _ returning =>
    returning.delivered (here.near_end compilation.layout.small)

/-! ## Requests of lazy values -/

/-- Keeps the value of a lazy call, unless there is one by now. -/
def keepForced (cell : Nat) (value : Value) : Action Value := do
  match (← get).cells[cell]? with
  | some (.forced first) => return first
  | _ =>
    modify fun effects => { effects with cells := effects.cells.setIfInBounds cell (.forced value) }
    return value

theorem force_forced {value : Value} (call : Invoke)
    (known : effects.cells[cell]? = some (.forced value)) :
    Evaluation.force call cell effects = .ok value effects := by
  simp only [Evaluation.force, bind, EStateM.bind, get, getThe, MonadStateOf.get, EStateM.get,
    known]
  rfl

theorem force_pending {arguments : List Value} (call : Invoke)
    (known : effects.cells[cell]? = some (.pending func arguments)) :
    Evaluation.force call cell effects = (call func arguments >>= keepForced cell) effects := by
  simp only [Evaluation.force, bind, EStateM.bind, get, getThe, MonadStateOf.get, EStateM.get,
    known]
  rfl

/-- The value of a lazy call is asked for: the first request makes the call. -/
theorem CallsAgree.force (calls : CallsAgree compilation fuel)
    (shape : shape? compilation.program type = some (.lazy result))
    (here : (Instruction.plain .force).At compilation.image position)
    (depicts : Depicts compilation position
      (level.config window ((type, .lazy cell) :: rest) effects) session) :
    Agrees compilation id (fuel + 1)
      (Evaluation.force (invoke compilation.program fuel) cell effects)
      (fun value effects => Depicts compilation (position + 1)
        (level.config window ((result, value) :: rest) effects)) session := by
  obtain ⟨content, known⟩ := depicts.exists_cell List.mem_cons_self shape
  cases content with
  | forced value =>
    rw [force_forced _ known]
    exact (depicts.forceForced here shape known).leads
  | pending func arguments =>
    rw [force_pending _ known]
    obtain ⟨decl, declared, usable, rfl, length, advances⟩ := depicts.forcePending here shape known
    have types : decl.input.getD [] = ((decl.input.getD []).zip arguments).map Prod.fst :=
      (List.map_fst_zip (Nat.le_of_eq length)).symm
    have values : ((decl.input.getD []).zip arguments).map Prod.snd = arguments :=
      List.map_snd_zip (Nat.le_of_eq length.symm)
    refine .of_advances advances fun after shown => ?_
    have called := calls.agrees declared usable types shown
    rw [values] at called
    refine called.bind fun value later after returning => ?_
    obtain ⟨place, inner, returns, depicts⟩ := returning
    have returned := (depicts.retLazy returns (here.near_end compilation.layout.small) shape).leads
    cases forced : later.cells[cell]? with
    | none =>
      rw [forced] at returned
      simp only [keepForced, bind, EStateM.bind, get, getThe, MonadStateOf.get, EStateM.get,
        forced]
      exact returned
    | some content =>
      rw [forced] at returned
      simp only [keepForced, bind, EStateM.bind, get, getThe, MonadStateOf.get, EStateM.get,
        forced]
      cases content <;> exact returned

/-! ## Equality of structs and unions -/

theorem operandType_eq_ok (success : afterArguments.operandType arguments = .ok type) :
    ∃ left right, arguments = [left, right] ∧ left.type? = some type ∧ right.type? = some type := by
  unfold afterArguments.operandType at success
  split at success
  · next left right =>
    obtain ⟨first, known, success⟩ := Lowering.except_bind_eq_ok.1 success
    obtain ⟨second, otherKnown, success⟩ := Lowering.except_bind_eq_ok.1 success
    split at success
    · next same =>
      cases success
      rw [beq_iff_eq.1 same] at known ⊢
      exact ⟨left, right, rfl, Lowering.typeOf_eq_ok.1 known, Lowering.typeOf_eq_ok.1 otherKnown⟩
    · cases success
  · cases success

theorem leads_equalityCall {left right : Value} (tail : Bool)
    (typed : hasScalar compilation.program result .int = true)
    (here : (Instruction.call (equalityLabel type) 2 (positionMode tail).code).At compilation.image
      position) (depicts : Depicts compilation position
      (level.config window ((type, right) :: (type, left) :: rest) effects) session) :
    session.Leads (Delivered compilation tail (position + 7) level window
      ((result, .int (flag (left.equal right))) :: rest) effects) := by
  refine (depicts.call tail here).leads.trans fun after shown => ?_
  refine ((decided compilation left).leads (here.bound _ rfl) shown).trans fun after answering => ?_
  have retyped := Returning.retype answering
    (@covers_scalar compilation TypeId.bool .int result (flag (left.equal right)) typed)
  exact retyped.delivered (here.near_end compilation.layout.small)

/-! ## Built-in functions -/

theorem kindFits_cases {program : Program} {input : List TypeId} {output : TypeId}
    (other : operation? kind = none) (fits : kindFits program kind input output = true) :
    kind = .noOp ∨ kind = .makeStruct ∨ kind = .makeUnion ∨ (∃ call, kind = .action call) ∨
      (kind = .force ∧ ∃ type, input = [type] ∧ shape? program type = some (.lazy output)) ∨
      ((kind = .eqUserType ∨ kind = .neUserType) ∧
        (∃ type, input = [type, type]) ∧ hasScalar program output .int = true) := by
  unfold kindFits at fits
  rw [other] at fits
  dsimp only at fits
  split at fits
  · exact Or.inl rfl
  · exact Or.inl rfl
  · exact Or.inr (Or.inl rfl)
  · exact Or.inr (Or.inr (Or.inl rfl))
  · exact Or.inr (Or.inr (Or.inr (Or.inr (Or.inl ⟨rfl, _, rfl, beq_iff_eq.1 fits⟩))))
  · rw [Bool.and_eq_true, beq_iff_eq] at fits
    obtain ⟨rfl, typed⟩ := fits
    exact Or.inr (Or.inr (Or.inr (Or.inr (Or.inr ⟨Or.inl rfl, ⟨_, rfl⟩, typed⟩))))
  · rw [Bool.and_eq_true, beq_iff_eq] at fits
    obtain ⟨rfl, typed⟩ := fits
    exact Or.inr (Or.inr (Or.inr (Or.inr (Or.inr ⟨Or.inr rfl, ⟨_, rfl⟩, typed⟩))))
  · exact Or.inr (Or.inr (Or.inr (Or.inl ⟨_, rfl⟩)))
  · cases fits

theorem items_pair (types : items.map Prod.fst = [type, type]) :
    ∃ left right : Value, items = [(type, left), (type, right)] := by
  match items, types with
  | [(first, left), (second, right)], types =>
    simp only [List.map_cons, List.map_nil, List.cons.injEq, and_true] at types
    obtain ⟨rfl, rfl⟩ := types
    exact ⟨left, right, rfl⟩

/-- Equality of two values of the type of the operands, or its negation. -/
theorem agrees_userEquality (known : FuncKind.ofCode? decl.kind = some kind)
    (equality : kind = .eqUserType ∨ kind = .neUserType)
    (follows : afterArguments decl arguments mode tail = .ok code)
    (typesOf : items.map Prod.fst = typesOf arguments) (same : items.map Prod.fst = [type, type])
    (typed : hasScalar compilation.program result .int = true)
    (placed : Placed compilation.image position code)
    (concludes : Concludes compilation tail (position + Code.size code))
    (depicts : Depicts compilation position (level.config window (items.reverse ++ rest) effects)
      session) (call : Invoke) :
    Agrees compilation id (fuel + 1) (builtin call kind (items.map Prod.snd) effects)
      (fun value effects => Delivered compilation tail (position + Code.size code) level window
        ((result, value) :: rest) effects) session := by
  obtain ⟨left, right, rfl⟩ := items_pair same
  unfold afterArguments at follows
  rcases equality with rfl | rfl
  · simp only [known, show FuncKind.eqUserType.operations? = none from rfl] at follows
    obtain ⟨other, operands, made⟩ := Lowering.except_bind_eq_ok.1 follows
    cases made
    obtain ⟨first, second, rfl, firstTyped, _⟩ := operandType_eq_ok operands
    rw [same, typesOf_cons firstTyped, List.cons.injEq] at typesOf
    obtain ⟨rfl, _⟩ := typesOf
    exact leads_equalityCall tail typed placed.single depicts
  · simp only [known, show FuncKind.neUserType.operations? = none from rfl] at follows
    obtain ⟨other, operands, made⟩ := Lowering.except_bind_eq_ok.1 follows
    cases made
    obtain ⟨first, second, rfl, firstTyped, _⟩ := operandType_eq_ok operands
    rw [same, typesOf_cons firstTyped, List.cons.injEq] at typesOf
    obtain ⟨rfl, _⟩ := typesOf
    refine (leads_equalityCall false compilation.bool_scalar placed.first.single
      depicts).trans fun after shown => ?_
    have negated := (calculates_plain computes_notInt).leads
      [(TypeId.bool, .int (flag (left.equal right)))] rest placed.second
      (by simp [haveScalars, Operation.inputs, compilation.bool_scalar]) typed shown
    refine negated.trans fun after shown => ?_
    have flipped : flag (flag (left.equal right) == 0) = flag (!left.equal right) := by
      cases left.equal right <;> rfl
    have shown : Depicts compilation (position + Code.size (callTo (equalityLabel type) 2 .normal ++
        plain .notInt)) (level.config window
          ((result, .int (flag (flag (left.equal right) == 0))) :: rest) effects) after := shown
    rw [flipped] at shown
    exact concludes.delivered shown

/-- A call of a built-in function other than the construction of a union. -/
theorem CallsAgree.builtin (calls : CallsAgree compilation fuel)
    (known : FuncKind.ofCode? decl.kind = some kind) (noUnion : kind ≠ .makeUnion)
    (follows : afterArguments decl arguments mode tail = .ok code)
    (fits : kindFits compilation.program kind (items.map Prod.fst) result = true)
    (typesOf : items.map Prod.fst = typesOf arguments) (length : arguments.length = items.length)
    (placed : Placed compilation.image position code)
    (concludes : Concludes compilation tail (position + Code.size code))
    (depicts : Depicts compilation position (level.config window (items.reverse ++ rest) effects)
      session) :
    Agrees compilation id (fuel + 1)
      (Evaluation.builtin (invoke compilation.program fuel) kind (items.map Prod.snd) effects)
      (fun value effects => Delivered compilation tail (position + Code.size code) level window
        ((result, value) :: rest) effects) session := by
  cases stands : operation? kind with
  | some operation =>
    exact (agrees_operator stands (calculates_kind known stands follows) placed fits depicts).trans
      fun _ _ _ shown => concludes.delivered shown
  | none =>
    rcases kindFits_cases stands fits with rfl | rfl | rfl | ⟨call, rfl⟩ | ⟨rfl, type, one, shape⟩ |
      ⟨equality, ⟨type, same⟩, typed⟩
    · exact (agrees_noOp known follows length placed fits depicts).trans
        fun _ _ _ shown => concludes.delivered shown
    · exact (agrees_makeStruct known follows length placed fits depicts).trans
        fun _ _ _ shown => concludes.delivered shown
    · exact absurd rfl noUnion
    · exact (agrees_action known follows placed fits depicts).trans
        fun _ _ _ shown => concludes.delivered shown
    · obtain ⟨⟨other, value⟩, others, rfl, rfl, none⟩ := List.map_eq_cons_iff.1 one
      cases List.map_eq_nil_iff.1 none
      unfold afterArguments at follows
      simp only [known, show FuncKind.force.operations? = some [.force] from rfl] at follows
      cases follows
      obtain ⟨_, _, represents⟩ := depicts.represented List.mem_cons_self
      obtain ⟨cell, rfl⟩ := represents.exists_lazy shape
      exact (calls.force shape placed.single depicts).trans
        fun _ _ _ shown => concludes.delivered shown
    · exact agrees_userEquality known equality follows typesOf same typed placed concludes depicts _

/-! ## Declared functions -/

theorem toNat_of_argumentByte {count : Nat} {byte : UInt8}
    (fits : Lowering.argumentByte count = .ok byte) : byte.toNat = count := by
  unfold Lowering.argumentByte at fits
  split at fits
  · next small =>
    cases fits
    exact UInt8.toNat_ofNat_of_lt' small
  · cases fits

theorem CallsAgree.user (calls : CallsAgree compilation fuel)
    (declared : compilation.program.func? func = some decl)
    (known : FuncKind.ofCode? decl.kind = some .user)
    (follows : afterArguments decl arguments mode tail = .ok code)
    (fits : callFits compilation.program compilation.usable decl (items.map Prod.fst) mode result =
      true) (placed : Placed compilation.image position code)
    (concludes : Concludes compilation tail (position + Code.size code))
    (depicts : Depicts compilation position (level.config window (items.reverse ++ rest) effects)
      session) :
    Agrees compilation id (fuel + 1)
      (callDeclared (invoke compilation.program fuel) decl arguments mode (items.map Prod.snd)
        effects)
      (fun value effects => Delivered compilation tail (position + Code.size code) level window
        ((result, value) :: rest) effects) session := by
  have number : decl.id = func := compilation.tables.func declared
  unfold callFits at fits
  simp only [known, Bool.and_eq_true, beq_iff_eq] at fits
  obtain ⟨⟨usable, inputs⟩, activated⟩ := fits
  unfold afterArguments at follows
  simp only [known, show FuncKind.user.operations? = none from rfl] at follows
  obtain ⟨count, bounded, made⟩ := Lowering.except_bind_eq_ok.1 follows
  cases made
  unfold callDeclared
  simp only [known]
  rw [number] at placed concludes ⊢
  cases activation : Activation.ofCode mode with
  | normal =>
    simp only [activation, beq_iff_eq] at activated placed ⊢
    subst activated
    exact calls.call tail declared usable inputs.symm placed.single depicts
  | lazy =>
    simp only [activation, beq_iff_eq] at activated placed concludes ⊢
    have length : items.length = count.toNat := by
      rw [toNat_of_argumentByte bounded, ← inputs, List.length_map]
    exact (depicts.delay placed.single length declared usable inputs.symm activated).leads.trans
      fun _ shown => concludes.delivered shown
  | fork =>
    simp only [activation] at activated
    cases activated

theorem CallsAgree.declared (calls : CallsAgree compilation fuel)
    (declared : compilation.program.func? func = some decl)
    (noUnion : FuncKind.ofCode? decl.kind ≠ some .makeUnion)
    (follows : afterArguments decl arguments mode tail = .ok code)
    (fits : callFits compilation.program compilation.usable decl (items.map Prod.fst) mode result =
      true) (typesOf : items.map Prod.fst = typesOf arguments)
    (length : arguments.length = items.length) (placed : Placed compilation.image position code)
    (concludes : Concludes compilation tail (position + Code.size code))
    (depicts : Depicts compilation position (level.config window (items.reverse ++ rest) effects)
      session) :
    Agrees compilation id (fuel + 1)
      (callDeclared (invoke compilation.program fuel) decl arguments mode (items.map Prod.snd)
        effects)
      (fun value effects => Delivered compilation tail (position + Code.size code) level window
        ((result, value) :: rest) effects) session := by
  cases known : FuncKind.ofCode? decl.kind with
  | none =>
    unfold callFits at fits
    rw [known] at fits
    cases fits
  | some kind =>
    by_cases user : kind = .user
    · subst user
      exact calls.user declared known follows fits placed concludes depicts
    · have union : kind ≠ .makeUnion := fun same => noUnion (known.trans (congrArg some same))
      have kindOf : kindFits compilation.program kind (items.map Prod.fst) result = true := by
        unfold callFits at fits
        rw [known] at fits
        split at fits
        · next none => cases none
        · next same => exact absurd (Option.some.inj same) user
        · next other _ _ same =>
          cases same
          exact fits
      have calling : callDeclared (invoke compilation.program fuel) decl arguments mode
          (items.map Prod.snd) =
            Evaluation.builtin (invoke compilation.program fuel) kind (items.map Prod.snd) := by
        unfold callDeclared
        rw [known]
        split
        · next same => exact absurd (Option.some.inj same) user
        · next same => exact absurd (Option.some.inj same) union
        · next other _ _ same =>
          cases same
          rfl
        · next none => cases none
      rw [calling]
      exact calls.builtin known union follows kindOf typesOf length placed concludes depicts

end

end Evaluation

end WordMachine
