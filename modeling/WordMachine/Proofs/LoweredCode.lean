import WordMachine.Lowering.Program
import Mathlib

/-!
What lowering produces: the code of an expression from the code of its parts, one expression after
the other, and the labels that are bound in it.
-/

namespace WordMachine.Lowering

/-! ## Producing code -/

section

variable {α : Type} {scope : Bytes} {count : Nat} {type : TypeId}

theorem bind_eq_ok {β : Type} {first : Lower α} {next : α → Lower β} {result : β × Nat} :
    (first >>= next) count = .ok result ↔
      ∃ value between, first count = .ok (value, between) ∧ next value between = .ok result := by
  constructor
  · intro success
    change (first count >>= fun pair => next pair.1 pair.2) = .ok result at success
    cases done : first count with
    | error cause =>
      rw [done] at success
      cases success
    | ok pair =>
      rw [done] at success
      exact ⟨pair.1, pair.2, rfl, success⟩
  · rintro ⟨value, between, done, rest⟩
    change (first count >>= fun pair => next pair.1 pair.2) = .ok result
    rw [done]
    exact rest

theorem pure_eq_ok {value : α} {result : α × Nat} :
    (pure value : Lower α) count = .ok result ↔ result = (value, count) := by
  constructor
  · intro success
    exact (Except.ok.inj success).symm
  · rintro rfl
    rfl

theorem lift_eq_ok {value : Except Cause α} {result : α × Nat} :
    (liftM value : Lower α) count = .ok result ↔ value = .ok result.1 ∧ result.2 = count := by
  cases value with
  | error cause =>
    constructor
    · intro success
      cases success
    · rintro ⟨success, _⟩
      cases success
  | ok value =>
    constructor
    · intro success
      cases success
      exact ⟨rfl, rfl⟩
    · rintro ⟨success, same⟩
      cases success
      rw [← same]
      rfl

theorem except_bind_eq_ok {β : Type} {first : Except Cause α} {next : α → Except Cause β}
    {result : β} :
    (first >>= next) = .ok result ↔ ∃ value, first = .ok value ∧ next value = .ok result := by
  cases first with
  | error cause =>
    constructor
    · intro success
      cases success
    · rintro ⟨value, success, _⟩
      cases success
  | ok value =>
    constructor
    · intro success
      exact ⟨value, rfl, success⟩
    · rintro ⟨other, same, rest⟩
      cases same
      exact rest

def Generated (scope : Bytes) (label : Label) : Prop :=
  ∃ number, label = Fragment.generatedLabel scope number

theorem fresh_eq_ok {result : Label × Nat} (success : fresh scope count = .ok result) :
    Generated scope result.1 := by
  cases success
  exact ⟨count + 1, rfl⟩

theorem freshFor_eq_ok {items : List α} {result : List Label × Nat}
    (success : freshFor scope items count = .ok result) :
    result.1.length = items.length ∧ ∀ label ∈ result.1, Generated scope label := by
  induction items generalizing count result with
  | nil =>
    rw [freshFor, pure_eq_ok] at success
    rw [success]
    exact ⟨rfl, fun _ member => nomatch member⟩
  | cons item items ih =>
    simp only [freshFor, bind_eq_ok, pure_eq_ok] at success
    obtain ⟨label, between, first, labels, after, rest, rfl⟩ := success
    obtain ⟨length, generated⟩ := ih rest
    refine ⟨congrArg (· + 1) length, ?_⟩
    intro other member
    rcases List.mem_cons.1 member with rfl | member
    · exact fresh_eq_ok first
    · exact generated other member

theorem typeOf_eq_ok {expr : Expr} : typeOf expr = .ok type ↔ expr.type? = some type := by
  unfold typeOf
  cases expr.type? with
  | none =>
    constructor
    · intro success
      cases success
    · intro success
      cases success
  | some other => simp

end

/-! ## Expressions -/

def Lowered (context : Context) (expr : Expr) (tail : Bool) (code : Code) : Prop :=
  ∃ count after, lower context expr tail count = .ok (code, after)

def loadSlots (slots : List SlotId) : Lower Code :=
  slots.mapM fun slot => return Fragment.Command.emit (.loadConst (← slotByte slot))

/-- The code of an expression that is a single instruction. -/
def literalCode : Expr → Option Code
  | .fail _ => some (plain .fail)
  | .bool value => some (emit (.loadInt (if value then 1 else 0)))
  | .float bits => some (emit (.loadFloat bits))
  | .int value => some (emit (.loadInt value))
  | .long value => some (emit (.loadLong value))
  | .string value => some (emit (.loadString value))
  | .char value => some (emit (.loadInt value.toUInt32.toInt32))
  | .function func _ => some (emit (.loadAddress (funcLabel func)))
  | .enumeration _ value => some (emit (.loadInt value))
  | _ => none

/-- What is lowered to one piece of code: an expression, or expressions that follow each other as
operands, in a group, as the conditions of a choice or as its labelled branches. -/
inductive Part where
  | one (expr : Expr) (tail : Bool)
  | all (items : List Expr)
  | group (items : List Expr) (tail : Bool)
  | tests (conditions : List Expr) (labels : List Label)
  | branches (branches : List Expr) (labels : List Label) (done : Label) (tail : Bool)

/-- How code is put together from the code of the parts. The labels made up for it have the numbers
above one count and up to another. -/
inductive Compiles (context : Context) : Part → Nat → Code → Nat → Prop
  | literal {expr tail count code} (known : literalCode expr = some code) :
      Compiles context (.one expr tail) count code count
  | slot {slot type tail count byte} (fits : slotByte slot = .ok byte) :
      Compiles context (.one (.slot slot type) tail) count (emit (.loadConst byte)) count
  | assign {slot value tail first code last byte}
      (compiles : Compiles context (.one value false) first code last)
      (fits : slotByte slot = .ok byte) :
      Compiles context (.one (.assign slot value) tail) first
        (code ++ plain .dup ++ emit (.storeConst byte)) last
  | choose {conditions branches otherwise labels done tail tests other chosen}
      {first second third fourth fifth last : Nat}
      (many : branches.length = conditions.length)
      (made : freshFor context.scope conditions first = .ok (labels, second))
      (ends : fresh context.scope second = .ok (done, third))
      (tested : Compiles context (.tests conditions labels) third tests fourth)
      (left : Compiles context (.one otherwise tail) fourth other fifth)
      (branched : Compiles context (.branches branches labels done tail) fifth chosen last) :
      Compiles context (.one (.choose conditions (branches ++ [otherwise])) tail) first
        (tests ++ other ++ emit (.jump done) ++ chosen ++ bind done) last
  | makeNullable {func decl argument member mode result nullable tail first code last}
      (declared : context.program.func? func = some decl)
      (kind : FuncKind.ofCode? decl.kind = some .makeUnion) (typed : argument.type? = some member)
      (form : nullable? context.program result = some nullable)
      (compiles : Compiles context (.one argument false) first code last) :
      Compiles context (.one (.call func [argument] mode result) tail) first
        (code ++ if member == nullable.nullType then plain .pop ++ plain .makeNull else []) last
  | makeTagged {func decl argument member mode result number tail first code last}
      (declared : context.program.func? func = some decl)
      (kind : FuncKind.ofCode? decl.kind = some .makeUnion) (typed : argument.type? = some member)
      (form : nullable? context.program result = none)
      (numbered : memberNumber context.program result member = .ok number)
      (compiles : Compiles context (.one argument false) first code last) :
      Compiles context (.one (.call func [argument] mode result) tail) first
        (emit (.loadInt number) ++ code ++ emit (.makeStruct 2)) last
  | call {func decl arguments mode result tail first code rest last}
      (declared : context.program.func? func = some decl)
      (kind : FuncKind.ofCode? decl.kind ≠ some .makeUnion)
      (compiles : Compiles context (.all arguments) first code last)
      (follows : afterArguments decl arguments mode tail = .ok rest) :
      Compiles context (.one (.call func arguments mode result) tail) first (code ++ rest) last
  | callDynamic {target arguments fork result tail first code middle targetCode last count}
      (compiles : Compiles context (.all arguments) first code middle)
      (targeted : Compiles context (.one target false) middle targetCode last)
      (fits : argumentByte arguments.length = .ok count) :
      Compiles context (.one (.callDynamic target arguments fork result) tail) first
        (code ++ targetCode ++
          emit (.callDynamic count (if fork then CallMode.forked else positionMode tail).code)) last
  | callSelf {func arguments result tail first code middle boundCode last count}
      (checked : checkSelf context arguments result = .ok func)
      (compiles : Compiles context (.all arguments) first code middle)
      (loaded : loadSlots (SlotTable.boundInputs context.slots) middle = .ok (boundCode, last))
      (fits : argumentByte (func.input.getD []).length = .ok count) :
      Compiles context (.one (.callSelf arguments result) tail) first
        (code ++ boundCode ++ callTo (funcLabel func.id) count (positionMode tail)) last
  | closure {func bound type tail first code last count}
      (compiles : Compiles context (.all bound) first code last)
      (fits : sizeByte (bound.length + 1) = .ok count) :
      Compiles context (.one (.closure func bound type) tail) first
        (code ++ emit (.loadAddress (funcLabel func)) ++ emit (.makeStruct count)) last
  | field {operand operandType type tail first code rest last} {position : Int64}
      (compiles : Compiles context (.one operand false) first code last)
      (typed : operand.type? = some operandType)
      (follows : selectField context operandType position.toInt = .ok rest) :
      Compiles context (.one (.field operand position type) tail) first (code ++ rest) last
  | group {items tail first code last} (filled : items ≠ [])
      (compiles : Compiles context (.group items tail) first code last) :
      Compiles context (.one (.group items) tail) first code last
  | unionCheck {operand union target tail first code rest last}
      (compiles : Compiles context (.one operand false) first code last)
      (typed : operand.type? = some union)
      (follows : checkMember context union target = .ok rest) :
      Compiles context (.one (.unionCheck operand target) tail) first (code ++ rest) last
  | unionGet {operand union target slot byte tail first code middle rest last}
      (compiles : Compiles context (.one operand false) first code middle)
      (typed : operand.type? = some union) (fits : slotByte slot = .ok byte)
      (follows : getMember context union target byte middle = .ok (rest, last)) :
      Compiles context (.one (.unionGet operand target slot) tail) first (code ++ rest) last
  | nil {count} : Compiles context (.all []) count [] count
  | cons {item items first code middle rest last}
      (compiles : Compiles context (.one item false) first code middle)
      (others : Compiles context (.all items) middle rest last) :
      Compiles context (.all (item :: items)) first (code ++ rest) last
  | final {item tail first code last}
      (compiles : Compiles context (.one item tail) first code last) :
      Compiles context (.group [item] tail) first code last
  | next {item next items tail first code middle rest last}
      (compiles : Compiles context (.one item false) first code middle)
      (others : Compiles context (.group (next :: items) tail) middle rest last) :
      Compiles context (.group (item :: next :: items) tail) first
        (code ++ plain .pop ++ rest) last
  | untested {count} : Compiles context (.tests [] []) count [] count
  | test {condition conditions label labels first code middle rest last}
      (compiles : Compiles context (.one condition false) first code middle)
      (others : Compiles context (.tests conditions labels) middle rest last) :
      Compiles context (.tests (condition :: conditions) (label :: labels)) first
        (code ++ emit (.jumpIf label) ++ rest) last
  | unbranched {done tail count} : Compiles context (.branches [] [] done tail) count [] count
  | branch {branch branches label labels done tail first code middle rest last}
      (compiles : Compiles context (.one branch tail) first code middle)
      (others : Compiles context (.branches branches labels done tail) middle rest last) :
      Compiles context (.branches (branch :: branches) (label :: labels) done tail) first
        (bind label ++ code ++ (if labels.isEmpty then [] else emit (.jump done)) ++ rest) last

section

attribute [local simp] lower lowerAll lowerGroup lowerLast lowerConditions lowerBranches

variable {context : Context} {tail : Bool} {code : Code} {arguments items : List Expr}
variable {result target : TypeId} {slot : SlotId} {func : FuncId} {decl : FuncDecl} {mode : UInt8}
variable {first last : Nat}

/-! ### Lowering the parts -/

theorem lower_undeclared (declared : context.program.func? func = none) :
    lower context (.call func arguments mode result) tail = throw (.undeclaredFunction func) := by
  unfold lower
  simp only [declared]

theorem lower_makeUnion (declared : context.program.func? func = some decl)
    (kind : FuncKind.ofCode? decl.kind = some .makeUnion) :
    lower context (.call func arguments mode result) tail =
      match arguments with
      | [argument] => do
        let member ← typeOf argument
        match nullable? context.program result with
        | some nullable =>
          let code ← lower context argument false
          return code ++
            if member == nullable.nullType then plain .pop ++ plain .makeNull else []
        | none =>
          let number ← memberNumber context.program result member
          let code ← lower context argument false
          return emit (.loadInt number) ++ code ++ emit (.makeStruct 2)
      | _ => throw (.unionArguments arguments.length) := by
  apply Eq.trans
  · unfold lower
    simp only [declared, kind, beq_self_eq_true, if_true]
    exact rfl
  · rfl

theorem lower_call (declared : context.program.func? func = some decl)
    (kind : ¬FuncKind.ofCode? decl.kind = some .makeUnion) :
    lower context (.call func arguments mode result) tail = do
      let code ← lowerAll context arguments
      return code ++ (← afterArguments decl arguments mode tail) := by
  have other : (FuncKind.ofCode? decl.kind == some .makeUnion) = false := by simpa using kind
  unfold lower
  simp only [declared, other, Bool.false_eq_true, if_false]

theorem lowerAll_single (argument : Expr) :
    lowerAll context [argument] = lower context argument false := by
  funext count
  simp only [lowerAll]
  change (lower context argument false count >>= fun pair => .ok (pair.1 ++ [], pair.2)) = _
  cases lower context argument false count with
  | error cause => rfl
  | ok pair =>
    change Except.ok (pair.1 ++ [], pair.2) = Except.ok pair
    rw [List.append_nil]

theorem lowerGroup_cons (context : Context) (item next : Expr) (items : List Expr) (tail : Bool) :
    lowerGroup context (item :: next :: items) tail = do
      let code ← lower context item false
      let rest ← lowerGroup context (next :: items) tail
      return code ++ plain .pop ++ rest := by
  rw [lowerGroup]
  exact List.cons_ne_nil _ _

theorem lowerLast_cons (context : Context) (item next : Expr) (items : List Expr) (tail : Bool) :
    lowerLast context (item :: next :: items) tail = lowerLast context (next :: items) tail := by
  rw [lowerLast]
  exact List.cons_ne_nil _ _

theorem compiles_literal {expr : Expr} {single : Code} (known : literalCode expr = some single)
    (success : lower context expr tail first = .ok (code, last)) :
    Compiles context (.one expr tail) first code last := by
  cases expr <;> cases known
  all_goals
    rw [lower, pure_eq_ok] at success
    cases success
    exact .literal rfl

theorem eq_of_literalCode {expr : Expr} {single : Code} (known : literalCode expr = some single)
    (compiles : Compiles context (.one expr tail) first code last) : code = single := by
  cases compiles with
  | literal also => exact Option.some.inj (also.symm.trans known)
  | _ => cases known

end

mutual

/-- What is lowered is put together from the code of its parts. -/
theorem compiles_lower {context : Context} {tail : Bool} {first last : Nat} {code : Code} :
    (expr : Expr) → lower context expr tail first = .ok (code, last) →
      Compiles context (.one expr tail) first code last
  | .missing, success => by
    rw [lower] at success
    cases success
  | .assign slot value, success => by
    simp only [lower, bind_eq_ok, pure_eq_ok, lift_eq_ok] at success
    obtain ⟨_, _, done, _, _, ⟨fits, rfl⟩, same⟩ := success
    cases same
    exact .assign (compiles_lower value done) fits
  | .choose conditions branches, success => by
    rw [lower] at success
    split at success
    · cases success
    · next many =>
      have many : branches.length = conditions.length + 1 := by simpa using many
      simp only [bind_eq_ok, pure_eq_ok] at success
      obtain ⟨labels, _, made, _, _, ends, _, _, tested, _, _, left, _, _, branched, same⟩ :=
        success
      cases same
      have count := (freshFor_eq_ok made).1
      have filled : branches ≠ [] := List.ne_nil_of_length_eq_add_one many
      have compiles := Compiles.choose (by simp [many]) made ends
        (compiles_lowerConditions conditions count.symm tested)
        (compiles_lowerLast branches filled left)
        (compiles_lowerBranches branches (count ▸ many) branched)
      rwa [List.dropLast_append_getLast] at compiles
  | .call func arguments mode result, success => by
    have all : ∀ {code : Code} {first last : Nat},
        lowerAll context arguments first = .ok (code, last) →
          Compiles context (.all arguments) first code last :=
      compiles_lowerAll arguments
    cases declared : context.program.func? func with
    | none =>
      rw [lower_undeclared declared] at success
      cases success
    | some decl =>
      by_cases kind : FuncKind.ofCode? decl.kind = some .makeUnion
      · rw [lower_makeUnion declared kind] at success
        match arguments with
        | [argument] =>
          simp only [bind_eq_ok, lift_eq_ok, typeOf_eq_ok] at success
          obtain ⟨member, _, ⟨typed, rfl⟩, success⟩ := success
          cases form : nullable? context.program result with
          | some nullable =>
            simp only [form, bind_eq_ok, pure_eq_ok] at success
            obtain ⟨_, _, done, same⟩ := success
            cases same
            exact .makeNullable declared kind typed form (compiles_lower argument done)
          | none =>
            simp only [form, bind_eq_ok, pure_eq_ok, lift_eq_ok] at success
            obtain ⟨_, _, ⟨numbered, rfl⟩, _, _, done, same⟩ := success
            cases same
            exact .makeTagged declared kind typed form numbered (compiles_lower argument done)
        | [] => cases success
        | _ :: _ :: _ => cases success
      · rw [lower_call declared kind] at success
        simp only [bind_eq_ok, pure_eq_ok, lift_eq_ok] at success
        obtain ⟨_, _, done, _, _, ⟨follows, rfl⟩, same⟩ := success
        cases same
        exact .call declared kind (all done) follows
  | .callDynamic target arguments fork result, success => by
    simp only [lower, bind_eq_ok, pure_eq_ok, lift_eq_ok] at success
    obtain ⟨_, _, argumentsDone, _, _, targetDone, _, _, ⟨fits, rfl⟩, same⟩ := success
    cases same
    exact .callDynamic (compiles_lowerAll arguments argumentsDone)
      (compiles_lower target targetDone) fits
  | .callSelf arguments result, success => by
    simp only [lower, bind_eq_ok, pure_eq_ok, lift_eq_ok] at success
    obtain ⟨_, _, ⟨checked, rfl⟩, _, _, done, _, _, loaded, _, _, ⟨fits, rfl⟩, same⟩ := success
    cases same
    exact .callSelf checked (compiles_lowerAll arguments done) loaded fits
  | .closure func bound type, success => by
    simp only [lower, bind_eq_ok, pure_eq_ok, lift_eq_ok] at success
    obtain ⟨_, _, done, _, _, ⟨fits, rfl⟩, same⟩ := success
    cases same
    exact .closure (compiles_lowerAll bound done) fits
  | .slot slot type, success => by
    simp only [lower, bind_eq_ok, pure_eq_ok, lift_eq_ok] at success
    obtain ⟨_, _, ⟨fits, rfl⟩, same⟩ := success
    cases same
    exact .slot fits
  | .field operand position type, success => by
    simp only [lower, bind_eq_ok, pure_eq_ok, lift_eq_ok, typeOf_eq_ok] at success
    obtain ⟨_, _, done, _, _, ⟨typed, rfl⟩, _, _, ⟨follows, rfl⟩, same⟩ := success
    cases same
    exact .field (compiles_lower operand done) typed follows
  | .group items, success => by
    rw [lower] at success
    split at success
    · cases success
    · next filled =>
      have filled : items ≠ [] := by simpa using filled
      exact .group filled (compiles_lowerGroup items filled success)
  | .unionCheck operand target, success => by
    simp only [lower, bind_eq_ok, pure_eq_ok, lift_eq_ok, typeOf_eq_ok] at success
    obtain ⟨_, _, done, _, _, ⟨typed, rfl⟩, _, _, ⟨follows, rfl⟩, same⟩ := success
    cases same
    exact .unionCheck (compiles_lower operand done) typed follows
  | .unionGet operand target slot, success => by
    simp only [lower, bind_eq_ok, pure_eq_ok, lift_eq_ok, typeOf_eq_ok] at success
    obtain ⟨_, _, done, _, _, ⟨typed, rfl⟩, _, _, ⟨fits, rfl⟩, _, _, follows, same⟩ := success
    cases same
    exact .unionGet (compiles_lower operand done) typed fits follows
  | .fail _, success => compiles_literal rfl success
  | .bool _, success => compiles_literal rfl success
  | .float _, success => compiles_literal rfl success
  | .int _, success => compiles_literal rfl success
  | .long _, success => compiles_literal rfl success
  | .string _, success => compiles_literal rfl success
  | .char _, success => compiles_literal rfl success
  | .function _ _, success => compiles_literal rfl success
  | .enumeration _ _, success => compiles_literal rfl success

theorem compiles_lowerAll {context : Context} {first last : Nat} {code : Code} :
    (items : List Expr) → lowerAll context items first = .ok (code, last) →
      Compiles context (.all items) first code last
  | [], success => by
    rw [lowerAll, pure_eq_ok] at success
    cases success
    exact .nil
  | item :: items, success => by
    simp only [lowerAll, bind_eq_ok, pure_eq_ok] at success
    obtain ⟨_, _, itemDone, _, _, itemsDone, same⟩ := success
    cases same
    exact .cons (compiles_lower item itemDone) (compiles_lowerAll items itemsDone)

theorem compiles_lowerGroup {context : Context} {tail : Bool} {first last : Nat} {code : Code} :
    (items : List Expr) → items ≠ [] → lowerGroup context items tail first = .ok (code, last) →
      Compiles context (.group items tail) first code last
  | [], filled, _ => absurd rfl filled
  | [item], _, success => by
    rw [lowerGroup] at success
    exact .final (compiles_lower item success)
  | item :: next :: items, _, success => by
    rw [lowerGroup_cons] at success
    simp only [bind_eq_ok, pure_eq_ok] at success
    obtain ⟨_, _, itemDone, _, _, itemsDone, same⟩ := success
    cases same
    exact .next (compiles_lower item itemDone)
      (compiles_lowerGroup (next :: items) (List.cons_ne_nil _ _) itemsDone)

theorem compiles_lowerConditions {context : Context} {labels : List Label} {first last : Nat}
    {code : Code} :
    (conditions : List Expr) → conditions.length = labels.length →
      lowerConditions context conditions labels first = .ok (code, last) →
      Compiles context (.tests conditions labels) first code last
  | [], many, success => by
    cases List.length_eq_zero_iff.1 many.symm
    rw [lowerConditions, pure_eq_ok] at success
    · cases success
      exact .untested
    · exact fun _ _ _ _ none => nomatch none
  | condition :: conditions, many, success => by
    match labels with
    | label :: labels =>
      simp only [lowerConditions, bind_eq_ok, pure_eq_ok] at success
      obtain ⟨_, _, itemDone, _, _, itemsDone, same⟩ := success
      cases same
      exact .test (compiles_lower condition itemDone)
        (compiles_lowerConditions conditions (Nat.succ.inj many) itemsDone)

theorem compiles_lowerLast {context : Context} {tail : Bool} {first last : Nat} {code : Code} :
    (items : List Expr) → (filled : items ≠ []) →
      lowerLast context items tail first = .ok (code, last) →
      Compiles context (.one (items.getLast filled) tail) first code last
  | [], filled, _ => absurd rfl filled
  | [item], _, success => by
    rw [lowerLast] at success
    exact compiles_lower item success
  | _ :: next :: items, _, success => by
    rw [lowerLast_cons] at success
    exact compiles_lowerLast (next :: items) (List.cons_ne_nil _ _) success

theorem compiles_lowerBranches {context : Context} {labels : List Label} {done : Label}
    {tail : Bool} {first last : Nat} {code : Code} :
    (branches : List Expr) → branches.length = labels.length + 1 →
      lowerBranches context branches labels done tail first = .ok (code, last) →
      Compiles context (.branches branches.dropLast labels done tail) first code last
  | [], many, _ => nomatch many
  | [_], many, success => by
    cases List.length_eq_zero_iff.1 (Nat.succ.inj many).symm
    rw [lowerBranches, pure_eq_ok] at success
    · cases success
      exact .unbranched
    · exact fun _ _ _ _ _ none => nomatch none
  | branch :: next :: branches, many, success => by
    match labels with
    | label :: labels =>
      simp only [lowerBranches, bind_eq_ok, pure_eq_ok] at success
      obtain ⟨_, _, branchDone, _, _, branchesDone, same⟩ := success
      cases same
      exact .branch (compiles_lower branch branchDone)
        (compiles_lowerBranches (next :: branches) (Nat.succ.inj many) branchesDone)

end

theorem Lowered.compiles {context : Context} {expr : Expr} {tail : Bool} {code : Code}
    (lowered : Lowered context expr tail code) :
    ∃ first last, Compiles context (.one expr tail) first code last := by
  obtain ⟨first, last, success⟩ := lowered
  exact ⟨first, last, compiles_lower expr success⟩

section

variable {context : Context} {tail : Bool} {code : Code} {operand : Expr} {target type : TypeId}
variable {slot : SlotId} {first last : Nat}

theorem lowered_slot (lowered : Lowered context (.slot slot type) tail code) :
    ∃ byte, slotByte slot = .ok byte ∧ code = emit (.loadConst byte) := by
  obtain ⟨_, _, compiles⟩ := lowered.compiles
  cases compiles with
  | slot fits => exact ⟨_, fits, rfl⟩
  | literal none => cases none

theorem lowered_unionCheck (lowered : Lowered context (.unionCheck operand target) tail code) :
    ∃ operandCode union rest, Lowered context operand false operandCode ∧
      operand.type? = some union ∧ checkMember context union target = .ok rest ∧
      code = operandCode ++ rest := by
  obtain ⟨count, after, success⟩ := lowered
  simp only [lower, bind_eq_ok, pure_eq_ok, lift_eq_ok, typeOf_eq_ok] at success
  obtain ⟨operandCode, _, done, union, _, ⟨typed, _⟩, rest, _, ⟨follows, _⟩, same⟩ := success
  exact ⟨operandCode, union, rest, ⟨_, _, done⟩, typed, follows, congrArg Prod.fst same⟩

theorem lowered_unionGet (lowered : Lowered context (.unionGet operand target slot) tail code) :
    ∃ operandCode union byte rest, Lowered context operand false operandCode ∧
      operand.type? = some union ∧ slotByte slot = .ok byte ∧
      (∃ first last, getMember context union target byte first = .ok (rest, last)) ∧
      code = operandCode ++ rest := by
  obtain ⟨count, after, success⟩ := lowered
  simp only [lower, bind_eq_ok, pure_eq_ok, lift_eq_ok, typeOf_eq_ok] at success
  obtain ⟨operandCode, _, done, union, _, ⟨typed, _⟩, byte, _, ⟨fits, _⟩, rest, _, follows, same⟩ :=
    success
  exact ⟨operandCode, union, byte, rest, ⟨_, _, done⟩, typed, fits, ⟨_, _, follows⟩,
    congrArg Prod.fst same⟩

/-! ## Loads and members -/

theorem loadSlots_nil (loaded : loadSlots [] first = .ok (code, last)) :
    last = first ∧ code = [] := by
  simp only [loadSlots, List.mapM_nil, pure_eq_ok] at loaded
  cases loaded
  exact ⟨rfl, rfl⟩

theorem loadSlots_cons {slots : List SlotId}
    (loaded : loadSlots (slot :: slots) first = .ok (code, last)) :
    ∃ byte rest, slotByte slot = .ok byte ∧ loadSlots slots first = .ok (rest, last) ∧
      code = emit (.loadConst byte) ++ rest := by
  simp only [loadSlots, List.mapM_cons, bind_eq_ok, pure_eq_ok, lift_eq_ok] at loaded
  obtain ⟨_, _, ⟨byte, _, ⟨fits, rfl⟩, loads⟩, rest, _, done, same⟩ := loaded
  cases same
  cases loads
  exact ⟨byte, rest, fits, done, rfl⟩

theorem getMember_nullable {union : TypeId} {slot : UInt8} {nullable : Nullable}
    (form : nullable? context.program union = some nullable)
    (success : getMember context union target slot first = .ok (code, last)) :
    last = first ∧ code = plain .dup ++ emit (.storeConst slot) ++ plain .isNull ++
      if target == nullable.structType then plain .notInt else [] := by
  simp only [getMember, form, pure_eq_ok] at success
  cases success
  exact ⟨rfl, rfl⟩

theorem getMember_tagged {union : TypeId} {slot : UInt8}
    (form : nullable? context.program union = none)
    (success : getMember context union target slot first = .ok (code, last)) :
    ∃ same done number middle, fresh context.scope first = .ok (same, middle) ∧
      fresh context.scope middle = .ok (done, last) ∧
      memberNumber context.program union target = .ok number ∧
      code = plain .dup ++ emit (.loadField 0) ++ emit (.loadInt number) ++ plain .eqInt ++
        emit (.jumpIf same) ++ plain .pop ++ emit (.loadInt 0) ++ emit (.jump done) ++
        bind same ++ emit (.loadField 1) ++ emit (.storeConst slot) ++ emit (.loadInt 1) ++
        bind done := by
  simp only [getMember, form, bind_eq_ok, pure_eq_ok, lift_eq_ok] at success
  obtain ⟨same, middle, sameFresh, done, _, doneFresh, number, _, ⟨known, rfl⟩, equation⟩ := success
  cases equation
  exact ⟨same, done, number, middle, sameFresh, doneFresh, known, rfl⟩

theorem selectField_eq_ok {position : Int}
    (success : selectField context type position = .ok code) :
    (context.program.fieldCount? type = some 1 ∧ code = []) ∨
      ∃ count byte, context.program.fieldCount? type = some count ∧ 2 ≤ count ∧
        0 ≤ position ∧ position < count ∧ fieldByte position = .ok byte ∧
        code = emit (.loadField byte) := by
  unfold selectField at success
  by_cases isStruct : context.program.kind? type = some .struct
  · simp only [isStruct, bne_self_eq_false] at success
    cases counted : context.program.fieldCount? type with
    | none =>
      simp only [counted] at success
      cases success
    | some count =>
      simp only [counted] at success
      match count with
      | 0 => cases success
      | 1 =>
        cases success
        exact Or.inl ⟨rfl, rfl⟩
      | count + 2 =>
        by_cases outside : position < 0 ∨ ((count + 2 : Nat) : Int) ≤ position
        · simp only [outside] at success
          cases success
        · simp only [outside] at success
          obtain ⟨byte, fits, same⟩ := except_bind_eq_ok.1 success
          cases same
          exact Or.inr ⟨count + 2, byte, rfl, by omega, by omega, by omega, fits, rfl⟩
  · have other : (context.program.kind? type != some .struct) = true := by
      simpa using isStruct
    simp only [other] at success
    cases success

end

/-! ## Equality functions -/

def ComparesFields (program : Program) (scope : Bytes) (position : Nat) (fields : List FieldDecl)
    (code : Code) : Prop :=
  ∃ count after, compareFields program scope position fields count = .ok (code, after)

def SelectsMember (scope : Bytes) (number : Nat) (members : List TypeId) (code : Code)
    (labels : List Label) : Prop :=
  ∃ count after, selectMember scope number members count = .ok ((code, labels), after)

section

variable {program : Program} {scope : Bytes} {code : Code}
variable {type : TypeId} {position number : Nat} {labels : List Label}

theorem comparesFields_nil (compares : ComparesFields program scope position [] code) :
    code = [] := by
  obtain ⟨count, after, success⟩ := compares
  rw [compareFields, pure_eq_ok] at success
  exact congrArg Prod.fst success

theorem comparesFields_cons {field : FieldDecl} {fields : List FieldDecl}
    (compares : ComparesFields program scope position (field :: fields) code) :
    ∃ next byte compare rest, Generated scope next ∧ fieldByte position = .ok byte ∧
      compareValues program field.type = .ok compare ∧
      ComparesFields program scope (position + 1) fields rest ∧
      code = loadBoth byte ++ compare ++ emit (.jumpIf next) ++ answer 0 ++ bind next ++ rest := by
  obtain ⟨count, after, success⟩ := compares
  simp only [compareFields, bind_eq_ok, pure_eq_ok, lift_eq_ok] at success
  obtain ⟨next, _, nextFresh, byte, _, ⟨fits, _⟩, compare, _, ⟨compared, _⟩, rest, _, done, same⟩ :=
    success
  exact ⟨next, byte, compare, rest, fresh_eq_ok nextFresh, fits, compared, ⟨_, _, done⟩,
    congrArg Prod.fst same⟩

theorem selectsMember_nil (selects : SelectsMember scope number [] code labels) :
    code = [] ∧ labels = [] := by
  obtain ⟨count, after, success⟩ := selects
  rw [selectMember, pure_eq_ok] at success
  cases success
  exact ⟨rfl, rfl⟩

theorem selectsMember_cons {member : TypeId} {members : List TypeId}
    (selects : SelectsMember scope number (member :: members) code labels) :
    ∃ label rest others, Generated scope label ∧
      SelectsMember scope (number + 1) members rest others ∧ labels = label :: others ∧
      code = emit (.loadConst 0) ++ emit (.loadField 0) ++ emit (.loadInt (Int32.ofNat number)) ++
        plain .eqInt ++ emit (.jumpIf label) ++ rest := by
  obtain ⟨count, after, success⟩ := selects
  simp only [selectMember, bind_eq_ok, pure_eq_ok] at success
  obtain ⟨label, _, labelFresh, ⟨rest, others⟩, _, done, same⟩ := success
  cases same
  exact ⟨label, rest, others, fresh_eq_ok labelFresh, ⟨_, _, done⟩, rfl, rfl⟩

theorem compareMembers_cons {equal label : Label} {member : TypeId}
    {members : List (TypeId × Label)}
    (success : compareMembers program equal ((member, label) :: members) = .ok code) :
    ∃ compare rest, compareValues program member = .ok compare ∧
      compareMembers program equal members = .ok rest ∧
      code = bind label ++ loadBoth 1 ++ compare ++ emit (.jumpIf equal) ++ answer 0 ++ rest := by
  simp only [compareMembers, except_bind_eq_ok] at success
  obtain ⟨compare, compared, rest, done, same⟩ := success
  cases same
  exact ⟨compare, rest, compared, done, rfl⟩

inductive EqualityBody (program : Program) (scope : Bytes) (type : TypeId) : Code → Prop
  | empty (definition : StructDef) (kind : program.kind? type = some .struct)
      (found : program.struct? type = some definition) (none : definition.fields.getD [] = []) :
      EqualityBody program scope type (answer 1)
  | single (definition : StructDef) (field : FieldDecl) (compare : Code)
      (kind : program.kind? type = some .struct)
      (found : program.struct? type = some definition)
      (one : definition.fields.getD [] = [field])
      (compared : compareValues program field.type = .ok compare) :
      EqualityBody program scope type
        (emit (.loadConst 0) ++ emit (.loadConst 1) ++ compare ++ plain .ret)
  | wide (definition : StructDef) (compare : Code) (kind : program.kind? type = some .struct)
      (found : program.struct? type = some definition)
      (many : 2 ≤ (definition.fields.getD []).length)
      (compares : ComparesFields program scope 0 (definition.fields.getD []) compare) :
      EqualityBody program scope type (compare ++ answer 1)
  | nullable {first second last : Nat} (nullable : Nullable) (leftNull rightNull : Label)
      (kind : program.kind? type = some .union) (form : nullable? program type = some nullable)
      (leftFresh : fresh scope first = .ok (leftNull, second))
      (rightFresh : fresh scope second = .ok (rightNull, last)) :
      EqualityBody program scope type
        (emit (.loadConst 0) ++ plain .isNull ++ emit (.jumpIf leftNull) ++
          emit (.loadConst 1) ++ plain .isNull ++ emit (.jumpIf rightNull) ++
          emit (.loadConst 0) ++ emit (.loadConst 1) ++
          callTo (equalityLabel nullable.structType) 2 .tail ++
          bind leftNull ++ emit (.loadConst 1) ++ plain .isNull ++ plain .ret ++
          bind rightNull ++ answer 0)
  | tagged {first second third last : Nat} (definition : UnionDef) (sameMember equal : Label)
      (select compare : Code) (labels : List Label) (kind : program.kind? type = some .union)
      (form : nullable? program type = none) (found : program.union? type = some definition)
      (sameFresh : fresh scope first = .ok (sameMember, second))
      (equalFresh : fresh scope second = .ok (equal, third))
      (selects : selectMember scope 0 (definition.members.getD []) third =
        .ok ((select, labels), last))
      (compared : compareMembers program equal ((definition.members.getD []).zip labels) =
        .ok compare) :
      EqualityBody program scope type
        (loadBoth 0 ++ plain .eqInt ++ emit (.jumpIf sameMember) ++ answer 0 ++
          bind sameMember ++ select ++ plain .fail ++ compare ++ bind equal ++ answer 1)

theorem structEquality_eq_ok {definition : StructDef} {count after : Nat}
    (kind : program.kind? type = some .struct) (found : program.struct? type = some definition)
    (success : structEquality program scope (definition.fields.getD []) count =
      .ok (code, after)) : EqualityBody program scope type code := by
  generalize listed : definition.fields.getD [] = fields at success
  match fields with
  | [] =>
    rw [structEquality, pure_eq_ok] at success
    cases success
    exact .empty definition kind found listed
  | [field] =>
    simp only [structEquality, bind_eq_ok, pure_eq_ok, lift_eq_ok] at success
    obtain ⟨compare, _, ⟨compared, _⟩, same⟩ := success
    cases same
    exact .single definition field compare kind found listed compared
  | first :: second :: rest =>
    simp only [structEquality, bind_eq_ok, pure_eq_ok] at success
    obtain ⟨compare, _, compares, same⟩ := success
    cases same
    refine .wide definition compare kind found (by simp [listed]) ?_
    rw [listed]
    exact ⟨_, _, compares⟩

theorem equalityFunction_eq_ok {count after : Nat}
    (success : equalityFunction program type count = .ok (code, after)) :
    ∃ body, EqualityBody program (equalityLabel type) type body ∧
      code = bind (equalityLabel type) ++ emit (.reserveConsts 2) ++ emit (.storeConst 1) ++
        emit (.storeConst 0) ++ body ++ plain .fail := by
  have opens : ∀ {body : Lower Code},
      (do
        let body ← body
        return bind (equalityLabel type) ++ emit (.reserveConsts 2) ++ emit (.storeConst 1) ++
          emit (.storeConst 0) ++ body ++ plain .fail : Lower Code) count = .ok (code, after) →
        ∃ inner between, body count = .ok (inner, between) ∧
          code = bind (equalityLabel type) ++ emit (.reserveConsts 2) ++ emit (.storeConst 1) ++
            emit (.storeConst 0) ++ inner ++ plain .fail := by
    intro body success
    simp only [bind_eq_ok, pure_eq_ok] at success
    obtain ⟨inner, between, done, same⟩ := success
    exact ⟨inner, between, done, congrArg Prod.fst same⟩
  cases kind : program.kind? type with
  | none =>
    simp only [equalityFunction, kind] at success
    cases success
  | some typeKind =>
    cases typeKind with
    | struct =>
      cases found : program.struct? type with
      | none =>
        simp only [equalityFunction, kind, found] at success
        cases success
      | some definition =>
        simp only [equalityFunction, kind, found] at success
        obtain ⟨inner, between, done, same⟩ := opens success
        exact ⟨inner, structEquality_eq_ok kind found done, same⟩
    | union =>
      cases form : nullable? program type with
      | some nullable =>
        simp only [equalityFunction, kind, form] at success
        obtain ⟨inner, between, done, same⟩ := opens success
        simp only [nullableEquality, bind_eq_ok, pure_eq_ok] at done
        obtain ⟨leftNull, _, leftFresh, rightNull, _, rightFresh, equation⟩ := done
        cases equation
        exact ⟨_, .nullable nullable leftNull rightNull kind form leftFresh rightFresh, same⟩
      | none =>
        cases found : program.union? type with
        | none =>
          simp only [equalityFunction, kind, form, found] at success
          cases success
        | some definition =>
          simp only [equalityFunction, kind, form, found] at success
          obtain ⟨inner, between, done, same⟩ := opens success
          simp only [unionEquality, bind_eq_ok, pure_eq_ok, lift_eq_ok] at done
          obtain ⟨sameMember, _, sameFresh, equal, _, equalFresh, ⟨select, labels⟩, _,
            selects, compare, _, ⟨compared, _⟩, equation⟩ := done
          cases equation
          exact ⟨_, .tagged definition sameMember equal select compare labels kind form
            found sameFresh equalFresh selects compared, same⟩
    | _ =>
      simp only [equalityFunction, kind] at success
      cases success

end

/-! ## Units -/

inductive UnitCode (program : Program) : CodeUnit → Code → Prop
  | equality (type : TypeId) (body : Code)
      (compares : EqualityBody program (equalityLabel type) type body) :
      UnitCode program (.equality type)
        (bind (equalityLabel type) ++ emit (.reserveConsts 2) ++ emit (.storeConst 1) ++
          emit (.storeConst 0) ++ body ++ plain .fail)
  | function (id : FuncId) (definition : FuncDef) (room inputs body : Code)
      (found : program.def? id = some definition)
      (reserved : CodeUnit.reserve definition.slots = .ok room)
      (stored : CodeUnit.storeInputs definition.slots = .ok inputs)
      (lowered : Lowered
        { program, scope := funcLabel id, slots := definition.slots
          func := some (CodeUnit.signature program id) } definition.body true body) :
      UnitCode program (.function id)
        (bind (funcLabel (CodeUnit.signature program id).id) ++ room ++ inputs ++ body ++
          plain .ret ++ plain .fail)
  | statement (number : Nat) (statement : Statement) (room body : Code)
      (reserved : CodeUnit.reserve statement.slots = .ok room)
      (lowered : Lowered
        { program, scope := statementLabel number, slots := statement.slots, func := none }
        statement.expr false body) :
      UnitCode program (.statement number statement)
        (bind (statementLabel number) ++ [.entry (statementLabel number)] ++ room ++ body ++
          plain .pop ++ plain .ret ++ plain .fail)

theorem code_eq_ok {program : Program} {unit : CodeUnit} {count after : Nat} {code : Code}
    (success : unit.code program count = .ok (code, after)) : UnitCode program unit code := by
  cases unit with
  | equality type =>
    obtain ⟨body, compares, rfl⟩ := equalityFunction_eq_ok success
    exact .equality type body compares
  | function id =>
    cases found : program.def? id with
    | none =>
      simp only [CodeUnit.code, found] at success
      cases success
    | some definition =>
      simp only [CodeUnit.code, found, bind_eq_ok, pure_eq_ok, lift_eq_ok] at success
      obtain ⟨room, _, ⟨reserved, _⟩, inputs, _, ⟨stored, _⟩, body, _, done, same⟩ := success
      cases same
      exact .function id definition room inputs body found reserved stored ⟨_, _, done⟩
  | statement number statement =>
    simp only [CodeUnit.code, bind_eq_ok, pure_eq_ok, lift_eq_ok] at success
    obtain ⟨room, _, ⟨reserved, _⟩, body, _, done, same⟩ := success
    cases same
    exact .statement number statement room body reserved ⟨_, _, done⟩

theorem storeSlots_cons {slot : SlotId} {slots : List SlotId} {code : Code}
    (success : ((slot :: slots).mapM fun slot => do
      return Fragment.Command.emit (.storeConst (← slotByte slot)) : Except Cause Code) =
        .ok code) :
    ∃ byte rest, slotByte slot = .ok byte ∧
      (slots.mapM fun slot => do
        return Fragment.Command.emit (.storeConst (← slotByte slot)) : Except Cause Code) =
          .ok rest ∧
      code = emit (.storeConst byte) ++ rest := by
  rw [List.mapM_cons] at success
  simp only [except_bind_eq_ok] at success
  obtain ⟨_, ⟨byte, fits, first⟩, rest, done, same⟩ := success
  cases first
  cases same
  exact ⟨byte, rest, fits, done, rfl⟩

end WordMachine.Lowering
