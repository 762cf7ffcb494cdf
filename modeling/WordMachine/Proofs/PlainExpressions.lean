import WordMachine.Proofs.FunctionCalls

/-!
The code of expressions that call nothing: literals, constants, fields, members of unions and
function values. Each does what the evaluation does if the code of its operands does.
-/

namespace WordMachine.Evaluation

open Lowering (Code bind emit funcLabel literalCode memberNumber nullable? plain Nullable)

section

variable {compilation : Compilation} {site : Site compilation} {fuel : Nat}
variable {operand : Expr} {func : FuncId} {type target : TypeId}

attribute [local simp] evaluate

/-! ## Literals -/

/-- An expression that is a single instruction and always has the same value. -/
theorem correct_literal {expr : Expr} {instruction : Instruction} (value : Value)
    (literal : literalCode expr = some (emit instruction)) (evaluates : ∀ state,
      evaluate site.scope (invoke compilation.program fuel) expr state = .ok value state)
    (loads : ∀ {type : TypeId} {position : Nat} {level : Level} {window : List (Option Typed)}
      {operands : List Typed} {effects : Effects} {session : Session}, expr.type? = some type →
      isTyped site.scope compilation.usable expr = true →
      instruction.At compilation.image position →
      Depicts compilation position (level.config window operands effects) session →
      session.Leads (Depicts compilation (position + Code.size (emit instruction))
        (level.config window ((type, value) :: operands) effects))) : site.Correct fuel expr := by
  refine ⟨fun compiles typed known placed concludes depicts => ?_⟩
  cases Lowering.eq_of_literalCode literal compiles
  rw [evaluates]
  exact (loads known typed placed.single depicts).trans fun _ shown => concludes.delivered shown

theorem correct_bool (value : Bool) : site.Correct fuel (.bool value) := by
  refine correct_literal (.int (flag value)) rfl (fun _ => by rw [evaluate]; rfl)
    fun known _ here depicts => ?_
  cases known
  exact (depicts.loadInt here compilation.bool_scalar).leads

theorem correct_int (value : Int32) : site.Correct fuel (.int value) := by
  refine correct_literal (.int value) rfl (fun _ => by rw [evaluate]; rfl)
    fun known _ here depicts => ?_
  cases known
  exact (depicts.loadInt here (hasScalar_of_kind compilation.tables.int (by simp))).leads

theorem correct_long (value : Int64) : site.Correct fuel (.long value) := by
  refine correct_literal (.long value) rfl (fun _ => by rw [evaluate]; rfl)
    fun known _ here depicts => ?_
  cases known
  exact (depicts.loadLong here (hasScalar_of_kind compilation.tables.long (by simp))).leads

theorem correct_float (bits : UInt32) : site.Correct fuel (.float bits) := by
  refine correct_literal (.float bits) rfl (fun _ => by rw [evaluate]; rfl)
    fun known _ here depicts => ?_
  cases known
  exact (depicts.loadFloat here (hasScalar_of_kind compilation.tables.float (by simp))).leads

theorem correct_string (text : Bytes) : site.Correct fuel (.string text) := by
  refine correct_literal (.string text) rfl (fun _ => by rw [evaluate]; rfl)
    fun known _ here depicts => ?_
  cases known
  exact (depicts.loadString here (hasScalar_of_kind compilation.tables.string (by simp))).leads

theorem toInt32_toUInt32 (byte : UInt8) : byte.toUInt32.toInt32 = charOf byte := by
  have small : byte.toNat < 2 ^ 32 := Nat.lt_trans byte.toNat_lt (by decide)
  have same : byte.toUInt32 = UInt32.ofNat byte.toNat := by
    rw [← UInt32.toNat_inj, UInt8.toNat_toUInt32, UInt32.toNat_ofNat_of_lt' small]
  rw [same]
  rfl

theorem correct_char (byte : UInt8) : site.Correct fuel (.char byte) := by
  refine correct_literal (.int (charOf byte)) rfl (fun _ => by rw [evaluate]; rfl)
    fun known _ here depicts => ?_
  cases known
  rw [← toInt32_toUInt32]
  exact (depicts.loadInt here (hasScalar_number compilation.tables.char (by simp))).leads

theorem correct_enumeration (type : TypeId) (value : Int32) :
    site.Correct fuel (.enumeration type value) := by
  refine correct_literal (.int value) rfl (fun _ => by rw [evaluate]; rfl)
    fun known typed here depicts => ?_
  cases known
  rw [isTyped, beq_iff_eq] at typed
  exact (depicts.loadInt here (hasScalar_number typed (by simp))).leads

theorem covers_function
    (fits : delegateFits compilation.program compilation.usable func [] type = true) :
    Covers compilation (TypeId.int, .int (compilation.entry func).toInt32)
      (type, .function func []) := by
  intro lazies heap word represents
  cases represents
  exact .function func fits

theorem correct_function (func : FuncId) (type : TypeId) :
    site.Correct fuel (.function func type) := by
  refine correct_literal (.function func []) rfl (fun _ => by rw [evaluate]; rfl)
    fun known typed here depicts => ?_
  cases known
  rw [isTyped] at typed
  exact (depicts.loadAddress here).leads.mono fun _ shown => shown.retype (covers_function typed)

theorem correct_fail (type : TypeId) : site.Correct fuel (.fail type) := by
  refine ⟨fun compiles typed known placed concludes depicts => ?_⟩
  cases Lowering.eq_of_literalCode rfl compiles
  rw [evaluate]
  exact (depicts.fail placed.single).leads

/-! ## Constants -/

theorem correct_slot (slot : SlotId) (type : TypeId) : site.Correct fuel (.slot slot type) := by
  refine ⟨fun compiles typed known placed concludes depicts => ?_⟩
  cases compiles with
  | literal none => cases none
  | slot fits =>
    cases known
    rw [isTyped, beq_iff_eq] at typed
    rw [evaluate]
    exact (site.agrees_slot fits typed placed.single depicts).delivered concludes

theorem correct_assign {slot : SlotId} {value : Expr} (correct : site.Correct fuel value) :
    site.Correct fuel (.assign slot value) := by
  refine ⟨fun compiles typed known placed concludes depicts => ?_⟩
  cases compiles with
  | literal none => cases none
  | assign valueCompiles fits =>
    rw [isTyped, Bool.and_eq_true, beq_iff_eq] at typed
    obtain ⟨valueTyped, slotTyped⟩ := typed
    rw [Expr.type?] at known
    rw [known] at slotTyped
    simp only [List.append_assoc] at placed
    rw [evaluate]
    refine (correct.operand valueCompiles valueTyped known placed.first depicts).bind
      fun content middle after shown => ?_
    refine .of_leads (shown.dup placed.second.first.single).leads fun after shown => ?_
    refine (site.storeSlot (some content) fits slotTyped.symm (covers_refl (_, content))
      placed.second.second.single shown).leads.trans fun after shown => ?_
    simp only [Code.size_append, ← Nat.add_assoc] at concludes ⊢
    exact concludes.delivered shown

/-! ## Fields -/

theorem correct_field {index : Int64} (correct : site.Correct fuel operand) :
    site.Correct fuel (.field operand index type) := by
  refine ⟨fun {_ _ _ _ _ position level operands _ _} compiles typed known placed concludes
    depicts => ?_⟩
  cases compiles with
  | literal none => cases none
  | @field _ operandType _ _ _ operandCode rest _ _ operandCompiles operandKnown selects =>
    cases known
    simp only [isTyped, Bool.and_eq_true] at typed
    obtain ⟨operandTyped, shaped⟩ := typed
    obtain ⟨fields, shape, positive, selected⟩ : ∃ fields,
        shape? compilation.program operandType = some (.struct fields) ∧ 0 ≤ index.toInt ∧
          fields[index.toInt.toNat]? = some type := by
      rw [operandKnown, Option.bind_some] at shaped
      split at shaped
      · next fields shape =>
        simp only [Bool.and_eq_true, decide_eq_true_eq, beq_iff_eq] at shaped
        exact ⟨fields, shape, shaped⟩
      · cases shaped
    rw [evaluate]
    refine (correct.operand operandCompiles operandTyped operandKnown placed.first depicts).bind
      fun value middle after shown => ?_
    obtain ⟨_, _, represents⟩ := shown.represented List.mem_cons_self
    obtain ⟨values, rfl, length⟩ := represents.exists_fields shape
    have inside := (List.getElem?_eq_some_iff.1 selected).1
    obtain ⟨field, found⟩ : ∃ field, values[index.toInt.toNat]? = some field :=
      ⟨_, List.getElem?_eq_getElem (length.symm ▸ inside)⟩
    simp only [found]
    have loaded : after.Leads (Depicts compilation (position + Code.size (operandCode ++ rest))
        (level.config (site.window middle.locals) ((type, field) :: operands) middle.effects)) := by
      rw [Code.size_append, ← Nat.add_assoc]
      rcases Lowering.selectField_eq_ok selects with ⟨counted, rfl⟩ |
        ⟨count, byte, counted, many, _, _, fits, rfl⟩
      · -- The only field is the struct itself.
        obtain ⟨others, same, one⟩ := compilation.tables.shape_of_fieldCount counted
        rw [shape] at same
        cases same
        obtain ⟨only, rfl⟩ := List.length_eq_one_iff.1 one
        obtain ⟨single, rfl⟩ := List.length_eq_one_iff.1 length
        have first : index.toInt.toNat = 0 := Nat.lt_one_iff.1 inside
        rw [first] at selected found
        cases selected
        cases found
        exact .here (shown.retype (covers_field shape))
      · obtain ⟨others, same, listed⟩ := compilation.tables.shape_of_fieldCount counted
        have same := shape.symm.trans same
        cases same
        have place : byte.toNat = index.toInt.toNat := by
          refine Equality.toNat_of_fieldByte ?_
          rw [Int.toNat_of_nonneg positive]
          exact fits
        refine (shown.loadField (type, field) placed.second.single
          fun represents => ?_).leads
        rw [place]
        exact represents.field shape (listed.symm ▸ many) selected found
    exact loaded.trans fun _ shown => concludes.delivered shown

/-! ## Unions -/

theorem shaped_union {program : Program} {union : TypeId} (known : operand.type? = some union)
    (shaped : (match operand.type?.bind (shape? program) with
      | some (.union members) => members.contains target
      | _ => false) = true) :
    ∃ members, shape? program union = some (.union members) ∧ target ∈ members := by
  rw [known, Option.bind_some] at shaped
  split at shaped
  · next members shape => exact ⟨members, shape, List.contains_iff_mem.1 shaped⟩
  · cases shaped

section

variable {position : Nat} {level : Level} {window : List (Option Typed)} {rest : List Typed}
variable {effects : Effects} {session : Session} {union target member : TypeId} {value : Value}

theorem leads_isNull {nullable : Nullable}
    (form : nullable? compilation.program union = some nullable)
    (inside : target = nullable.nullType ∨ target = nullable.structType)
    (placed : Placed compilation.image position
      (plain .isNull ++ if target == nullable.structType then plain .notInt else []))
    (depicts : Depicts compilation position
      (level.config window ((union, .union member value) :: rest) effects) session) :
    session.Leads (Depicts compilation (position + Code.size
        (plain .isNull ++ if target == nullable.structType then plain .notInt else []))
      (level.config window ((TypeId.bool, .int (flag (member == target))) :: rest) effects)) := by
  have different := compilation.tables.nullable_ne form
  obtain ⟨_, _, represents⟩ := depicts.represented List.mem_cons_self
  have tested := depicts.isNull placed.first.single compilation.bool_scalar
    fun represents => Represents.isNull_nullable represents form
  refine tested.leads.trans fun after shown => ?_
  rw [Code.size_append, ← Nat.add_assoc]
  rcases inside with rfl | rfl
  · have same : (nullable.nullType == nullable.structType) = false := beq_false_of_ne different
    simp only [same, Bool.false_eq_true, if_false]
    exact .here shown
  · simp only [beq_self_eq_true, if_true] at placed ⊢
    have negated := (calculates_plain computes_notInt).leads
      [(TypeId.bool, .int (flag (member == nullable.nullType)))] rest placed.second
      (by simp [haveScalars, Operation.inputs, compilation.bool_scalar]) compilation.bool_scalar
      shown
    refine negated.mono fun after shown => ?_
    have flipped : flag (flag (member == nullable.nullType) == 0) =
        flag (member == nullable.structType) := by
      rcases represents.nullable_cases form with ⟨rfl, _, _⟩ | ⟨rfl, _, _⟩
      · rw [beq_self_eq_true, beq_false_of_ne different]
        rfl
      · rw [beq_self_eq_true, beq_false_of_ne different.symm]
        rfl
    have shown : Depicts compilation (position + Code.size (plain .isNull) +
        Code.size (plain .notInt)) (level.config window
          ((TypeId.bool, .int (flag (flag (member == nullable.nullType) == 0))) :: rest) effects)
        after := shown
    rw [flipped] at shown
    exact shown

theorem leads_compareNumber {number : Int32} (form : nullable? compilation.program union = none)
    (known : memberNumber compilation.program union target = .ok number)
    (placed : Placed compilation.image position
      (emit (.loadField 0) ++ emit (.loadInt number) ++ plain .eqInt))
    (depicts : Depicts compilation position
      (level.config window ((union, .union member value) :: rest) effects) session) :
    session.Leads (Depicts compilation (position + Code.size
        (emit (.loadField 0) ++ emit (.loadInt number) ++ plain .eqInt))
      (level.config window ((TypeId.bool, .int (flag (member == target))) :: rest) effects)) := by
  obtain ⟨_, _, represents⟩ := depicts.represented List.mem_cons_self
  obtain ⟨tag, _, tagged, _, _⟩ := represents.tagged_parts form
  have same : (tag == number) = (member == target) := memberNumber_beq tagged known
  simp only [List.append_assoc] at placed
  refine (depicts.loadField (TypeId.int, .int tag) placed.first.single
    fun represents => ?_).leads.trans fun after shown => ?_
  · obtain ⟨fields, first, _, contains, inside, _, stands, _⟩ :=
      represents.tagged_fields form tagged
    exact ⟨fields, first, contains, inside, stands⟩
  refine (shown.loadInt placed.second.first.single
    (hasScalar_of_kind compilation.tables.int (by simp))).leads.trans fun after shown => ?_
  have compared := leads_eqInt placed.second.second shown
  rw [same] at compared
  exact compared

end

theorem correct_unionCheck (correct : site.Correct fuel operand) :
    site.Correct fuel (.unionCheck operand target) := by
  refine ⟨fun {_ _ _ _ _ position level operands _ _} compiles typed known placed concludes
    depicts => ?_⟩
  cases compiles with
  | literal none => cases none
  | @unionCheck _ union _ _ _ operandCode rest _ operandCompiles operandKnown checks =>
    cases known
    rw [isTyped, Bool.and_eq_true] at typed
    obtain ⟨members, shape, inside⟩ := shaped_union operandKnown typed.2
    rw [evaluate]
    refine (correct.operand operandCompiles typed.1 operandKnown placed.first depicts).bind
      fun value middle after shown => ?_
    obtain ⟨_, _, represents⟩ := shown.represented List.mem_cons_self
    obtain ⟨member, inner, rfl, _⟩ := represents.exists_member shape
    have checked : after.Leads (Depicts compilation (position + Code.size (operandCode ++ rest))
        (level.config (site.window middle.locals)
          ((TypeId.bool, .int (flag (member == target))) :: operands) middle.effects)) := by
      rw [Code.size_append, ← Nat.add_assoc]
      unfold Lowering.checkMember at checks
      cases form : nullable? compilation.program union with
      | some nullable =>
        have form' : nullable? site.context.program union = some nullable := form
        simp only [form'] at checks
        cases checks
        obtain ⟨⟨others, same, two⟩, _⟩ := compilation.tables.nullable form
        have same := shape.symm.trans same
        cases same
        exact leads_isNull form ((two target).1 inside) placed.second shown
      | none =>
        have form' : nullable? site.context.program union = none := form
        simp only [form'] at checks
        obtain ⟨number, numbered, made⟩ := Lowering.except_bind_eq_ok.1 checks
        cases made
        exact leads_compareNumber form numbered placed.second shown
    exact checked.trans fun _ shown => concludes.delivered shown

/-! ### Access -/

/-- Nothing need be known of a constant. -/
theorem forall₂_set_left {α β : Type} {related : α → β → Prop} {left : List α} {right : List β}
    (holds : List.Forall₂ related left right) (index : Nat) {item : α}
    (fits : ∀ other, related item other) : List.Forall₂ related (left.set index item) right := by
  induction holds generalizing index with
  | nil => exact .nil
  | cons first rest ih =>
    cases index with
    | zero => exact .cons (fits _) rest
    | succ index => exact .cons first (ih index)

section

variable {position : Nat} {level : Level} {window : List (Option Typed)} {operands : List Typed}
variable {effects : Effects} {session : Session} {union target member : TypeId} {value : Value}
variable {slot : SlotId} {byte : UInt8} {state : State}

theorem Depicts.forget (depicts : Depicts compilation position
    (level.config window operands effects) session) (index : Nat) :
    Depicts compilation position (level.config (window.set index none) operands effects)
      session := by
  obtain ⟨lazies, shows⟩ := depicts
  refine ⟨lazies, { shows with constants := ?_ }⟩
  have same : level.outer ++ window.set index none =
      (level.outer ++ window).set (level.outer.length + index) none := by
    rw [List.set_append_right _ _ (Nat.le_add_right _ _), Nat.add_sub_cancel_left]
  change List.Forall₂ _ (level.outer ++ window.set index none) _
  rw [same]
  exact forall₂_set_left shows.constants _ fun _ _ none => nomatch none

/-- What a union access leaves: whether the member is the one asked for, and its value if so. -/
def Site.accessed (site : Site compilation) (slot : SlotId) (member target : TypeId) (value : Value)
    (state : State) : List (Option Typed) :=
  site.window (setting state.locals slot (if member == target then some value else none))

theorem covers_nullable {nullable : Nullable} {other : Typed}
    (form : nullable? compilation.program union = some nullable)
    (inside : target = nullable.nullType ∨ target = nullable.structType)
    (found : (if member == target then some value else none : Option Value).map (target, ·) =
      some other) : Covers compilation (union, .union member value) other := by
  by_cases equal : member = target
  · subst equal
    rw [beq_self_eq_true, if_pos rfl] at found
    cases found
    rcases inside with rfl | rfl
    · obtain ⟨_, empty, _⟩ := compilation.tables.nullable form
      refine fun represents => ?_
      rcases Represents.nullable_cases represents form with ⟨_, rfl, _⟩ | ⟨same, _, _⟩
      · exact .empty _ empty
      · exact absurd same (compilation.tables.nullable_ne form)
    · exact covers_present form
  · rw [beq_false_of_ne equal, if_neg Bool.false_ne_true] at found
    cases found

theorem leads_getNullable {nullable : Nullable}
    (form : nullable? compilation.program union = some nullable)
    (inside : target = nullable.nullType ∨ target = nullable.structType)
    (fits : Lowering.slotByte slot = .ok byte) (typed : site.scope.slotType? slot = some target)
    (placed : Placed compilation.image position
      (plain .dup ++ emit (.storeConst byte) ++ plain .isNull ++
        if target == nullable.structType then plain .notInt else []))
    (depicts : Depicts compilation position (level.config (site.window state.locals)
      ((union, .union member value) :: operands) state.effects) session) :
    session.Leads (Depicts compilation (position + Code.size
        (plain .dup ++ emit (.storeConst byte) ++ plain .isNull ++
          if target == nullable.structType then plain .notInt else []))
      (level.config (site.accessed slot member target value state)
        ((TypeId.bool, .int (flag (member == target))) :: operands) state.effects)) := by
  simp only [List.append_assoc] at placed
  refine (depicts.dup placed.first.single).leads.trans fun after shown => ?_
  refine (site.storeSlot _ fits typed (fun other => covers_nullable form inside)
    placed.second.first.single shown).leads.trans fun after shown => ?_
  have tested := leads_isNull form inside placed.second.second shown
  simp only [Code.size_append, ← Nat.add_assoc] at tested ⊢
  exact tested

/-- The code of an access to a union that keeps the number of its member. -/
def accessCode (number : Int32) (byte : UInt8) (same done : Label) : Code :=
  plain .dup ++ emit (.loadField 0) ++ emit (.loadInt number) ++ plain .eqInt ++
    emit (.jumpIf same) ++ plain .pop ++ emit (.loadInt 0) ++ emit (.jump done) ++
    bind same ++ emit (.loadField 1) ++ emit (.storeConst byte) ++ emit (.loadInt 1) ++ bind done

theorem leads_getTagged {same done : Label} {number : Int32}
    (form : nullable? compilation.program union = none)
    (known : memberNumber compilation.program union target = .ok number)
    (fits : Lowering.slotByte slot = .ok byte) (typed : site.scope.slotType? slot = some target)
    (placed : Placed compilation.image position (accessCode number byte same done))
    (depicts : Depicts compilation position (level.config (site.window state.locals)
      ((union, .union member value) :: operands) state.effects) session) :
    session.Leads (Depicts compilation (position + Code.size (accessCode number byte same done))
      (level.config (site.accessed slot member target value state)
        ((TypeId.bool, .int (flag (member == target))) :: operands) state.effects)) := by
  have bool := compilation.bool_scalar
  obtain ⟨_, _, represents⟩ := depicts.represented List.mem_cons_self
  obtain ⟨tag, _, tagged, _, _⟩ := represents.tagged_parts form
  have length : Code.size (accessCode number byte same done) = 34 := by
    unfold accessCode
    simp only [Code.size_append]
    rfl
  rw [length]
  unfold accessCode at placed
  simp only [List.append_assoc] at placed
  have compares : Placed compilation.image (position + 1)
      (emit (.loadField 0) ++ emit (.loadInt number) ++ plain .eqInt) := by
    have rest := placed.second
    simp only [← List.append_assoc] at rest ⊢
    exact rest.first.first.first.first.first.first.first.first.first
  have branch : Placed compilation.image (position + 9) _ := placed.second.second.second.second
  have different : Placed compilation.image (position + 14) _ := branch.second
  have equal : Placed compilation.image (position + 25) _ := different.second.second.second
  have accesses : Placed compilation.image (position + 25) _ := equal.second
  have stores : Placed compilation.image (position + 27) _ := accesses.second
  have answers : Placed compilation.image (position + 29) _ := stores.second
  have ends : Placed compilation.image (position + 34) _ := answers.second
  refine (depicts.dup placed.first.single).leads.trans fun after shown => ?_
  refine (leads_compareNumber form known compares shown).trans fun after shown => ?_
  refine (shown.jumpIf branch.first.single).leads.trans fun after shown => ?_
  unfold Site.accessed
  by_cases found : member = target
  · subst found
    rw [beq_self_eq_true, if_pos (by decide), equal.first.target_eq] at shown
    simp only [beq_self_eq_true, if_true]
    refine (shown.loadField (member, value) accesses.first.single
      fun represents => ?_).leads.trans fun after shown => ?_
    · obtain ⟨fields, _, inner, contains, _, inside, _, stands⟩ :=
        represents.tagged_fields form tagged
      exact ⟨fields, inner, contains, inside, stands⟩
    refine (site.storeSlot (some value) fits typed (covers_refl (member, value))
      stores.first.single shown).leads.trans fun after shown => ?_
    exact (shown.loadInt answers.first.single bool).leads
  · rw [beq_false_of_ne found, if_neg (by decide)] at shown
    simp only [beq_false_of_ne found, Bool.false_eq_true, if_false]
    refine (shown.pop different.first.single).leads.trans fun after shown => ?_
    refine (shown.loadInt different.second.first.single bool).leads.trans fun after shown => ?_
    refine (shown.jump different.second.second.first.single).leads.mono fun after shown => ?_
    rw [ends.target_eq] at shown
    have forgotten := shown.forget slot.toNat
    rw [← Option.map_none (f := (target, ·)), site.window_set typed state.locals none] at forgotten
    exact forgotten

end

theorem correct_unionGet {slot : SlotId} (correct : site.Correct fuel operand) :
    site.Correct fuel (.unionGet operand target slot) := by
  refine ⟨fun {_ _ _ _ _ position level operands _ _} compiles typed known placed concludes
    depicts => ?_⟩
  cases compiles with
  | literal none => cases none
  | @unionGet _ union _ _ _ _ _ operandCode _ rest _ operandCompiles operandKnown fits gets =>
    cases known
    simp only [isTyped, Bool.and_eq_true, beq_iff_eq] at typed
    obtain ⟨⟨operandTyped, slotTyped⟩, shaped⟩ := typed
    obtain ⟨members, shape, inside⟩ := shaped_union operandKnown shaped
    rw [evaluate]
    refine (correct.operand operandCompiles operandTyped operandKnown placed.first depicts).bind
      fun value middle after shown => ?_
    obtain ⟨_, _, represents⟩ := shown.represented List.mem_cons_self
    obtain ⟨member, inner, rfl, _⟩ := represents.exists_member shape
    have got : after.Leads (Depicts compilation (position + Code.size (operandCode ++ rest))
        (level.config (site.accessed slot member target inner middle)
          ((TypeId.bool, .int (flag (member == target))) :: operands) middle.effects)) := by
      rw [Code.size_append, ← Nat.add_assoc]
      cases form : nullable? compilation.program union with
      | some nullable =>
        obtain ⟨_, rfl⟩ := Lowering.getMember_nullable form gets
        obtain ⟨⟨others, same, two⟩, _⟩ := compilation.tables.nullable form
        have same := shape.symm.trans same
        cases same
        exact leads_getNullable form ((two target).1 inside) fits slotTyped placed.second shown
      | none =>
        obtain ⟨same, done, number, _, _, _, numbered, rfl⟩ := Lowering.getMember_tagged form gets
        exact leads_getTagged form numbered fits slotTyped placed.second shown
    exact got.trans fun _ shown => concludes.delivered shown

/-! ## Function values -/

/-- An object of arguments and an address is a function value. -/
theorem represents_closure {given : List Typed} {lazies : Lazies} {heap : Heap} {word : Word}
    {fields : Array Word}
    (fits :
      delegateFits compilation.program compilation.usable func (given.map Prod.fst) type = true)
    (contains : heap.Contains word (.struct fields))
    (represents : RepresentsAll compilation lazies heap
      (given ++ [(TypeId.int, .int (compilation.entry func).toInt32)]) fields.toList) :
    Represents compilation lazies heap type (.function func (given.map Prod.snd)) word := by
  have reversed := List.forall₂_reverse_iff.2 represents
  rw [List.reverse_append, List.reverse_singleton, List.singleton_append] at reversed
  obtain ⟨address, words, stands, others, same⟩ := List.forall₂_cons_left_iff.1 reversed
  have listed : fields.toList = words.reverse ++ [address] := by
    rw [← List.reverse_reverse fields.toList, same, List.reverse_cons]
  have stored : fields = words.reverse.toArray.push address := by
    rw [← Array.toList_inj, listed, Array.toList_push]
  have entry : address = .ofBits32 (compilation.entry func) := by
    cases stands
    rfl
  have each := List.forall₂_iff_zip.1 (List.forall₂_reverse_iff.1
    (show List.Forall₂ _ given.reverse words.reverse.reverse by
      rw [List.reverse_reverse]
      exact others))
  rw [stored, entry] at contains
  exact .closure fits contains each.1 fun item field member => each.2 member

theorem toNat_of_sizeByte_succ {count : Nat} {byte : UInt8}
    (fits : Lowering.sizeByte (count + 1) = .ok byte) : count + 1 = byte.toNat :=
  (toNat_of_sizeByte fits).symm

theorem correct_closure {bound : List Expr} {delegate : TypeId}
    (each : ∀ item ∈ bound, site.Correct fuel item) :
    site.Correct fuel (.closure func bound delegate) := by
  refine ⟨fun {_ _ _ _ _ _ level operands _ _} compiles typed known placed concludes depicts => ?_⟩
  cases compiles with
  | literal none => cases none
  | closure boundCompiles fits =>
    cases known
    rw [isTyped, Bool.and_eq_true] at typed
    simp only [List.append_assoc] at placed
    rw [evaluate]
    refine (site.agrees_all each boundCompiles typed.1 placed.first depicts).bind
      fun values middle after delivered => ?_
    obtain ⟨given, types, rfl, shown⟩ := delivered
    have same : bound.length = given.length := by
      rw [← length_typesOf typed.1, ← types, List.length_map]
    refine .of_leads (shown.loadAddress placed.second.first.single).leads fun after shown => ?_
    have items : (given ++ [(TypeId.int, Value.int (compilation.entry func).toInt32)]).reverse ++
        operands = (TypeId.int, .int (compilation.entry func).toInt32) ::
          (given.reverse ++ operands) := by
      rw [List.reverse_append, List.reverse_singleton, List.singleton_append, List.cons_append]
    change Depicts compilation _ (level.config _
      ((TypeId.int, .int (compilation.entry func).toInt32) :: (given.reverse ++ operands)) _) after
      at shown
    rw [← items] at shown
    have made := shown.makeStruct (delegate, .function func (given.map Prod.snd))
      placed.second.second.single
      (by
        rw [List.length_append, List.length_singleton, ← same]
        exact toNat_of_sizeByte_succ fits)
      fun contains represents => represents_closure (types ▸ typed.2) contains represents
    refine made.leads.trans fun after shown => ?_
    simp only [Code.size_append, ← Nat.add_assoc] at concludes ⊢
    exact concludes.delivered shown

end

end WordMachine.Evaluation
