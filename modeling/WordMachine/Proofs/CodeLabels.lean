import WordMachine.Proofs.AssembledCode
import WordMachine.Proofs.LoweredCode
import WordMachine.Proofs.PathNames

/-!
What code does with labels. The labels that lowering makes up are numbered, and each is bound once
at most. Code refers to the labels that it binds itself, and besides them exactly to those of the
functions that its expression calls or names; an equality function calls those of the types of its
parts.
-/

namespace WordMachine

/-- Whether a building call only adds an instruction. -/
def Fragment.Command.isInstruction : Command → Bool
  | .emit _ => true
  | _ => false

/-- Whether a building call may stand anywhere in the code of a unit. -/
def Fragment.Command.isInner : Command → Bool
  | .emit _ => true
  | .bind _ => true
  | _ => false

namespace Lowering

open Fragment (generatedLabel)

/-! ## Labels of code -/

namespace Code

/-- The labels that a piece of code refers to, in order. -/
def uses (code : Code) : List Label :=
  code.filterMap Fragment.Command.label?

@[simp]
theorem uses_nil : uses [] = [] := rfl

@[simp]
theorem uses_append (left right : Code) : uses (left ++ right) = uses left ++ uses right :=
  List.filterMap_append

@[simp]
theorem uses_emit (instruction : Instruction) :
    uses (emit instruction) = instruction.label?.toList := by
  change List.filterMap _ [Fragment.Command.emit instruction] = _
  cases found : instruction.label? <;> simp [Fragment.Command.label?, found]

@[simp]
theorem uses_plain (op : Opcode) : uses (plain op) = [] :=
  uses_emit (.plain op)

@[simp]
theorem uses_bind (label : Label) : uses (bind label) = [] := rfl

@[simp]
theorem uses_callTo (label : Label) (arguments : UInt8) (mode : CallMode) :
    uses (callTo label arguments mode) = [label] := rfl

@[simp]
theorem bound_nil : bound [] = [] := rfl

attribute [simp] bound_append

@[simp]
theorem bound_emit (instruction : Instruction) : bound (emit instruction) = [] := rfl

@[simp]
theorem bound_plain (op : Opcode) : bound (plain op) = [] := rfl

@[simp]
theorem bound_bind (label : Label) : bound (bind label) = [label] := rfl

@[simp]
theorem bound_callTo (label : Label) (arguments : UInt8) (mode : CallMode) :
    bound (callTo label arguments mode) = [] := rfl

@[simp]
theorem bound_entry (label : Label) (code : Code) : bound (.entry label :: code) = bound code := rfl

theorem mem_labelSites {code : Code} {label : Label} (position : Nat) :
    (∃ site ∈ labelSites position code, site.2 = label) ↔ label ∈ uses code := by
  induction code generalizing position with
  | nil => simp [labelSites]
  | cons command code ih =>
    have split : uses (command :: code) = command.label?.toList ++ uses code := by
      unfold uses
      cases found : command.label? <;> simp [found]
    rw [labelSites, split, List.mem_append, ← ih (position + command.size)]
    simp only [List.mem_append, List.mem_map, or_and_right, exists_or]
    refine or_congr_left ⟨?_, fun member => ⟨_, ⟨label, member, rfl⟩, rfl⟩⟩
    rintro ⟨_, ⟨other, member, rfl⟩, rfl⟩
    exact member

end Code

/-! ## Names in expressions -/

/-- The label of the function that a call goes to: a user function, or the equality function of its
operands' type. -/
def callLabel? (decl : FuncDecl) (arguments : List Expr) : Option Label :=
  match FuncKind.ofCode? decl.kind, arguments with
  | some .user, _ => some (funcLabel decl.id)
  | some .eqUserType, [left, _] => left.type?.map equalityLabel
  | some .neUserType, [left, _] => left.type?.map equalityLabel
  | _, _ => none

def reference? (context : Context) : Expr → Option Label
  | .call func arguments _ _ =>
    (context.program.func? func).bind fun decl => callLabel? decl arguments
  | .callSelf _ _ => context.func.map fun func => funcLabel func.id
  | .closure func _ _ => some (funcLabel func)
  | .function func _ => some (funcLabel func)
  | _ => none

/-- The labels that the nodes of an expression refer to. -/
def references (context : Context) (expr : Expr) : List Label :=
  (expr.walk fun _ => true).filterMap (reference? context)

def referencesAll (context : Context) (items : List Expr) : List Label :=
  (Expr.walkAll (fun _ => true) items).filterMap (reference? context)

section

attribute [local simp] Expr.walk Expr.walkAll

variable (context : Context)

@[simp]
theorem referencesAll_nil : referencesAll context [] = [] := by
  rw [referencesAll, Expr.walkAll, List.filterMap_nil]

@[simp]
theorem referencesAll_cons (item : Expr) (items : List Expr) :
    referencesAll context (item :: items) =
      references context item ++ referencesAll context items := by
  rw [referencesAll, Expr.walkAll, List.filterMap_append, references, referencesAll]

theorem filterMap_visit (node : Expr) (below : List Expr) :
    (Expr.visit (fun _ => true) node below).filterMap (reference? context) =
      (reference? context node).toList ++ below.filterMap (reference? context) := by
  rw [Expr.visit, if_pos rfl]
  cases found : reference? context node <;> simp [found]

@[simp]
theorem references_assign (slot : SlotId) (value : Expr) :
    references context (.assign slot value) = references context value := by
  rw [references, Expr.walk, filterMap_visit]
  rfl

@[simp]
theorem references_choose (conditions branches : List Expr) :
    references context (.choose conditions branches) =
      referencesAll context conditions ++ referencesAll context branches := by
  rw [references, Expr.walk, filterMap_visit, List.filterMap_append]
  rfl

@[simp]
theorem references_call (func : FuncId) (arguments : List Expr) (mode : UInt8) (result : TypeId) :
    references context (.call func arguments mode result) =
      (reference? context (.call func arguments mode result)).toList ++
        referencesAll context arguments := by
  rw [references, Expr.walk, filterMap_visit]
  rfl

@[simp]
theorem references_callDynamic (target : Expr) (arguments : List Expr) (fork : Bool)
    (result : TypeId) :
    references context (.callDynamic target arguments fork result) =
      referencesAll context arguments ++ references context target := by
  rw [references, Expr.walk, filterMap_visit, List.filterMap_append]
  rfl

@[simp]
theorem references_callSelf (arguments : List Expr) (result : TypeId) :
    references context (.callSelf arguments result) =
      (context.func.map fun func => funcLabel func.id).toList ++
        referencesAll context arguments := by
  rw [references, Expr.walk, filterMap_visit]
  rfl

@[simp]
theorem references_closure (func : FuncId) (bound : List Expr) (delegate : TypeId) :
    references context (.closure func bound delegate) =
      funcLabel func :: referencesAll context bound := by
  rw [references, Expr.walk, filterMap_visit]
  rfl

@[simp]
theorem references_slot (slot : SlotId) (type : TypeId) :
    references context (.slot slot type) = [] := by
  rw [references, Expr.walk]
  rfl

@[simp]
theorem references_field (operand : Expr) (position : Int64) (type : TypeId) :
    references context (.field operand position type) = references context operand := by
  rw [references, Expr.walk, filterMap_visit]
  rfl

@[simp]
theorem references_group (items : List Expr) :
    references context (.group items) = referencesAll context items := by
  rw [references, Expr.walk, filterMap_visit]
  rfl

@[simp]
theorem references_unionCheck (operand : Expr) (target : TypeId) :
    references context (.unionCheck operand target) = references context operand := by
  rw [references, Expr.walk, filterMap_visit]
  rfl

@[simp]
theorem references_unionGet (operand : Expr) (target : TypeId) (slot : SlotId) :
    references context (.unionGet operand target slot) = references context operand := by
  rw [references, Expr.walk, filterMap_visit]
  rfl

end

/-! ## Made-up labels -/

theorem generatedLabel_injective (scope : Bytes) : Function.Injective (generatedLabel scope) := by
  intro left right same
  have names : "L" ++ Bytes.ofNat left = "L" ++ Bytes.ofNat right := by
    unfold generatedLabel at same
    split at same
    · exact same
    · exact Bytes.append_left_cancel same
  exact Bytes.ofNat_injective (Bytes.append_left_cancel names)

/-- How often the generated label with a number is among some labels. -/
def occurrences (scope : Bytes) (labels : List Label) (number : Nat) : Nat :=
  labels.count (generatedLabel scope number)

@[simp]
theorem occurrences_nil (scope : Bytes) (number : Nat) : occurrences scope [] number = 0 := rfl

@[simp]
theorem occurrences_append (scope : Bytes) (left right : List Label) (number : Nat) :
    occurrences scope (left ++ right) number =
      occurrences scope left number + occurrences scope right number :=
  List.count_append

/-- One for the numbers above a count up to another. -/
def within (first last number : Nat) : Nat :=
  if first < number ∧ number ≤ last then 1 else 0

theorem within_add_le {first middle last : Nat} (start : first ≤ middle) (stop : middle ≤ last)
    (number : Nat) :
    within first middle number + within middle last number ≤ within first last number := by
  unfold within
  split_ifs <;> omega

/-- Whether labels are made up with numbers between two counts, each for itself. -/
structure Generates (scope : Bytes) (first last : Nat) (labels : List Label) : Prop where
  ordered : first ≤ last
  own : ∀ label ∈ labels, Generated scope label
  once : ∀ number, occurrences scope labels number ≤ within first last number

section

variable {scope : Bytes} {first middle last : Nat} {labels others : List Label}

theorem Generates.append (earlier : Generates scope first middle labels)
    (later : Generates scope middle last others) :
    Generates scope first last (labels ++ others) where
  ordered := Nat.le_trans earlier.ordered later.ordered
  own := fun label member => (List.mem_append.1 member).elim (earlier.own label) (later.own label)
  once := by
    intro number
    have both := within_add_le earlier.ordered later.ordered number
    have early := earlier.once number
    have late := later.once number
    rw [occurrences_append]
    omega

theorem Generates.perm (generates : Generates scope first last labels) (same : labels.Perm others) :
    Generates scope first last others where
  ordered := generates.ordered
  own := fun label member => generates.own label (same.mem_iff.2 member)
  once := by
    intro number
    have counts : occurrences scope labels number = occurrences scope others number :=
      same.count_eq _
    exact counts ▸ generates.once number

theorem generates_fresh {label : Label} (made : fresh scope first = .ok (label, last)) :
    Generates scope first last [label] where
  ordered := by
    cases made
    exact Nat.le_succ _
  own := fun other member => List.mem_singleton.1 member ▸ fresh_eq_ok made
  once := by
    cases made
    intro number
    by_cases same : first + 1 = number
    · subst same
      simp [occurrences, within]
    · have other : generatedLabel scope (first + 1) ≠ generatedLabel scope number :=
        fun equal => same (generatedLabel_injective scope equal)
      simp [occurrences, other]

theorem generates_nil (count : Nat) : Generates scope count count [] :=
  ⟨Nat.le_refl _, nofun, fun _ => Nat.zero_le _⟩

theorem generates_freshFor {α : Type} {items : List α}
    (made : freshFor scope items first = .ok (labels, last)) :
    labels.length = items.length ∧ Generates scope first last labels := by
  induction items generalizing first labels with
  | nil =>
    rw [freshFor, pure_eq_ok] at made
    cases made
    exact ⟨rfl, generates_nil _⟩
  | cons item items ih =>
    simp only [freshFor, bind_eq_ok, pure_eq_ok] at made
    obtain ⟨label, between, one, rest, _, done, same⟩ := made
    cases same
    obtain ⟨length, generates⟩ := ih done
    exact ⟨congrArg (· + 1) length, (generates_fresh one).append generates⟩

end

/-! ## What code does with labels -/

/-- Whether code consists of instructions, and refers to the given labels. -/
structure Emits (code : Code) (named : List Label) : Prop where
  plain : code.all Fragment.Command.isInstruction = true
  uses : Code.uses code = named

/-- Whether code binds the given labels, and besides them at most those made up between two counts,
once each; and whether it refers to those named, and besides them at most to its targets and to what
it binds. -/
structure Labelled (scope : Bytes) (first last : Nat) (given targets named : List Label)
    (code : Code) : Prop where
  ordered : first ≤ last
  inner : code.all Fragment.Command.isInner = true
  binds : ∀ label ∈ given, label ∈ Code.bound code
  own : ∀ label ∈ Code.bound code, label ∈ given ∨ Generated scope label
  once : ∀ number, occurrences scope (Code.bound code) number ≤
    occurrences scope given number + within first last number
  sound : ∀ label ∈ Code.uses code, label ∈ targets ∨ label ∈ Code.bound code ∨ label ∈ named
  complete : ∀ label ∈ named, label ∈ Code.uses code

section

variable {scope : Bytes} {first middle last : Nat} {code rest : Code} {label : Label}
variable {given more targets others named names : List Label}

theorem emits_nil : Emits [] [] :=
  ⟨rfl, rfl⟩

theorem emits_emit {instruction : Instruction} (none : instruction.label? = none) :
    Emits (emit instruction) [] :=
  ⟨rfl, by simp [none]⟩

theorem emits_plain (op : Opcode) : Emits (plain op) [] :=
  ⟨rfl, rfl⟩

theorem Emits.append (first : Emits code named) (second : Emits rest names) :
    Emits (code ++ rest) (named ++ names) :=
  ⟨by rw [List.all_append, first.plain, second.plain]; rfl,
    by rw [Code.uses_append, first.uses, second.uses]⟩

theorem Emits.bound (emits : Emits code named) : Code.bound code = [] := by
  have plain := emits.plain
  clear emits
  induction code with
  | nil => rfl
  | cons command code ih =>
    rw [List.all_cons, Bool.and_eq_true] at plain
    cases command with
    | emit instruction =>
      have split := Code.bound_append (emit instruction) code
      rw [Code.bound_emit, ih plain.2] at split
      exact split
    | _ => cases plain.1

theorem Emits.labelled (emits : Emits code named) (count : Nat) :
    Labelled scope count count [] [] named code where
  ordered := Nat.le_refl count
  inner := by
    refine List.all_eq_true.2 fun command member => ?_
    have plain := List.all_eq_true.1 emits.plain command member
    cases command with
    | emit instruction => rfl
    | _ => cases plain
  binds := nofun
  own := by simp [emits.bound]
  once := by simp [emits.bound]
  sound := fun label member => .inr (.inr (emits.uses ▸ member))
  complete := fun label member => emits.uses ▸ member

theorem labelled_bind (label : Label) (count : Nat) :
    Labelled scope count count [label] [] [] (bind label) where
  ordered := Nat.le_refl count
  inner := rfl
  binds := fun _ member => member
  own := fun _ member => .inl member
  once := fun _ => Nat.le_add_right _ _
  sound := nofun
  complete := nofun

theorem labelled_jump (label : Label) (count : Nat) :
    Labelled scope count count [] [label] [] (emit (.jump label)) where
  ordered := Nat.le_refl count
  inner := rfl
  binds := nofun
  own := nofun
  once := fun _ => Nat.zero_le _
  sound := fun _ member => .inl member
  complete := nofun

theorem labelled_jumpIf (label : Label) (count : Nat) :
    Labelled scope count count [] [label] [] (emit (.jumpIf label)) where
  ordered := Nat.le_refl count
  inner := rfl
  binds := nofun
  own := nofun
  once := fun _ => Nat.zero_le _
  sound := fun _ member => .inl member
  complete := nofun

/-- Code that binds labels made up for it, each of them once. -/
theorem Generates.labelled (made : Generates scope first last (Code.bound code))
    (inner : code.all Fragment.Command.isInner = true)
    (sound : ∀ label ∈ Code.uses code, label ∈ Code.bound code ∨ label ∈ named)
    (complete : ∀ label ∈ named, label ∈ Code.uses code) :
    Labelled scope first last [] [] named code where
  ordered := made.ordered
  inner := inner
  binds := nofun
  own := fun label member => .inr (made.own label member)
  once := fun number => Nat.le_add_left_of_le (made.once number)
  sound := fun label member => .inr (sound label member)
  complete := complete

theorem Labelled.append (earlier : Labelled scope first middle given targets named code)
    (later : Labelled scope middle last more others names rest) :
    Labelled scope first last (given ++ more) (targets ++ others) (named ++ names)
      (code ++ rest) where
  ordered := Nat.le_trans earlier.ordered later.ordered
  inner := by rw [List.all_append, earlier.inner, later.inner]; rfl
  binds := by
    intro label member
    rw [Code.bound_append, List.mem_append]
    exact (List.mem_append.1 member).imp (earlier.binds label) (later.binds label)
  own := by
    intro label member
    rw [Code.bound_append, List.mem_append] at member
    rw [List.mem_append]
    rcases member with member | member
    · exact (earlier.own label member).imp_left .inl
    · exact (later.own label member).imp_left .inr
  once := by
    intro number
    have both := within_add_le earlier.ordered later.ordered number
    have early := earlier.once number
    have late := later.once number
    rw [Code.bound_append, occurrences_append, occurrences_append]
    omega
  sound := by
    intro label member
    rw [Code.uses_append, List.mem_append] at member
    simp only [Code.bound_append, List.mem_append]
    rcases member with member | member
    · rcases earlier.sound label member with known | known | known <;> simp [known]
    · rcases later.sound label member with known | known | known <;> simp [known]
  complete := by
    intro label member
    rw [Code.uses_append, List.mem_append]
    exact (List.mem_append.1 member).imp (earlier.complete label) (later.complete label)

theorem Labelled.followed (labelled : Labelled scope first last given targets named code)
    (emits : Emits rest []) : Labelled scope first last given targets named (code ++ rest) := by
  simpa using labelled.append (emits.labelled last)

theorem Labelled.preceded (labelled : Labelled scope first last given targets named code)
    (emits : Emits rest names) :
    Labelled scope first last given targets (names ++ named) (rest ++ code) := by
  simpa using (emits.labelled first).append labelled

/-- Labels that are made up just before need not be given. -/
theorem Labelled.opens (labelled : Labelled scope middle last given targets named code)
    (made : Generates scope first middle given) :
    Labelled scope first last [] targets named code where
  ordered := Nat.le_trans made.ordered labelled.ordered
  inner := labelled.inner
  binds := nofun
  own := fun label member => .inr ((labelled.own label member).elim (made.own label) id)
  once := by
    intro number
    have both := within_add_le made.ordered labelled.ordered number
    have early := made.once number
    have late := labelled.once number
    rw [occurrences_nil]
    omega
  sound := labelled.sound
  complete := labelled.complete

/-- A target that is bound is none, and the order of names is free. -/
theorem Labelled.closed (labelled : Labelled scope first last given targets named code)
    (bound : ∀ label ∈ targets, label ∈ others ∨ label ∈ Code.bound code)
    (same : ∀ label, label ∈ named ↔ label ∈ names) :
    Labelled scope first last given others names code where
  ordered := labelled.ordered
  inner := labelled.inner
  binds := labelled.binds
  own := labelled.own
  once := labelled.once
  sound := by
    intro label member
    rcases labelled.sound label member with known | known | known
    · exact (bound label known).imp_right .inl
    · exact .inr (.inl known)
    · exact .inr (.inr ((same label).1 known))
  complete := fun label member => labelled.complete label ((same label).2 member)

end

/-! ### Instructions without labels -/

section

variable {context : Context} {code : Code} {type target : TypeId} {slots : List SlotId}
variable {first last : Nat}

attribute [local simp] Instruction.label?

theorem emits_flatMap_plain (ops : List Opcode) : Emits (ops.flatMap plain) [] := by
  induction ops with
  | nil => exact ⟨rfl, rfl⟩
  | cons op ops ih => exact (emits_plain op).append ih

theorem emits_replicate_plain (count : Nat) (op : Opcode) :
    Emits (List.replicate count (plain op)).flatten [] := by
  induction count with
  | zero => exact ⟨rfl, rfl⟩
  | succ count ih =>
    rw [List.replicate_succ, List.flatten_cons]
    exact (emits_plain op).append ih

theorem operandType_eq_ok {arguments : List Expr}
    (success : afterArguments.operandType arguments = .ok type) :
    ∃ left right, arguments = [left, right] ∧ left.type? = some type := by
  unfold afterArguments.operandType at success
  split at success
  · next left right =>
    simp only [except_bind_eq_ok, typeOf_eq_ok] at success
    obtain ⟨found, typed, other, _, same⟩ := success
    split at same
    · cases same
      exact ⟨left, right, rfl, typed⟩
    · cases same
  · cases success

theorem emits_afterArguments {decl : FuncDecl} {arguments : List Expr} {mode : UInt8} {tail : Bool}
    (success : afterArguments decl arguments mode tail = .ok code) :
    Emits code (callLabel? decl arguments).toList := by
  unfold afterArguments at success
  unfold callLabel?
  cases found : FuncKind.ofCode? decl.kind with
  | none =>
    simp only [found] at success
    cases success
  | some kind =>
    simp only [found] at success
    split at success
    · next ops known =>
      cases success
      cases kind <;> cases known <;> exact emits_flatMap_plain _
    split at success
    case h_2 =>
      split at success
      · cases success
        exact ⟨rfl, rfl⟩
      · cases success
        exact emits_replicate_plain _ _
    case h_3 =>
      simp only [except_bind_eq_ok] at success
      obtain ⟨count, _, same⟩ := success
      cases same
      exact ⟨rfl, rfl⟩
    case h_17 =>
      split at success
      · cases success
        exact ⟨rfl, rfl⟩
      · cases success
        exact ⟨rfl, rfl⟩
      · simp only [except_bind_eq_ok] at success
        obtain ⟨count, _, same⟩ := success
        cases same
        exact ⟨rfl, rfl⟩
    case h_18 =>
      simp only [except_bind_eq_ok] at success
      obtain ⟨type, known, same⟩ := success
      obtain ⟨left, right, rfl, typed⟩ := operandType_eq_ok known
      cases same
      exact ⟨rfl, by simp [typed]⟩
    case h_19 =>
      simp only [except_bind_eq_ok] at success
      obtain ⟨type, known, same⟩ := success
      obtain ⟨left, right, rfl, typed⟩ := operandType_eq_ok known
      cases same
      exact ⟨rfl, by simp [typed]⟩
    all_goals first
      | cases success
        exact ⟨rfl, rfl⟩
      | cases success

theorem emits_selectField {position : Int}
    (success : selectField context type position = .ok code) : Emits code [] := by
  rcases selectField_eq_ok success with ⟨_, rfl⟩ | ⟨_, _, _, _, _, _, _, rfl⟩
  · exact ⟨rfl, rfl⟩
  · exact ⟨rfl, rfl⟩

theorem emits_checkMember (success : checkMember context type target = .ok code) :
    Emits code [] := by
  unfold checkMember at success
  split at success
  · cases success
    split <;> exact ⟨rfl, rfl⟩
  · simp only [except_bind_eq_ok] at success
    obtain ⟨number, _, same⟩ := success
    cases same
    exact ⟨rfl, rfl⟩

theorem emits_loadSlots (loaded : loadSlots slots first = .ok (code, last)) :
    last = first ∧ Emits code [] := by
  induction slots generalizing code with
  | nil =>
    obtain ⟨rfl, rfl⟩ := loadSlots_nil loaded
    exact ⟨rfl, rfl, rfl⟩
  | cons slot slots ih =>
    obtain ⟨byte, rest, _, done, rfl⟩ := loadSlots_cons loaded
    exact ⟨(ih done).1, (emits_emit rfl).append (ih done).2⟩

theorem emits_reserve {slots : SlotTable} (success : CodeUnit.reserve slots = .ok code) :
    Emits code [] := by
  unfold CodeUnit.reserve at success
  split at success
  · cases success
    exact ⟨rfl, rfl⟩
  · split at success
    · cases success
      exact ⟨rfl, rfl⟩
    · cases success

theorem emits_storeSlots (success : (slots.mapM fun slot => do
      return Fragment.Command.emit (.storeConst (← slotByte slot)) : Except Cause Code) =
        .ok code) : Emits code [] := by
  induction slots generalizing code with
  | nil =>
    cases success
    exact ⟨rfl, rfl⟩
  | cons slot slots ih =>
    obtain ⟨byte, rest, _, done, rfl⟩ := storeSlots_cons success
    exact (emits_emit rfl).append (ih done)

end

/-! ### Expressions -/

section

variable {context : Context} {part : Part} {code : Code} {first last : Nat}

theorem labelled_getMember {union target : TypeId} {slot : UInt8}
    (success : getMember context union target slot first = .ok (code, last)) :
    Labelled context.scope first last [] [] [] code := by
  cases form : nullable? context.program union with
  | some nullable =>
    obtain ⟨rfl, rfl⟩ := getMember_nullable form success
    have emits : Emits (plain .dup ++ emit (.storeConst slot) ++ plain .isNull ++
        if target == nullable.structType then plain .notInt else []) [] := by
      split <;> exact ⟨rfl, rfl⟩
    exact emits.labelled _
  | none =>
    obtain ⟨same, done, number, middle, sameFresh, doneFresh, _, rfl⟩ :=
      getMember_tagged form success
    refine Generates.labelled ((generates_fresh sameFresh).append (generates_fresh doneFresh)) rfl
      (fun label member => .inl ?_) nofun
    simpa [Instruction.label?] using member

/-- The expressions of a part. -/
def Part.items : Part → List Expr
  | .one expr _ => [expr]
  | .all items => items
  | .group items _ => items
  | .tests conditions _ => conditions
  | .branches items _ _ _ => items

/-- The labels that a part is given to bind. -/
def Part.given : Part → List Label
  | .branches _ labels _ _ => labels
  | _ => []

/-- The labels outside of a part that it jumps to. -/
def Part.targets : Part → List Label
  | .tests _ labels => labels
  | .branches _ _ done _ => [done]
  | _ => []

theorem emits_literal {expr : Expr} (known : literalCode expr = some code) :
    Emits code (references context expr) := by
  cases expr <;> cases known
  all_goals
    rw [references, Expr.walk]
    exact ⟨rfl, rfl⟩

theorem emits_ite {condition : Prop} [Decidable condition] {yes no : Code} {named : List Label}
    (first : Emits yes named) (second : Emits no named) :
    Emits (if condition then yes else no) named := by
  split
  · exact first
  · exact second

theorem referencesAll_append (items others : List Expr) :
    referencesAll context (items ++ others) =
      referencesAll context items ++ referencesAll context others := by
  induction items with
  | nil => rw [referencesAll_nil, List.nil_append, List.nil_append]
  | cons item items ih =>
    rw [List.cons_append, referencesAll_cons, referencesAll_cons, ih, List.append_assoc]

/-- An enclosing function that is called again is known. -/
theorem func_of_checkSelf {arguments : List Expr} {result : TypeId} {func : FuncDecl}
    (checked : checkSelf context arguments result = .ok func) : context.func = some func := by
  cases enclosing : context.func with
  | none =>
    simp only [checkSelf, enclosing] at checked
    cases checked
  | some found =>
    unfold checkSelf at checked
    simp only [enclosing] at checked
    split at checked
    · cases checked
    · split at checked
      · cases checked
      · obtain ⟨_, _, same⟩ := except_bind_eq_ok.1 checked
        exact congrArg some (Except.ok.inj same)

/-- An expression refers to what its nodes refer to. -/
theorem Compiles.labelled (compiles : Compiles context part first code last) :
    Labelled context.scope first last part.given part.targets (referencesAll context part.items)
      code := by
  induction compiles with simp only [Part.items, Part.given, Part.targets, referencesAll_cons,
    referencesAll_nil, referencesAll_append, references_assign, references_choose, references_call,
    references_callDynamic, references_callSelf, references_closure, references_slot,
    references_field, references_group, references_unionCheck, references_unionGet,
    List.append_nil] at *
  | literal known => exact (emits_literal known).labelled _
  | slot => exact (emits_emit rfl).labelled _
  | assign _ _ ih => exact (ih.followed (emits_plain _)).followed (emits_emit rfl)
  | @choose _ _ _ labels done _ _ _ _ _ _ _ _ _ _ _ made ends _ _ _ tested left branched =>
    have all := (((tested.append left).append (labelled_jump done _)).append branched).append
      (labelled_bind done _)
    refine .opens (.closed all ?_ ?_) ((generates_freshFor made).2.append (generates_fresh ends))
    · have bound := branched.binds
      simp +contextual [or_imp, bound]
    · simp [or_left_comm, or_comm]
  | makeNullable declared kind _ _ _ ih =>
    simp only [reference?, declared, Option.bind_some, callLabel?, kind, Option.toList_none,
      List.nil_append]
    exact ih.followed (emits_ite ⟨rfl, rfl⟩ ⟨rfl, rfl⟩)
  | makeTagged declared kind _ _ _ _ ih =>
    simp only [reference?, declared, Option.bind_some, callLabel?, kind, Option.toList_none]
    exact (ih.preceded (emits_emit rfl)).followed (emits_emit rfl)
  | call declared kind _ follows ih =>
    simp only [reference?, declared, Option.bind_some]
    exact (ih.append ((emits_afterArguments follows).labelled _)).closed nofun (by simp [or_comm])
  | callDynamic _ _ _ all target => exact (all.append target).followed (emits_emit rfl)
  | callSelf checked _ loaded _ ih =>
    obtain ⟨rfl, loads⟩ := emits_loadSlots loaded
    rw [func_of_checkSelf checked]
    refine ((ih.followed loads).append (Emits.labelled ⟨rfl, rfl⟩ _)).closed nofun fun label => ?_
    simp [or_comm]
  | @closure func _ _ _ _ _ _ _ _ _ ih =>
    have address : Emits (emit (.loadAddress (funcLabel func))) [funcLabel func] := ⟨rfl, rfl⟩
    exact ((ih.append (address.labelled _)).followed (emits_emit rfl)).closed
      nofun (by simp [or_comm])
  | field _ _ follows ih => exact ih.followed (emits_selectField follows)
  | group _ _ ih => exact ih
  | unionCheck _ _ follows ih => exact ih.followed (emits_checkMember follows)
  | unionGet _ _ _ follows ih => simpa using ih.append (labelled_getMember follows)
  | nil => exact emits_nil.labelled _
  | cons _ _ item others => exact item.append others
  | final _ ih => exact ih
  | next _ _ item others => exact (item.followed (emits_plain _)).append others
  | untested => exact emits_nil.labelled _
  | test _ _ item others => simpa using (item.append (labelled_jumpIf _ _)).append others
  | unbranched => exact (emits_nil.labelled _).closed nofun fun _ => .rfl
  | @branch _ _ label labels done _ _ _ _ _ _ _ _ item others =>
    have jump : ∀ count, Labelled context.scope count count [] [done] []
        (if labels.isEmpty then [] else emit (.jump done)) := by
      intro count
      split
      · exact (emits_nil.labelled _).closed nofun fun _ => .rfl
      · exact labelled_jump done count
    have all := (((labelled_bind label _).append item).append (jump _)).append others
    have closed : Labelled context.scope _ _ _ [done] _ _ := all.closed (by simp) fun _ => .rfl
    simpa using closed

theorem Lowered.labelled {expr : Expr} {tail : Bool} (lowered : Lowered context expr tail code) :
    ∃ first last, Labelled context.scope first last [] [] (references context expr) code := by
  obtain ⟨first, last, compiles⟩ := lowered.compiles
  exact ⟨first, last, by
    simpa [Part.items, Part.given, Part.targets] using compiles.labelled⟩

end

/-! ### Equality functions -/

section

variable {program : Program} {scope : Bytes} {code : Code} {type : TypeId} {first last : Nat}

/-- The labels of the equality functions of the user types among some types. -/
def comparisons (program : Program) (types : List TypeId) : List Label :=
  (types.filter (isUserType program)).map equalityLabel

theorem comparisons_cons (type : TypeId) (types : List TypeId) :
    comparisons program (type :: types) =
      comparisons program [type] ++ comparisons program types := by
  unfold comparisons
  rw [← List.map_append, ← List.filter_append]
  rfl

theorem emits_loadBoth (position : UInt8) : Emits (loadBoth position) [] :=
  ⟨rfl, rfl⟩

theorem emits_answer (value : Int32) : Emits (answer value) [] :=
  ⟨rfl, rfl⟩

theorem emits_compareValues (success : compareValues program type = .ok code) :
    Emits code (comparisons program [type]) := by
  unfold compareValues at success
  unfold comparisons
  rw [List.filter_singleton, isUserType]
  split at success
  case h_10 => cases success
  all_goals
    next kind =>
    cases success
    rw [kind]
    exact ⟨rfl, rfl⟩

theorem labelled_compareFields {position : Nat} {fields : List FieldDecl}
    (success : compareFields program scope position fields first = .ok (code, last)) :
    Labelled scope first last [] [] (comparisons program (fields.map FieldDecl.type)) code := by
  induction fields generalizing position first code with
  | nil =>
    rw [compareFields, pure_eq_ok] at success
    cases success
    exact emits_nil.labelled _
  | cons field fields ih =>
    simp only [compareFields, bind_eq_ok, pure_eq_ok, lift_eq_ok] at success
    obtain ⟨next, _, made, byte, _, ⟨_, rfl⟩, compare, _, ⟨compared, rfl⟩, rest, _, done, same⟩ :=
      success
    cases same
    have compares := (emits_loadBoth byte).append (emits_compareValues compared)
    have all := ((((compares.labelled _).append (labelled_jumpIf next _)).followed
      (emits_answer 0)).append (labelled_bind next _)).append (ih done)
    rw [List.map_cons, comparisons_cons]
    exact .opens (.closed all (by simp) (by simp)) (generates_fresh made)

theorem labelled_selectMember {number : Nat} {members : List TypeId} {labels : List Label}
    (success : selectMember scope number members first = .ok ((code, labels), last)) :
    labels.length = members.length ∧ Generates scope first last labels ∧
      ∀ count, Labelled scope count count [] labels [] code := by
  induction members generalizing number first code labels with
  | nil =>
    rw [selectMember, pure_eq_ok] at success
    cases success
    exact ⟨rfl, generates_nil _, emits_nil.labelled⟩
  | cons member members ih =>
    simp only [selectMember, bind_eq_ok, pure_eq_ok] at success
    obtain ⟨label, _, made, ⟨rest, others⟩, _, done, same⟩ := success
    cases same
    obtain ⟨length, generates, labelled⟩ := ih done
    refine ⟨congrArg (· + 1) length, (generates_fresh made).append generates, fun count => ?_⟩
    have load : Emits (emit (.loadConst 0) ++ emit (.loadField 0) ++
        emit (.loadInt (Int32.ofNat number)) ++ plain .eqInt) [] := ⟨rfl, rfl⟩
    exact ((load.labelled count).append (labelled_jumpIf label count)).append (labelled count)

theorem labelled_compareMembers {equal : Label} {members : List (TypeId × Label)}
    (success : compareMembers program equal members = .ok code) (count : Nat) :
    Labelled scope count count (members.map Prod.snd) [equal]
      (comparisons program (members.map Prod.fst)) code := by
  induction members generalizing code with
  | nil =>
    cases success
    exact (emits_nil.labelled _).closed nofun fun _ => .rfl
  | cons member members ih =>
    obtain ⟨compare, rest, compared, done, rfl⟩ := compareMembers_cons success
    have all := (((((labelled_bind member.2 count).followed (emits_loadBoth 1)).append
      ((emits_compareValues compared).labelled _)).append (labelled_jumpIf equal _)).followed
      (emits_answer 0)).append (ih done)
    rw [List.map_cons, List.map_cons, comparisons_cons]
    exact all.closed (by simp) (by simp)

/-- An equality function calls those of the parts of its type; that of a nullable union calls the
one of its struct. -/
theorem EqualityBody.labelled (body : EqualityBody program scope type code) :
    ∃ first last named, Labelled scope first last [] [] named code ∧
      ((∃ parts, comparedParts program type = .ok parts ∧ named = parts.map equalityLabel) ∨
        ∃ nullable, nullable? program type = some nullable ∧ program.kind? type = some .union ∧
          named = [equalityLabel nullable.structType]) := by
  cases body with
  | empty definition kind found none =>
    exact ⟨0, 0, _, (emits_answer 1).labelled 0,
      .inl ⟨[], by simp [comparedParts, kind, found, none], rfl⟩⟩
  | single definition field compare kind found one compared =>
    have load : Emits (emit (.loadConst 0) ++ emit (.loadConst 1)) [] := ⟨rfl, rfl⟩
    exact ⟨0, 0, _, ((load.append (emits_compareValues compared)).labelled 0).followed
      (emits_plain _),
      .inl ⟨_, by simp only [comparedParts, kind, found, one, List.map_cons, List.map_nil], rfl⟩⟩
  | wide definition compare kind found many compares =>
    obtain ⟨first, last, success⟩ := compares
    exact ⟨first, last, _, (labelled_compareFields success).followed (emits_answer 1),
      .inl ⟨_, by simp only [comparedParts, kind, found], rfl⟩⟩
  | nullable nullable leftNull rightNull kind form leftFresh rightFresh =>
    refine ⟨_, _, _, Generates.labelled
      ((generates_fresh leftFresh).append (generates_fresh rightFresh)) rfl ?_ ?_,
      .inr ⟨nullable, form, kind, rfl⟩⟩
    · intro label member
      have known : label = leftNull ∨ label = rightNull ∨
          label = equalityLabel nullable.structType := by
        simpa [Instruction.label?, (emits_answer 0).uses, or_left_comm, or_comm] using member
      rcases known with rfl | rfl | rfl <;> simp
    · simp
  | tagged definition sameMember equal select compare labels kind form found sameFresh equalFresh
      selects compared =>
    obtain ⟨length, generates, selected⟩ := labelled_selectMember selects
    have made := ((generates_fresh sameFresh).append (generates_fresh equalFresh)).append generates
    have comparing : ∀ count, Labelled scope count count labels [equal]
        (comparisons program (definition.members.getD [])) compare := by
      intro count
      have compares : Labelled scope count count _ [equal] _ compare :=
        labelled_compareMembers compared count
      rwa [List.map_snd_zip (Nat.le_of_eq length), List.map_fst_zip (Nat.le_of_eq length.symm)]
        at compares
    have start := (emits_loadBoth 0).append (emits_plain .eqInt)
    have all := fun count =>
      (((((((start.labelled count).append (labelled_jumpIf sameMember _)).followed
      (emits_answer 0)).append (labelled_bind sameMember _)).append (selected _)).followed
      (emits_plain .fail)).append (comparing _)).append (labelled_bind equal _)
    refine ⟨_, _, _, .opens (((all _).followed (emits_answer 1)).closed ?_ ?_) (made.perm ?_),
      .inl ⟨(definition.members.getD []).filter (isUserType program),
        by simp only [comparedParts, kind, found], rfl⟩⟩
    · simp +contextual [or_imp, (comparing 0).binds]
    · simp [comparisons]
    · simpa using (show ([equal] ++ labels).Perm (labels ++ [equal]) from List.perm_append_comm)

end

/-! ### Units -/

def unitLabel (program : Program) : CodeUnit → Label
  | .equality type => equalityLabel type
  | .function id => funcLabel (CodeUnit.signature program id).id
  | .statement number _ => statementLabel number

def entryLabels : CodeUnit → List Label
  | .statement number _ => [statementLabel number]
  | _ => []

/-- The labels of other units that a unit names. -/
inductive Named (program : Program) : CodeUnit → List Label → Prop
  | function {id : FuncId} {definition : FuncDef} {context : Context}
      (found : program.def? id = some definition) (own : context.program = program)
      (self : context.func = some (CodeUnit.signature program id)) :
      Named program (.function id) (references context definition.body)
  | statement {number : Nat} {statement : Statement} {context : Context}
      (own : context.program = program) (self : context.func = none) :
      Named program (.statement number statement) (references context statement.expr)
  | parts {type : TypeId} {parts : List TypeId}
      (known : comparedParts program type = .ok parts) :
      Named program (.equality type) (parts.map equalityLabel)
  | nullable {type : TypeId} {nullable : Nullable}
      (kind : program.kind? type = some .union) (form : nullable? program type = some nullable) :
      Named program (.equality type) [equalityLabel nullable.structType]

section

variable {program : Program} {unit : CodeUnit} {code inner : Code}

theorem UnitCode.labelled (unitCode : UnitCode program unit code) :
    ∃ first last named inner, Named program unit named ∧
      Labelled unit.scope first last [] [] named inner ∧
      code = bind (unitLabel program unit) ++ (entryLabels unit).map .entry ++ inner := by
  cases unitCode with
  | equality type body compares =>
    obtain ⟨first, last, named, labelled, form⟩ := compares.labelled
    have start :
        Emits (emit (.reserveConsts 2) ++ emit (.storeConst 1) ++ emit (.storeConst 0)) [] :=
      ⟨rfl, rfl⟩
    refine ⟨first, last, named, _, ?_, (labelled.preceded start).followed (emits_plain .fail),
      by simp [unitLabel, entryLabels]⟩
    rcases form with ⟨parts, known, rfl⟩ | ⟨nullable, form, kind, rfl⟩
    · exact .parts known
    · exact .nullable kind form
  | function id definition room inputs body found reserved stored lowered =>
    obtain ⟨first, last, labelled⟩ := lowered.labelled
    have start := (emits_reserve reserved).append (emits_storeSlots stored)
    exact ⟨first, last, _, _, .function found rfl rfl, ((labelled.preceded start).followed
      (emits_plain .ret)).followed (emits_plain .fail), by simp [unitLabel, entryLabels]⟩
  | statement number statement room body reserved lowered =>
    obtain ⟨first, last, labelled⟩ := lowered.labelled
    exact ⟨first, last, _, _, .statement rfl rfl,
      (((labelled.preceded (emits_reserve reserved)).followed (emits_plain .pop)).followed
        (emits_plain .ret)).followed (emits_plain .fail), by simp [unitLabel, entryLabels]⟩

/-- What the code of a unit binds and refers to, by what stands behind its label. -/
theorem bound_unit (code : Code) :
    Code.bound (bind (unitLabel program unit) ++ (entryLabels unit).map .entry ++ code) =
      unitLabel program unit :: Code.bound code := by
  cases unit <;> simp [entryLabels]

theorem uses_unit (code : Code) :
    Code.uses (bind (unitLabel program unit) ++ (entryLabels unit).map .entry ++ code) =
      Code.uses code := by
  cases unit <;> rfl

end

namespace CodeUnit

/-- Whether a label is the name of a unit or was generated in it. -/
def Owns (unit : CodeUnit) (label : Label) : Prop :=
  label = unit.scope ∨ Generated unit.scope label

def title : CodeUnit → String
  | .equality type => "eq" ++ Nat.repr type.toNat
  | .function id => "fn" ++ Nat.repr id.toNat
  | .statement number _ => "exec" ++ Nat.repr number

theorem scope_eq (unit : CodeUnit) : unit.scope = unit.title.toUTF8 := by
  cases unit <;>
    simp [scope, title, equalityLabel, funcLabel, statementLabel, Bytes.ofNat]

theorem dotless (unit : CodeUnit) : ∀ letter ∈ unit.title.toList, letter ≠ '.' := by
  have digits : ∀ number : Nat, ∀ letter ∈ (Nat.repr number).toList, letter ≠ '.' := by
    rintro number _ member rfl
    rw [Nat.toList_repr] at member
    exact absurd (Nat.isDigit_of_mem_toDigits (by decide) (by decide) member) (by decide)
  intro letter member
  cases unit
  all_goals
    rw [title, String.toList_append, List.mem_append] at member
    rcases member with start | number
    · rintro rfl
      exact absurd start (by decide)
    · exact digits _ _ number

/-- The labels of a unit are its name, with or without a dot and more behind it. -/
theorem Owns.exists_title {unit : CodeUnit} {label : Label} (owns : unit.Owns label) :
    ∃ rest : String, label = (unit.title ++ rest).toUTF8 ∧
      (rest.toList = [] ∨ ∃ letters, rest.toList = '.' :: letters) := by
  rcases owns with rfl | ⟨number, rfl⟩
  · exact ⟨"", by rw [String.append_empty, scope_eq], .inl rfl⟩
  · refine ⟨"." ++ ("L" ++ Nat.repr number), ?_, .inr ⟨_, String.toList_append⟩⟩
    have filled : unit.scope.isEmpty = false := by
      cases unit <;> simp [scope_eq, title, ByteArray.isEmpty]
    unfold generatedLabel
    rw [if_neg (by simp [filled]), scope_eq]
    simp [Bytes.ofNat, ByteArray.append_assoc]

theorem Owns.scope_eq {unit other : CodeUnit} {label : Label} (owns : unit.Owns label)
    (also : other.Owns label) : unit.scope = other.scope := by
  obtain ⟨rest, named, separated⟩ := owns.exists_title
  obtain ⟨otherRest, otherNamed, otherSeparated⟩ := also.exists_title
  have same := named.symm.trans otherNamed
  rw [String.toUTF8_eq_toByteArray, String.toUTF8_eq_toByteArray, String.toByteArray_inj] at same
  have letters := congrArg String.toList same
  rw [String.toList_append, String.toList_append] at letters
  have start : ∀ (unit : CodeUnit) (rest : List Char),
      (rest = [] ∨ ∃ letters, rest = '.' :: letters) →
        (unit.title.toList ++ rest).takeWhile (· ≠ '.') = unit.title.toList := by
    intro unit rest ends
    rw [List.takeWhile_append_of_pos fun letter member => by
      simpa using unit.dotless letter member]
    rcases ends with rfl | ⟨letters, rfl⟩
    · simp
    · simp
  have titles : unit.title.toList = other.title.toList := by
    rw [← start unit _ separated, letters, start other _ otherSeparated]
  rw [CodeUnit.scope_eq, CodeUnit.scope_eq, String.toList_inj.1 titles]

end CodeUnit

/-- Units of different kinds are told apart by the first two letters of their names. -/
theorem CodeUnit.eq_of_scope_eq {unit other : CodeUnit} (same : unit.scope = other.scope) :
    match unit, other with
    | .equality type, .equality target => type = target
    | .function id, .function target => id = target
    | .statement number _, .statement target _ => number = target
    | _, _ => False := by
  rw [scope_eq, scope_eq, String.toUTF8_eq_toByteArray, String.toUTF8_eq_toByteArray,
    String.toByteArray_inj] at same
  have letters := congrArg String.toList same
  have digits : ∀ {name : String} {left right : Nat},
      (name ++ left.repr).toList = (name ++ right.repr).toList → left = right := by
    intro name left right same
    rw [String.toList_append, String.toList_append] at same
    exact Nat.repr_injective (String.toList_inj.1 (List.append_cancel_left same))
  cases unit with
  | equality type =>
    cases other with
    | equality target => exact UInt32.toNat_inj.1 (digits letters)
    | _ => exact absurd (congrArg (List.take 2) letters) (by simp [title])
  | function id =>
    cases other with
    | function target => exact UInt32.toNat_inj.1 (digits letters)
    | _ => exact absurd (congrArg (List.take 2) letters) (by simp [title])
  | statement number statement =>
    cases other with
    | statement target other => exact digits letters
    | _ => exact absurd (congrArg (List.take 2) letters) (by simp [title])

theorem equalityLabel_injective : Function.Injective equalityLabel :=
  fun type target same => @CodeUnit.eq_of_scope_eq (.equality type) (.equality target) same

theorem funcLabel_injective : Function.Injective funcLabel :=
  fun id target same => @CodeUnit.eq_of_scope_eq (.function id) (.function target) same

theorem equalityLabel_ne_funcLabel (type : TypeId) (id : FuncId) :
    equalityLabel type ≠ funcLabel id :=
  fun same => @CodeUnit.eq_of_scope_eq (.equality type) (.function id) same

theorem generatedLabel_ne_scope (scope : Bytes) (number : Nat) :
    generatedLabel scope number ≠ scope := by
  intro same
  have sizes := congrArg ByteArray.size same
  unfold generatedLabel at sizes
  split at sizes
  · next empty =>
    have none : scope.size = 0 := by simpa [ByteArray.isEmpty] using empty
    rw [ByteArray.size_append, none] at sizes
    exact absurd (show "L".toUTF8.size = 1 by decide) (by omega)
  · rw [ByteArray.size_append, ByteArray.size_append, ByteArray.size_append] at sizes
    exact absurd (show ".".toUTF8.size = 1 by decide) (by omega)

end Lowering

end WordMachine
