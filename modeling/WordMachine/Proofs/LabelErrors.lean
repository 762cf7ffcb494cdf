import WordMachine.Proofs.CodeFromFiles
import WordMachine.Proofs.ComparedTypes

/-!
Errors about labels. When every unit of a program has code, joining the units fails only where an
expression names a function that is no user function with a body: no label is bound twice, and
every equality function that is called is among the units, once.
-/

namespace WordMachine

/-! ## Nodes -/

namespace Expr

variable {expr node : Expr}

/-- Whether a node is part of an expression. -/
inductive Contains : Expr → Expr → Prop
  | self (expr : Expr) : Contains expr expr
  | child {expr child node : Expr} (among : child ∈ expr.children) (inside : Contains child node) :
      Contains expr node

theorem mem_walk_self (given : expr ≠ .missing) : expr ∈ expr.walk fun _ => true := by
  cases expr with
  | missing => exact absurd rfl given
  | _ => simp [walk, visit]

theorem mem_walk_of_child {child : Expr} (among : child ∈ expr.children)
    (inside : node ∈ child.walk fun _ => true) : node ∈ expr.walk fun _ => true := by
  have all : ∀ items : List Expr, child ∈ items → node ∈ walkAll (fun _ => true) items := by
    intro items member
    rw [walkAll_eq_flatMap]
    exact List.mem_flatMap.2 ⟨child, member, inside⟩
  cases expr with
  | choose conditions branches =>
    rcases List.mem_append.1 among with member | member
    · simp [walk, visit, all conditions member]
    · simp [walk, visit, all branches member]
  | callDynamic target arguments fork result =>
    rcases List.mem_append.1 among with member | member
    · simp [walk, visit, all arguments member]
    · rw [List.mem_singleton.1 member] at inside
      simp [walk, visit, inside]
  | call func arguments mode result => simp [walk, visit, all arguments among]
  | callSelf arguments result => simp [walk, visit, all arguments among]
  | closure func bound delegate => simp [walk, visit, all bound among]
  | group items => simp [walk, visit, all items among]
  | assign slot value =>
    rw [List.mem_singleton.1 among] at inside
    simp [walk, visit, inside]
  | field operand position type =>
    rw [List.mem_singleton.1 among] at inside
    simp [walk, visit, inside]
  | unionCheck operand target =>
    rw [List.mem_singleton.1 among] at inside
    simp [walk, visit, inside]
  | unionGet operand target slot =>
    rw [List.mem_singleton.1 among] at inside
    simp [walk, visit, inside]
  | _ => cases among

theorem contains_of_mem_walk (expr : Expr) (member : node ∈ expr.walk fun _ => true) :
    expr.Contains node := by
  rcases mem_walk member with rfl | ⟨child, among, below⟩
  · exact .self _
  · exact .child among (contains_of_mem_walk child below)
termination_by sizeOf expr
decreasing_by exact sizeOf_child_lt among

/-- Walking an expression meets all its nodes but the missing ones. -/
theorem mem_walk_iff (given : node ≠ .missing) :
    (node ∈ expr.walk fun _ => true) ↔ expr.Contains node := by
  refine ⟨contains_of_mem_walk expr, fun contains => ?_⟩
  induction contains with
  | self expr => exact mem_walk_self given
  | child among _ ih => exact mem_walk_of_child among (ih given)

end Expr

/-! ## Programs made by declarations -/

namespace Program

variable {program : Program}

theorem Built.types_size (built : program.Built) : program.types.size ≤ 4294967296 := by
  induction built with
  | empty => decide
  | declare _ room name body _ =>
    cases body <;> simpa [Program.declare, Program.declareType] using room
  | declareFunc _ _ _ _ _ small => exact small
  | defineFunc _ _ _ _ small => exact small
  | addStatement _ _ _ small => exact small

theorem Built.func_id (built : program.Built) :
    ∀ position decl, program.funcs[position]? = some decl → decl.id = UInt32.ofNat position := by
  induction built with
  | empty => exact fun _ _ none => nomatch none
  | declare _ room name body numbered => cases body <;> exact numbered
  | @declareFunc program _ name kind input output numbered =>
    intro position decl found
    simp only [Program.declareFunc, Array.getElem?_push] at found
    split at found
    · next last =>
      cases found
      rw [last]
    · exact numbered position decl found
  | defineFunc _ _ _ _ numbered => exact numbered
  | addStatement _ _ _ numbered => exact numbered

theorem Built.func?_id (built : program.Built) {id : FuncId} {decl : FuncDecl}
    (found : program.func? id = some decl) : decl.id = id := by
  rw [built.func_id id.toNat decl found, UInt32.ofNat_toNat]

theorem Lists.kind? {α : Type} {kind : TypeKind} {id : α → UInt32} {table : List α}
    (lists : Lists program.types kind id table) (built : program.Built)
    (known : TypeKind.ofCode? kind.code = some kind) {entry : α} (member : entry ∈ table) :
    program.kind? (id entry) = some kind := by
  rw [← lists.entries] at member
  obtain ⟨decl, declared, found⟩ := List.mem_filterMap.1 member
  split at found
  · next own =>
    obtain ⟨position, inside, here⟩ := Array.mem_iff_getElem.1 (Array.mem_toList_iff.1 declared)
    have placed : program.types[position]? = some decl := by
      rw [Array.getElem?_eq_getElem inside, here]
    have number := built.isNumbered.numbers position decl placed
    have small := built.types_size
    have same : (id entry).toNat = position := by
      rw [id_of_lookup found, number, UInt32.toNat_ofNat']
      omega
    rw [Program.kind?, kindCode, type?, same, placed]
    simpa [beq_iff_eq.1 own] using known
  · cases found

theorem Built.kind?_of_struct? (built : program.Built) {type : TypeId} {definition : StructDef}
    (found : program.struct? type = some definition) : program.kind? type = some .struct := by
  rw [← id_of_lookup found]
  exact built.isNumbered.structs.kind? built rfl (List.mem_of_find?_eq_some found)

end Program

/-! ## Named functions -/

namespace Program

/-- Whether a number is that of a user function with a body. -/
def IsDefined (program : Program) (id : FuncId) : Prop :=
  ∃ decl, program.func? id = some decl ∧ FuncKind.ofCode? decl.kind = some .user ∧
    (program.def? id).isSome = true

def namedFunc? (program : Program) : Expr → Option FuncId
  | .call func _ _ _ => (program.func? func).bind fun decl =>
    if FuncKind.ofCode? decl.kind = some .user then some func else none
  | .closure func _ _ => some func
  | .function func _ => some func
  | _ => none

/-- Whether a function is named in the body of a user function or in a statement. -/
def Names (program : Program) (func : FuncId) : Prop :=
  ∃ expr ∈ Lowering.comparingExprs program, ∃ node, expr.Contains node ∧
    program.namedFunc? node = some func

theorem mem_userFuncs_iff {program : Program} (built : program.Built)
    (room : program.funcs.size ≤ 4294967296) {id : FuncId} :
    id ∈ program.userFuncs ↔ program.IsDefined id := by
  constructor
  · intro listed
    obtain ⟨decl, declared, same, user, defined⟩ := Lowering.exists_declared_of_userFunc listed
    obtain ⟨position, inside, here⟩ := Array.mem_iff_getElem.1 declared
    have placed : program.funcs[position]? = some decl := by
      rw [Array.getElem?_eq_getElem inside, here]
    have number : id.toNat = position := by
      rw [← same, built.func_id position decl placed, UInt32.toNat_ofNat']
      omega
    exact ⟨decl, by rw [func?, number, placed], user, defined⟩
  · rintro ⟨decl, found, user, defined⟩
    have same := built.func?_id found
    refine List.mem_filterMap.2 ⟨decl, Array.mem_toList_iff.2 (Array.mem_of_getElem? found), ?_⟩
    simp [user, same, defined]

theorem nodup_userFuncs {program : Program} (built : program.Built)
    (room : program.funcs.size ≤ 4294967296) : program.userFuncs.Nodup := by
  have apart : program.funcs.toList.Pairwise fun left right => left.id ≠ right.id := by
    rw [List.pairwise_iff_getElem]
    intro left right leftInside rightInside before same
    rw [Array.length_toList] at leftInside rightInside
    have leftNumber := built.func_id left _ (Array.getElem?_eq_getElem leftInside)
    have rightNumber := built.func_id right _ (Array.getElem?_eq_getElem rightInside)
    rw [Array.getElem_toList, Array.getElem_toList, leftNumber, rightNumber] at same
    have numbers := congrArg UInt32.toNat same
    simp only [UInt32.toNat_ofNat'] at numbers
    omega
  refine apart.filterMap _ fun left right different leftId leftFound rightId rightFound => ?_
  simp only [Option.ite_none_right_eq_some, Option.some.injEq] at leftFound rightFound
  rw [← leftFound.2, ← rightFound.2]
  exact different

end Program

/-! ## Closing -/

namespace Fragment

open Lowering (Code)

theorem foldlM_resolveUse_eq_error {fragment : Fragment} {sites : List (Nat × Label)}
    {start : Bytes} {error : AssembleError}
    (failed : sites.foldlM fragment.resolveUse start = .error error) :
    ∃ site ∈ sites, site.2 ∉ fragment.labels ∧ error = .undefinedLabel site.2 := by
  induction sites generalizing start with
  | nil => cases failed
  | cons site sites ih =>
    rw [List.foldlM_cons] at failed
    cases first : fragment.resolveUse start site with
    | error other =>
      rw [first] at failed
      cases failed
      refine ⟨site, List.mem_cons_self, ?_⟩
      unfold resolveUse at first
      split at first
      · cases first
      · next absent =>
        cases first
        refine ⟨fun bound => ?_, rfl⟩
        rw [Std.HashMap.mem_iff_isSome_getElem?, absent] at bound
        cases bound
    | ok next =>
      rw [first] at failed
      obtain ⟨other, member, absent⟩ := ih failed
      exact ⟨other, List.mem_cons_of_mem _ member, absent⟩

/-- Code that is accepted and whose entry points are bound is closed, or refers to a label that is
not bound. -/
theorem Renders.close_cases {fragment : Fragment} {code : Code} (renders : Renders fragment code)
    (accepted : Code.IsAccepted code)
    (entered : ∀ label ∈ Code.entries code, label ∈ Code.bound code) :
    (∃ assembly, fragment.close = .ok assembly) ∧
        (∀ label ∈ Code.uses code, label ∈ Code.bound code) ∨
      ∃ label ∈ Code.uses code, label ∉ Code.bound code ∧
        fragment.close = .error (.undefinedLabel label) := by
  have clean := renders.clean.2 accepted
  have holds := renders.holds clean
  rw [close_eq clean]
  cases filled : fragment.labelUses.toList.foldlM fragment.resolveUse fragment.code with
  | error error =>
    obtain ⟨site, member, absent, rfl⟩ := foldlM_resolveUse_eq_error filled
    rw [holds.uses] at member
    rw [holds.mem_labels] at absent
    exact .inr ⟨site.2, (Code.mem_labelSites 0).1 ⟨site, member, rfl⟩, absent, rfl⟩
  | ok result =>
    have starts : ∀ label ∈ fragment.entries.toList, label ∈ fragment.labels := by
      rw [holds.entries]
      exact fun label member => holds.mem_labels.2 (entered label member)
    obtain ⟨entries, listed⟩ := exists_mapM_resolveEntry.2 starts
    refine .inl ⟨⟨_, by rw [listed]; rfl⟩, fun label member => ?_⟩
    obtain ⟨site, among, rfl⟩ := (Code.mem_labelSites 0).2 member
    rw [← holds.mem_labels]
    refine exists_foldlM_resolveUse.1 ⟨result, filled⟩ site ?_
    rw [holds.uses]
    exact among

end Fragment

namespace Lowering

/-! ## Units -/

def CodeUnit.HasCode (program : Program) (unit : CodeUnit) (code : Code) : Prop :=
  ∃ last, unit.code program 0 = .ok (code, last)

section

variable {program : Program} {all : List CodeUnit}
variable {unit : CodeUnit} {code : Code} {context : Context} {label : Label}

theorem exists_hasCode {fragment : Fragment} (success : unit.fragment program = .ok fragment) :
    ∃ code, unit.HasCode program code ∧
      fragment = code.foldl Fragment.apply (Fragment.empty unit.scope) := by
  unfold CodeUnit.fragment at success
  cases produced : (unit.code program).run 0 with
  | error cause =>
    rw [produced] at success
    cases success
  | ok pair =>
    rw [produced] at success
    exact ⟨pair.1, ⟨pair.2, produced⟩, (Except.ok.inj success).symm⟩

theorem exists_parts (complete : ∀ unit ∈ all, ∃ fragment, unit.fragment program = .ok fragment) :
    ∃ parts : List (CodeUnit × Code), parts.map Prod.fst = all ∧
      (∀ part ∈ parts, part.1.HasCode program part.2) ∧
      (fragments program all).2 = .ok ((parts.map fun part => (part.1.scope, part.2)).map
        fun part => part.2.foldl Fragment.apply (Fragment.empty part.1)) := by
  induction all with
  | nil => exact ⟨[], rfl, (fun _ none => nomatch none), rfl⟩
  | cons unit rest ih =>
    obtain ⟨parts, same, coded, others⟩ :=
      ih fun other member => complete other (List.mem_cons_of_mem _ member)
    obtain ⟨fragment, made⟩ := complete unit List.mem_cons_self
    obtain ⟨code, hasCode, rfl⟩ := exists_hasCode made
    refine ⟨(unit, code) :: parts, by rw [List.map_cons, same], ?_, ?_⟩
    · intro part member
      rcases List.mem_cons.1 member with rfl | member
      · exact hasCode
      · exact coded part member
    · rw [fragments]
      simp only [made, others]
      rfl

theorem CodeUnit.HasCode.unitCode (hasCode : unit.HasCode program code) :
    UnitCode program unit code := by
  obtain ⟨last, success⟩ := hasCode
  exact code_eq_ok success

theorem mem_comparedParts_of_nullable {program : Program} {type : TypeId} {nullable : Nullable}
    (structs : ∀ type definition, program.struct? type = some definition →
      program.kind? type = some .struct)
    (kind : program.kind? type = some .union) (form : nullable? program type = some nullable) :
    ∃ parts, comparedParts program type = .ok parts ∧ nullable.structType ∈ parts := by
  cases found : program.union? type with
  | none => simp [nullable?, found] at form
  | some definition =>
    refine ⟨_, by simp only [comparedParts, kind, found]; rfl, ?_⟩
    have wide : ∀ {member : TypeId}, isWideStruct program member = true →
        isUserType program member = true := by
      intro member isWide
      unfold isWideStruct Program.fieldCount? at isWide
      cases known : program.struct? member with
      | none => simp [known] at isWide
      | some struct => simp [isUserType, structs member struct known]
    simp only [nullable?, found, Option.bind_some] at form
    split at form
    · next first second listed =>
      rw [listed, List.mem_filter]
      split at form
      · next both =>
        cases form
        exact ⟨by simp, wide (Bool.and_eq_true_iff.1 both).2⟩
      · split at form
        · next both =>
          cases form
          exact ⟨by simp, wide (Bool.and_eq_true_iff.1 both).2⟩
        · cases form
    · cases form

/-! ## Units -/

theorem isSound_of_unitCode (structs : ∀ type definition, program.struct? type = some definition →
      program.kind? type = some .struct) (unitCode : UnitCode program unit code) :
    unit.IsSound program := by
  cases unit with
  | equality type =>
    obtain ⟨_, _, _, _, names, _⟩ := unitCode.labelled
    cases names with
    | parts known => exact ⟨_, known⟩
    | nullable kind form =>
      obtain ⟨parts, known, _⟩ := mem_comparedParts_of_nullable structs kind form
      exact ⟨parts, known⟩
  | function id =>
    cases unitCode with
    | function _ definition _ _ _ found _ _ lowered =>
      exact ⟨definition, found, lowered.isWhole⟩
  | statement number statement =>
    cases unitCode with
    | statement _ _ _ _ _ lowered => exact lowered.isWhole

theorem isWhole_of_isComplete (complete : code.isComplete = true) :
    ∀ command ∈ code, command.isWhole = true := by
  intro command member
  have own := List.all_eq_true.1 complete command member
  cases command with
  | bind label => rfl
  | entry label => rfl
  | code byte => cases own
  | emit instruction => cases instruction <;> exact own

theorem isComplete_of_hasCode (sound : unit.IsSound program) (hasCode : unit.HasCode program code) :
    code.isComplete = true := by
  obtain ⟨last, success⟩ := hasCode
  have gives := gives_code sound 0
  rw [success] at gives
  cases gives with
  | ok complete => exact complete

theorem exists_equalityTypes (listed : units program = .ok all) :
    ∃ types, equalityTypes program = .ok types ∧
      all = types.map CodeUnit.equality ++ program.userFuncs.map CodeUnit.function ++
        program.statements.toList.zipIdx.map fun item => CodeUnit.statement item.2 item.1 := by
  unfold units at listed
  split at listed
  · cases listed
  · next types found =>
    cases listed
    exact ⟨types, found, rfl⟩

theorem pairwise_scope (built : program.Built) (room : program.funcs.size ≤ 4294967296)
    (listed : units program = .ok all) :
    all.Pairwise fun unit other => unit.scope ≠ other.scope := by
  obtain ⟨types, found, rfl⟩ := exists_equalityTypes listed
  have equalities := (searched_equalityTypes found).nodup
  have functions := Program.nodup_userFuncs built room
  have numbers : (program.statements.toList.zipIdx.map Prod.snd).Nodup := by
    rw [List.zipIdx_map_snd]
    exact List.nodup_range'
  rw [List.Nodup, List.pairwise_map] at numbers
  rw [List.pairwise_append, List.pairwise_append, List.pairwise_map, List.pairwise_map,
    List.pairwise_map]
  refine ⟨⟨?_, ?_, ?_⟩, ?_, ?_⟩
  · exact equalities.imp fun different same => different (equalityLabel_injective same)
  · exact functions.imp fun different same => different (funcLabel_injective same)
  · intro unit first other second same
    obtain ⟨type, _, rfl⟩ := List.mem_map.1 first
    obtain ⟨id, _, rfl⟩ := List.mem_map.1 second
    exact CodeUnit.eq_of_scope_eq same
  · exact numbers.imp fun different same => different (CodeUnit.eq_of_scope_eq same)
  · intro unit first other second same
    obtain ⟨item, _, rfl⟩ := List.mem_map.1 second
    rcases List.mem_append.1 first with first | first
    · obtain ⟨type, _, rfl⟩ := List.mem_map.1 first
      exact CodeUnit.eq_of_scope_eq same
    · obtain ⟨id, _, rfl⟩ := List.mem_map.1 first
      exact CodeUnit.eq_of_scope_eq same

/-- Functions are labelled by their numbers, so units by their names. -/
theorem unitLabel_eq_scope (built : program.Built) (room : program.funcs.size ≤ 4294967296)
    (listed : units program = .ok all) (member : unit ∈ all) :
    unitLabel program unit = unit.scope := by
  cases unit with
  | equality type => rfl
  | statement number statement => rfl
  | function id =>
    obtain ⟨decl, found, _⟩ :=
      (Program.mem_userFuncs_iff built room).1 (mem_userFuncs_of_function listed member)
    rw [unitLabel, CodeUnit.scope, CodeUnit.signature, found, Option.getD_some,
      built.func?_id found]

theorem owns_of_bound (unitCode : UnitCode program unit code)
    (named : unitLabel program unit = unit.scope) (bound : label ∈ Code.bound code) :
    unit.Owns label :=
  (unitCode.owned bound).elim (fun same => .inl (same.trans named)) id

theorem nodup_bound (unitCode : UnitCode program unit code)
    (named : unitLabel program unit = unit.scope) : (Code.bound code).Nodup := by
  obtain ⟨first, last, _, inner, _, labelled, rfl⟩ := unitCode.labelled
  have made : ∀ label ∈ Code.bound inner, Generated unit.scope label :=
    fun label member => (labelled.own label member).resolve_left nofun
  rw [bound_unit, named, List.nodup_cons]
  constructor
  · intro member
    obtain ⟨number, same⟩ := made _ member
    exact generatedLabel_ne_scope _ number same.symm
  · refine List.nodup_iff_count_le_one.2 fun label => ?_
    by_cases member : label ∈ Code.bound inner
    · obtain ⟨number, rfl⟩ := made label member
      have once := labelled.once number
      unfold within at once
      rw [occurrences_nil] at once
      unfold occurrences at once
      split_ifs at once <;> omega
    · rw [List.count_eq_zero_of_not_mem member]
      exact Nat.zero_le 1

/-! ## References -/

/-- What a node refers to: a function that it names, the equality function of the type of an
operand, or the enclosing function. -/
theorem reference?_cases (built : program.Built) (own : context.program = program) {node : Expr}
    (refers : reference? context node = some label) :
    (∃ func, program.namedFunc? node = some func ∧ label = funcLabel func) ∨
      (∃ operand type, comparedOperand? program node = some operand ∧
        operand.type? = some type ∧ label = equalityLabel type) ∨
      ∃ func, context.func = some func ∧ label = funcLabel func.id := by
  subst own
  cases node with
  | call func arguments mode result =>
    obtain ⟨decl, declared, called⟩ := Option.bind_eq_some_iff.1 refers
    have same := built.func?_id declared
    unfold callLabel? at called
    split at called
    · next user =>
      cases called
      exact .inl ⟨func, by simp [Program.namedFunc?, declared, user], by rw [same]⟩
    · next left right compared =>
      obtain ⟨type, typed, rfl⟩ := Option.map_eq_some_iff.1 called
      exact .inr (.inl ⟨left, type, by simp [comparedOperand?, declared, compared], typed, rfl⟩)
    · next left right compared =>
      obtain ⟨type, typed, rfl⟩ := Option.map_eq_some_iff.1 called
      exact .inr (.inl ⟨left, type, by simp [comparedOperand?, declared, compared], typed, rfl⟩)
    · cases called
  | callSelf arguments result =>
    obtain ⟨func, enclosing, rfl⟩ := Option.map_eq_some_iff.1 refers
    exact .inr (.inr ⟨func, enclosing, rfl⟩)
  | closure func bound delegate =>
    cases refers
    exact .inl ⟨func, rfl, rfl⟩
  | function func delegate =>
    cases refers
    exact .inl ⟨func, rfl, rfl⟩
  | _ => cases refers

theorem reference?_of_named (built : program.Built) (own : context.program = program) {node : Expr}
    {func : FuncId} (named : program.namedFunc? node = some func) :
    reference? context node = some (funcLabel func) := by
  subst own
  cases node with
  | call id arguments mode result =>
    obtain ⟨decl, declared, isUser⟩ := Option.bind_eq_some_iff.1 named
    split at isUser
    · next user =>
      cases isUser
      simp [reference?, declared, callLabel?, user, built.func?_id declared]
    · cases isUser
  | closure id bound delegate =>
    cases named
    rfl
  | function id delegate =>
    cases named
    rfl
  | _ => cases named

theorem mem_comparingExprs_of_function (listed : units program = .ok all) {id : FuncId}
    (member : CodeUnit.function id ∈ all) {definition : FuncDef}
    (found : program.def? id = some definition) : definition.body ∈ comparingExprs program := by
  refine List.mem_append_left _ (List.mem_filterMap.2 ⟨id, ?_, by rw [found, Option.map_some]⟩)
  exact mem_userFuncs_of_function listed member

theorem mem_comparingExprs_of_statement (listed : units program = .ok all) {number : Nat}
    {statement : Statement} (member : CodeUnit.statement number statement ∈ all) :
    statement.expr ∈ comparingExprs program := by
  obtain ⟨types, _, rfl⟩ := exists_equalityTypes listed
  refine List.mem_append_right _ (List.mem_map.2 ⟨statement, ?_, rfl⟩)
  simp only [List.mem_append, List.mem_map, reduceCtorEq, and_false, exists_false, or_self,
    CodeUnit.statement.injEq, false_or] at member
  obtain ⟨item, among, rfl, rfl⟩ := member
  exact List.fst_mem_of_mem_zipIdx among

theorem references_cases (built : program.Built) (listed : units program = .ok all)
    (own : context.program = program) {expr : Expr} (among : expr ∈ comparingExprs program)
    (refers : label ∈ references context expr) :
    (∃ func, program.Names func ∧ label = funcLabel func) ∨
      (∃ type, CodeUnit.equality type ∈ all ∧ label = equalityLabel type) ∨
      ∃ func, context.func = some func ∧ label = funcLabel func.id := by
  obtain ⟨node, inside, found⟩ := List.mem_filterMap.1 refers
  rcases reference?_cases built own found with
    ⟨func, named, rfl⟩ | ⟨operand, type, compared, typed, rfl⟩ | enclosing
  · exact .inl ⟨func, ⟨expr, among, node, Expr.contains_of_mem_walk expr inside, named⟩, rfl⟩
  · refine .inr (.inl ⟨type, ?_, rfl⟩)
    obtain ⟨types, known, rfl⟩ := exists_equalityTypes listed
    have operands : operand ∈ comparedOperands program :=
      List.mem_flatMap.2 ⟨expr, among, List.mem_filterMap.2 ⟨node, inside, compared⟩⟩
    have member := (searched_equalityTypes known).done type
      (List.mem_filterMap.2 ⟨operand, operands, typed⟩)
    simp [member]
  · exact .inr (.inr enclosing)

/-- A unit refers to its own labels, to functions that the program names, and to equality functions
that are units. -/
theorem uses_cases (built : program.Built) (listed : units program = .ok all) (member : unit ∈ all)
    (unitCode : UnitCode program unit code) (used : label ∈ Code.uses code) :
    label ∈ Code.bound code ∨ (∃ func, program.Names func ∧ label = funcLabel func) ∨
      ∃ type, CodeUnit.equality type ∈ all ∧ label = equalityLabel type := by
  obtain ⟨first, last, named, inner, names, labelled, rfl⟩ := unitCode.labelled
  rw [uses_unit] at used
  rw [bound_unit]
  rcases labelled.sound label used with none | bound | refers
  · cases none
  · exact .inl (List.mem_cons_of_mem _ bound)
  have settled : ∀ {type : TypeId}, CodeUnit.equality type ∈ all → ∀ {parts : List TypeId},
      comparedParts program type = .ok parts → ∀ part ∈ parts, CodeUnit.equality part ∈ all := by
    intro type member parts known part among
    obtain ⟨types, found, rfl⟩ := exists_equalityTypes listed
    have whole : type ∈ types := by simpa using member
    have inside := ((searched_equalityTypes found).settled type whole parts known part
      among).resolve_right nofun
    simp [inside]
  cases names with
  | parts known =>
    obtain ⟨part, among, rfl⟩ := List.mem_map.1 refers
    exact .inr (.inr ⟨part, settled member known part among, rfl⟩)
  | nullable kind form =>
    have structs := fun type definition =>
      @Program.Built.kind?_of_struct? program built type definition
    obtain ⟨parts, known, among⟩ := mem_comparedParts_of_nullable structs kind form
    exact .inr (.inr ⟨_, settled member known _ among, List.mem_singleton.1 refers⟩)
  | function found own self =>
    rcases references_cases built listed own
      (mem_comparingExprs_of_function listed member found) refers with
      func | equality | ⟨func, enclosing, rfl⟩
    · exact .inr (.inl func)
    · exact .inr (.inr equality)
    · cases self.symm.trans enclosing
      exact .inl List.mem_cons_self
  | statement own self =>
    rcases references_cases built listed own (mem_comparingExprs_of_statement listed member)
      refers with func | equality | ⟨func, enclosing, rfl⟩
    · exact .inr (.inl func)
    · exact .inr (.inr equality)
    · cases self.symm.trans enclosing

theorem uses_of_names (built : program.Built) (listed : units program = .ok all) {func : FuncId}
    (names : program.Names func) :
    ∃ unit ∈ all, ∀ code, UnitCode program unit code → funcLabel func ∈ Code.uses code := by
  obtain ⟨expr, among, node, inside, named⟩ := names
  have given : node ≠ .missing := by
    rintro rfl
    cases named
  have walked := (Expr.mem_walk_iff given).2 inside
  have refers : ∀ context : Context, context.program = program →
      funcLabel func ∈ references context expr := fun context own =>
    List.mem_filterMap.2 ⟨node, walked, reference?_of_named built own named⟩
  obtain ⟨types, _, rfl⟩ := exists_equalityTypes listed
  rcases List.mem_append.1 among with body | stated
  · obtain ⟨id, isUser, found⟩ := List.mem_filterMap.1 body
    obtain ⟨definition, defined, rfl⟩ := Option.map_eq_some_iff.1 found
    refine ⟨.function id, by simp [isUser], fun code unitCode => ?_⟩
    obtain ⟨_, _, _, _, names, labelled, rfl⟩ := unitCode.labelled
    rw [uses_unit]
    refine labelled.complete _ ?_
    cases names with
    | function found own _ =>
      cases found.symm.trans defined
      exact refers _ own
  · obtain ⟨statement, member, rfl⟩ := List.mem_map.1 stated
    obtain ⟨number, position⟩ := List.mem_iff_getElem?.1 member
    refine ⟨.statement number statement, ?_, fun code unitCode => ?_⟩
    · refine List.mem_append_right _ (List.mem_map.2 ⟨(statement, number), ?_, rfl⟩)
      exact List.mem_zipIdx_iff_getElem?.2 position
    · obtain ⟨_, _, _, _, names, labelled, rfl⟩ := unitCode.labelled
      rw [uses_unit]
      refine labelled.complete _ ?_
      cases names with
      | statement own _ => exact refers _ own

end

/-! ## Programs -/

section

variable {program : Program} {all : List CodeUnit}
variable {parts : List (CodeUnit × Code)}

theorem mem_uses_flatMap {label : Label} :
    label ∈ Code.uses (parts.flatMap Prod.snd) ↔ ∃ part ∈ parts, label ∈ Code.uses part.2 := by
  induction parts with
  | nil => simp
  | cons part parts ih => simp [ih]

/-- The code of all units can be built in one piece: no label is bound twice. -/
theorem isAccepted_flatMap (whole : ∀ part ∈ parts, ∀ command ∈ part.2, command.isWhole = true)
    (nodup : ∀ part ∈ parts, (Code.bound part.2).Nodup)
    (owned : ∀ part ∈ parts, ∀ label ∈ Code.bound part.2, part.1.Owns label)
    (apart : parts.Pairwise fun part other => part.1.scope ≠ other.1.scope) :
    Code.IsAccepted (parts.flatMap Prod.snd) := by
  induction parts with
  | nil => exact ⟨nofun, List.nodup_nil⟩
  | cons part parts ih =>
    rw [List.forall_mem_cons] at whole nodup owned
    rw [List.pairwise_cons] at apart
    rw [List.flatMap_cons, Code.isAccepted_append]
    refine ⟨⟨whole.1, nodup.1⟩, ih whole.2 nodup.2 owned.2 apart.2, ?_⟩
    intro label here later
    obtain ⟨other, member, there⟩ := mem_bound_flatMap.1 later
    exact apart.1 other member ((owned.1 label here).scope_eq (owned.2 other member label there))

theorem entries_bound (coded : ∀ part ∈ parts, UnitCode program part.1 part.2) :
    ∀ label ∈ Code.entries (parts.flatMap Prod.snd),
      label ∈ Code.bound (parts.flatMap Prod.snd) := by
  intro label member
  rw [entries_flatMap coded] at member
  obtain ⟨unit, among, entry⟩ := List.mem_flatMap.1 member
  obtain ⟨part, inside, rfl⟩ := List.mem_map.1 among
  obtain ⟨_, _, _, inner, _, _, split⟩ := (coded part inside).labelled
  refine mem_bound_flatMap.2 ⟨part, inside, ?_⟩
  rw [split, bound_unit]
  generalize part.1 = unit at entry
  cases unit with
  | statement number statement =>
    rw [List.mem_singleton.1 entry]
    exact List.mem_cons_self
  | _ => cases entry

theorem eq_function_of_scope {unit : CodeUnit} {func : FuncId}
    (same : unit.scope = funcLabel func) : unit = .function func := by
  have names := @CodeUnit.eq_of_scope_eq unit (.function func) same
  cases unit with
  | function id => rw [names]
  | _ => exact names.elim

/-- The label of a function is bound if it is a user function with a body. -/
theorem funcLabel_bound_iff (built : program.Built) (room : program.funcs.size ≤ 4294967296)
    (listed : units program = .ok (parts.map Prod.fst))
    (coded : ∀ part ∈ parts, UnitCode program part.1 part.2) {func : FuncId} :
    funcLabel func ∈ Code.bound (parts.flatMap Prod.snd) ↔ program.IsDefined func := by
  have named := fun part (member : part ∈ parts) =>
    unitLabel_eq_scope built room listed
      (show part.1 ∈ parts.map Prod.fst from List.mem_map_of_mem member)
  rw [mem_bound_flatMap, ← Program.mem_userFuncs_iff built room]
  constructor
  · rintro ⟨part, member, bound⟩
    have owns := owns_of_bound (coded part member) (named part member) bound
    have own : (CodeUnit.function func).Owns (funcLabel func) := .inl rfl
    have unit := eq_function_of_scope (owns.scope_eq own)
    refine mem_userFuncs_of_function listed ?_
    rw [← unit]
    exact List.mem_map_of_mem member
  · intro isUser
    have unit : CodeUnit.function func ∈ parts.map Prod.fst := by
      obtain ⟨types, _, same⟩ := exists_equalityTypes listed
      rw [same]
      simp [isUser]
    obtain ⟨part, member, same⟩ := List.mem_map.1 unit
    obtain ⟨_, _, _, inner, _, _, split⟩ := (coded part member).labelled
    refine ⟨part, member, ?_⟩
    rw [split, bound_unit, named part member, same]
    exact List.mem_cons_self

theorem equalityLabel_bound (coded : ∀ part ∈ parts, UnitCode program part.1 part.2) {type : TypeId}
    (member : CodeUnit.equality type ∈ parts.map Prod.fst) :
    equalityLabel type ∈ Code.bound (parts.flatMap Prod.snd) := by
  obtain ⟨part, among, same⟩ := List.mem_map.1 member
  obtain ⟨_, _, _, inner, _, _, split⟩ := (coded part among).labelled
  refine mem_bound_flatMap.2 ⟨part, among, ?_⟩
  rw [split, bound_unit, same]
  exact List.mem_cons_self

/-- When all units have code, their program has an assembly, or names a function that is no user
function with a body. -/
theorem generate_cases (built : program.Built) (room : program.funcs.size ≤ 4294967296)
    (listed : units program = .ok (parts.map Prod.fst))
    (coded : ∀ part ∈ parts, part.1.HasCode program part.2)
    (produced : (fragments program (parts.map Prod.fst)).2 =
      .ok ((parts.map fun part => (part.1.scope, part.2)).map
        fun part => part.2.foldl Fragment.apply (Fragment.empty part.1))) :
    (∃ assembly, generate program = .ok assembly) ∧
        (∀ func, program.Names func → program.IsDefined func) ∨
      ∃ func, program.Names func ∧ ¬program.IsDefined func ∧
        generate program = .error (.labels (.undefinedLabel (funcLabel func))) := by
  have unitCodes := fun part member => (coded part member).unitCode
  have named := fun part (member : part ∈ parts) =>
    unitLabel_eq_scope built room listed
      (show part.1 ∈ parts.map Prod.fst from List.mem_map_of_mem member)
  have structs := fun type definition =>
    @Program.Built.kind?_of_struct? program built type definition
  have accepted : Code.IsAccepted (parts.flatMap Prod.snd) := by
    refine isAccepted_flatMap ?_ ?_ ?_ ?_
    · intro part member
      have sound := isSound_of_unitCode structs (unitCodes part member)
      exact isWhole_of_isComplete (isComplete_of_hasCode sound (coded part member))
    · exact fun part member => nodup_bound (unitCodes part member) (named part member)
    · exact fun part member label bound =>
        owns_of_bound (unitCodes part member) (named part member) bound
    · have apart := pairwise_scope built room listed
      rw [List.pairwise_map] at apart
      exact apart
  have renders := (Fragment.renders_empty ByteArray.empty).foldl_append
    (parts.map fun part => (part.1.scope, part.2))
  rw [List.nil_append, List.flatMap_map] at renders
  have linked : ∀ result, generate program = result ↔ link ((parts.map fun part =>
      (part.1.scope, part.2)).map fun part =>
        part.2.foldl Fragment.apply (Fragment.empty part.1)) = result := by
    intro result
    unfold generate outcome
    simp only [listed, produced]
    exact Iff.rfl
  rcases renders.close_cases accepted (entries_bound unitCodes) with
    ⟨⟨assembly, closed⟩, bound⟩ | ⟨label, used, unbound, failed⟩
  · refine .inl ⟨⟨assembly, (linked _).2 ?_⟩, fun func names => ?_⟩
    · unfold link
      rw [closed]
    · obtain ⟨unit, member, uses⟩ := uses_of_names built listed names
      obtain ⟨part, among, rfl⟩ := List.mem_map.1 member
      refine (funcLabel_bound_iff built room listed unitCodes).1 (bound _ ?_)
      exact mem_uses_flatMap.2 ⟨part, among, uses part.2 (unitCodes part among)⟩
  · obtain ⟨part, among, inside⟩ := mem_uses_flatMap.1 used
    rcases uses_cases built listed (List.mem_map_of_mem among) (unitCodes part among) inside with
      bound | ⟨func, names, rfl⟩ | ⟨type, member, rfl⟩
    · exact absurd (mem_bound_flatMap.2 ⟨part, among, bound⟩) unbound
    · refine .inr ⟨func, names, fun defined => unbound ?_, (linked _).2 ?_⟩
      · exact (funcLabel_bound_iff built room listed unitCodes).2 defined
      · unfold link
        rw [failed]
    · exact absurd (equalityLabel_bound unitCodes member) unbound

theorem existsUnique_position (apart : all.Pairwise fun unit other => unit.scope ≠ other.scope)
    {unit : CodeUnit} (member : unit ∈ all) : ∃! position : Nat, all[position]? = some unit := by
  obtain ⟨position, inside, here⟩ := List.mem_iff_getElem.1 member
  refine ⟨position, (List.getElem?_eq_getElem inside).trans (congrArg some here), ?_⟩
  intro other found
  obtain ⟨otherInside, there⟩ := List.getElem?_eq_some_iff.1 found
  have different := List.pairwise_iff_getElem.1 apart
  by_contra unequal
  rcases Nat.lt_or_gt_of_ne unequal with before | behind
  · exact different other position otherInside inside before (by rw [here, there])
  · exact different position other inside otherInside behind (by rw [here, there])

/-- When every unit of a program has code, no label is bound twice, and the program has an assembly
unless an expression names a function that is no user function with a body; then the label of such a
function is reported. Every equality function that is called is one of the units, once, and no label
of one unit is a label of another. -/
theorem label_errors_exact (built : program.Built) (room : program.funcs.size ≤ 4294967296)
    (listed : units program = .ok all)
    (complete : ∀ unit ∈ all, ∃ fragment, unit.fragment program = .ok fragment) :
    (∀ label, generate program ≠ .error (.labels (.duplicateLabel label))) ∧
    ((∃ label, generate program = .error (.labels (.undefinedLabel label))) ↔
      ∃ func, program.Names func ∧ ¬program.IsDefined func) ∧
    (∀ error, generate program = .error error → ∃ func, program.Names func ∧
      ¬program.IsDefined func ∧ error = .labels (.undefinedLabel (funcLabel func))) ∧
    (∀ unit ∈ all, ∀ code, unit.HasCode program code →
      (∀ label ∈ Code.bound code, unit.Owns label) ∧
      ∀ type, equalityLabel type ∈ Code.uses code →
        ∃! position : Nat, all[position]? = some (CodeUnit.equality type)) ∧
    all.Pairwise fun unit other => ∀ label, unit.Owns label → ¬other.Owns label := by
  have apart := pairwise_scope built room listed
  obtain ⟨parts, rfl, coded, produced⟩ := exists_parts complete
  have outcome := generate_cases built room listed coded produced
  refine ⟨?_, ⟨?_, ?_⟩, ?_, ?_, ?_⟩
  · intro label duplicate
    rcases outcome with ⟨⟨assembly, success⟩, _⟩ | ⟨func, _, _, failed⟩
    · cases success.symm.trans duplicate
    · cases failed.symm.trans duplicate
  · rintro ⟨label, failed⟩
    rcases outcome with ⟨⟨assembly, success⟩, _⟩ | ⟨func, names, undefined, _⟩
    · cases success.symm.trans failed
    · exact ⟨func, names, undefined⟩
  · rintro ⟨func, names, undefined⟩
    rcases outcome with ⟨_, defined⟩ | ⟨other, _, _, failed⟩
    · exact absurd (defined func names) undefined
    · exact ⟨funcLabel other, failed⟩
  · intro error failed
    rcases outcome with ⟨⟨assembly, success⟩, _⟩ | ⟨func, names, undefined, reported⟩
    · cases success.symm.trans failed
    · exact ⟨func, names, undefined, Except.error.inj (failed.symm.trans reported)⟩
  · intro unit member code hasCode
    have unitCode := hasCode.unitCode
    have named := unitLabel_eq_scope built room listed member
    refine ⟨fun label bound => owns_of_bound unitCode named bound, fun type used => ?_⟩
    have own : (CodeUnit.equality type).Owns (equalityLabel type) := .inl rfl
    refine existsUnique_position apart ?_
    rcases uses_cases built listed member unitCode used with
      bound | ⟨func, _, same⟩ | ⟨other, among, same⟩
    · rw [← unit_of_equalityLabel unitCode bound]
      exact member
    · exact absurd same (equalityLabel_ne_funcLabel type func)
    · rw [equalityLabel_injective same]
      exact among
  · exact apart.imp fun different label owns also => different (owns.scope_eq also)

end

/-! ### Nested pairs -/

/-- The statement of the program below: it calls a function without a body and compares two pairs of
pairs. -/
def comparePairs : Statement :=
  ⟨[], .group [.call 1 [] 0 TypeId.int, .call 0 [.fail 8, .fail 8] 0 TypeId.bool]⟩

def nestedPairs : Program :=
  ((((Program.empty.declare "Pair"
    (.struct (some [⟨"left", TypeId.int⟩, ⟨"right", TypeId.int⟩]))).declare "Pairs"
    (.struct (some [⟨"left", 7⟩, ⟨"right", 7⟩]))).declareFunc "equal" 93 (some [8, 8])
    TypeId.bool).declareFunc "later" 1 none TypeId.int).addStatement comparePairs.slots
    comparePairs.expr

theorem built_nestedPairs : nestedPairs.Built :=
  .addStatement (.declareFunc (.declareFunc (.declare (.declare .empty (by decide) _ _)
    (by decide) _ _) _ _ _ _) _ _ _ _) _ _

theorem units_nestedPairs :
    units nestedPairs = .ok [.equality 7, .equality 8, .statement 0 comparePairs] := by
  have found : reachTypes nestedPairs (reachBound nestedPairs) [8] [] = .ok [7, 8] := by
    decide
  have sorted : [7, 8].mergeSort (fun left right : TypeId => decide (left ≤ right)) = [7, 8] :=
    List.mergeSort_of_pairwise (by decide)
  have compared : equalityTypes nestedPairs = .ok [7, 8] := by
    change (reachTypes nestedPairs (reachBound nestedPairs) [8] [] >>= Except.ok) >>=
      (fun found => Except.ok (found.mergeSort (· ≤ ·))) = _
    rw [found]
    exact congrArg Except.ok sorted
  unfold units
  rw [compared]
  rfl

theorem label_errors_exact_nestedPairs :
    (∃ label, generate nestedPairs = .error (.labels (.undefinedLabel label))) ∧
      ∃! position : Nat, [CodeUnit.equality 7, .equality 8, .statement 0 comparePairs][position]? =
        some (.equality 7) := by
  have complete : ∀ unit ∈ [CodeUnit.equality 7, .equality 8, .statement 0 comparePairs],
      ∃ fragment, unit.fragment nestedPairs = .ok fragment := by
    simp only [List.forall_mem_cons]
    exact ⟨⟨_, rfl⟩, ⟨_, rfl⟩, ⟨_, rfl⟩, nofun⟩
  obtain ⟨_, undefined, _, each, _⟩ :=
    label_errors_exact built_nestedPairs (by decide) units_nestedPairs complete
  refine ⟨undefined.2 ⟨1, ?_, ?_⟩, ?_⟩
  · exact ⟨comparePairs.expr, List.mem_cons_self, .call 1 [] 0 TypeId.int,
      .child List.mem_cons_self (.self _), rfl⟩
  · rintro ⟨decl, _, _, defined⟩
    cases defined
  · refine (each (.equality 8) (by simp) _ ⟨_, rfl⟩).2 7 ?_
    decide

end Lowering

end WordMachine
