import WordMachine.Proofs.CodeLayout
import WordMachine.Proofs.LoweringFailures
import WordMachine.Proofs.SavedPrograms

/-!
Compiling through a file. Programs with the same code have the same assembly, so a program that is
saved and loaded again is compiled to what it was compiled to before.
-/

namespace WordMachine

def Program.codeTables (program : Program) : Program where
  types := program.types
  structs := program.structs
  unions := program.unions
  funcs := program.funcs

namespace Lowering

variable {program : Program} {assembly : Assembly}

/-! ## What code depends on -/

/-- A context without the tables that code does not depend on. -/
def Context.bare (context : Context) : Context :=
  { context with program := context.program.codeTables }

mutual

/-- The code of an expression depends on the code tables only. -/
theorem lower_bare {context : Context} :
    (expr : Expr) → (tail : Bool) → lower context.bare expr tail = lower context expr tail
  | .missing, _ => rfl
  | .assign slot value, tail => by
    rw [lower, lower, lower_bare value]
  | .choose conditions branches, tail => by
    rw [lower, lower, lowerLast_bare branches]
    simp only [lowerConditions_bare conditions, lowerBranches_bare branches]
    rfl
  | .call func arguments mode result, tail => by
    have all : lowerAll context.bare arguments = lowerAll context arguments :=
      lowerAll_bare arguments
    cases declared : context.program.func? func with
    | none =>
      have bare : context.bare.program.func? func = none := declared
      rw [lower_undeclared declared, lower_undeclared bare]
    | some decl =>
      have bare : context.bare.program.func? func = some decl := declared
      by_cases kind : FuncKind.ofCode? decl.kind = some .makeUnion
      · rw [lower_makeUnion declared kind, lower_makeUnion bare kind]
        split
        · next argument =>
          rw [lowerAll_single, lowerAll_single] at all
          rw [all]
          rfl
        · rfl
      · rw [lower_call declared kind, lower_call bare kind, all]
  | .callDynamic target arguments fork result, tail => by
    rw [lower, lower, lower_bare target, lowerAll_bare arguments]
  | .callSelf arguments result, tail => by
    rw [lower, lower, lowerAll_bare arguments]
    rfl
  | .closure func bound delegate, tail => by
    rw [lower, lower, lowerAll_bare bound]
  | .slot slot type, tail => by rw [lower, lower]
  | .field operand position type, tail => by
    rw [lower, lower, lower_bare operand]
    rfl
  | .group items, tail => by
    rw [lower, lower, lowerGroup_bare items]
  | .unionCheck operand target, tail => by
    rw [lower, lower, lower_bare operand]
    rfl
  | .unionGet operand target slot, tail => by
    rw [lower, lower, lower_bare operand]
    rfl
  | .fail type, _ => by rw [lower, lower]
  | .bool value, _ => by rw [lower, lower]
  | .float bits, _ => by rw [lower, lower]
  | .int value, _ => by rw [lower, lower]
  | .long value, _ => by rw [lower, lower]
  | .string value, _ => by rw [lower, lower]
  | .char value, _ => by rw [lower, lower]
  | .function func delegate, _ => by rw [lower, lower]
  | .enumeration type value, _ => by rw [lower, lower]

theorem lowerAll_bare {context : Context} :
    (items : List Expr) → lowerAll context.bare items = lowerAll context items
  | [] => by rw [lowerAll, lowerAll]
  | item :: items => by rw [lowerAll, lowerAll, lower_bare item, lowerAll_bare items]

theorem lowerGroup_bare {context : Context} :
    (items : List Expr) → (tail : Bool) →
      lowerGroup context.bare items tail = lowerGroup context items tail
  | [], _ => by rw [lowerGroup, lowerGroup]
  | [last], tail => by rw [lowerGroup, lowerGroup, lower_bare last]
  | item :: next :: items, tail => by
    have rest : lowerGroup context.bare (next :: items) tail =
        lowerGroup context (next :: items) tail := lowerGroup_bare (next :: items) tail
    rw [lowerGroup_cons, lowerGroup_cons, lower_bare item, rest]

theorem lowerConditions_bare {context : Context} :
    (conditions : List Expr) → (labels : List Label) →
      lowerConditions context.bare conditions labels = lowerConditions context conditions labels
  | condition :: conditions, label :: labels => by
    rw [lowerConditions, lowerConditions, lower_bare condition, lowerConditions_bare conditions]
  | [], _ => by simp only [lowerConditions]
  | _ :: _, [] => by simp only [lowerConditions]

theorem lowerLast_bare {context : Context} :
    (items : List Expr) → (tail : Bool) →
      lowerLast context.bare items tail = lowerLast context items tail
  | [], _ => by rw [lowerLast, lowerLast]
  | [last], tail => by rw [lowerLast, lowerLast, lower_bare last]
  | _ :: next :: items, tail => by
    have rest : lowerLast context.bare (next :: items) tail =
        lowerLast context (next :: items) tail := lowerLast_bare (next :: items) tail
    rw [lowerLast_cons, lowerLast_cons, rest]

theorem lowerBranches_bare {context : Context} :
    (branches : List Expr) → (labels : List Label) → (done : Label) → (tail : Bool) →
      lowerBranches context.bare branches labels done tail =
        lowerBranches context branches labels done tail
  | branch :: branches, label :: labels, done, tail => by
    rw [lowerBranches, lowerBranches, lower_bare branch, lowerBranches_bare branches]
  | [], _, _, _ => by simp only [lowerBranches]
  | _ :: _, [], _, _ => by simp only [lowerBranches]

end

theorem compareFields_codeTables (program : Program) (scope : Bytes) (position : Nat)
    (fields : List FieldDecl) :
    compareFields program.codeTables scope position fields =
      compareFields program scope position fields := by
  induction fields generalizing position with
  | nil => rfl
  | cons field fields ih =>
    rw [compareFields, compareFields, ih]
    rfl

theorem compareMembers_codeTables (program : Program) (equal : Label)
    (members : List (TypeId × Label)) :
    compareMembers program.codeTables equal members = compareMembers program equal members := by
  induction members with
  | nil => rfl
  | cons pair members ih =>
    obtain ⟨member, label⟩ := pair
    rw [compareMembers, compareMembers, ih]
    rfl

theorem structEquality_codeTables (program : Program) (scope : Bytes) (fields : List FieldDecl) :
    structEquality program.codeTables scope fields = structEquality program scope fields := by
  unfold structEquality
  rw [compareFields_codeTables]
  rfl

theorem unionEquality_codeTables (program : Program) (scope : Bytes) (members : List TypeId) :
    unionEquality program.codeTables scope members = unionEquality program scope members := by
  unfold unionEquality
  simp only [compareMembers_codeTables]

theorem equalityFunction_codeTables (program : Program) (type : TypeId) :
    equalityFunction program.codeTables type = equalityFunction program type := by
  unfold equalityFunction
  simp only [structEquality_codeTables, unionEquality_codeTables]
  rfl

theorem reachTypes_codeTables (program : Program) (fuel : Nat) (pending found : List TypeId) :
    reachTypes program.codeTables fuel pending found = reachTypes program fuel pending found := by
  induction fuel generalizing pending found with
  | zero => rfl
  | succ fuel ih =>
    cases pending with
    | nil => rfl
    | cons type pending =>
      rw [reachTypes, reachTypes]
      simp only [ih]
      rfl

/-! ## Programs with the same code -/

section

variable {program other : Program}
variable {id : FuncId}

theorem codeTables_eq (same : program.SameCode other) : program.codeTables = other.codeTables := by
  unfold Program.codeTables
  rw [same.types, same.structs, same.unions, same.funcs]

theorem userFuncs_eq (same : program.SameCode other) : program.userFuncs = other.userFuncs := by
  unfold Program.userFuncs
  rw [← same.funcs]
  refine List.filterMap_congr fun func member => ?_
  rw [same.defs func (Array.mem_toList_iff.1 member)]

theorem exists_declared_of_userFunc (listed : id ∈ program.userFuncs) :
    ∃ func ∈ program.funcs, func.id = id ∧ FuncKind.ofCode? func.kind = some .user ∧
      (program.def? id).isSome = true := by
  obtain ⟨func, member, isUser⟩ := List.mem_filterMap.1 listed
  split at isUser
  · next holds =>
    cases isUser
    simp only [Bool.and_eq_true, beq_iff_eq] at holds
    exact ⟨func, Array.mem_toList_iff.1 member, rfl, holds.1, holds.2⟩
  · cases isUser

theorem def?_eq_of_userFunc (same : program.SameCode other) (listed : id ∈ program.userFuncs) :
    program.def? id = other.def? id := by
  obtain ⟨func, declared, rfl, _, _⟩ := exists_declared_of_userFunc listed
  exact same.defs func declared

theorem comparingExprs_eq (same : program.SameCode other) :
    comparingExprs program = comparingExprs other := by
  unfold comparingExprs
  rw [← userFuncs_eq same, same.statements]
  congr 1
  refine List.filterMap_congr fun id listed => ?_
  rw [def?_eq_of_userFunc same listed]

theorem equalityTypes_eq (same : program.SameCode other) :
    equalityTypes program = equalityTypes other := by
  have tables := codeTables_eq same
  have operand : comparedOperand? program = comparedOperand? other := by
    change comparedOperand? program.codeTables = comparedOperand? other.codeTables
    rw [tables]
  have reach : reachTypes program (reachBound program) = reachTypes other (reachBound other) := by
    funext pending found
    rw [← reachTypes_codeTables program, ← reachTypes_codeTables other, tables]
    congr 1
    change reachBound program.codeTables = reachBound other.codeTables
    rw [tables]
  have listed : comparedOperands program = comparedOperands other := by
    unfold comparedOperands
    rw [comparingExprs_eq same, operand]
  change (comparedOperands program).foldlM _ [] >>= _ = (comparedOperands other).foldlM _ [] >>= _
  rw [listed]
  simp only [reach]

theorem units_eq (same : program.SameCode other) : units program = units other := by
  unfold units
  rw [equalityTypes_eq same, userFuncs_eq same, same.statements]

theorem lower_eq (same : program.SameCode other) (scope : Bytes) (slots : SlotTable)
    (func : Option FuncDecl) :
    lower { program, scope, slots, func } = lower { program := other, scope, slots, func } := by
  funext expr tail
  rw [← lower_bare, ← @lower_bare { program := other, scope, slots, func }, Context.bare,
    Context.bare]
  simp only [codeTables_eq same]

theorem code_eq (same : program.SameCode other) {unit : CodeUnit}
    (found : ∀ id, unit = .function id → program.def? id = other.def? id) :
    unit.code program = unit.code other := by
  have tables := codeTables_eq same
  cases unit with
  | equality type =>
    change equalityFunction program type = equalityFunction other type
    rw [← equalityFunction_codeTables program, ← equalityFunction_codeTables other, tables]
  | function id =>
    have signature : CodeUnit.signature program id = CodeUnit.signature other id := by
      change CodeUnit.signature program.codeTables id = CodeUnit.signature other.codeTables id
      rw [tables]
    simp only [CodeUnit.code, signature, found id rfl, lower_eq same]
  | statement number statement => simp only [CodeUnit.code, lower_eq same]

theorem name_eq (same : program.SameCode other) (unit : CodeUnit) :
    unit.name program = unit.name other := by
  have tables := codeTables_eq same
  have names : program.typeName = other.typeName := by
    change program.codeTables.typeName = other.codeTables.typeName
    rw [tables]
  have signatures : CodeUnit.signature program = CodeUnit.signature other := by
    change CodeUnit.signature program.codeTables = CodeUnit.signature other.codeTables
    rw [tables]
  cases unit with
  | equality type => simp only [CodeUnit.name, names]
  | function id => simp only [CodeUnit.name, signatures]
  | statement number statement => rfl

theorem fragments_eq (same : program.SameCode other) {all : List CodeUnit}
    (found : ∀ id, CodeUnit.function id ∈ all → program.def? id = other.def? id) :
    fragments program all = fragments other all := by
  induction all with
  | nil => rfl
  | cons unit rest ih =>
    have later := ih fun id member => found id (List.mem_cons_of_mem _ member)
    have code := code_eq same fun id isFunction => found id (isFunction ▸ List.mem_cons_self)
    have fragment : unit.fragment program = unit.fragment other := by
      unfold CodeUnit.fragment
      rw [code]
    rw [fragments, fragments, name_eq same, fragment, later]

theorem mem_userFuncs_of_function {all : List CodeUnit} (listed : units program = .ok all)
    (member : CodeUnit.function id ∈ all) : id ∈ program.userFuncs := by
  obtain ⟨types, rfl⟩ := units_eq_ok listed
  rcases List.mem_append.1 member with member | member
  · rcases List.mem_append.1 member with member | member
    · obtain ⟨_, _, isEquality⟩ := List.mem_map.1 member
      cases isEquality
    · obtain ⟨_, among, isFunction⟩ := List.mem_map.1 member
      cases isFunction
      exact among
  · obtain ⟨_, _, isStatement⟩ := List.mem_map.1 member
    cases isStatement

theorem generate_eq (same : program.SameCode other) : generate program = generate other := by
  unfold generate outcome
  rw [← units_eq same]
  cases listed : units program with
  | error error => rfl
  | ok all =>
    have parts := fragments_eq same fun id member =>
      def?_eq_of_userFunc same (mem_userFuncs_of_function listed member)
    simp only [parts]

end

/-! ## What is compiled is whole -/

/-- What has code is whole. -/
theorem Compiles.isWhole {context : Context} {part : Part} {first last : Nat} {code : Code}
    (compiles : Compiles context part first code last) :
    ∀ expr ∈ part.items, expr.isWhole = true := by
  induction compiles with
  | @literal expr _ _ _ known =>
    refine List.forall_mem_singleton.2 ?_
    cases expr <;> first | rfl | cases known
  | choose many _ _ _ _ _ tests other branches =>
    refine List.forall_mem_singleton.2 ?_
    have all := Expr.areWhole_iff.2 (List.forall_mem_append.2 ⟨branches, other⟩)
    have conditions := Expr.areWhole_iff.2 tests
    rw [Part.items, Part.items] at all
    rw [Part.items] at conditions
    simp_all [Expr.isWhole, Part.items]
  | _ => simp_all [Part.items, Expr.isWhole, Expr.areWhole_iff]

theorem Lowered.isWhole {context : Context} {expr : Expr} {tail : Bool} {code : Code}
    (lowered : Lowered context expr tail code) : expr.isWhole = true := by
  obtain ⟨first, last, compiles⟩ := lowered.compiles
  exact compiles.isWhole expr List.mem_cons_self

theorem exists_unitCode (generated : generate program = .ok assembly) :
    ∃ all, units program = .ok all ∧ ∀ unit ∈ all, ∃ code, UnitCode program unit code := by
  unfold generate outcome at generated
  cases listed : units program with
  | error error =>
    simp only [listed] at generated
    cases generated
  | ok all =>
    simp only [listed] at generated
    cases produced : (fragments program all).2 with
    | error error =>
      rw [produced] at generated
      cases generated
    | ok parts =>
      obtain ⟨coded, rfl, unitCodes, _⟩ := fragments_eq_ok produced
      refine ⟨_, rfl, fun unit member => ?_⟩
      obtain ⟨part, among, rfl⟩ := List.mem_map.1 member
      exact ⟨part.2, unitCodes part among⟩

theorem isWhole_of_userFunc (generated : generate program = .ok assembly) {id : FuncId}
    (listed : id ∈ program.userFuncs) {definition : FuncDef}
    (defined : program.def? id = some definition) : definition.body.isWhole = true := by
  obtain ⟨all, found, coded⟩ := exists_unitCode generated
  obtain ⟨types, rfl⟩ := units_eq_ok found
  obtain ⟨code, unitCode⟩ := coded (.function id) (by simp [listed])
  cases unitCode with
  | function _ other _ _ _ known _ _ lowered =>
    rw [known] at defined
    cases defined
    exact lowered.isWhole

theorem isWhole_of_statement (generated : generate program = .ok assembly) {statement : Statement}
    (listed : statement ∈ program.statements) : statement.expr.isWhole = true := by
  obtain ⟨all, found, coded⟩ := exists_unitCode generated
  obtain ⟨types, rfl⟩ := units_eq_ok found
  obtain ⟨number, position⟩ := List.mem_iff_getElem?.1 (Array.mem_toList_iff.2 listed)
  obtain ⟨code, unitCode⟩ := coded (.statement number statement)
    (List.mem_append.2 (Or.inr (List.mem_map.2
      ⟨(statement, number), List.mem_zipIdx_iff_getElem?.2 position, rfl⟩)))
  cases unitCode with
  | statement _ _ _ _ _ lowered => exact lowered.isWhole

theorem isStorable_of_generate (tables : program.HasDeclaredTables)
    (unused : ∀ func ∈ program.funcs, FuncKind.ofCode? func.kind ≠ some .user →
      ∀ definition, program.def? func.id = some definition → definition.body.isWhole = true)
    (generated : generate program = .ok assembly) : program.IsStorable := by
  refine ⟨tables, fun func declared definition defined => ?_, fun statement listed =>
    isWhole_of_statement generated listed⟩
  by_cases isUser : FuncKind.ofCode? func.kind = some .user
  · refine isWhole_of_userFunc generated (List.mem_filterMap.2
      ⟨func, Array.mem_toList_iff.2 declared, ?_⟩) defined
    simp [isUser, defined]
  · exact unused func declared isUser definition defined

/-- Compiling a program that is saved and loaded again gives the assembly of the program, when
every float literal comes back as it was. -/
theorem compiled_through_file {program : Program} {data : Bytes} {assembly : Assembly}
    (tables : program.HasDeclaredTables)
    (unused : ∀ func ∈ program.funcs, FuncKind.ofCode? func.kind ≠ some .user →
      ∀ definition, program.def? func.id = some definition → definition.body.isWhole = true)
    (floats : program.settled = program) (saved : program.save = .ok data)
    (short : data.size < 4294967296) (generated : generate program = .ok assembly) :
    ∃ loaded, Program.load data = .ok loaded ∧ generate loaded = .ok assembly := by
  obtain ⟨loaded, read, same⟩ :=
    Program.load_save (isStorable_of_generate tables unused generated) saved short
  refine ⟨loaded, read, ?_⟩
  rw [← generate_eq same, floats, generated]

/-! ## One literal -/

def floatProgram (bits : UInt32) : Program :=
  Program.empty.addStatement [] (.float bits)

def floatBytes (bits : UInt32) : Bytes :=
  Bytes.ofList (Opcode.loadFloat.code :: Bytes.le32 bits ++
    [Opcode.pop.code, Opcode.ret.code, Opcode.fail.code])

theorem units_floatProgram (bits : UInt32) :
    units (floatProgram bits) = .ok [.statement 0 ⟨[], .float bits⟩] := by
  have uncompared : equalityTypes (floatProgram bits) = .ok [] := by
    have none : comparedOperands (floatProgram bits) = [] := rfl
    change List.foldlM _ [] (comparedOperands (floatProgram bits)) >>= _ = _
    rw [none]
    change Except.ok (List.mergeSort [] _) = _
    simp
  unfold units
  rw [uncompared]
  rfl

theorem fragment_floatProgram (bits : UInt32) :
    (CodeUnit.statement 0 ⟨[], .float bits⟩).fragment (floatProgram bits) =
      .ok { scope := statementLabel 0, code := floatBytes bits
            labels := (∅ : Std.HashMap Label Nat).insert (statementLabel 0) 0
            entries := #[statementLabel 0] } := by
  have bound : (Fragment.empty (statementLabel 0)).apply (.bind (statementLabel 0)) = _ :=
    Fragment.bindAt_of_not_mem (by simp [Fragment.empty]) 0
  have code : (CodeUnit.statement 0 ⟨[], .float bits⟩).fragment (floatProgram bits) =
      .ok (List.foldl Fragment.apply (Fragment.empty (statementLabel 0))
        [.bind (statementLabel 0), .entry (statementLabel 0), .emit (.loadFloat bits),
          .emit (.plain .pop), .emit (.plain .ret), .emit (.plain .fail)]) := rfl
  rw [code, List.foldl_cons, bound]
  rfl

theorem generate_floatProgram (bits : UInt32) :
    generate (floatProgram bits) =
      .ok { code := floatBytes bits, literals := #[], entries := #[0] } := by
  unfold generate outcome
  rw [units_floatProgram]
  simp only [fragments, fragment_floatProgram]
  change link [_] = _
  unfold link
  rw [List.foldl_cons, List.foldl_nil,
    Fragment.append_single rfl rfl rfl (by simp [Fragment.empty])]
  simp [Fragment.close, Fragment.empty, Fragment.resolveEntry]

theorem built_floatProgram (bits : UInt32) : (floatProgram bits).Built :=
  .addStatement .empty [] (.float bits)

theorem settled_floatProgram (bits : UInt32) :
    (floatProgram bits).settled = floatProgram (Program.settledSingle bits) := by
  have statements : (floatProgram bits).statements = #[⟨[], .float bits⟩] := rfl
  have settled : (Statement.mk [] (.float bits)).settled =
      ⟨[], .float (Program.settledSingle bits)⟩ := by
    rw [Statement.settled, Expr.settled]
  rw [Program.settled, statements, List.map_toArray, List.map_cons, settled]
  rfl

theorem save_floatProgram {bits : UInt32}
    (short : ((floatProgram bits).contents.toOption.any fun file =>
      file.toValue.render.length < 4294967296) = true) :
    ∃ data, (floatProgram bits).save = .ok data ∧ data.size < 4294967296 := by
  unfold Program.save
  cases written : (floatProgram bits).contents with
  | error error =>
    rw [written] at short
    cases short
  | ok file =>
    rw [written] at short
    exact ⟨file.toValue.toBytes, rfl, of_decide_eq_true short⟩

theorem compiled_through_file_half :
    ∃ data loaded, (floatProgram 0x3f000000).save = .ok data ∧ Program.load data = .ok loaded ∧
      generate loaded =
        .ok { code := floatBytes 0x3f000000, literals := #[], entries := #[0] } := by
  obtain ⟨data, saved, short⟩ : ∃ data, (floatProgram 0x3f000000).save = .ok data ∧ _ :=
    save_floatProgram (by decide +kernel)
  obtain ⟨loaded, read, generated⟩ := compiled_through_file
    (built_floatProgram 0x3f000000).hasDeclaredTables (fun _ none => nomatch none)
    (settled_floatProgram 0x3f000000) saved short
    (generate_floatProgram 0x3f000000)
  exact ⟨data, loaded, saved, read, generated⟩

/-- A negative zero comes back positive, so its program is compiled to something else. -/
theorem negative_zero_lost :
    ¬∀ (program : Program) (data : Bytes) (assembly : Assembly), program.save = .ok data →
      generate program = .ok assembly →
        ∃ loaded, Program.load data = .ok loaded ∧ generate loaded = .ok assembly := by
  intro promised
  obtain ⟨data, saved, short⟩ : ∃ data, (floatProgram 0x80000000).save = .ok data ∧ _ :=
    save_floatProgram (by decide +kernel)
  have generated := generate_floatProgram 0x80000000
  obtain ⟨loaded, read, same⟩ := promised _ data _ saved generated
  have storable := isStorable_of_generate (built_floatProgram 0x80000000).hasDeclaredTables
    (fun _ none => nomatch none) generated
  obtain ⟨other, readToo, code⟩ := Program.load_save storable saved short
  cases read.symm.trans readToo
  have settled : (floatProgram 0x80000000).settled = floatProgram 0 :=
    settled_floatProgram 0x80000000
  rw [settled] at code
  rw [← generate_eq code, generate_floatProgram] at same
  exact absurd same (by decide)

end Lowering

end WordMachine
