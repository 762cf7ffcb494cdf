import WordMachine.Proofs.ProgramFiles

/-!
Programs that are saved and loaded again. The tables and statements come back as they were, and so
does the body of every declared function, up to float literals.
-/

namespace WordMachine

namespace Program

open MessagePack

/-! ## Tables -/

section

variable {α : Type} {id : α → UInt32}
variable {table entries : List α} {number : UInt32}

theorem id_of_lookup {entry : α} (found : lookup id table number = some entry) :
    id entry = number := by
  simpa using List.find?_some found

theorem lookup_put (table : List α) (entry : α) (number : UInt32) :
    lookup id (put id table entry) number =
      if id entry = number then some entry else lookup id table number := by
  unfold put lookup
  by_cases known : table.any (fun other => id other == id entry) = true
  · -- Replacing an entry keeps all numbers, so it is found where the old one was.
    have numbers : (fun other => id other == number) ∘
        (fun other => if (id other == id entry) = true then entry else other) =
          fun other => id other == number := by
      funext other
      by_cases same : id other = id entry <;> simp [same]
    rw [if_pos known, List.find?_map, numbers]
    cases found : table.find? fun other => id other == number with
    | none =>
      rw [List.find?_eq_none] at found
      obtain ⟨other, member, same⟩ := List.any_eq_true.1 known
      have different := found other member
      rw [eq_of_beq same] at different
      simp_all
    | some other =>
      have numbered : id other = number := id_of_lookup found
      by_cases same : id entry = number
      · simp [same, numbered]
      · simp [same, numbered, Ne.symm same]
  · rw [if_neg known, List.find?_append]
    by_cases same : id entry = number
    · rw [if_pos same]
      have absent : table.find? (fun other => id other == number) = none := by
        rw [List.find?_eq_none]
        intro other member equal
        exact known (List.any_eq_true.2 ⟨other, member, by rw [same]; exact equal⟩)
      simp [absent, same]
    · simp [same]

theorem lookup_foldl_put {found : α} (agree : ∀ entry ∈ entries, id entry = number → entry = found)
    (here : found ∈ entries ∧ id found = number ∨ lookup id table number = some found) :
    lookup id (entries.foldl (put id) table) number = some found := by
  induction entries generalizing table with
  | nil =>
    rcases here with ⟨member, _⟩ | known
    · cases member
    · exact known
  | cons entry entries ih =>
    refine ih
      (fun other member => agree other (List.mem_cons_of_mem _ member)) ?_
    by_cases same : id entry = number
    · refine Or.inr ?_
      rw [lookup_put, if_pos same, agree entry List.mem_cons_self same]
    · rw [lookup_put, if_neg same]
      rcases here with ⟨member, numbered⟩ | known
      · rcases List.mem_cons.1 member with rfl | member
        · exact absurd numbered same
        · exact Or.inl ⟨member, numbered⟩
      · exact Or.inr known

theorem lookup_foldl_put_of_absent (absent : ∀ entry ∈ entries, id entry ≠ number) :
    lookup id (entries.foldl (put id) table) number = lookup id table number := by
  induction entries generalizing table with
  | nil => rfl
  | cons entry entries ih =>
    rw [List.foldl_cons,
      ih fun other member => absent other (List.mem_cons_of_mem _ member),
      lookup_put, if_neg (absent entry List.mem_cons_self)]

theorem foldl_put_of_nodup (different : ((table ++ entries).map id).Nodup) :
    entries.foldl (put id) table = table ++ entries := by
  induction entries generalizing table with
  | nil => rw [List.foldl_nil, List.append_nil]
  | cons entry entries ih =>
    have fresh : put id table entry = table ++ [entry] := by
      unfold put
      rw [if_neg]
      intro known
      obtain ⟨other, member, same⟩ := List.any_eq_true.1 known
      rw [List.map_append, List.map_cons, List.nodup_append] at different
      exact different.2.2 (id other) (List.mem_map_of_mem member) (id entry)
        List.mem_cons_self (eq_of_beq same)
    rw [List.foldl_cons, fresh, ih (by simpa using different)]
    simp

end

theorem getD_someIfAny {α : Type} (items : List α) : (someIfAny items).getD [] = items := by
  cases items <;> rfl

theorem getD_map_someIfAny {α β : Type} (settle : α → β) (items : List α) :
    ((someIfAny items).map (List.map settle)).getD [] = items.map settle := by
  cases items <;> rfl

/-! ## Bodies and statements -/

structure StoredBody.IsDef (body : StoredBody) (definition : FuncDef) : Prop where
  id : body.id = definition.id
  slots : body.slots = definition.slots
  node : body.node.toExpr = .ok definition.body

structure StoredBody.IsStatement (body : StoredBody) (statement : Statement) : Prop where
  slots : body.slots = statement.slots
  node : body.node.toExpr = .ok statement.expr

end Program

/-- A function body as it comes back. -/
def FuncDef.settled (definition : FuncDef) : FuncDef :=
  { definition with body := definition.body.settled }

def Statement.settled (statement : Statement) : Statement :=
  { statement with expr := statement.expr.settled }

namespace Program

variable {program : Program} {bodies : List StoredBody}

def settled (program : Program) : Program :=
  { program with
    defs := program.defs.map FuncDef.settled
    statements := program.statements.map Statement.settled }

theorem def?_settled (program : Program) (id : FuncId) :
    program.settled.def? id = (program.def? id).map FuncDef.settled := by
  unfold def? lookup settled
  rw [List.find?_map]
  rfl

theorem foldlM_addDef {definitions : List FuncDef}
    (stored : List.Forall₂ StoredBody.IsDef bodies definitions) (program : Program) :
    bodies.foldlM addDef program =
      .ok { program with defs := definitions.foldl (put FuncDef.id) program.defs } := by
  induction stored generalizing program with
  | nil => rfl
  | @cons body definition bodies definitions first others ih =>
    have added : program.addDef body =
        .ok { program with defs := put FuncDef.id program.defs definition } := by
      rw [addDef, first.node, first.id, first.slots]
      rfl
    rw [List.foldlM_cons, added]
    exact ih _

theorem foldlM_addStored {statements : List Statement}
    (stored : List.Forall₂ StoredBody.IsStatement bodies statements) (first : Nat)
    (program : Program) :
    (bodies.zipIdx first).foldlM addStored program =
      .ok { program with statements := program.statements ++ statements.toArray } := by
  induction stored generalizing first program with
  | nil => simp [pure, Except.pure]
  | @cons body statement bodies statements head others ih =>
    have added : program.addStored (body, first) =
        .ok { program with statements := program.statements.push statement } := by
      rw [addStored, head.node, head.slots]
      rfl
    rw [List.zipIdx_cons, List.foldlM_cons, added]
    refine (ih _ _).trans ?_
    simp

theorem mapM_cons_eq_ok {ε α β : Type} {step : α → Except ε β} {item : α} {items : List α}
    {results : List β} (done : (item :: items).mapM step = .ok results) :
    ∃ result others, step item = .ok result ∧ items.mapM step = .ok others ∧
      results = result :: others := by
  rw [List.mapM_cons] at done
  cases first : step item with
  | error error =>
    rw [first] at done
    cases done
  | ok result =>
    cases rest : items.mapM step with
    | error error =>
      rw [first, rest] at done
      cases done
    | ok others =>
      rw [first, rest] at done
      cases done
      exact ⟨result, others, rfl, rfl, rfl⟩

theorem isDef_of_storeDef {funcs : List FuncDecl} {bodies : List (Option StoredBody)}
    (stored : funcs.mapM program.storeDef = .ok bodies)
    (whole : ∀ func ∈ funcs, ∀ definition, program.def? func.id = some definition →
      definition.body.isWhole = true) :
    List.Forall₂ StoredBody.IsDef ((bodies.filterMap fun body => body).map StoredBody.settled)
      (funcs.filterMap fun func => program.settled.def? func.id) := by
  induction funcs generalizing bodies with
  | nil =>
    cases stored
    exact .nil
  | cons func funcs ih =>
    obtain ⟨body, others, first, rest, rfl⟩ := mapM_cons_eq_ok stored
    have later := ih rest
      fun other member => whole other (List.mem_cons_of_mem _ member)
    unfold storeDef at first
    cases defined : program.def? func.id with
    | none =>
      rw [defined] at first
      cases first
      simpa only [List.filterMap_cons, def?_settled, defined, Option.map_none] using later
    | some definition =>
      obtain ⟨node, written, read⟩ :=
        Node.toExpr_ofExpr definition.body (whole func List.mem_cons_self definition defined)
      simp only [defined, written] at first
      cases first
      simp only [List.filterMap_cons, def?_settled, defined, Option.map_some] at later ⊢
      exact .cons ⟨rfl, rfl, read⟩ later

theorem isStatement_of_storeStatement {statements : List Statement} {first : Nat}
    (stored : (statements.zipIdx first).mapM storeStatement = .ok bodies)
    (whole : ∀ statement ∈ statements, statement.expr.isWhole = true) :
    (∀ body ∈ bodies, body.id = 0) ∧
      List.Forall₂ StoredBody.IsStatement (bodies.map StoredBody.settled)
        (statements.map Statement.settled) := by
  induction statements generalizing first bodies with
  | nil =>
    cases stored
    exact ⟨(fun _ none => nomatch none), .nil⟩
  | cons statement statements ih =>
    rw [List.zipIdx_cons] at stored
    obtain ⟨body, others, head, rest, rfl⟩ := mapM_cons_eq_ok stored
    obtain ⟨unnumbered, later⟩ := ih rest
      fun other member => whole other (List.mem_cons_of_mem _ member)
    obtain ⟨node, written, read⟩ :=
      Node.toExpr_ofExpr statement.expr (whole statement List.mem_cons_self)
    simp only [storeStatement, written] at head
    cases head
    refine ⟨fun other member => ?_, .cons ⟨rfl, read⟩ later⟩
    rcases List.mem_cons.1 member with rfl | member
    · rfl
    · exact unnumbered other member

/-! ## Saving and loading -/

/-- Whether the structs and unions of a program are those of its declared types, in their order. -/
structure HasDeclaredTables (program : Program) : Prop where
  structs : program.definitionsOf .struct StructDef.id program.structs = someIfAny program.structs
  structIds : (program.structs.map StructDef.id).Nodup
  unions : program.definitionsOf .union UnionDef.id program.unions = someIfAny program.unions
  unionIds : (program.unions.map UnionDef.id).Nodup

/-- A program that its file can hold: every stored expression is whole. -/
structure IsStorable (program : Program) : Prop where
  tables : program.HasDeclaredTables
  bodies : ∀ func ∈ program.funcs, ∀ definition, program.def? func.id = some definition →
    definition.body.isWhole = true
  statements : ∀ statement ∈ program.statements, statement.expr.isWhole = true

/-- Programs with the same code: they differ in the bodies of undeclared functions and in tables
that code does not depend on. -/
structure SameCode (program other : Program) : Prop where
  types : program.types = other.types
  structs : program.structs = other.structs
  unions : program.unions = other.unions
  funcs : program.funcs = other.funcs
  defs : ∀ func ∈ program.funcs, program.def? func.id = other.def? func.id
  statements : program.statements = other.statements

/-- The definitions of all declared functions, added one after the other, are found again. -/
theorem lookup_declared {func : FuncDecl} (declared : func ∈ program.funcs) :
    lookup FuncDef.id ((program.funcs.toList.filterMap fun func => program.def? func.id).foldl
      (put FuncDef.id) []) func.id = program.def? func.id := by
  have own : ∀ definition ∈ program.funcs.toList.filterMap fun func => program.def? func.id,
      program.def? definition.id = some definition := by
    intro definition member
    obtain ⟨other, _, found⟩ := List.mem_filterMap.1 member
    rw [id_of_lookup found]
    exact found
  cases defined : program.def? func.id with
  | none =>
    rw [lookup_foldl_put_of_absent]
    · rfl
    · intro definition member same
      have found := own definition member
      rw [same, defined] at found
      cases found
  | some definition =>
    refine lookup_foldl_put (fun other member same => ?_) (Or.inl ⟨?_, id_of_lookup defined⟩)
    · have found := own other member
      rw [same, defined] at found
      exact (Option.some.inj found).symm
    · exact List.mem_filterMap.2 ⟨func, Array.mem_toList_iff.2 declared, defined⟩

def reloaded (program : Program) : Program where
  types := program.types
  structs :=
    ((program.definitionsOf .struct StructDef.id program.structs).getD []).foldl
      (put StructDef.id) []
  unions :=
    ((program.definitionsOf .union UnionDef.id program.unions).getD []).foldl (put UnionDef.id) []
  enums :=
    ((program.definitionsOf .enumeration EnumDef.id program.enums).getD []).foldl
      (put EnumDef.id) []
  delegates :=
    ((program.definitionsOf .delegate DelegateDef.id program.delegates).getD []).foldl
      (put DelegateDef.id) []
  futures :=
    ((program.definitionsOf .future FutureDef.id program.futures).getD []).foldl
      (put FutureDef.id) []
  lazies :=
    ((program.definitionsOf .lazy LazyDef.id program.lazies).getD []).foldl (put LazyDef.id) []
  funcs := program.funcs
  defs := (program.funcs.toList.filterMap fun func => program.settled.def? func.id).foldl
    (put FuncDef.id) []
  statements := program.settled.statements

/-- Whether every expression that is stored for a program is whole. -/
structure HasWholeExprs (program : Program) : Prop where
  bodies : ∀ func ∈ program.funcs, ∀ definition, program.def? func.id = some definition →
    definition.body.isWhole = true
  statements : ∀ statement ∈ program.statements, statement.expr.isWhole = true

theorem ofContents_contents {file : Contents} (whole : program.HasWholeExprs)
    (written : program.contents = .ok file) :
    (∀ body ∈ file.statements.getD [], body.id = 0) ∧ file.magic = magic ∧
      file.schema = schemaVersion ∧ ofContents file.settled = .ok program.reloaded := by
  unfold contents at written
  cases storedDefs : program.funcs.toList.mapM program.storeDef with
  | error error =>
    rw [storedDefs] at written
    cases written
  | ok bodies =>
  cases storedStatements : program.statements.toList.zipIdx.mapM storeStatement with
  | error error =>
    rw [storedDefs, storedStatements] at written
    cases written
  | ok statements =>
  rw [storedDefs, storedStatements] at written
  cases written
  have defs := isDef_of_storeDef storedDefs fun func member definition defined =>
    whole.bodies func (Array.mem_toList_iff.1 member) definition defined
  obtain ⟨unnumbered, executed⟩ := isStatement_of_storeStatement storedStatements
    fun statement member => whole.statements statement (Array.mem_toList_iff.1 member)
  refine ⟨?_, rfl, rfl, ?_⟩
  · rw [getD_someIfAny]
    exact unnumbered
  · rw [ofContents_eq]
    simp only [Contents.settled, getD_map_someIfAny]
    rw [foldlM_addDef defs]
    refine (foldlM_addStored executed 0 _).trans ?_
    simp [Contents.tables, getD_someIfAny, settled, reloaded, ← Array.toList_map]

/-- A saved program is read back, if its lengths fit in the headers of its file. -/
theorem load_eq_reloaded {file : Contents} (whole : program.HasWholeExprs)
    (written : program.contents = .ok file) (short : file.toValue.isShort = true) :
    load file.toValue.toBytes = .ok program.reloaded := by
  obtain ⟨unnumbered, signed, version, built⟩ := ofContents_contents whole written
  have signedToo : file.settled.magic = magic := signed
  have versionToo : file.settled.schema = schemaVersion := version
  rw [load, Contents.read_toBytes unnumbered short]
  simp only [signedToo, versionToo, bne_self_eq_false, Bool.false_eq_true, if_false]
  exact built

theorem IsStorable.hasWholeExprs (storable : program.IsStorable) : program.HasWholeExprs :=
  ⟨storable.bodies, storable.statements⟩

theorem sameCode_reloaded (tables : program.HasDeclaredTables) :
    program.settled.SameCode program.reloaded := by
  refine ⟨rfl, ?_, ?_, rfl, fun func declared => (lookup_declared declared).symm, rfl⟩
  · have kept := @foldl_put_of_nodup _ StructDef.id [] program.structs tables.structIds
    simp [reloaded, tables.structs, getD_someIfAny, kept, settled]
  · have kept := @foldl_put_of_nodup _ UnionDef.id [] program.unions tables.unionIds
    simp [reloaded, tables.unions, getD_someIfAny, kept, settled]

theorem load_save {data : Bytes} (storable : program.IsStorable) (saved : program.save = .ok data)
    (short : data.size < 4294967296) :
    ∃ loaded, load data = .ok loaded ∧ program.settled.SameCode loaded := by
  unfold save at saved
  cases written : program.contents with
  | error error =>
    rw [written] at saved
    cases saved
  | ok file =>
    rw [written] at saved
    cases saved
    exact ⟨program.reloaded, load_eq_reloaded storable.hasWholeExprs written
      (MessagePack.Value.isShort_of_length _ short), sameCode_reloaded storable.tables⟩

/-! ## Programs made by declarations -/

/-- Whether a table holds what the declared types of a kind are made of, in their order. -/
structure Lists {α : Type} (types : Array TypeDecl) (kind : TypeKind) (id : α → UInt32)
    (table : List α) : Prop where
  entries : (types.toList.filterMap fun decl =>
    if decl.kind == kind.code then lookup id table decl.id else none) = table
  different : (table.map id).Nodup

section

variable {α : Type} {id : α → UInt32} {types : Array TypeDecl} {kind : TypeKind} {table : List α}
  {decl : TypeDecl}

theorem Lists.exists_declared (lists : Lists types kind id table) {entry : α}
    (member : entry ∈ table) : ∃ decl ∈ types, decl.id = id entry := by
  rw [← lists.entries] at member
  obtain ⟨decl, declared, found⟩ := List.mem_filterMap.1 member
  split at found
  · exact ⟨decl, Array.mem_toList_iff.1 declared, (id_of_lookup found).symm⟩
  · cases found

theorem code_injective : Function.Injective TypeKind.code := by
  intro kind other
  cases kind <;> cases other <;> decide

theorem Lists.push_other (lists : Lists types kind id table) {declared : TypeKind}
    (own : decl.kind = declared.code) (other : declared ≠ kind) :
    Lists (types.push decl) kind id table := by
  have different : decl.kind ≠ kind.code := fun same => other (code_injective (own ▸ same))
  refine ⟨?_, lists.different⟩
  rw [Array.toList_push, List.filterMap_append, lists.entries]
  simp [different]

theorem Lists.push (lists : Lists types kind id table) {entry : α} (own : decl.kind = kind.code)
    (same : id entry = decl.id) (fresh : ∀ other ∈ types, other.id ≠ decl.id) :
    Lists (types.push decl) kind id (put id table entry) := by
  have absent : ∀ other ∈ table, id other ≠ id entry := by
    intro other member equal
    obtain ⟨earlier, declared, known⟩ := lists.exists_declared member
    exact fresh earlier declared (by rw [known, equal, same])
  have added : put id table entry = table ++ [entry] := by
    unfold put
    rw [if_neg]
    intro known
    obtain ⟨other, member, equal⟩ := List.any_eq_true.1 known
    exact absent other member (eq_of_beq equal)
  have old : (types.toList.filterMap fun decl =>
      if decl.kind == kind.code then lookup id (put id table entry) decl.id else none) = table := by
    conv_rhs => rw [← lists.entries]
    refine List.filterMap_congr fun other member => ?_
    have new : id entry ≠ other.id := fun equal =>
      fresh other (Array.mem_toList_iff.1 member) (equal.symm.trans same)
    rw [lookup_put, if_neg new]
  refine ⟨?_, ?_⟩
  · have found : lookup id (put id table entry) decl.id = some entry := by
      rw [lookup_put, if_pos same]
    rw [Array.toList_push, List.filterMap_append, old, added]
    rw [added] at found
    simp [own, found]
  · rw [added, List.map_append, List.nodup_append]
    refine ⟨lists.different, List.nodup_singleton _, ?_⟩
    rintro number listed _ rest rfl
    obtain ⟨other, member, known⟩ := List.mem_map.1 listed
    exact absent other member (by rw [known]; exact List.mem_singleton.1 rest)

end

/-- Programs made by declarations of at most as many types as there are numbers. -/
inductive Built : Program → Prop
  | empty : Built Program.empty
  | declare {program : Program} (built : Built program) (room : program.types.size < 4294967296)
      (name : Bytes) (body : TypeBody) : Built (program.declare name body)
  | declareFunc {program : Program} (built : Built program) (name : Bytes) (kind : UInt8)
      (input : Option (List TypeId)) (output : TypeId) :
      Built (program.declareFunc name kind input output)
  | defineFunc {program : Program} (built : Built program) (id : FuncId) (slots : SlotTable)
      (body : Expr) : Built (program.defineFunc id slots body)
  | addStatement {program : Program} (built : Built program) (slots : SlotTable) (expr : Expr) :
      Built (program.addStatement slots expr)

/-- Whether types are numbered by their positions, and structs and unions are declared. -/
structure IsNumbered (program : Program) : Prop where
  numbers : ∀ position decl, program.types[position]? = some decl →
    decl.id = UInt32.ofNat position
  structs : Lists program.types .struct StructDef.id program.structs
  unions : Lists program.types .union UnionDef.id program.unions

theorem IsNumbered.push (numbered : program.IsNumbered) (kind : TypeKind) (name : Bytes) :
    ∀ position decl, (program.declareType kind name).2.types[position]? = some decl →
      decl.id = UInt32.ofNat position := by
  intro position decl found
  simp only [Program.declareType, Array.getElem?_push] at found
  split at found
  · next last =>
    cases found
    rw [last]
  · exact numbered.numbers position decl found

theorem IsNumbered.declareType (numbered : program.IsNumbered) {kind : TypeKind} (name : Bytes)
    (noStruct : kind ≠ .struct) (noUnion : kind ≠ .union) :
    (program.declareType kind name).2.IsNumbered :=
  ⟨numbered.push kind name, numbered.structs.push_other rfl noStruct,
    numbered.unions.push_other rfl noUnion⟩

theorem IsNumbered.fresh (numbered : program.IsNumbered) (room : program.types.size < 4294967296)
    {other : TypeDecl} (declared : other ∈ program.types) :
    other.id ≠ UInt32.ofNat program.types.size := by
  obtain ⟨position, inside, found⟩ := Array.mem_iff_getElem.1 declared
  have number := numbered.numbers position other (by rw [Array.getElem?_eq_getElem inside, found])
  intro same
  rw [number] at same
  have equal := congrArg UInt32.toNat same
  simp only [UInt32.toNat_ofNat'] at equal
  omega

theorem Built.isNumbered (built : Built program) : program.IsNumbered := by
  induction built with
  | empty =>
    have start : ({} : Program).IsNumbered :=
      ⟨(fun _ _ none => nomatch none), ⟨rfl, List.nodup_nil⟩, ⟨rfl, List.nodup_nil⟩⟩
    have folded : ∀ kinds : List TypeKind, TypeKind.struct ∉ kinds → TypeKind.union ∉ kinds →
        ∀ program : Program, program.IsNumbered →
          (kinds.foldl (fun program kind => (program.declareType kind kind.name).2)
            program).IsNumbered := by
      intro kinds noStruct noUnion
      induction kinds with
      | nil => exact fun _ numbered => numbered
      | cons kind kinds ih =>
        rw [List.mem_cons, not_or] at noStruct noUnion
        exact fun program numbered => ih noStruct.2 noUnion.2 _
          (numbered.declareType kind.name (Ne.symm noStruct.1) (Ne.symm noUnion.1))
    exact folded TypeKind.builtin (by decide) (by decide) {} start
  | @declare program built room name body numbered =>
    have fresh := fun other => @IsNumbered.fresh program numbered room other
    have other := fun (kind : TypeKind) => @IsNumbered.declareType program numbered kind name
    cases body with
    | struct fields =>
      have noUnion : TypeKind.struct ≠ .union := by decide
      exact ⟨numbered.push .struct name, numbered.structs.push rfl rfl fresh,
        numbered.unions.push_other rfl noUnion⟩
    | union members =>
      have noStruct : TypeKind.union ≠ .struct := by decide
      exact ⟨numbered.push .union name, numbered.structs.push_other rfl noStruct,
        numbered.unions.push rfl rfl fresh⟩
    | enumeration entries =>
      have declared := other .enumeration (by decide) (by decide)
      exact ⟨declared.numbers, declared.structs, declared.unions⟩
    | delegate input output =>
      have declared := other .delegate (by decide) (by decide)
      exact ⟨declared.numbers, declared.structs, declared.unions⟩
    | future result =>
      have declared := other .future (by decide) (by decide)
      exact ⟨declared.numbers, declared.structs, declared.unions⟩
    | lazy result =>
      have declared := other .lazy (by decide) (by decide)
      exact ⟨declared.numbers, declared.structs, declared.unions⟩
  | declareFunc _ _ _ _ _ numbered => exact ⟨numbered.numbers, numbered.structs, numbered.unions⟩
  | defineFunc _ _ _ _ numbered => exact ⟨numbered.numbers, numbered.structs, numbered.unions⟩
  | addStatement _ _ _ numbered => exact ⟨numbered.numbers, numbered.structs, numbered.unions⟩

theorem Built.hasDeclaredTables (built : Built program) : program.HasDeclaredTables := by
  have numbered := built.isNumbered
  refine ⟨?_, numbered.structs.different, ?_, numbered.unions.different⟩
  · rw [definitionsOf, numbered.structs.entries]
  · rw [definitionsOf, numbered.unions.entries]

end Program

end WordMachine
