import WordMachine.Proofs.SavedPrograms

/-!
Programs restored from their files. Every program made by declarations can be saved, as long as its
expressions are whole and its lengths fit in a file, and what is loaded has the same tables, bodies
and statements. Only float literals may change, and what is loaded from any file is whole.
-/

namespace WordMachine

namespace MessagePack

/-! ## Short values -/

theorem areShort_iff {items : List Value} :
    Value.areShort items = true ↔ ∀ item ∈ items, item.isShort = true := by
  induction items with
  | nil => simp [Value.areShort]
  | cons item items ih => simp [Value.areShort, ih]

theorem isShort_record (fields : List (String × Value)) :
    (record fields).isShort = (decide (fields.length < 4294967296) && fields.all fun field =>
      decide (field.1.toUTF8.size < 4294967296) && field.2.isShort) := by
  rw [record, Value.isShort, List.length_map]
  refine congrArg (decide (fields.length < 4294967296) && ·) ?_
  induction fields with
  | nil => rw [List.map_nil, Value.haveShort, List.all_nil]
  | cons field fields ih =>
    rw [List.map_cons, Value.haveShort, Value.isShort, ih, List.all_cons,
      Bool.and_assoc]

theorem isShort_list {α : Type} {write : α → Value} {items : Option (List α)}
    (few : (items.getD []).length < 4294967296)
    (each : ∀ item ∈ items.getD [], (write item).isShort = true) :
    (list write items).isShort = true := by
  cases items with
  | none => rw [list, Value.isShort] <;> simp
  | some items =>
    have all : Value.areShort (items.map write) = true := by
      rw [areShort_iff]
      intro item member
      obtain ⟨source, listed, rfl⟩ := List.mem_map.1 member
      exact each source listed
    rw [list, Value.isShort, all, List.length_map, decide_eq_true (show items.length < _ from few)]
    rfl

end MessagePack

/-! ## Short expressions -/

mutual

/-- Whether every list and text in an expression fits in a file. -/
def Expr.isShort : Expr → Bool
  | .assign _ value => value.isShort
  | .choose conditions branches =>
    (conditions.length < 4294967296 && areShort conditions) &&
      (branches.length < 4294967296 && areShort branches)
  | .call _ arguments _ _ => arguments.length < 4294967296 && areShort arguments
  | .callDynamic target arguments _ _ =>
    target.isShort && (arguments.length < 4294967296 && areShort arguments)
  | .callSelf arguments _ => arguments.length < 4294967296 && areShort arguments
  | .closure _ bound _ => bound.length < 4294967296 && areShort bound
  | .field operand _ _ => operand.isShort
  | .group items => items.length < 4294967296 && areShort items
  | .unionCheck operand _ => operand.isShort
  | .unionGet operand _ _ => operand.isShort
  | .string value => value.size < 4294967296
  | _ => true

def Expr.areShort : List Expr → Bool
  | [] => true
  | item :: items => item.isShort && areShort items

end

namespace Program

open MessagePack

variable {program : Program} {α : Type} {kind : TypeKind}

mutual

/-- Whether every list and text in a node fits in a file. -/
def Node.isShort : Node → Bool
  | { form := _, type := _, func := _, slot := _, number := _, float := _, text, kids,
      alternatives } =>
    text.size < 4294967296 && (kids.length < 4294967296 && areShort kids) &&
      (alternatives.length < 4294967296 && areShort alternatives)

def Node.areShort : List Node → Bool
  | [] => true
  | node :: nodes => node.isShort && areShort nodes

end

theorem length_partIf_le (present : Bool) (name : String) (value : Value) :
    (partIf present name value).length ≤ 1 := by
  cases present <;> simp [partIf]

theorem name_of_mem_fields {node : Node} {field : String × Value} (member : field ∈ node.fields) :
    field.1 ∈ ["k", "t", "f", "c", "i", "x", "s", "a", "b"] := by
  simp only [Node.fields, List.mem_append, List.mem_singleton, or_assoc] at member
  rcases member with rfl | member | member | member | member | member | member | member | member
  · exact List.mem_cons_self
  all_goals
    rw [eq_of_mem_partIf member]
    simp only [List.mem_cons, true_or, or_true]

theorem length_fields_le (node : Node) : node.fields.length ≤ 9 := by
  have part := length_partIf_le
  have type := part (node.type != 0) "t" (.u32 node.type)
  have func := part (node.func != 0) "f" (.u32 node.func)
  have slot := part (node.slot != 0) "c" (.u32 node.slot)
  have number := part (node.number != 0) "i" (.i64 node.number)
  have float := part (!isZeroSingle node.float) "x" (.f32 (quietSingle node.float))
  have text := part (!node.text.isEmpty) "s" (.str node.text)
  have kids := part (!node.kids.isEmpty) "a" (.array (Node.toValues node.kids))
  have alternatives := part (!node.alternatives.isEmpty) "b"
    (.array (Node.toValues node.alternatives))
  simp only [Node.fields, List.length_append, List.length_singleton]
  omega

mutual

theorem Node.isShort_toValue : (node : Node) → node.isShort = true → node.toValue.isShort = true
  | { form, type, func, slot, number, float, text, kids, alternatives }, short => by
    simp only [Node.isShort, Bool.and_eq_true, decide_eq_true_eq] at short
    obtain ⟨⟨textShort, fewKids, kidsShort⟩, fewAlternatives, alternativesShort⟩ := short
    have array : ∀ nodes : List Node, nodes.length < 4294967296 →
        Value.areShort (Node.toValues nodes) = true →
          (Value.array (Node.toValues nodes)).isShort = true := by
      intro nodes few all
      rw [Value.isShort, all, toValues_eq_map, List.length_map, decide_eq_true few]
      rfl
    have kidsValue := array kids fewKids (Node.areShort_toValues kids kidsShort)
    have alternativesValue :=
      array alternatives fewAlternatives (Node.areShort_toValues alternatives alternativesShort)
    have textValue : (Value.str text).isShort = true := decide_eq_true textShort
    rw [Node.toValue_eq]
    rw [isShort_record, Bool.and_eq_true, decide_eq_true_eq, List.all_eq_true]
    refine ⟨Nat.lt_of_le_of_lt (length_fields_le _) (by decide), fun field member => ?_⟩
    rw [Bool.and_eq_true, decide_eq_true_eq]
    constructor
    · have names : ∀ name ∈ ["k", "t", "f", "c", "i", "x", "s", "a", "b"],
          name.toUTF8.size < 4294967296 := by decide
      exact names _ (name_of_mem_fields member)
    · simp only [Node.fields, List.mem_append, List.mem_singleton, or_assoc] at member
      rcases member with rfl | member | member | member | member | member | member | member |
        member
      · rfl
      all_goals
        rw [eq_of_mem_partIf member]
        first | rfl | assumption

theorem Node.areShort_toValues :
    (nodes : List Node) → Node.areShort nodes = true →
      Value.areShort (Node.toValues nodes) = true
  | [], _ => by rw [Node.toValues, Value.areShort]
  | node :: nodes, short => by
    rw [Node.areShort, Bool.and_eq_true] at short
    rw [Node.toValues, Value.areShort, Node.isShort_toValue node short.1,
      Node.areShort_toValues nodes short.2]
    rfl

end

theorem bind_eq_ok {ε β : Type} {first : Except ε α} {next : α → Except ε β} {result : β} :
    (first >>= next) = .ok result ↔ ∃ value, first = .ok value ∧ next value = .ok result := by
  cases first with
  | error error => exact ⟨nofun, nofun⟩
  | ok value =>
    constructor
    · intro done
      exact ⟨value, rfl, done⟩
    · rintro ⟨_, ⟨rfl⟩, done⟩
      exact done

mutual

theorem Node.isShort_ofExpr :
    (expr : Expr) → {node : Node} → Node.ofExpr expr = .ok node → expr.isShort = true →
      node.isShort = true
  | .assign slot value, node, written, short => by
    rw [Node.ofExpr, bind_eq_ok] at written
    obtain ⟨kid, stored, ⟨rfl⟩⟩ := written
    rw [Expr.isShort] at short
    have kidShort := Node.isShort_ofExpr value stored short
    simp [Node.isShort, Node.areShort, kidShort]
  | .choose conditions branches, node, written, short => by
    simp only [Node.ofExpr, bind_eq_ok] at written
    obtain ⟨kids, stored, alternatives, storedToo, ⟨rfl⟩⟩ := written
    simp only [Expr.isShort, Bool.and_eq_true, decide_eq_true_eq] at short
    have kidsShort := Node.areShort_ofExprs conditions stored short.1.2
    have alternativesShort := Node.areShort_ofExprs branches storedToo short.2.2
    simp [Node.isShort, kidsShort, alternativesShort, short]
  | .call func arguments mode result, node, written, short => by
    simp only [Node.ofExpr, bind_eq_ok] at written
    obtain ⟨kids, stored, ⟨rfl⟩⟩ := written
    simp only [Expr.isShort, Bool.and_eq_true, decide_eq_true_eq] at short
    have kidsShort := Node.areShort_ofExprs arguments stored short.2
    simp [Node.isShort, Node.areShort, kidsShort, short]
  | .callDynamic target arguments fork result, node, written, short => by
    simp only [Node.ofExpr, bind_eq_ok] at written
    obtain ⟨kid, stored, alternatives, storedToo, ⟨rfl⟩⟩ := written
    simp only [Expr.isShort, Bool.and_eq_true, decide_eq_true_eq] at short
    have kidShort := Node.isShort_ofExpr target stored short.1
    have alternativesShort := Node.areShort_ofExprs arguments storedToo short.2.2
    simp [Node.isShort, Node.areShort, kidShort, alternativesShort, short]
  | .callSelf arguments result, node, written, short => by
    simp only [Node.ofExpr, bind_eq_ok] at written
    obtain ⟨kids, stored, ⟨rfl⟩⟩ := written
    simp only [Expr.isShort, Bool.and_eq_true, decide_eq_true_eq] at short
    have kidsShort := Node.areShort_ofExprs arguments stored short.2
    simp [Node.isShort, Node.areShort, kidsShort, short]
  | .closure func bound delegate, node, written, short => by
    simp only [Node.ofExpr, bind_eq_ok] at written
    obtain ⟨kids, stored, ⟨rfl⟩⟩ := written
    simp only [Expr.isShort, Bool.and_eq_true, decide_eq_true_eq] at short
    have kidsShort := Node.areShort_ofExprs bound stored short.2
    simp [Node.isShort, Node.areShort, kidsShort, short]
  | .field operand position type, node, written, short => by
    rw [Node.ofExpr, bind_eq_ok] at written
    obtain ⟨kid, stored, ⟨rfl⟩⟩ := written
    rw [Expr.isShort] at short
    have kidShort := Node.isShort_ofExpr operand stored short
    simp [Node.isShort, Node.areShort, kidShort]
  | .group items, node, written, short => by
    simp only [Node.ofExpr, bind_eq_ok] at written
    obtain ⟨kids, stored, ⟨rfl⟩⟩ := written
    simp only [Expr.isShort, Bool.and_eq_true, decide_eq_true_eq] at short
    have kidsShort := Node.areShort_ofExprs items stored short.2
    simp [Node.isShort, Node.areShort, kidsShort, short]
  | .unionCheck operand target, node, written, short => by
    rw [Node.ofExpr, bind_eq_ok] at written
    obtain ⟨kid, stored, ⟨rfl⟩⟩ := written
    rw [Expr.isShort] at short
    have kidShort := Node.isShort_ofExpr operand stored short
    simp [Node.isShort, Node.areShort, kidShort]
  | .unionGet operand target slot, node, written, short => by
    rw [Node.ofExpr, bind_eq_ok] at written
    obtain ⟨kid, stored, ⟨rfl⟩⟩ := written
    rw [Expr.isShort] at short
    have kidShort := Node.isShort_ofExpr operand stored short
    simp [Node.isShort, Node.areShort, kidShort]
  | .string value, node, written, short => by
    cases written
    rw [Expr.isShort] at short
    simp [Node.isShort, Node.areShort, of_decide_eq_true short]
  | .missing, node, written, _ => by
    rw [Node.ofExpr] at written
    cases written
  | .slot _ _, node, written, _ | .fail _, node, written, _ | .bool _, node, written, _
  | .float _, node, written, _ | .int _, node, written, _ | .long _, node, written, _
  | .char _, node, written, _ | .function _ _, node, written, _
  | .enumeration _ _, node, written, _ => by
    rw [Node.ofExpr] at written
    cases written
    simp [Node.isShort, Node.areShort]

theorem Node.areShort_ofExprs :
    (items : List Expr) → {nodes : List Node} →
      Node.ofExprs items = .ok nodes → Expr.areShort items = true →
      nodes.length = items.length ∧ Node.areShort nodes = true
  | [], nodes, written, _ => by
    rw [Node.ofExprs] at written
    cases written
    exact ⟨rfl, by rw [Node.areShort]⟩
  | item :: items, nodes, written, short => by
    simp only [Node.ofExprs, bind_eq_ok] at written
    obtain ⟨first, stored, others, storedToo, ⟨rfl⟩⟩ := written
    rw [Expr.areShort, Bool.and_eq_true] at short
    have firstShort := Node.isShort_ofExpr item stored short.1
    obtain ⟨length, othersShort⟩ := Node.areShort_ofExprs items storedToo short.2
    rw [List.length_cons, List.length_cons, length, Node.areShort, firstShort, othersShort]
    exact ⟨rfl, rfl⟩

end

/-! ## Short programs -/

/-- Whether the constants of a function fit in a file. -/
def AreShortSlots (slots : SlotTable) : Prop :=
  slots.length < 4294967296 ∧ ∀ slot ∈ slots, slot.name.size < 4294967296

instance (slots : SlotTable) : Decidable (AreShortSlots slots) :=
  inferInstanceAs (Decidable (_ ∧ _))

/-- Whether every list and text of a program fits in a file. -/
structure IsShort (program : Program) : Prop where
  typeCount : program.types.size < 4294967296
  types : ∀ decl ∈ program.types, decl.name.size < 4294967296
  structs : ∀ struct ∈ program.structs, (struct.fields.getD []).length < 4294967296 ∧
    ∀ field ∈ struct.fields.getD [], field.name.size < 4294967296
  unions : ∀ union ∈ program.unions, (union.members.getD []).length < 4294967296
  enums : ∀ enumeration ∈ program.enums, (enumeration.entries.getD []).length < 4294967296 ∧
    ∀ entry ∈ enumeration.entries.getD [], entry.name.size < 4294967296
  delegates : ∀ delegate ∈ program.delegates, (delegate.input.getD []).length < 4294967296
  funcCount : program.funcs.size < 4294967296
  funcs : ∀ func ∈ program.funcs, func.name.size < 4294967296 ∧
    (func.input.getD []).length < 4294967296
  defs : ∀ definition ∈ program.defs, AreShortSlots definition.slots ∧
    definition.body.isShort = true
  statementCount : program.statements.size < 4294967296
  statements : ∀ statement ∈ program.statements, AreShortSlots statement.slots ∧
    statement.expr.isShort = true

/-! ## Tables of declared types -/

/-- A type of another kind adds nothing, whatever its number and name. -/
theorem Lists.aside {id : α → UInt32} {types : Array TypeDecl} {table : List α}
    (lists : Lists types kind id table) (declared : TypeKind) {number : TypeId} {name : Bytes}
    (different : declared ≠ kind) :
    Lists (types.push { id := number, kind := declared.code, name }) kind id table :=
  lists.push_other rfl different

/-- Whether every table holds what the declared types of its kind are made of. -/
structure IsListed (program : Program) : Prop where
  structs : Lists program.types .struct StructDef.id program.structs
  unions : Lists program.types .union UnionDef.id program.unions
  enums : Lists program.types .enumeration EnumDef.id program.enums
  delegates : Lists program.types .delegate DelegateDef.id program.delegates
  futures : Lists program.types .future FutureDef.id program.futures
  lazies : Lists program.types .lazy LazyDef.id program.lazies

/-- A built-in type adds nothing to the tables. -/
theorem IsListed.declareType (listed : program.IsListed) (builtin : kind ∈ TypeKind.builtin)
    (name : Bytes) : (program.declareType kind name).2.IsListed := by
  have apart : ∀ other, other ∉ TypeKind.builtin → kind ≠ other := by
    rintro other absent rfl
    exact absent builtin
  exact ⟨listed.structs.aside kind (apart _ (by decide)),
    listed.unions.aside kind (apart _ (by decide)), listed.enums.aside kind (apart _ (by decide)),
    listed.delegates.aside kind (apart _ (by decide)),
    listed.futures.aside kind (apart _ (by decide)), listed.lazies.aside kind (apart _ (by decide))⟩

theorem isListed_empty : Program.empty.IsListed := by
  have start : ({} : Program).IsListed := by
    constructor <;> exact ⟨rfl, List.nodup_nil⟩
  have folded : ∀ kinds : List TypeKind, kinds ⊆ TypeKind.builtin → ∀ program : Program,
      program.IsListed → (kinds.foldl (fun program kind => (program.declareType kind kind.name).2)
        program).IsListed := by
    intro kinds
    induction kinds with
    | nil => exact fun _ _ listed => listed
    | cons kind kinds ih =>
      intro known program listed
      obtain ⟨first, rest⟩ := List.cons_subset.1 known
      exact ih rest _ (listed.declareType first kind.name)
  exact folded TypeKind.builtin (List.Subset.refl _) {} start

/-- A declaration adds an entry to the table of its kind and leaves the others alone. -/
theorem IsListed.declare (listed : program.IsListed)
    (fresh : ∀ other ∈ program.types, other.id ≠ UInt32.ofNat program.types.size) (name : Bytes)
    (body : TypeBody) : (program.declare name body).IsListed := by
  cases body with
  | struct fields =>
    exact ⟨listed.structs.push rfl rfl fresh, listed.unions.aside .struct nofun,
      listed.enums.aside .struct nofun, listed.delegates.aside .struct nofun,
      listed.futures.aside .struct nofun, listed.lazies.aside .struct nofun⟩
  | union members =>
    exact ⟨listed.structs.aside .union nofun, listed.unions.push rfl rfl fresh,
      listed.enums.aside .union nofun, listed.delegates.aside .union nofun,
      listed.futures.aside .union nofun, listed.lazies.aside .union nofun⟩
  | enumeration entries =>
    exact ⟨listed.structs.aside .enumeration nofun, listed.unions.aside .enumeration nofun,
      listed.enums.push rfl rfl fresh, listed.delegates.aside .enumeration nofun,
      listed.futures.aside .enumeration nofun, listed.lazies.aside .enumeration nofun⟩
  | delegate input output =>
    exact ⟨listed.structs.aside .delegate nofun, listed.unions.aside .delegate nofun,
      listed.enums.aside .delegate nofun, listed.delegates.push rfl rfl fresh,
      listed.futures.aside .delegate nofun, listed.lazies.aside .delegate nofun⟩
  | future result =>
    exact ⟨listed.structs.aside .future nofun, listed.unions.aside .future nofun,
      listed.enums.aside .future nofun, listed.delegates.aside .future nofun,
      listed.futures.push rfl rfl fresh, listed.lazies.aside .future nofun⟩
  | lazy result =>
    exact ⟨listed.structs.aside .lazy nofun, listed.unions.aside .lazy nofun,
      listed.enums.aside .lazy nofun, listed.delegates.aside .lazy nofun,
      listed.futures.aside .lazy nofun, listed.lazies.push rfl rfl fresh⟩

theorem Built.isListed (built : Built program) : program.IsListed := by
  induction built with
  | empty => exact isListed_empty
  | declare built room name body listed =>
    exact listed.declare (fun other => built.isNumbered.fresh room) name body
  | declareFunc _ _ _ _ _ listed =>
    exact ⟨listed.structs, listed.unions, listed.enums, listed.delegates, listed.futures,
      listed.lazies⟩
  | defineFunc _ _ _ _ listed =>
    exact ⟨listed.structs, listed.unions, listed.enums, listed.delegates, listed.futures,
      listed.lazies⟩
  | addStatement _ _ _ listed =>
    exact ⟨listed.structs, listed.unions, listed.enums, listed.delegates, listed.futures,
      listed.lazies⟩

theorem Lists.restored {id : α → UInt32} {table : List α}
    (lists : Lists program.types kind id table) :
    (program.definitionsOf kind id table).getD [] = table ∧
      ((program.definitionsOf kind id table).getD []).foldl (put id) [] = table := by
  have written : (program.definitionsOf kind id table).getD [] = table := by
    rw [definitionsOf, getD_someIfAny, lists.entries]
  have kept := @foldl_put_of_nodup α id [] table lists.different
  exact ⟨written, by rw [written, kept, List.nil_append]⟩

theorem Lists.length_le {id : α → UInt32} {types : Array TypeDecl} {table : List α}
    (lists : Lists types kind id table) : table.length ≤ types.size := by
  rw [← lists.entries, ← Array.length_toList]
  exact List.length_filterMap_le _ _

/-! ## Saving -/

theorem exists_mapM {ε β : Type} {step : α → Except ε β} {holds : β → Prop} {items : List α}
    (each : ∀ item ∈ items, ∃ result, step item = .ok result ∧ holds result) :
    ∃ results, items.mapM step = .ok results ∧ results.length = items.length ∧
      ∀ result ∈ results, holds result := by
  induction items with
  | nil => exact ⟨[], rfl, rfl, nofun⟩
  | cons item items ih =>
    obtain ⟨result, first, held⟩ := each item List.mem_cons_self
    obtain ⟨results, rest, length, all⟩ := ih
      fun other member => each other (List.mem_cons_of_mem _ member)
    refine ⟨result :: results, ?_, congrArg (· + 1) length, List.forall_mem_cons.2 ⟨held, all⟩⟩
    rw [List.mapM_cons, first, rest]
    rfl

/-- Whether a stored body fits in a file. -/
def StoredBody.IsShort (body : StoredBody) : Prop :=
  AreShortSlots body.slots ∧ body.node.isShort = true

theorem exists_storeDef {func : FuncDecl}
    (whole : ∀ definition, program.def? func.id = some definition → definition.body.isWhole = true)
    (short : ∀ definition ∈ program.defs, AreShortSlots definition.slots ∧
      definition.body.isShort = true) :
    ∃ stored, program.storeDef func = .ok stored ∧ ∀ body ∈ stored, body.IsShort := by
  unfold storeDef
  cases defined : program.def? func.id with
  | none => exact ⟨none, rfl, nofun⟩
  | some definition =>
    obtain ⟨node, written, _⟩ := Node.toExpr_ofExpr definition.body (whole definition defined)
    obtain ⟨slots, body⟩ := short definition (List.mem_of_find?_eq_some defined)
    simp only [written]
    refine ⟨_, rfl, ?_⟩
    rintro _ ⟨rfl⟩
    exact ⟨slots, Node.isShort_ofExpr definition.body written body⟩

theorem exists_storeStatement {statement : Statement} (number : Nat)
    (whole : statement.expr.isWhole = true) (slots : AreShortSlots statement.slots)
    (short : statement.expr.isShort = true) :
    ∃ stored, storeStatement (statement, number) = .ok stored ∧ stored.IsShort := by
  obtain ⟨node, written, _⟩ := Node.toExpr_ofExpr statement.expr whole
  unfold storeStatement
  simp only [written]
  exact ⟨_, rfl, slots, Node.isShort_ofExpr statement.expr written short⟩

/-- Whether the lists and texts of a file fit in it. -/
structure Contents.IsShort (file : Contents) : Prop where
  magic : file.magic.size < 4294967296
  types : (file.types.getD []).length < 4294967296 ∧
    ∀ decl ∈ file.types.getD [], decl.name.size < 4294967296
  structs : (file.structs.getD []).length < 4294967296 ∧ ∀ struct ∈ file.structs.getD [],
    (struct.fields.getD []).length < 4294967296 ∧
      ∀ field ∈ struct.fields.getD [], field.name.size < 4294967296
  unions : (file.unions.getD []).length < 4294967296 ∧ ∀ union ∈ file.unions.getD [],
    (union.members.getD []).length < 4294967296
  enums : (file.enums.getD []).length < 4294967296 ∧ ∀ enumeration ∈ file.enums.getD [],
    (enumeration.entries.getD []).length < 4294967296 ∧
      ∀ entry ∈ enumeration.entries.getD [], entry.name.size < 4294967296
  delegates : (file.delegates.getD []).length < 4294967296 ∧ ∀ delegate ∈ file.delegates.getD [],
    (delegate.input.getD []).length < 4294967296
  futures : (file.futures.getD []).length < 4294967296
  lazies : (file.lazies.getD []).length < 4294967296
  funcs : (file.funcs.getD []).length < 4294967296 ∧ ∀ func ∈ file.funcs.getD [],
    func.name.size < 4294967296 ∧ (func.input.getD []).length < 4294967296
  defs : (file.defs.getD []).length < 4294967296 ∧ ∀ body ∈ file.defs.getD [], body.IsShort
  statements : (file.statements.getD []).length < 4294967296 ∧
    ∀ body ∈ file.statements.getD [], body.IsShort

theorem isShort_slots {slots : SlotTable} (short : AreShortSlots slots) :
    (SlotTable.toValue slots).isShort = true := by
  have present : (if slots.isEmpty then none else some slots).getD [] = slots := by
    cases slots <;> rfl
  have each : ∀ slot ∈ slots, (SlotDecl.toValue slot).isShort = true := by
    intro slot member
    simp +decide [SlotDecl.toValue, isShort_record, Value.isShort, short.2 slot member]
  have list : (listIfAny SlotDecl.toValue slots).isShort = true :=
    isShort_list (by rw [present]; exact short.1) (by rw [present]; exact each)
  simp +decide [SlotTable.toValue, isShort_record, list]

theorem StoredBody.isShort_values {body : StoredBody} (short : body.IsShort) :
    body.defValue.isShort = true ∧ body.statementValue.isShort = true := by
  have slots := isShort_slots short.1
  have node := Node.isShort_toValue body.node short.2
  constructor
  · simp +decide [StoredBody.defValue, isShort_record, Value.isShort, slots, node]
  · simp +decide [StoredBody.statementValue, isShort_record, slots, node]

theorem isShort_numbers {numbers : Option (List UInt32)}
    (few : (numbers.getD []).length < 4294967296) :
    (list Value.u32 numbers).isShort = true :=
  isShort_list few fun _ _ => by simp [Value.isShort]

theorem Contents.isShort_toValue {file : Contents} (short : file.IsShort) :
    file.toValue.isShort = true := by
  have types : (list TypeDecl.toValue file.types).isShort = true :=
    isShort_list short.types.1 fun decl member => by
      simp +decide [TypeDecl.toValue, isShort_record, Value.isShort, short.types.2 decl member]
  have structs : (list StructDef.toValue file.structs).isShort = true :=
    isShort_list short.structs.1 fun struct member => by
      have fields : (list FieldDecl.toValue struct.fields).isShort = true :=
        isShort_list (short.structs.2 struct member).1 fun field inside => by
          simp +decide [FieldDecl.toValue, isShort_record, Value.isShort,
            (short.structs.2 struct member).2 field inside]
      simp +decide [StructDef.toValue, isShort_record, Value.isShort, fields]
  have unions : (list UnionDef.toValue file.unions).isShort = true :=
    isShort_list short.unions.1 fun union member => by
      simp +decide [UnionDef.toValue, isShort_record, Value.isShort,
        isShort_numbers (short.unions.2 union member)]
  have enums : (list EnumDef.toValue file.enums).isShort = true :=
    isShort_list short.enums.1 fun enumeration member => by
      have entries : (list EnumEntry.toValue enumeration.entries).isShort = true :=
        isShort_list (short.enums.2 enumeration member).1 fun entry inside => by
          simp +decide [EnumEntry.toValue, isShort_record, Value.isShort,
            (short.enums.2 enumeration member).2 entry inside]
      simp +decide [EnumDef.toValue, isShort_record, Value.isShort, entries]
  have delegates : (list DelegateDef.toValue file.delegates).isShort = true :=
    isShort_list short.delegates.1 fun delegate member => by
      simp +decide [DelegateDef.toValue, isShort_record, Value.isShort,
        isShort_numbers (short.delegates.2 delegate member)]
  have futures : (list FutureDef.toValue file.futures).isShort = true :=
    isShort_list short.futures fun future _ => by
      simp +decide [FutureDef.toValue, isShort_record, Value.isShort]
  have lazies : (list LazyDef.toValue file.lazies).isShort = true :=
    isShort_list short.lazies fun lazy _ => by
      simp +decide [LazyDef.toValue, isShort_record, Value.isShort]
  have funcs : (list FuncDecl.toValue file.funcs).isShort = true :=
    isShort_list short.funcs.1 fun func member => by
      simp +decide [FuncDecl.toValue, isShort_record, Value.isShort,
        isShort_numbers (short.funcs.2 func member).2, (short.funcs.2 func member).1]
  have defs : (list StoredBody.defValue file.defs).isShort = true :=
    isShort_list short.defs.1 fun body member =>
      (StoredBody.isShort_values (short.defs.2 body member)).1
  have statements : (list StoredBody.statementValue file.statements).isShort = true :=
    isShort_list short.statements.1 fun body member =>
      (StoredBody.isShort_values (short.statements.2 body member)).2
  simp +decide [Contents.toValue_eq, Contents.fields, isShort_record, Value.isShort, short.magic,
    types, structs, unions, enums, delegates, futures, lazies, funcs, defs, statements]

/-- A whole program whose lengths fit in a file can be saved. -/
theorem exists_contents (listed : program.IsListed) (whole : program.HasWholeExprs)
    (short : program.IsShort) : ∃ file, program.contents = .ok file ∧ file.IsShort := by
  obtain ⟨defs, storedDefs, defCount, defsShort⟩ := exists_mapM
    fun func (member : func ∈ program.funcs.toList) =>
      exists_storeDef (whole.bodies func (Array.mem_toList_iff.1 member)) short.defs
  have statements : ∀ entry ∈ program.statements.toList.zipIdx, ∃ stored,
      storeStatement entry = .ok stored ∧ stored.IsShort := by
    rintro ⟨statement, number⟩ member
    have inside : statement ∈ program.statements :=
      Array.mem_toList_iff.1 (List.fst_mem_of_mem_zipIdx member)
    exact exists_storeStatement number (whole.statements statement inside)
      (short.statements statement inside).1 (short.statements statement inside).2
  obtain ⟨stored, storedStatements, statementCount, statementsShort⟩ := exists_mapM statements
  refine ⟨_, by rw [contents, storedDefs, storedStatements]; rfl, ?_⟩
  have tables {α : Type} {kind : TypeKind} {id : α → UInt32} {table : List α}
      (lists : Lists program.types kind id table) :
      (program.definitionsOf kind id table).getD [] = table ∧ table.length < 4294967296 :=
    ⟨lists.restored.1, Nat.lt_of_le_of_lt lists.length_le short.typeCount⟩
  have signature : magic.size < 4294967296 := by decide
  refine { magic := signature, types := ?_, structs := ?_, unions := ?_, enums := ?_,
           delegates := ?_, futures := ?_, lazies := ?_, funcs := ?_, defs := ?_, statements := ?_ }
  · rw [getD_someIfAny, Array.length_toList]
    exact ⟨short.typeCount, fun decl member => short.types decl (Array.mem_toList_iff.1 member)⟩
  · rw [(tables listed.structs).1]
    exact ⟨(tables listed.structs).2, short.structs⟩
  · rw [(tables listed.unions).1]
    exact ⟨(tables listed.unions).2, short.unions⟩
  · rw [(tables listed.enums).1]
    exact ⟨(tables listed.enums).2, short.enums⟩
  · rw [(tables listed.delegates).1]
    exact ⟨(tables listed.delegates).2, short.delegates⟩
  · rw [(tables listed.futures).1]
    exact (tables listed.futures).2
  · rw [(tables listed.lazies).1]
    exact (tables listed.lazies).2
  · rw [getD_someIfAny, Array.length_toList]
    exact ⟨short.funcCount, fun func member => short.funcs func (Array.mem_toList_iff.1 member)⟩
  · rw [getD_someIfAny]
    refine ⟨?_, fun body member => ?_⟩
    · have few := List.length_filterMap_le (fun body : Option StoredBody => body) defs
      rw [defCount, Array.length_toList] at few
      exact Nat.lt_of_le_of_lt few short.funcCount
    · obtain ⟨found, inside, same⟩ := List.mem_filterMap.1 member
      exact defsShort found inside body same
  · rw [getD_someIfAny, statementCount, List.length_zipIdx, Array.length_toList]
    exact ⟨short.statementCount, statementsShort⟩

/-! ## Restored programs -/

/-- Whether a program is another one with the float literals that files give back. -/
structure RestoredAs (program loaded : Program) : Prop where
  types : loaded.types = program.types
  structs : loaded.structs = program.structs
  unions : loaded.unions = program.unions
  enums : loaded.enums = program.enums
  delegates : loaded.delegates = program.delegates
  futures : loaded.futures = program.futures
  lazies : loaded.lazies = program.lazies
  funcs : loaded.funcs = program.funcs
  /-- Bodies are found by the numbers of their functions. -/
  defs : ∀ id, loaded.def? id = (program.def? id).map FuncDef.settled
  statements : loaded.statements = program.statements.map Statement.settled

theorem restoredAs_reloaded (listed : program.IsListed)
    (declared : ∀ definition ∈ program.defs, ∃ func ∈ program.funcs, func.id = definition.id) :
    program.RestoredAs program.reloaded := by
  refine ⟨rfl, listed.structs.restored.2, listed.unions.restored.2, listed.enums.restored.2,
    listed.delegates.restored.2, listed.futures.restored.2, listed.lazies.restored.2, rfl,
    fun id => ?_, rfl⟩
  by_cases known : ∃ func ∈ program.funcs, func.id = id
  · obtain ⟨func, member, rfl⟩ := known
    have settled : func ∈ program.settled.funcs := member
    have found : program.reloaded.def? func.id = program.settled.def? func.id :=
      lookup_declared settled
    rw [found, def?_settled]
  · have undefined : program.def? id = none := by
      refine List.find?_eq_none.2 fun definition member same => known ?_
      obtain ⟨func, among, equal⟩ := declared definition member
      exact ⟨func, among, equal.trans (eq_of_beq same)⟩
    have absent : program.reloaded.def? id = none := by
      refine (lookup_foldl_put_of_absent ?_).trans rfl
      intro definition member same
      obtain ⟨func, among, found⟩ := List.mem_filterMap.1 member
      exact known ⟨func, Array.mem_toList_iff.1 among, (id_of_lookup found).symm.trans same⟩
    rw [absent, undefined]
    rfl

/-- Only a negative zero and a signalling NaN come back changed. -/
theorem settledSingle_cases (bits : UInt32) :
    settledSingle bits = bits ∨ bits = 0x80000000 ∧ settledSingle bits = 0 ∨
      (bits &&& 0x7f800000 = 0x7f800000 ∧ bits &&& 0x7fffff ≠ 0) ∧
        settledSingle bits = bits ||| 0x400000 := by
  unfold settledSingle
  by_cases zero : isZeroSingle bits = true
  · rw [if_pos zero]
    have low : bits.toNat % 2147483648 = 0 := by
      have masked := congrArg UInt32.toNat (eq_of_beq zero)
      rw [UInt32.toNat_and] at masked
      exact (Nat.and_two_pow_sub_one_eq_mod bits.toNat 31).symm.trans masked
    have range := bits.toNat_lt
    rcases (by omega : bits.toNat = 0 ∨ bits.toNat = 2147483648) with none | sign
    · left
      exact (UInt32.toNat_inj.1 none).symm
    · right
      left
      exact ⟨UInt32.toNat_inj.1 sign, rfl⟩
  · rw [if_neg zero]
    unfold quietSingle
    by_cases isNan : (bits &&& 0x7f800000 == 0x7f800000 && bits &&& 0x7fffff != 0) = true
    · rw [if_pos isNan]
      rw [Bool.and_eq_true, beq_iff_eq, bne_iff_ne] at isNan
      exact Or.inr (Or.inr ⟨isNan, rfl⟩)
    · rw [if_neg isNan]
      exact Or.inl rfl

theorem IsWhole.hasWholeExprs (whole : program.IsWhole) : program.HasWholeExprs :=
  ⟨fun _ _ definition found => whole.1 definition (List.mem_of_find?_eq_some found), whole.2⟩

/-- A program made by declarations is restored from its file, and what any file holds is whole. Of
its literals only negative zeros and signalling NaNs change. -/
theorem restored_from_file {program : Program} (built : Built program) (whole : program.IsWhole)
    (declared : ∀ definition ∈ program.defs, ∃ func ∈ program.funcs, func.id = definition.id)
    (short : program.IsShort) :
    (∃ data loaded, program.save = .ok data ∧ load data = .ok loaded ∧
      program.RestoredAs loaded) ∧
    (∀ data other, load data = .ok other → other.IsWhole) ∧
    ∀ bits, settledSingle bits = bits ∨ bits = 0x80000000 ∧ settledSingle bits = 0 ∨
      (bits &&& 0x7f800000 = 0x7f800000 ∧ bits &&& 0x7fffff ≠ 0) ∧
        settledSingle bits = bits ||| 0x400000 := by
  have listed := built.isListed
  refine ⟨?_, fun _ _ => isWhole_of_load, settledSingle_cases⟩
  obtain ⟨file, written, fits⟩ := exists_contents listed whole.hasWholeExprs short
  refine ⟨file.toValue.toBytes, program.reloaded, ?_, ?_, restoredAs_reloaded listed declared⟩
  · rw [save, written]
    rfl
  · exact load_eq_reloaded whole.hasWholeExprs written (Contents.isShort_toValue fits)

/-- An empty struct, a function that chooses between two floats, and a statement that calls it. -/
def chooser : Program :=
  let unit := Program.empty.declare "unit" (.struct (some []))
  let declared := unit.declareFunc "choose" 1 none TypeId.float
  let defined :=
    declared.defineFunc 0 [] (.choose [.bool true] [.float 0x80000000, .float 0x7f800001])
  defined.addStatement [{ name := "x" }] (.group [.string "on", .call 0 [] 0 TypeId.float])

theorem restored_from_file_chooser :
    ∃ data loaded, chooser.save = .ok data ∧ load data = .ok loaded ∧ chooser.RestoredAs loaded ∧
      (loaded.def? 0).map FuncDef.body =
        some (.choose [.bool true] [.float 0, .float 0x7fc00001]) := by
  have built : Built chooser :=
    ((((Built.empty.declare (by decide) _ _).declareFunc _ _ _ _).defineFunc _ _ _)).addStatement
      _ _
  have whole : chooser.IsWhole := by
    constructor <;> decide
  have declared : ∀ definition ∈ chooser.defs, ∃ func ∈ chooser.funcs, func.id = definition.id := by
    decide
  have short : chooser.IsShort := by
    constructor <;> decide
  obtain ⟨⟨data, loaded, saved, read, restored⟩, _⟩ :=
    restored_from_file built whole declared short
  refine ⟨data, loaded, saved, read, restored, ?_⟩
  rw [restored.defs]
  rfl

end Program

end WordMachine
