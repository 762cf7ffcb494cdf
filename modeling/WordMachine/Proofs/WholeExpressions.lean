import WordMachine.Program.File
import Mathlib

/-!
Whole expressions: nothing is missing in them, no group is empty and every choice has one branch
more than conditions. Every expression that is read from a file is whole, and a whole expression
has a type.
-/

namespace WordMachine

namespace Expr

variable {expr : Expr}

/-! ## Wholeness -/

mutual

/-- Whether every part of an expression is there. -/
def isWhole : Expr → Bool
  | missing => false
  | assign _ value => value.isWhole
  | choose conditions branches =>
    branches.length == conditions.length + 1 && (areWhole conditions && areWhole branches)
  | call _ arguments _ _ => areWhole arguments
  | callDynamic target arguments _ _ => target.isWhole && areWhole arguments
  | callSelf arguments _ => areWhole arguments
  | closure _ bound _ => areWhole bound
  | field operand _ _ => operand.isWhole
  | group items => !items.isEmpty && areWhole items
  | unionCheck operand _ => operand.isWhole
  | unionGet operand _ _ => operand.isWhole
  | slot _ _ => true
  | fail _ => true
  | bool _ => true
  | float _ => true
  | int _ => true
  | long _ => true
  | string _ => true
  | char _ => true
  | function _ _ => true
  | enumeration _ _ => true

def areWhole : List Expr → Bool
  | [] => true
  | item :: items => item.isWhole && areWhole items

end

theorem areWhole_iff {items : List Expr} :
    areWhole items = true ↔ ∀ item ∈ items, item.isWhole = true := by
  induction items with
  | nil => simp [areWhole]
  | cons item items ih => simp [areWhole, ih]

/-! ## Types -/

mutual

theorem exists_type?_of_isWhole :
    (expr : Expr) → expr.isWhole = true → ∃ type, expr.type? = some type
  | missing, whole => by simp [isWhole] at whole
  | assign _ value, whole => by
    rw [isWhole] at whole
    simpa [type?] using exists_type?_of_isWhole value whole
  | choose conditions [], whole => by simp [isWhole] at whole
  | choose conditions (first :: rest), whole => by
    simp only [isWhole, areWhole, Bool.and_eq_true] at whole
    simpa [type?] using exists_type?_of_isWhole first whole.2.2.1
  | group items, whole => by
    simp only [isWhole, Bool.and_eq_true, Bool.not_eq_true', List.isEmpty_eq_false_iff] at whole
    simpa [type?] using exists_lastType?_of_areWhole items whole.1 whole.2
  | call _ _ _ result, _ => ⟨result, rfl⟩
  | callDynamic _ _ _ result, _ => ⟨result, rfl⟩
  | callSelf _ result, _ => ⟨result, rfl⟩
  | closure _ _ delegate, _ => ⟨delegate, rfl⟩
  | slot _ type, _ => ⟨type, rfl⟩
  | field _ _ type, _ => ⟨type, rfl⟩
  | unionCheck _ _, _ => ⟨TypeId.bool, rfl⟩
  | unionGet _ _ _, _ => ⟨TypeId.bool, rfl⟩
  | fail type, _ => ⟨type, rfl⟩
  | bool _, _ => ⟨TypeId.bool, rfl⟩
  | float _, _ => ⟨TypeId.float, rfl⟩
  | int _, _ => ⟨TypeId.int, rfl⟩
  | long _, _ => ⟨TypeId.long, rfl⟩
  | string _, _ => ⟨TypeId.string, rfl⟩
  | char _, _ => ⟨TypeId.char, rfl⟩
  | function _ delegate, _ => ⟨delegate, rfl⟩
  | enumeration type _, _ => ⟨type, rfl⟩

theorem exists_lastType?_of_areWhole :
    (items : List Expr) → items ≠ [] → areWhole items = true →
      ∃ type, type?.lastType? items = some type
  | [], filled, _ => absurd rfl filled
  | [last], _, whole => by
    simp only [areWhole, Bool.and_true] at whole
    simpa [type?.lastType?] using exists_type?_of_isWhole last whole
  | _ :: next :: rest, _, whole => by
    rw [areWhole, Bool.and_eq_true] at whole
    simpa [type?.lastType?] using
      exists_lastType?_of_areWhole (next :: rest) (List.cons_ne_nil _ _) whole.2

end

/-! ## Parts -/

theorem isWhole_child {child : Expr} (whole : expr.isWhole = true) (among : child ∈ expr.children) :
    child.isWhole = true := by
  cases expr with
  | choose conditions branches =>
    simp only [isWhole, Bool.and_eq_true, areWhole_iff] at whole
    rcases List.mem_append.1 among with among | among
    · exact whole.2.1 child among
    · exact whole.2.2 child among
  | callDynamic target arguments fork result =>
    simp only [isWhole, Bool.and_eq_true, areWhole_iff] at whole
    rcases List.mem_append.1 among with among | among
    · exact whole.2 child among
    · exact List.mem_singleton.1 among ▸ whole.1
  | group items =>
    simp only [isWhole, Bool.and_eq_true, areWhole_iff] at whole
    exact whole.2 child among
  | _ => simp_all [isWhole, children, areWhole_iff]

theorem sizeOf_child_lt {child : Expr} (among : child ∈ expr.children) :
    sizeOf child < sizeOf expr := by
  have listed : ∀ {items : List Expr}, child ∈ items → sizeOf child < sizeOf items :=
    fun member => List.sizeOf_lt_of_mem member
  cases expr with
  | choose conditions branches =>
    rw [choose.sizeOf_spec]
    rcases List.mem_append.1 among with among | among
    · exact Nat.lt_of_lt_of_le (listed among) (by omega)
    · exact Nat.lt_of_lt_of_le (listed among) (by omega)
  | callDynamic target arguments fork result =>
    rw [callDynamic.sizeOf_spec]
    rcases List.mem_append.1 among with among | among
    · exact Nat.lt_of_lt_of_le (listed among) (by omega)
    · rw [List.mem_singleton.1 among]
      omega
  | call func arguments mode result =>
    rw [call.sizeOf_spec]
    exact Nat.lt_of_lt_of_le (listed among) (by simp only [children]; omega)
  | callSelf arguments result =>
    rw [callSelf.sizeOf_spec]
    exact Nat.lt_of_lt_of_le (listed among) (by simp only [children]; omega)
  | closure func bound delegate =>
    rw [closure.sizeOf_spec]
    exact Nat.lt_of_lt_of_le (listed among) (by simp only [children]; omega)
  | group items =>
    rw [group.sizeOf_spec]
    exact Nat.lt_of_lt_of_le (listed among) (by simp only [children]; omega)
  | _ => simp_all +arith [children]

theorem walkAll_eq_flatMap (enter : Expr → Bool) (items : List Expr) :
    walkAll enter items = items.flatMap (walk enter) := by
  induction items with
  | nil => rw [walkAll, List.flatMap_nil]
  | cons item items ih =>
    rw [walkAll, List.flatMap_cons, ih]

theorem mem_walk {enter : Expr → Bool} {node : Expr} (member : node ∈ expr.walk enter) :
    node = expr ∨ ∃ child ∈ expr.children, node ∈ child.walk enter := by
  cases expr with
  | missing => simp [walk] at member
  | _ =>
    simp only [walk, visit, walkAll_eq_flatMap] at member
    try split at member
    all_goals
      simp only [List.mem_cons, List.mem_append, List.mem_flatMap, List.not_mem_nil,
        or_false] at member
      simp only [children, List.mem_cons, List.mem_append, List.not_mem_nil, or_false,
        exists_eq_left]
      grind

theorem isWhole_of_mem_walk {enter : Expr → Bool} {node : Expr} (expr : Expr)
    (whole : expr.isWhole = true) (member : node ∈ expr.walk enter) : node.isWhole = true := by
  rcases mem_walk member with rfl | ⟨child, among, below⟩
  · exact whole
  · exact isWhole_of_mem_walk child (isWhole_child whole among) below
termination_by sizeOf expr
decreasing_by exact sizeOf_child_lt among

end Expr

namespace Program

variable {program : Program}

/-! ## Programs -/

theorem isWhole_of_oneOperand {form : UInt8} {operands : List Expr} {operand : Expr}
    (whole : Expr.areWhole operands = true) (single : oneOperand form operands = .ok operand) :
    operand.isWhole = true := by
  unfold oneOperand at single
  split at single
  · cases single
    simpa [Expr.areWhole] using whole
  · cases single

mutual

theorem Node.isWhole_of_toExpr :
    (node : Node) → (expr : Expr) → node.toExpr = .ok expr → expr.isWhole = true
  | { form, type, func, slot, number, float, text, kids, alternatives }, expr, read => by
    have kidsWhole := Node.areWhole_of_toExprs kids
    have alternativesWhole := Node.areWhole_of_toExprs alternatives
    rw [Node.toExpr] at read
    cases kidsRead : Node.toExprs kids with
    | error error =>
      rw [kidsRead] at read
      cases read
    | ok kidItems =>
      have whole := kidsWhole kidItems kidsRead
      rw [kidsRead] at read
      simp only [bind, Except.bind, pure, Except.pure, throw, throwThe,
        MonadExceptOf.throw] at read
      split at read
      case h_2 =>
        split at read
        · cases read
        · next branches alternativesRead =>
          split at read
          · cases read
          · next counted =>
            cases read
            simp only [bne_iff_ne, ne_eq, not_not] at counted
            simp [Expr.isWhole, counted, whole, alternativesWhole branches alternativesRead]
      case h_4 =>
        split at read
        · cases read
        · next target single =>
          split at read
          · cases read
          · next arguments alternativesRead =>
            cases read
            simp [Expr.isWhole, isWhole_of_oneOperand whole single,
              alternativesWhole arguments alternativesRead]
      case h_9 =>
        split at read
        · cases read
        · next filled =>
          cases read
          simp [Expr.isWhole, filled, whole]
      case h_1 | h_8 | h_10 | h_11 =>
        split at read
        · cases read
        · next operand single =>
          cases read
          rw [Expr.isWhole]
          exact isWhole_of_oneOperand whole single
      case h_3 | h_5 | h_6 =>
        cases read
        rw [Expr.isWhole]
        exact whole
      all_goals
        cases read
      all_goals rw [Expr.isWhole]

theorem Node.areWhole_of_toExprs :
    (nodes : List Node) → (items : List Expr) → Node.toExprs nodes = .ok items →
      Expr.areWhole items = true
  | [], items, read => by
    rw [Node.toExprs] at read
    cases read
    rw [Expr.areWhole]
  | node :: nodes, items, read => by
    have nodeWhole := Node.isWhole_of_toExpr node
    have nodesWhole := Node.areWhole_of_toExprs nodes
    rw [Node.toExprs] at read
    cases first : node.toExpr with
    | error error =>
      rw [first] at read
      cases read
    | ok item =>
      cases rest : Node.toExprs nodes with
      | error error =>
        rw [first, rest] at read
        cases read
      | ok others =>
        rw [first, rest] at read
        cases read
        rw [Expr.areWhole, nodeWhole item first, nodesWhole others rest]
        rfl

end

/-- Whether all bodies and statements of a program are whole. -/
def IsWhole (program : Program) : Prop :=
  (∀ definition ∈ program.defs, definition.body.isWhole = true) ∧
    ∀ statement ∈ program.statements, statement.expr.isWhole = true

theorem foldlM_keeps {ε α β : Type} {holds : β → Prop} {step : β → α → Except ε β}
    {items : List α} {start result : β}
    (keeps : ∀ before item after, holds before → step before item = .ok after → holds after)
    (first : holds start) (done : items.foldlM step start = .ok result) : holds result := by
  induction items generalizing start with
  | nil =>
    cases done
    exact first
  | cons item items ih =>
    rw [List.foldlM_cons] at done
    cases moved : step start item with
    | error error =>
      rw [moved] at done
      cases done
    | ok next =>
      rw [moved] at done
      exact ih (keeps start item next first moved) done

theorem mem_put {α : Type} {id : α → UInt32} {table : List α} {entry other : α}
    (member : other ∈ put id table entry) : other = entry ∨ other ∈ table := by
  unfold put at member
  split at member
  · obtain ⟨found, among, same⟩ := List.mem_map.1 member
    split at same
    · exact Or.inl same.symm
    · exact Or.inr (same ▸ among)
  · rcases List.mem_append.1 member with among | among
    · exact Or.inr among
    · exact Or.inl (List.mem_singleton.1 among)

theorem IsWhole.addDef {after : Program} {body : StoredBody} (whole : program.IsWhole)
    (added : program.addDef body = .ok after) : after.IsWhole := by
  unfold Program.addDef at added
  split at added
  · next expr read =>
    cases added
    refine ⟨fun definition member => ?_, whole.2⟩
    rcases mem_put member with rfl | among
    · exact Node.isWhole_of_toExpr body.node expr read
    · exact whole.1 definition among
  · cases added

theorem IsWhole.addStored {after : Program} {entry : StoredBody × Nat} (whole : program.IsWhole)
    (added : program.addStored entry = .ok after) : after.IsWhole := by
  unfold Program.addStored at added
  split at added
  · next expr read =>
    cases added
    refine ⟨whole.1, fun statement member => ?_⟩
    rcases Array.mem_push.1 member with among | rfl
    · exact whole.2 statement among
    · exact Node.isWhole_of_toExpr entry.1.node expr read
  · cases added

def Contents.tables (file : Contents) : Program where
  types := (file.types.getD []).toArray
  funcs := (file.funcs.getD []).toArray
  structs := (file.structs.getD []).foldl (put StructDef.id) []
  unions := (file.unions.getD []).foldl (put UnionDef.id) []
  enums := (file.enums.getD []).foldl (put EnumDef.id) []
  delegates := (file.delegates.getD []).foldl (put DelegateDef.id) []
  futures := (file.futures.getD []).foldl (put FutureDef.id) []
  lazies := (file.lazies.getD []).foldl (put LazyDef.id) []

theorem ofContents_eq (file : Contents) :
    ofContents file = (file.defs.getD []).foldlM addDef file.tables >>= fun program =>
      (file.statements.getD []).zipIdx.foldlM addStored program := rfl

theorem load_eq_ok {data : Bytes} (loaded : load data = .ok program) :
    ∃ file, ofContents file = .ok program := by
  unfold load at loaded
  split at loaded
  · cases loaded
  · next file read =>
    split at loaded
    · cases loaded
    · split at loaded
      · cases loaded
      · exact ⟨file, loaded⟩

theorem isWhole_of_load {data : Bytes} (loaded : load data = .ok program) : program.IsWhole := by
  obtain ⟨file, built⟩ := load_eq_ok loaded
  rw [ofContents_eq] at built
  cases defined : (file.defs.getD []).foldlM addDef file.tables with
  | error error =>
    rw [defined] at built
    cases built
  | ok between =>
    rw [defined] at built
    have middle : between.IsWhole :=
      foldlM_keeps (fun _ _ _ => IsWhole.addDef)
        ⟨by simp [Contents.tables], by simp [Contents.tables]⟩ defined
    exact foldlM_keeps (fun _ _ _ => IsWhole.addStored) middle built

end Program

end WordMachine
