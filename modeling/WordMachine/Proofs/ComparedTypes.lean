import WordMachine.Proofs.LoweringFailures
import WordMachine.Proofs.SavedPrograms

/-!
The search for compared types. It has steps enough to reach every type that an equality call needs
a function for, so what it finds is closed under the parts of types, and lists each type once.
-/

namespace WordMachine.Lowering

section

variable {program : Program}
variable {α : Type} {found : List TypeId}

def Settled (program : Program) (found pending : List TypeId) : Prop :=
  ∀ type ∈ found, ∀ parts, comparedParts program type = .ok parts →
    ∀ part ∈ parts, part ∈ found ∨ part ∈ pending

def remaining {α : Type} (id : α → TypeId) (size : α → Nat) (table : List α)
    (found : List TypeId) : Nat :=
  (table.map fun entry => if id entry ∈ found then 0 else size entry).sum

theorem remaining_le (id : α → TypeId) (size : α → Nat) (table : List α) (found : List TypeId) :
    remaining id size table found ≤ (table.map size).sum := by
  refine List.sum_le_sum fun entry _ => ?_
  split
  · exact Nat.zero_le _
  · exact Nat.le_refl _

/-- Finding a type leaves no more entries. -/
theorem remaining_cons_le (id : α → TypeId) (size : α → Nat) (table : List α) (type : TypeId)
    (found : List TypeId) :
    remaining id size table (type :: found) ≤ remaining id size table found := by
  refine List.sum_le_sum fun entry _ => ?_
  by_cases member : id entry ∈ found
  · simp [member]
  · simp only [member, if_false]
    split
    · exact Nat.zero_le _
    · exact Nat.le_refl _

theorem remaining_cons_add_le {id : α → TypeId} {size : α → Nat} {table : List α} {type : TypeId}
    {entry : α} (member : entry ∈ table) (own : id entry = type) (new : type ∉ found) :
    remaining id size table (type :: found) + size entry ≤ remaining id size table found := by
  obtain ⟨start, rest, rfl⟩ := List.append_of_mem member
  have first := remaining_cons_le id size start type found
  have last := remaining_cons_le id size rest type found
  unfold remaining at *
  simp only [List.map_append, List.map_cons, List.sum_append, List.sum_cons, own, new,
    List.mem_cons_self, if_true, if_false]
  omega

/-- How many parts the types that are not found yet have. -/
def unexplored (program : Program) (found : List TypeId) : Nat :=
  remaining StructDef.id (fun type => (type.fields.getD []).length) program.structs found +
    remaining UnionDef.id (fun type => (type.members.getD []).length) program.unions found

theorem unexplored_cons_add_le {type : TypeId} {parts : List TypeId}
    (known : comparedParts program type = .ok parts) (new : type ∉ found) :
    unexplored program (type :: found) + parts.length ≤ unexplored program found := by
  have structs := remaining_cons_le StructDef.id (fun type => (type.fields.getD []).length)
    program.structs type found
  have unions := remaining_cons_le UnionDef.id (fun type => (type.members.getD []).length)
    program.unions type found
  unfold unexplored
  unfold comparedParts at known
  split at known
  · split at known
    · next definition defined =>
      have count := congrArg List.length (Except.ok.inj known)
      have atMost := List.length_filter_le (isUserType program)
        ((definition.fields.getD []).map FieldDecl.type)
      have gained : remaining StructDef.id (fun type => (type.fields.getD []).length)
          program.structs (type :: found) + (definition.fields.getD []).length ≤ _ :=
        remaining_cons_add_le (List.mem_of_find?_eq_some defined) (Program.id_of_lookup defined) new
      rw [List.length_map] at atMost
      omega
    · cases known
  · split at known
    · next definition defined =>
      have count := congrArg List.length (Except.ok.inj known)
      have atMost := List.length_filter_le (isUserType program) (definition.members.getD [])
      have gained : remaining UnionDef.id (fun type => (type.members.getD []).length)
          program.unions (type :: found) + (definition.members.getD []).length ≤ _ :=
        remaining_cons_add_le (List.mem_of_find?_eq_some defined) (Program.id_of_lookup defined) new
      omega
    · cases known
  · cases known

theorem foldl_add_eq (size : α → Nat) (items : List α) (start : Nat) :
    items.foldl (fun count item => count + size item) start = start + (items.map size).sum := by
  induction items generalizing start with
  | nil => rfl
  | cons item items ih =>
    rw [List.foldl_cons, ih, List.map_cons, List.sum_cons, Nat.add_assoc]

/-- The search has a step for each part, and two more. -/
theorem unexplored_lt_reachBound (found : List TypeId) :
    1 + unexplored program found < reachBound program := by
  have structs := remaining_le StructDef.id (fun type => (type.fields.getD []).length)
    program.structs found
  have unions := remaining_le UnionDef.id (fun type => (type.members.getD []).length)
    program.unions found
  unfold reachBound unexplored
  rw [foldl_add_eq, foldl_add_eq]
  omega

/-- What a search for compared types has found: all that was pending, and the parts of all that was
found. -/
structure Searched (program : Program) (found pending result : List TypeId) : Prop where
  nodup : result.Nodup
  settled : Settled program result []
  kept : ∀ type ∈ found, type ∈ result
  done : ∀ type ∈ pending, type ∈ result

theorem searched_reachTypes (fuel : Nat) {pending result : List TypeId} (nodup : found.Nodup)
    (settled : Settled program found pending)
    (enough : pending.length + unexplored program found < fuel)
    (success : reachTypes program fuel pending found = .ok result) :
    Searched program found pending result := by
  induction fuel generalizing pending found with
  | zero => exact absurd enough (Nat.not_lt_zero _)
  | succ fuel ih =>
    cases pending with
    | nil =>
      cases success
      exact ⟨nodup, settled, fun _ member => member, nofun⟩
    | cons type pending =>
      rw [reachTypes] at success
      rw [List.length_cons] at enough
      by_cases known : found.contains type = true
      · rw [if_pos known] at success
        have among : type ∈ found := List.contains_iff_mem.1 known
        have still : Settled program found pending := by
          intro other member parts expanded part inside
          rcases settled other member parts expanded part inside with here | later
          · exact .inl here
          · rcases List.mem_cons.1 later with rfl | later
            · exact .inl among
            · exact .inr later
        have searched := ih nodup still (by omega) success
        refine ⟨searched.nodup, searched.settled, searched.kept, ?_⟩
        intro other member
        rcases List.mem_cons.1 member with rfl | member
        · exact searched.kept other among
        · exact searched.done other member
      · rw [if_neg known] at success
        have new : type ∉ found := fun among => known (List.contains_iff_mem.2 among)
        obtain ⟨parts, expanded, rest⟩ := except_bind_eq_ok.1 success
        have fewer := unexplored_cons_add_le expanded new
        have still : Settled program (type :: found) (parts ++ pending) := by
          intro other member others found part inside
          rcases List.mem_cons.1 member with rfl | member
          · cases found.symm.trans expanded
            exact .inr (List.mem_append_left _ inside)
          · rcases settled other member others found part inside with here | later
            · exact .inl (List.mem_cons_of_mem _ here)
            · rcases List.mem_cons.1 later with rfl | later
              · exact .inl List.mem_cons_self
              · exact .inr (List.mem_append_right _ later)
        have searched := ih (List.nodup_cons.2 ⟨new, nodup⟩) still
          (by rw [List.length_append]; omega) rest
        refine ⟨searched.nodup, searched.settled,
          fun other member => searched.kept other (List.mem_cons_of_mem _ member), ?_⟩
        intro other member
        rcases List.mem_cons.1 member with rfl | member
        · exact searched.kept other List.mem_cons_self
        · exact searched.done other (List.mem_append_right _ member)

theorem searched_foldlM {operands : List Expr} {result : List TypeId} (nodup : found.Nodup)
    (settled : Settled program found []) (success : (operands.foldlM
      (fun found operand => do
        match operand.type? with
        | none => throw .untyped
        | some type => reachTypes program (reachBound program) [type] found)
      found : Except Cause (List TypeId)) = .ok result) :
    Searched program found (operands.filterMap Expr.type?) result := by
  induction operands generalizing found with
  | nil =>
    cases success
    exact ⟨nodup, settled, fun _ member => member, nofun⟩
  | cons operand operands ih =>
    rw [List.foldlM_cons] at success
    obtain ⟨next, first, rest⟩ := except_bind_eq_ok.1 success
    cases typed : operand.type? with
    | none =>
      simp only [typed] at first
      cases first
    | some type =>
      simp only [typed] at first
      have step := searched_reachTypes _ nodup
        (fun other member parts known part inside =>
          .inl ((settled other member parts known part inside).resolve_right nofun))
        (unexplored_lt_reachBound found) first
      have searched := ih step.nodup step.settled rest
      rw [List.filterMap_cons_some typed]
      refine ⟨searched.nodup, searched.settled,
        fun other member => searched.kept other (step.kept other member), ?_⟩
      intro other member
      rcases List.mem_cons.1 member with rfl | member
      · exact searched.kept other (step.done other List.mem_cons_self)
      · exact searched.done other member

theorem searched_equalityTypes {types : List TypeId} (found : equalityTypes program = .ok types) :
    Searched program [] ((comparedOperands program).filterMap Expr.type?) types := by
  unfold equalityTypes at found
  obtain ⟨result, success, sorted⟩ := except_bind_eq_ok.1 found
  have searched := searched_foldlM List.nodup_nil nofun success
  cases sorted
  have same := List.mergeSort_perm result (· ≤ ·)
  refine ⟨same.nodup_iff.2 searched.nodup, ?_, nofun,
    fun type member => same.mem_iff.2 (searched.done type member)⟩
  intro type member parts known part inside
  refine .inl (same.mem_iff.2 ?_)
  exact (searched.settled type (same.mem_iff.1 member) parts known part inside).resolve_right nofun

end

end WordMachine.Lowering
