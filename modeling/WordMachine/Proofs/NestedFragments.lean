import WordMachine.Proofs.AssembledCode

/-!
Fragments of fragments. Building calls and joins may be mixed and nested in any way; what is built
holds the code of all of them in order, and closes as if it had been built in one piece.
-/

namespace WordMachine.Fragment

open Lowering (Code)

/-! ## The literals of a joined fragment -/

/-- Taking over a literal gives it the number that it has afterwards. -/
theorem adoptLiteral_uses {literals : Array Bytes} {number : Nat} {text : Bytes}
    (fragment : Fragment) (base position : Nat) (known : literals[number]? = some text) :
    (fragment.adoptLiteral literals base (position, number)).literalUses =
      fragment.literalUses.push (position + base,
        (fragment.adoptLiteral literals base (position, number)).number text) := by
  have same : literals.getD number ByteArray.empty = text := by
    rw [Array.getD_eq_getD_getElem?, known]
    rfl
  obtain ⟨newLiterals, newNumbers, equation, numbered, _⟩ := fragment.literalNumber_spec text
  unfold adoptLiteral
  simp only [same, equation]
  simp only [Fragment.number, Std.HashMap.getD_eq_getD_getElem?, numbered, Option.getD_some]

/-- Taking over the literals of a piece of code keeps the numbers of others. -/
theorem adoptLiterals_kept {literals : Array Bytes} {number : Bytes → Nat} {base : Nat}
    (code : Code) {fragment : Fragment} {position : Nat}
    (known : ∀ command ∈ code, ∀ text, command.literal? = some text →
      literals[number text]? = some text) :
    ∀ (text : Bytes) (place : Nat), fragment.literalNumbers[text]? = some place →
      ((Code.literalSites number position code).foldl (adoptLiteral literals base)
        fragment).literalNumbers[text]? = some place := by
  induction code generalizing fragment position with
  | nil => exact fun _ _ found => found
  | cons command code ih =>
    intro text place found
    simp only [List.mem_cons, forall_eq_or_imp] at known
    cases loads : command.literal? with
    | none =>
      simp only [Code.literalSites, loads, Option.toList_none, List.map_nil, List.nil_append]
      exact ih known.2 text place found
    | some other =>
      simp only [Code.literalSites, loads, Option.toList_some, List.map_cons, List.map_nil,
        List.singleton_append, List.foldl_cons]
      refine ih known.2 text place ?_
      exact (adoptLiteral_spec fragment base (position + 1) (known.1 other loads)).1.kept text
        place found

/-- Taking over the literals of a piece of code records where their numbers stand. -/
theorem adoptLiterals_uses {literals : Array Bytes} {number : Bytes → Nat} {base : Nat}
    (code : Code) {fragment : Fragment} {position : Nat}
    (known : ∀ command ∈ code, ∀ text, command.literal? = some text →
      literals[number text]? = some text) :
    ((Code.literalSites number position code).foldl (adoptLiteral literals base)
        fragment).literalUses.toList =
      fragment.literalUses.toList ++
        Code.literalSites ((Code.literalSites number position code).foldl
          (adoptLiteral literals base) fragment).number (position + base) code := by
  induction code generalizing fragment position with
  | nil => exact (List.append_nil _).symm
  | cons command code ih =>
    simp only [List.mem_cons, forall_eq_or_imp] at known
    cases loads : command.literal? with
    | none =>
      have rest := @ih fragment (position + command.size) known.2
      simp only [Code.literalSites, loads, Option.toList_none, List.map_nil, List.nil_append]
      rw [rest, Nat.add_right_comm]
    | some text =>
      obtain ⟨adopts, _⟩ :=
        adoptLiteral_spec fragment base (position + 1) (known.1 text loads)
      have pushed := adoptLiteral_uses fragment base (position + 1) (known.1 text loads)
      simp only [Code.literalSites, loads, Option.toList_some, List.map_cons, List.map_nil,
        List.singleton_append, List.foldl_cons]
      generalize fragment.adoptLiteral literals base (position + 1, number text) = next
        at adopts pushed ⊢
      have rest := @ih next (position + command.size) known.2
      have numbered : text ∈ next.literalNumbers :=
        adopts.numbered _ (List.mem_singleton_self _) text rfl
      have kept := @adoptLiterals_kept literals number base code next
        (position + command.size) known.2
      have agree := number_eq kept numbered
      rw [rest, pushed, Array.toList_push, List.append_assoc, agree,
        Nat.add_right_comm position 1, Nat.add_right_comm position command.size]
      rfl

/-- Joining two fragments that were built, each in whatever way, builds their code. -/
theorem Built.append {fragment other : Fragment} {left right : Code} (built : Built fragment left)
    (otherBuilt : Built other right) (clean : (fragment.append other).fault = none) :
    Built (fragment.append other) (left ++ right) := by
  refine { built.toHolds.append otherBuilt clean with literalUses := ?_ }
  obtain ⟨_, _, labels, complete, completeEq, equation, _⟩ := append_spec clean
  have known : ∀ command ∈ right, ∀ text, command.literal? = some text →
      other.literals[other.number text]? = some text := by
    intro command member text found
    obtain ⟨number, place⟩ := Option.isSome_iff_exists.1
      (Std.HashMap.mem_iff_isSome_getElem?.1 (otherBuilt.numbered command member text found))
    have same : other.number text = number := by
      simp [Fragment.number, Std.HashMap.getD_eq_getD_getElem?, place]
    rw [same]
    exact otherBuilt.literals text number place
  have kept := @adoptLiterals_kept other.literals other.number fragment.code.size right
    (placing fragment other labels) 0 known
  have uses := @adoptLiterals_uses other.literals other.number fragment.code.size right
    (placing fragment other labels) 0 known
  rw [← otherBuilt.literalUses, ← adoptLiterals_eq, completeEq] at kept uses
  have agree : ∀ command ∈ left, ∀ text, command.literal? = some text →
      fragment.number text = complete.number text :=
    fun command member text found => number_eq kept (built.numbered command member text found)
  rw [equation]
  change complete.literalUses.toList = Code.literalSites complete.number 0 (left ++ right)
  rw [uses, Code.literalSites_append, Nat.zero_add, Nat.zero_add, ← built.size_eq]
  change fragment.literalUses.toList ++ _ = _
  rw [built.literalUses, Code.literalSites_congr agree]

/-! ## Any mix of calls and joins -/

/-- A fragment that building calls and joins make, with its code. -/
inductive Made : Fragment → Code → Prop
  | empty (scope : Bytes) :
      Made (Fragment.empty scope) []
  /-- A label is generated, which writes nothing. -/
  | fresh {fragment : Fragment} {code : Code} :
      Made fragment code →
      Made fragment.freshLabel.2 code
  | apply {fragment : Fragment} {code : Code} (command : Command) :
      Made fragment code →
      Made (fragment.apply command) (code ++ [command])
  | append {fragment other : Fragment} {left right : Code} :
      Made fragment left →
      Made other right →
      Made (fragment.append other) (left ++ right)

theorem Made.foldl {fragment : Fragment} {code : Code} (made : Made fragment code) (more : Code) :
    Made (more.foldl Fragment.apply fragment) (code ++ more) := by
  induction more generalizing fragment code with
  | nil =>
    rw [List.append_nil]
    exact made
  | cons command more ih =>
    have rest := ih (made.apply command)
    rw [List.append_assoc] at rest
    exact rest

theorem Made.renders {fragment : Fragment} {code : Code} (made : Made fragment code) :
    Renders fragment code ∧ (fragment.fault = none → Built fragment code) := by
  induction made with
  | empty scope => exact ⟨renders_empty scope, fun _ => built_empty scope⟩
  | fresh _ ih =>
    obtain ⟨renders, built⟩ := ih
    refine ⟨⟨renders.clean, fun clean => ?_, fun clean => ?_⟩, fun clean => ?_⟩
    · have holds := renders.holds clean
      exact ⟨holds.bytes, holds.labels, holds.uses, holds.numbered, holds.literals, holds.few,
        holds.entries, holds.complete⟩
    · exact (renders.tabled clean).congr rfl rfl
    · have holds := built clean
      exact ⟨⟨holds.bytes, holds.labels, holds.uses, holds.numbered, holds.literals, holds.few,
        holds.entries, holds.complete⟩, holds.literalUses⟩
  | @apply fragment code command _ ih =>
    obtain ⟨renders, built⟩ := ih
    have after : (fragment.apply command).fault = none →
        Built (fragment.apply command) (code ++ [command]) :=
      fun clean => (built (clean_apply.1 clean).1).adds (apply_adds clean)
    refine ⟨⟨?_, fun clean => (after clean).toHolds, fun clean => ?_⟩, after⟩
    · rw [clean_apply, Code.isAccepted_append, isAccepted_single, renders.clean]
      refine and_congr_right fun accepted => and_congr_right fun _ => ?_
      have held := renders.holds (renders.clean.2 accepted)
      constructor
      · intro apart label member binds
        exact apart label (mem_bound_single.1 binds) (held.mem_labels.2 member)
      · intro apart label binds member
        exact apart label (held.mem_labels.1 member) (mem_bound_single.2 binds)
    · have tabled := (renders.tabled (clean_apply.1 clean).1).apply command
      have loads : Code.texts [command] = command.literal?.toList := by
        unfold Code.texts
        cases found : command.literal? with
        | none => exact List.filterMap_cons_none found
        | some text => exact List.filterMap_cons_some found
      rw [Code.pool_append, loads]
      exact tabled
  | @append fragment other left right _ _ ih otherHypothesis =>
    obtain ⟨renders, built⟩ := ih
    obtain ⟨otherRenders, otherBuilt⟩ := otherHypothesis
    refine ⟨⟨?_, fun clean => ?_, fun clean => ?_⟩, fun clean => ?_⟩
    · rw [clean_append, Code.isAccepted_append, renders.clean, otherRenders.clean]
      refine and_congr_right fun accepted => and_congr_right fun otherAccepted => ?_
      have held := renders.holds (renders.clean.2 accepted)
      have otherHeld := otherRenders.holds (otherRenders.clean.2 otherAccepted)
      simp only [held.mem_labels, otherHeld.mem_labels]
    · have both := clean_append.1 clean
      exact (renders.holds both.1).append (otherBuilt both.2.1) clean
    · have both := clean_append.1 clean
      rw [Code.pool_append]
      exact (renders.tabled both.1).append (otherBuilt both.2.1) clean
    · have both := clean_append.1 clean
      exact (built both.1).append (otherBuilt both.2.1) clean

theorem Made.close_eq_ok {fragment : Fragment} {code : Code} (made : Made fragment code)
    (scope : Bytes) (assembly : Assembly) :
    fragment.close = .ok assembly ↔
      (code.foldl Fragment.apply (Fragment.empty scope)).close = .ok assembly := by
  rw [made.renders.1.close_eq_ok, (renders_foldl scope code).close_eq_ok]

end WordMachine.Fragment
