import WordMachine.Proofs.ObjectCode

/-!
What a closed fragment is made of. The assembly of a piece of code depends on nothing but the code:
neither on how it was cut into fragments nor on where these begin to generate their labels. Its
literal table lists each text once, in the order of first use.
-/

namespace WordMachine

/-! ## Assembling in one piece -/

/-- Whether an instruction is complete: it has operands exactly if its operation takes some. -/
def Instruction.isWhole : Instruction → Bool
  | .plain op => op.operands.isEmpty
  | _ => true

/-- Whether a building call is accepted wherever its label is new. -/
def Fragment.Command.isWhole : Command → Bool
  | .code byte => (Opcode.ofCode? byte).any (·.operands.isEmpty)
  | .emit instruction => instruction.isWhole
  | _ => true

namespace Lowering.Code

open Fragment (Command)

variable {code : Code} {text : Bytes} {label : Label}

/-- The texts that a piece of code loads, in order. -/
def texts (code : Code) : List Bytes :=
  code.filterMap Command.literal?

/-- A table with further texts, those that it lacks, in the order of their first use. -/
def enlist (table texts : List Bytes) : List Bytes :=
  texts.foldl (fun table text => if text ∈ table then table else table ++ [text]) table

/-- The literal table of a piece of code. -/
def pool (code : Code) : List Bytes :=
  enlist [] (texts code)

/-- The labels that a piece of code binds, in order. -/
def bound (code : Code) : List Label :=
  (bindings 0 code).map Prod.fst

def address (code : Code) (label : Label) : Nat :=
  ((bindings 0 code).lookup label).getD 0

/-- Whether no building call is refused: every instruction is complete and no label is bound
twice. -/
def IsAccepted (code : Code) : Prop :=
  (∀ command ∈ code, command.isWhole = true) ∧ (bound code).Nodup

/-- Whether every label that is referred to is bound. -/
def IsClosed (code : Code) : Prop :=
  (∀ site ∈ labelSites 0 code, site.2 ∈ bound code) ∧ ∀ label ∈ entries code, label ∈ bound code

instance (code : Code) : Decidable (IsAccepted code) :=
  inferInstanceAs (Decidable (_ ∧ _))

instance (code : Code) : Decidable (IsClosed code) :=
  inferInstanceAs (Decidable (_ ∧ _))

/-- The assembly of a piece of code whose labels are bound. -/
def assembled (code : Code) : Assembly where
  code := Bytes.ofList (bytes (address code) (pool code).idxOf code)
  literals := (pool code).toArray
  entries := ((entries code).map fun label => UInt32.ofNat (address code label)).toArray

def assemble? (code : Code) : Option Assembly :=
  if IsAccepted code ∧ IsClosed code then some (assembled code) else none

/-! ### The literal table -/

theorem texts_append (left right : Code) : texts (left ++ right) = texts left ++ texts right :=
  List.filterMap_append

theorem enlist_append (table left right : List Bytes) :
    enlist table (left ++ right) = enlist (enlist table left) right :=
  List.foldl_append

theorem pool_append (left right : Code) :
    pool (left ++ right) = enlist (pool left) (texts right) := by
  rw [pool, texts_append, enlist_append]
  rfl

theorem mem_enlist {table texts : List Bytes} :
    text ∈ enlist table texts ↔ text ∈ table ∨ text ∈ texts := by
  induction texts generalizing table with
  | nil => simp [enlist]
  | cons first texts ih =>
    have rest := @ih (if first ∈ table then table else table ++ [first])
    rw [show enlist table (first :: texts) = enlist _ texts from rfl, rest, List.mem_cons]
    by_cases listed : first ∈ table
    · rw [if_pos listed]
      constructor
      · rintro (member | member)
        · exact Or.inl member
        · exact Or.inr (Or.inr member)
      · rintro (member | rfl | member)
        · exact Or.inl member
        · exact Or.inl listed
        · exact Or.inr member
    · rw [if_neg listed, List.mem_append, List.mem_singleton, or_assoc]

theorem nodup_enlist {table : List Bytes} (texts : List Bytes) (nodup : table.Nodup) :
    (enlist table texts).Nodup := by
  induction texts generalizing table with
  | nil => exact nodup
  | cons first texts ih =>
    have grown : (if first ∈ table then table else table ++ [first]).Nodup := by
      by_cases listed : first ∈ table
      · rw [if_pos listed]
        exact nodup
      · rw [if_neg listed]
        have apart : ∀ text ∈ table, text ≠ first :=
          fun text member same => listed (same ▸ member)
        simpa [List.nodup_append, nodup] using apart
    exact ih grown

theorem nodup_pool (code : Code) : (pool code).Nodup :=
  nodup_enlist _ List.nodup_nil

theorem mem_pool : text ∈ pool code ↔ ∃ command ∈ code, command.literal? = some text := by
  rw [pool, mem_enlist, texts, List.mem_filterMap]
  simp

theorem getElem?_idxOf_pool {command : Command} (member : command ∈ code)
    (found : command.literal? = some text) : (pool code)[(pool code).idxOf text]? = some text := by
  have listed : text ∈ pool code := mem_pool.2 ⟨command, member, found⟩
  rw [List.getElem?_eq_getElem (List.idxOf_lt_length_iff.2 listed), List.getElem_idxOf]

/-! ### Bound labels -/

theorem map_fst_bindings (position : Nat) (code : Code) :
    (bindings position code).map Prod.fst = bound code := by
  have shifted : ∀ position other : Nat,
      (bindings position code).map Prod.fst = (bindings other code).map Prod.fst := by
    induction code with
    | nil => exact fun _ _ => rfl
    | cons command code ih =>
      intro position other
      cases command with
      | bind label => exact congrArg (label :: ·) (ih position other)
      | _ => exact ih _ _
  exact shifted position 0

theorem bound_append (left right : Code) : bound (left ++ right) = bound left ++ bound right := by
  rw [bound, bindings_append, List.map_append, map_fst_bindings, map_fst_bindings]

theorem mem_bound : label ∈ bound code ↔ ∃ position, (label, position) ∈ bindings 0 code := by
  rw [bound, List.mem_map]
  constructor
  · rintro ⟨⟨_, position⟩, member, rfl⟩
    exact ⟨position, member⟩
  · rintro ⟨position, member⟩
    exact ⟨_, member, rfl⟩

theorem isAccepted_append {left right : Code} :
    IsAccepted (left ++ right) ↔
      IsAccepted left ∧ IsAccepted right ∧ ∀ label ∈ bound left, label ∉ bound right := by
  unfold IsAccepted
  rw [bound_append, List.nodup_append]
  simp only [List.mem_append]
  constructor
  · rintro ⟨whole, first, second, apart⟩
    exact ⟨⟨fun command member => whole command (Or.inl member), first⟩,
      ⟨fun command member => whole command (Or.inr member), second⟩,
      fun label member other => apart label member label other rfl⟩
  · rintro ⟨⟨firstWhole, first⟩, ⟨secondWhole, second⟩, apart⟩
    refine ⟨?_, first, second, ?_⟩
    · rintro command (member | member)
      · exact firstWhole command member
      · exact secondWhole command member
    · rintro label member other otherMember rfl
      exact apart label member otherMember

theorem lookup_eq_of_nodup {position : Nat} {pairs : List (Label × Nat)}
    (nodup : (pairs.map Prod.fst).Nodup) (member : (label, position) ∈ pairs) :
    pairs.lookup label = some position := by
  induction pairs with
  | nil => cases member
  | cons pair pairs ih =>
    rw [List.map_cons, List.nodup_cons] at nodup
    rcases List.mem_cons.1 member with rfl | member
    · rw [List.lookup_cons_self]
    · have apart : label ≠ pair.1 := by
        rintro rfl
        exact nodup.1 (List.mem_map.2 ⟨_, member, rfl⟩)
      rw [List.lookup_cons, beq_false_of_ne apart]
      exact ih nodup.2 member

/-- A label that is bound once is found where it is bound. -/
theorem address_eq {position : Nat} (accepted : IsAccepted code)
    (member : (label, position) ∈ bindings 0 code) : address code label = position := by
  rw [address, lookup_eq_of_nodup accepted.2 member]
  rfl

end Lowering.Code

/-! ## Building -/

namespace Fragment

open Lowering (Code)

variable {fragment other : Fragment} {table : List Bytes} {code : Code} {label : Label}
variable {command : Command}

/-- A fragment whose literals are a table, each under the number of its place. -/
structure Tabled (fragment : Fragment) (table : List Bytes) : Prop where
  literals : fragment.literals.toList = table
  numbers : ∀ (text : Bytes) (number : Nat),
    fragment.literalNumbers[text]? = some number ↔ table[number]? = some text

theorem Tabled.congr (tabled : Tabled fragment table)
    (literals : other.literals = fragment.literals)
    (numbers : other.literalNumbers = fragment.literalNumbers) : Tabled other table where
  literals := by rw [literals, tabled.literals]
  numbers := by
    intro text number
    rw [numbers, tabled.numbers]

theorem Tabled.mem_iff (tabled : Tabled fragment table) {text : Bytes} :
    text ∈ fragment.literalNumbers ↔ text ∈ table := by
  rw [Std.HashMap.mem_iff_isSome_getElem?, Option.isSome_iff_exists, List.mem_iff_getElem?]
  exact exists_congr fun number => tabled.numbers text number

theorem Tabled.number_eq (tabled : Tabled fragment table) {text : Bytes} (listed : text ∈ table) :
    fragment.number text = table.idxOf text := by
  have place : table[table.idxOf text]? = some text := by
    rw [List.getElem?_eq_getElem (List.idxOf_lt_length_iff.2 listed), List.getElem_idxOf]
  rw [Fragment.number, Std.HashMap.getD_eq_getD_getElem?, (tabled.numbers text _).2 place]
  rfl

theorem Tabled.literalNumber (tabled : Tabled fragment table) (text : Bytes) :
    Tabled (fragment.literalNumber text).2 (Code.enlist table [text]) := by
  unfold Fragment.literalNumber Code.enlist
  rw [List.foldl_cons, List.foldl_nil]
  cases found : fragment.literalNumbers[text]? with
  | some number =>
    rw [if_pos (List.mem_of_getElem? ((tabled.numbers text number).1 found))]
    exact tabled
  | none =>
    have absent : text ∉ table := by
      rw [← tabled.mem_iff, Std.HashMap.mem_iff_isSome_getElem?, found]
      exact Bool.false_ne_true
    have size : fragment.literals.size = table.length := by
      rw [← tabled.literals, Array.length_toList]
    rw [if_neg absent]
    refine ⟨by simp [tabled.literals], ?_⟩
    intro other number
    dsimp only
    rw [Std.HashMap.getElem?_insert]
    by_cases same : text = other
    · rw [same, beq_self_eq_true, if_pos rfl, size, Option.some_inj, ← same]
      constructor
      · rintro rfl
        simp
      · intro place
        obtain ⟨inside, _⟩ := List.getElem?_eq_some_iff.1 place
        by_cases old : number < table.length
        · rw [List.getElem?_append_left old] at place
          exact absurd (List.mem_of_getElem? place) absent
        · rw [List.length_append, List.length_singleton] at inside
          omega
    · rw [beq_false_of_ne same, if_neg Bool.false_ne_true, tabled.numbers]
      by_cases old : number < table.length
      · rw [List.getElem?_append_left old]
      · have missing : table[number]? = none := List.getElem?_eq_none (Nat.le_of_not_lt old)
        have last : ([text] : List Bytes)[number - table.length]? ≠ some other := by
          intro place
          exact same (List.mem_singleton.1 (List.mem_of_getElem? place)).symm
        rw [missing, List.getElem?_append_right (Nat.le_of_not_lt old)]
        exact ⟨nofun, fun place => absurd place last⟩

theorem report_literals (fragment : Fragment) (error : AssembleError) :
    (fragment.report error).literals = fragment.literals ∧
      (fragment.report error).literalNumbers = fragment.literalNumbers := by
  unfold report
  cases fragment.fault with
  | some _ => exact ⟨rfl, rfl⟩
  | none => exact ⟨rfl, rfl⟩

theorem Tabled.report (tabled : Tabled fragment table) (error : AssembleError) :
    Tabled (fragment.report error) table :=
  tabled.congr (fragment.report_literals error).1 (fragment.report_literals error).2

theorem Tabled.bindAt (tabled : Tabled fragment table) (label : Label) (position : Nat) :
    Tabled (fragment.bindAt label position) table := by
  unfold Fragment.bindAt
  by_cases taken : fragment.labels.contains label = true
  · rw [if_pos taken]
    exact tabled.report _
  · rw [if_neg taken]
    exact tabled.congr rfl rfl

theorem Tabled.plain (tabled : Tabled fragment table) (op : Opcode) :
    Tabled (fragment.emit (.plain op)) table := by
  simp only [emit]
  by_cases bare : op.operands.isEmpty = true
  · rw [if_pos bare]
    exact tabled.congr rfl rfl
  · rw [if_neg bare]
    exact tabled.report _

theorem Tabled.apply (tabled : Tabled fragment table) (command : Command) :
    Tabled (fragment.apply command) (Code.enlist table command.literal?.toList) := by
  cases command with
  | bind label => exact tabled.bindAt label _
  | entry label => exact tabled.congr rfl rfl
  | code byte =>
    change Tabled (fragment.emitCode byte) table
    unfold emitCode
    cases Opcode.ofCode? byte with
    | none => exact tabled.report _
    | some op => exact tabled.plain op
  | emit instruction =>
    cases instruction with
    | plain op => exact tabled.plain op
    | loadString text =>
      have opened : Tabled (fragment.pushOp .loadString) table := tabled.congr rfl rfl
      exact (opened.literalNumber text).congr rfl rfl
    | _ => exact tabled.congr rfl rfl

theorem Tabled.foldl_apply (tabled : Tabled fragment table) (code : Code) :
    Tabled (code.foldl Fragment.apply fragment) (Code.enlist table (Code.texts code)) := by
  induction code generalizing fragment table with
  | nil => exact tabled
  | cons command code ih =>
    have rest := ih (tabled.apply command)
    rw [← Code.enlist_append] at rest
    have split : Code.texts (command :: code) = command.literal?.toList ++ Code.texts code := by
      unfold Code.texts
      cases found : command.literal? with
      | none => rw [List.filterMap_cons_none found]; rfl
      | some text => rw [List.filterMap_cons_some found]; rfl
    rw [split]
    exact rest

theorem tabled_empty (scope : Bytes) : Tabled (empty scope) [] where
  literals := rfl
  numbers := by
    intro text number
    simp [empty]

theorem Tabled.adoptLiterals {literals : Array Bytes} {number : Bytes → Nat} (base : Nat)
    (code : Code) (tabled : Tabled fragment table) (position : Nat)
    (known : ∀ command ∈ code, ∀ text, command.literal? = some text →
      literals[number text]? = some text) :
    Tabled ((Code.literalSites number position code).foldl (adoptLiteral literals base) fragment)
      (Code.enlist table (Code.texts code)) := by
  induction code generalizing fragment table position with
  | nil => exact tabled
  | cons command code ih =>
    simp only [List.mem_cons, forall_eq_or_imp] at known
    unfold Code.literalSites Code.texts
    cases found : command.literal? with
    | none =>
      rw [List.filterMap_cons_none found]
      exact ih tabled _ known.2
    | some text =>
      rw [List.filterMap_cons_some found]
      have same : literals.getD (number text) ByteArray.empty = text := by
        rw [Array.getD_eq_getD_getElem?, known.1 text found]
        rfl
      have first : Tabled (fragment.adoptLiteral literals base (position + 1, number text))
          (Code.enlist table [text]) := by
        unfold adoptLiteral
        rw [same]
        exact (tabled.literalNumber text).congr rfl rfl
      exact ih first _ known.2

theorem Tabled.append (tabled : Tabled fragment table) (built : Built other code)
    (clean : (fragment.append other).fault = none) :
    Tabled (fragment.append other) (Code.enlist table (Code.texts code)) := by
  obtain ⟨_, _, labels, complete, completed, equation, _⟩ := append_spec clean
  have known : ∀ command ∈ code, ∀ text, command.literal? = some text →
      other.literals[other.number text]? = some text := by
    intro command member text found
    obtain ⟨number, place⟩ := Option.isSome_iff_exists.1
      (Std.HashMap.mem_iff_isSome_getElem?.1 (built.numbered command member text found))
    have same : other.number text = number := by
      simp [Fragment.number, Std.HashMap.getD_eq_getD_getElem?, place]
    rw [same]
    exact built.literals text number place
  have placed : Tabled (placing fragment other labels) table := tabled.congr rfl rfl
  have adopted := placed.adoptLiterals fragment.code.size code 0 known
  rw [← built.literalUses, ← adoptLiterals_eq, completed] at adopted
  rw [equation]
  exact adopted.congr rfl rfl

/-! ### Faults -/

theorem clean_report {error : AssembleError} : ¬(fragment.report error).fault = none :=
  report_fault fragment error

theorem clean_bindAt {position : Nat} :
    (fragment.bindAt label position).fault = none ↔
      fragment.fault = none ∧ label ∉ fragment.labels := by
  constructor
  · intro clean
    have bound := bindAt_eq clean
    rw [bound.2] at clean
    exact ⟨clean, bound.1⟩
  · rintro ⟨clean, absent⟩
    rw [bindAt_of_not_mem absent]
    exact clean

theorem clean_plain {op : Opcode} :
    (fragment.emit (.plain op)).fault = none ↔
      fragment.fault = none ∧ op.operands.isEmpty = true := by
  simp only [emit]
  by_cases bare : op.operands.isEmpty = true
  · rw [if_pos bare]
    exact ⟨fun clean => ⟨clean, bare⟩, And.left⟩
  · rw [if_neg bare]
    exact ⟨fun clean => absurd clean clean_report, fun both => absurd both.2 bare⟩

/-- A building call is refused if it is incomplete or binds a label again. -/
theorem clean_apply :
    (fragment.apply command).fault = none ↔
      fragment.fault = none ∧ command.isWhole = true ∧
        ∀ label, command = .bind label → label ∉ fragment.labels := by
  cases command with
  | bind label =>
    refine clean_bindAt.trans (and_congr_right fun _ => ?_)
    simp [Command.isWhole]
  | entry label => simp [apply, addEntry, Command.isWhole]
  | code byte =>
    simp only [apply, emitCode, Command.isWhole]
    cases Opcode.ofCode? byte with
    | none => simp [clean_report]
    | some op => simp [clean_plain]
  | emit instruction =>
    cases instruction with
    | plain op => simp [apply, clean_plain, Command.isWhole, Instruction.isWhole]
    | loadString text =>
      obtain ⟨literals, literalNumbers, equation, _⟩ :=
        (fragment.pushOp .loadString).literalNumber_spec text
      simp only [apply, emit, pushLiteral, pushWord, equation, Command.isWhole,
        Instruction.isWhole]
      simp [pushOp, pushByte]
    | _ => simp [apply, emit, Command.isWhole, Instruction.isWhole, pushOp, pushByte, pushWord,
        pushLong, pushLabelUse]

theorem Holds.mem_labels (holds : Holds fragment code) :
    label ∈ fragment.labels ↔ label ∈ Code.bound code := by
  rw [Std.HashMap.mem_iff_isSome_getElem?, Option.isSome_iff_exists, Code.mem_bound]
  exact exists_congr fun position => holds.labels label position

theorem clean_foldl_bindAt {names : List Label} (position : Label → Nat) (nodup : names.Nodup) :
    (names.foldl (fun result name => result.bindAt name (position name)) fragment).fault = none ↔
      fragment.fault = none ∧ ∀ name ∈ names, name ∉ fragment.labels := by
  induction names generalizing fragment with
  | nil => simp
  | cons name names ih =>
    rw [List.nodup_cons] at nodup
    rw [List.foldl_cons, ih nodup.2, clean_bindAt, and_assoc]
    refine and_congr_right fun _ => ?_
    rw [List.forall_mem_cons]
    refine and_congr_right fun absent => ?_
    rw [bindAt_of_not_mem absent]
    refine forall₂_congr fun other member => ?_
    have apart : name ≠ other := fun same => nodup.1 (same ▸ member)
    simp [Std.HashMap.mem_insert, apart]

/-- Two fragments can be joined if they can be built and no label is bound in both. -/
theorem clean_append :
    (fragment.append other).fault = none ↔
      fragment.fault = none ∧ other.fault = none ∧
        ∀ label ∈ fragment.labels, label ∉ other.labels := by
  have nodup : (Bytes.sort other.labels.keys).Nodup :=
    (List.mergeSort_perm _ _).nodup_iff.2 Std.HashMap.nodup_keys
  cases faulty : other.fault with
  | some error =>
    constructor
    · intro clean
      have none := (append_spec clean).2.1
      rw [faulty] at none
      cases none
    · rintro ⟨_, none, _⟩
      cases none
  | none =>
    rw [append_eq faulty]
    simp only [adoptLiterals_fault]
    unfold adoptLabels
    rw [clean_foldl_bindAt (fun name => other.labels.getD name 0 + fragment.code.size) nodup]
    refine and_congr_right fun _ => ?_
    simp only [Bytes.sort, List.mem_mergeSort, Std.HashMap.mem_keys, true_and]
    exact ⟨fun apart label left right => apart label right left,
      fun apart label right left => apart label left right⟩

/-! ### Fragments that stand for code -/

/-- A fragment that holds a piece of code, or has a fault because that is refused. -/
structure Renders (fragment : Fragment) (code : Code) : Prop where
  clean : fragment.fault = none ↔ Code.IsAccepted code
  holds : fragment.fault = none → Holds fragment code
  tabled : fragment.fault = none → Tabled fragment (Code.pool code)

theorem renders_empty (scope : Bytes) : Renders (empty scope) [] where
  clean := by simp [empty, Code.IsAccepted, Code.bound, Code.bindings]
  holds := fun _ => (built_empty scope).toHolds
  tabled := fun _ => tabled_empty scope

theorem isAccepted_single : Code.IsAccepted [command] ↔ command.isWhole = true := by
  unfold Code.IsAccepted Code.bound
  rw [List.forall_mem_singleton]
  refine and_iff_left ?_
  cases command <;> simp [Code.bindings]

theorem mem_bound_single : label ∈ Code.bound [command] ↔ command = .bind label := by
  unfold Code.bound
  cases command <;> simp [Code.bindings, eq_comm]

theorem built_code {scope : Bytes} (clean : (code.foldl apply (empty scope)).fault = none) :
    Built (code.foldl apply (empty scope)) code :=
  built_foldl (built_empty scope) code clean

theorem renders_foldl (scope : Bytes) (code : Code) :
    Renders (code.foldl apply (empty scope)) code := by
  refine ⟨?_, fun clean => (built_code clean).toHolds,
    fun _ => (tabled_empty scope).foldl_apply code⟩
  induction code using List.reverseRecOn with
  | nil => exact (renders_empty scope).clean
  | append_singleton code command ih =>
    rw [List.foldl_append, List.foldl_cons, List.foldl_nil, clean_apply, ih,
      Code.isAccepted_append, isAccepted_single]
    refine and_congr_right fun accepted => and_congr_right fun _ => ?_
    have held := (built_code (ih.2 accepted)).toHolds
    constructor
    · intro apart label member binds
      exact apart label (mem_bound_single.1 binds) (held.mem_labels.2 member)
    · intro apart label binds member
      exact apart label (held.mem_labels.1 member) (mem_bound_single.2 binds)

/-- Joining a fragment that was built apart renders its code too. -/
theorem Renders.append (renders : Renders fragment code) (scope : Bytes) (part : Code) :
    Renders (fragment.append (part.foldl apply (empty scope))) (code ++ part) := by
  have other := renders_foldl scope part
  refine ⟨?_, ?_, ?_⟩
  · rw [clean_append, Code.isAccepted_append, renders.clean, other.clean]
    refine and_congr_right fun accepted => and_congr_right fun partAccepted => ?_
    have left := renders.holds (renders.clean.2 accepted)
    have right := other.holds (other.clean.2 partAccepted)
    simp only [left.mem_labels, right.mem_labels]
  · intro clean
    have both := clean_append.1 clean
    exact (renders.holds both.1).append (built_code both.2.1) clean
  · intro clean
    have both := clean_append.1 clean
    rw [Code.pool_append]
    exact (renders.tabled both.1).append (built_code both.2.1) clean

theorem Renders.foldl_append (renders : Renders fragment code) (parts : List (Bytes × Code)) :
    Renders
      ((parts.map fun part => part.2.foldl apply (empty part.1)).foldl Fragment.append fragment)
      (code ++ parts.flatMap Prod.snd) := by
  induction parts generalizing fragment code with
  | nil =>
    rw [List.flatMap_nil, List.append_nil]
    exact renders
  | cons part parts ih =>
    rw [List.flatMap_cons, ← List.append_assoc]
    exact ih (renders.append part.1 part.2)

/-! ## Closing -/

theorem exists_foldlM_resolveUse {sites : List (Nat × Label)} {start : Bytes} :
    (∃ result, sites.foldlM fragment.resolveUse start = .ok result) ↔
      ∀ site ∈ sites, site.2 ∈ fragment.labels := by
  induction sites generalizing start with
  | nil =>
    constructor
    · intro _ _ member
      cases member
    · intro _
      exact ⟨start, rfl⟩
  | cons site sites ih =>
    rw [List.foldlM_cons, List.forall_mem_cons]
    cases first : fragment.resolveUse start site with
    | error error =>
      constructor
      · rintro ⟨_, wrong⟩
        cases wrong
      · rintro ⟨bound, _⟩
        obtain ⟨target, found⟩ := Option.isSome_iff_exists.1
          (Std.HashMap.mem_iff_isSome_getElem?.1 bound)
        unfold resolveUse at first
        rw [found] at first
        cases first
    | ok next => exact ih.trans (and_iff_right (resolveUse_eq first).1).symm

theorem exists_resolveEntry :
    (∃ entry, fragment.resolveEntry label = .ok entry) ↔ label ∈ fragment.labels := by
  rw [Std.HashMap.mem_iff_isSome_getElem?]
  unfold resolveEntry
  cases fragment.labels[label]? with
  | none => exact ⟨nofun, nofun⟩
  | some target => exact ⟨fun _ => rfl, fun _ => ⟨UInt32.ofNat target, rfl⟩⟩

theorem exists_mapM_resolveEntry {labels : List Label} :
    (∃ entries, labels.mapM fragment.resolveEntry = .ok entries) ↔
      ∀ label ∈ labels, label ∈ fragment.labels := by
  induction labels with
  | nil =>
    constructor
    · intro _ _ member
      cases member
    · intro _
      exact ⟨[], rfl⟩
  | cons label labels ih =>
    rw [List.mapM_cons, List.forall_mem_cons, ← ih, ← exists_resolveEntry]
    cases first : fragment.resolveEntry label with
    | error error => exact ⟨nofun, nofun⟩
    | ok entry =>
      cases rest : labels.mapM fragment.resolveEntry with
      | error error => exact ⟨nofun, nofun⟩
      | ok entries =>
        exact ⟨fun _ => ⟨⟨entry, rfl⟩, entries, rfl⟩, fun _ => ⟨entry :: entries, rfl⟩⟩

theorem close_eq (clean : fragment.fault = none) :
    fragment.close = (do
      let code ← fragment.labelUses.toList.foldlM fragment.resolveUse fragment.code
      let entries ← fragment.entries.toList.mapM fragment.resolveEntry
      return { code, literals := fragment.literals, entries := entries.toArray }) := by
  unfold close
  rw [clean, Array.foldlM_toList, ← Array.toList_mapM]
  cases fragment.labelUses.foldlM fragment.resolveUse fragment.code with
  | error error => rfl
  | ok code =>
    cases fragment.entries.mapM fragment.resolveEntry with
    | error error => rfl
    | ok entries => rfl

theorem Holds.address_eq (holds : Holds fragment code) (accepted : Code.IsAccepted code)
    (bound : label ∈ Code.bound code) : fragment.address label = Code.address code label := by
  obtain ⟨position, member⟩ := Code.mem_bound.1 bound
  rw [Code.address_eq accepted member, address, Std.HashMap.getD_eq_getD_getElem?,
    (holds.labels label position).2 member]
  rfl

theorem assembled_eq {result : Bytes} {entries : List UInt32} (accepted : Code.IsAccepted code)
    (holds : Holds fragment code) (tabled : Tabled fragment (Code.pool code))
    (filled : fragment.labelUses.toList.foldlM fragment.resolveUse fragment.code = .ok result)
    (listed : fragment.entries.toList.mapM fragment.resolveEntry = .ok entries) :
    (⟨result, fragment.literals, entries.toArray⟩ : Assembly) = Code.assembled code := by
  rw [holds.uses] at filled
  rw [holds.entries] at listed
  obtain ⟨bytes, used⟩ := @foldlM_resolveUse fragment fragment.number code fragment.code result []
    (by rw [holds.bytes, List.nil_append]) filled
  have starts := exists_mapM_resolveEntry.1 ⟨entries, listed⟩
  have stream : result = (Code.assembled code).code := by
    rw [← Bytes.ofList_toList result, bytes, List.nil_append]
    apply congrArg Bytes.ofList
    apply Code.bytes_congr
    · intro command member label found
      exact holds.address_eq accepted (holds.mem_labels.1 (used command member label found))
    · intro command member text found
      exact tabled.number_eq (Code.mem_pool.2 ⟨command, member, found⟩)
  have literals : fragment.literals = (Code.assembled code).literals := by
    refine Array.toList_inj.1 ?_
    rw [tabled.literals]
    rfl
  have entryList : entries.toArray = (Code.assembled code).entries := by
    rw [mapM_resolveEntry listed]
    apply congrArg List.toArray
    apply List.map_congr_left
    intro label member
    rw [holds.address_eq accepted (holds.mem_labels.1 (starts label member))]
  rw [stream, literals, entryList]

theorem Renders.close_eq_ok (renders : Renders fragment code) (assembly : Assembly) :
    fragment.close = .ok assembly ↔ Code.assemble? code = some assembly := by
  unfold Code.assemble?
  by_cases accepted : Code.IsAccepted code
  · have clean := renders.clean.2 accepted
    have holds := renders.holds clean
    have tabled := renders.tabled clean
    have uses : (∃ result, fragment.labelUses.toList.foldlM fragment.resolveUse fragment.code =
        .ok result) ↔ ∀ site ∈ Code.labelSites 0 code, site.2 ∈ Code.bound code := by
      rw [exists_foldlM_resolveUse, holds.uses]
      simp only [holds.mem_labels]
    have starts : (∃ entries, fragment.entries.toList.mapM fragment.resolveEntry = .ok entries) ↔
        ∀ label ∈ Code.entries code, label ∈ Code.bound code := by
      rw [exists_mapM_resolveEntry, holds.entries]
      simp only [holds.mem_labels]
    rw [close_eq clean]
    cases filled : fragment.labelUses.toList.foldlM fragment.resolveUse fragment.code with
    | error error =>
      have undefined : ¬Code.IsClosed code := by
        intro closed
        obtain ⟨result, done⟩ := uses.2 closed.1
        rw [done] at filled
        cases filled
      rw [if_neg fun both => undefined both.2]
      exact ⟨nofun, nofun⟩
    | ok result =>
      cases listed : fragment.entries.toList.mapM fragment.resolveEntry with
      | error error =>
        have undefined : ¬Code.IsClosed code := by
          intro closed
          obtain ⟨entries, done⟩ := starts.2 closed.2
          rw [done] at listed
          cases listed
        rw [if_neg fun both => undefined both.2]
        exact ⟨nofun, nofun⟩
      | ok entries =>
        have closed : Code.IsClosed code := ⟨uses.1 ⟨result, filled⟩, starts.1 ⟨entries, listed⟩⟩
        have same := assembled_eq accepted holds tabled filled listed
        rw [if_pos ⟨accepted, closed⟩, ← same]
        exact ⟨fun equal => congrArg some (Except.ok.inj equal),
          fun equal => congrArg Except.ok (Option.some.inj equal)⟩
  · have faulty : fragment.fault ≠ none := fun clean => accepted (renders.clean.1 clean)
    rw [if_neg fun both => accepted both.1]
    obtain ⟨error, found⟩ := Option.ne_none_iff_exists'.1 faulty
    unfold close
    rw [found]
    exact ⟨nofun, nofun⟩

/-! ## Fragments -/

/-- Code that was built in a fragment, with further pieces built in fragments of their own and
joined to it one after the other. -/
def joined (scope : Bytes) (code : Code) (parts : List (Bytes × Code)) : Fragment :=
  (parts.map fun part => part.2.foldl apply (empty part.1)).foldl Fragment.append
    (code.foldl apply (empty scope))

theorem joined_close_eq_ok (scope : Bytes) (code : Code) (parts : List (Bytes × Code))
    (assembly : Assembly) :
    (joined scope code parts).close = .ok assembly ↔
      Code.assemble? (code ++ parts.flatMap Prod.snd) = some assembly :=
  ((renders_foldl scope code).foldl_append parts).close_eq_ok assembly

/-- Fragments that are joined close if their code closes when it is built in one piece, and to the
same assembly. So it does not matter how code is cut into fragments. -/
theorem close_joined (scope : Bytes) (code : Code) (parts : List (Bytes × Code))
    (assembly : Assembly) :
    (∀ whole, (joined scope code parts).close = .ok assembly ↔
      ((code ++ parts.flatMap Prod.snd).foldl apply (empty whole)).close = .ok assembly) ∧
    ∀ other otherCode otherParts,
      otherCode ++ otherParts.flatMap Prod.snd = code ++ parts.flatMap Prod.snd →
        ((joined scope code parts).close = .ok assembly ↔
          (joined other otherCode otherParts).close = .ok assembly) := by
  constructor
  · intro whole
    rw [joined_close_eq_ok, (renders_foldl whole _).close_eq_ok]
  · intro other otherCode otherParts same
    rw [joined_close_eq_ok, joined_close_eq_ok, same]

/-- A loop that is left forwards and goes on backwards, and loads one text twice. -/
def loopCode : Code :=
  [.entry "main", .bind "main", .emit (.loadString "on"), .emit (.jumpIf "end"),
    .emit (.loadString "on"), .emit (.jump "main"), .bind "end", .code Opcode.ret.code]

def loopAssembly : Assembly where
  code := Bytes.ofList
    [4, 0, 0, 0, 0, 145, 20, 0, 0, 0, 4, 0, 0, 0, 0, 144, 0, 0, 0, 0, 149]
  literals := #["on"]
  entries := #[0]

theorem assemble?_loopCode : Code.assemble? loopCode = some loopAssembly := by
  decide

/-- The loop in two fragments, each with one of its jumps, and in three. -/
theorem close_joined_loop :
    (joined "" (loopCode.take 4) [("tail", loopCode.drop 4)]).close = .ok loopAssembly ∧
      (joined "" [] [("a", loopCode.take 2), ("b", (loopCode.drop 2).take 3),
        ("c", loopCode.drop 5)]).close = .ok loopAssembly := by
  have closed := ((renders_foldl ByteArray.empty loopCode).close_eq_ok loopAssembly).2
    assemble?_loopCode
  have relocated := close_joined "" (loopCode.take 4) [("tail", loopCode.drop 4)] loopAssembly
  have halves := (relocated.1 ByteArray.empty).2 closed
  exact ⟨halves, (relocated.2 "" [] [("a", loopCode.take 2), ("b", (loopCode.drop 2).take 3),
    ("c", loopCode.drop 5)] rfl).1 halves⟩

end Fragment

end WordMachine
