import WordMachine.Lowering.Program
import WordMachine.Proofs.ByteStrings

/-!
Assembling code. Joining fragments and filling in their labels leaves every label at the position
where it was bound and every literal under the number that stands for it.
-/

namespace WordMachine

/-! ## Encoding -/

/-- The bytes of an instruction, given what labels and literals are written as. -/
def Instruction.bytes (address : Label → Nat) (number : Bytes → Nat) : Instruction → List UInt8
  | .plain op => [op.code]
  | .loadInt value => Opcode.loadInt.code :: Bytes.le32 value.toUInt32
  | .loadLong value => Opcode.loadLong.code :: Bytes.le64 value.toUInt64
  | .loadFloat bits => Opcode.loadFloat.code :: Bytes.le32 bits
  | .loadString text => Opcode.loadString.code :: Bytes.le32 (UInt32.ofNat (number text))
  | .loadAddress label => Opcode.loadAddress.code :: Bytes.le32 (UInt32.ofNat (address label))
  | .reserveConsts count => [Opcode.reserveConsts.code, count]
  | .storeConst slot => [Opcode.storeConst.code, slot]
  | .loadConst slot => [Opcode.loadConst.code, slot]
  | .makeStruct fields => [Opcode.makeStruct.code, fields]
  | .loadField position => [Opcode.loadField.code, position]
  | .jump label => Opcode.jump.code :: Bytes.le32 (UInt32.ofNat (address label))
  | .jumpIf label => Opcode.jumpIf.code :: Bytes.le32 (UInt32.ofNat (address label))
  | .call label arguments mode =>
    Opcode.call.code :: (Bytes.le32 (UInt32.ofNat (address label)) ++ [arguments, mode])
  | .callDynamic arguments mode => [Opcode.callDynamic.code, arguments, mode]
  | .platformCall code => [Opcode.platformCall.code, code]

/-- The label an instruction refers to. Its offset follows the operation. -/
def Instruction.label? : Instruction → Option Label
  | .loadAddress label => some label
  | .jump label => some label
  | .jumpIf label => some label
  | .call label _ _ => some label
  | _ => none

/-- The literal an instruction refers to. Its number follows the operation. -/
def Instruction.literal? : Instruction → Option Bytes
  | .loadString text => some text
  | _ => none

namespace Fragment.Command

def bytes (address : Label → Nat) (number : Bytes → Nat) : Command → List UInt8
  | .bind _ => []
  | .entry _ => []
  | .code byte => [byte]
  | .emit instruction => instruction.bytes address number

/-- The size of what a building call adds, which no label or literal changes. -/
def size (command : Command) : Nat :=
  (command.bytes (fun _ => 0) (fun _ => 0)).length

def label? : Command → Option Label
  | .emit instruction => instruction.label?
  | _ => none

def literal? : Command → Option Bytes
  | .emit instruction => instruction.literal?
  | _ => none

@[simp]
theorem length_bytes (address : Label → Nat) (number : Bytes → Nat) (command : Command) :
    (command.bytes address number).length = command.size := by
  cases command with
  | emit instruction => cases instruction <;> rfl
  | _ => rfl

theorem bytes_congr {address other : Label → Nat} {number another : Bytes → Nat} (command : Command)
    (labels : ∀ label, command.label? = some label → address label = other label)
    (literals : ∀ text, command.literal? = some text → number text = another text) :
    command.bytes address number = command.bytes other another := by
  cases command with
  | emit instruction =>
    cases instruction <;>
      simp_all [bytes, Instruction.bytes, label?, literal?, Instruction.label?,
        Instruction.literal?]
  | _ => rfl

theorem eq_of_literal? {command : Command} {text : Bytes} (found : command.literal? = some text) :
    command = .emit (.loadString text) := by
  cases command with
  | emit instruction =>
    cases instruction with
    | loadString other =>
      cases found
      rfl
    | _ => cases found
  | _ => cases found

end Fragment.Command

namespace Lowering.Code

open Fragment (Command)

def bytes (address : Label → Nat) (number : Bytes → Nat) (code : Code) : List UInt8 :=
  code.flatMap (Command.bytes address number)

def size (code : Code) : Nat :=
  (code.map Command.size).sum

/-- Where labels are bound in code that starts at a position. -/
def bindings : Nat → Code → List (Label × Nat)
  | _, [] => []
  | position, .bind label :: code => (label, position) :: bindings position code
  | position, command :: code => bindings (position + command.size) code

/-- Where the offsets of labels are written. -/
def labelSites : Nat → Code → List (Nat × Label)
  | _, [] => []
  | position, command :: code =>
    command.label?.toList.map (position + 1, ·) ++ labelSites (position + command.size) code

def literalSites (number : Bytes → Nat) : Nat → Code → List (Nat × Nat)
  | _, [] => []
  | position, command :: code =>
    command.literal?.toList.map (fun text => (position + 1, number text)) ++
      literalSites number (position + command.size) code

def entries : Code → List Label
  | [] => []
  | .entry label :: code => label :: entries code
  | _ :: code => entries code

@[simp]
theorem bytes_append (address : Label → Nat) (number : Bytes → Nat) (left right : Code) :
    bytes address number (left ++ right) =
      bytes address number left ++ bytes address number right :=
  List.flatMap_append

@[simp]
theorem size_append (left right : Code) : size (left ++ right) = size left + size right := by
  simp [size]

theorem length_bytes (address : Label → Nat) (number : Bytes → Nat) (code : Code) :
    (bytes address number code).length = size code := by
  simp [bytes, size, List.length_flatMap]

theorem bytes_congr {address other : Label → Nat} {number another : Bytes → Nat} {code : Code}
    (labels : ∀ command ∈ code, ∀ label, command.label? = some label →
      address label = other label)
    (literals : ∀ command ∈ code, ∀ text, command.literal? = some text →
      number text = another text) :
    bytes address number code = bytes other another code := by
  induction code with
  | nil => rfl
  | cons command code ih =>
    simp only [List.mem_cons, forall_eq_or_imp] at labels literals
    have first := Command.bytes_congr command labels.1 literals.1
    have rest := ih labels.2 literals.2
    simp only [bytes, List.flatMap_cons] at rest ⊢
    rw [first, rest]

theorem bindings_append (position : Nat) (left right : Code) :
    bindings position (left ++ right) =
      bindings position left ++ bindings (position + size left) right := by
  induction left generalizing position with
  | nil => rfl
  | cons command left ih =>
    cases command <;>
      simp [bindings, ih, size, Nat.add_assoc, Command.size, Command.bytes]

theorem labelSites_append (position : Nat) (left right : Code) :
    labelSites position (left ++ right) =
      labelSites position left ++ labelSites (position + size left) right := by
  induction left generalizing position with
  | nil => rfl
  | cons command left ih =>
    simp [labelSites, ih, size, Nat.add_assoc]

theorem literalSites_append (number : Bytes → Nat) (position : Nat) (left right : Code) :
    literalSites number position (left ++ right) =
      literalSites number position left ++ literalSites number (position + size left) right := by
  induction left generalizing position with
  | nil => rfl
  | cons command left ih =>
    simp [literalSites, ih, size, Nat.add_assoc]

theorem literalSites_congr {number another : Bytes → Nat} {position : Nat} {code : Code}
    (literals : ∀ command ∈ code, ∀ text, command.literal? = some text →
      number text = another text) :
    literalSites number position code = literalSites another position code := by
  induction code generalizing position with
  | nil => rfl
  | cons command code ih =>
    simp only [List.mem_cons, forall_eq_or_imp] at literals
    rw [literalSites, literalSites, ih literals.2]
    cases found : command.literal? with
    | none => rfl
    | some text => simp [literals.1 text found]

theorem entries_append (left right : Code) :
    entries (left ++ right) = entries left ++ entries right := by
  induction left with
  | nil => rfl
  | cons command left ih =>
    cases command <;> simp [entries, ih]

end Lowering.Code

/-! ## Building -/

namespace Fragment

open Lowering (Code)

variable {fragment other before after : Fragment} {code : Code} {label : Label} {command : Command}
variable {position : Nat} {op : Opcode} {text : Bytes}

def number (fragment : Fragment) (text : Bytes) : Nat :=
  fragment.literalNumbers.getD text 0

/-- A fragment that holds a piece of code, with the offsets of labels left out. -/
structure Holds (fragment : Fragment) (code : Code) : Prop where
  bytes : Bytes.toList fragment.code = Code.bytes (fun _ => 0) fragment.number code
  labels : ∀ (label : Label) (position : Nat),
    fragment.labels[label]? = some position ↔ (label, position) ∈ Code.bindings 0 code
  uses : fragment.labelUses.toList = Code.labelSites 0 code
  numbered : ∀ command ∈ code, ∀ text, command.literal? = some text →
    text ∈ fragment.literalNumbers
  literals : ∀ (text : Bytes) (number : Nat), fragment.literalNumbers[text]? = some number →
    fragment.literals[number]? = some text
  few : fragment.literals.size ≤ fragment.code.size
  entries : fragment.entries.toList = Code.entries code
  complete : ∀ op, Command.emit (.plain op) ∈ code → op.operands = []

structure Built (fragment : Fragment) (code : Code) : Prop extends Holds fragment code where
  literalUses : fragment.literalUses.toList = Code.literalSites fragment.number 0 code

theorem Holds.size_eq (holds : Holds fragment code) : fragment.code.size = Code.size code := by
  rw [← Bytes.length_toList, holds.bytes, Code.length_bytes]

theorem report_fault (fragment : Fragment) (error : AssembleError) :
    (fragment.report error).fault ≠ none := by
  unfold report
  cases found : fragment.fault with
  | none => simp
  | some first => simp [found]

theorem bindAt_eq {name : Label} (clean : (fragment.bindAt name position).fault = none) :
    name ∉ fragment.labels ∧
      fragment.bindAt name position =
        { fragment with labels := fragment.labels.insert name position } := by
  unfold bindAt at clean ⊢
  split at clean
  · exact absurd clean (report_fault _ _)
  · next absent =>
    rw [if_neg absent]
    exact ⟨by simpa using absent, rfl⟩

theorem bindAt_of_not_mem (absent : label ∉ fragment.labels) (place : Nat) :
    fragment.bindAt label place =
      { fragment with labels := fragment.labels.insert label place } := by
  unfold bindAt
  simp [absent]

theorem adoptLabels_single (fragment : Fragment) (label : Label) (place base : Nat) :
    fragment.adoptLabels ((∅ : Std.HashMap Label Nat).insert label place) base =
      fragment.bindAt label (place + base) := by
  have keys : ((∅ : Std.HashMap Label Nat).insert label place).keys = [label] := by
    have size : ((∅ : Std.HashMap Label Nat).insert label place).keys.length = 1 := by
      simp [Std.HashMap.length_keys, Std.HashMap.size_insert]
    have member : label ∈ ((∅ : Std.HashMap Label Nat).insert label place).keys := by
      simp
    obtain ⟨only, same⟩ := List.length_eq_one_iff.1 size
    rw [same] at member ⊢
    rw [List.mem_singleton.1 member]
  unfold adoptLabels
  rw [keys, Bytes.sort, List.mergeSort_singleton, List.foldl_cons, List.foldl_nil]
  simp

theorem getElem?_insert_iff {labels : Std.HashMap Label Nat} {name : Label} (absent : name ∉ labels)
    (position : Nat) (label : Label) (place : Nat) :
    (labels.insert name position)[label]? = some place ↔
      labels[label]? = some place ∨ (label = name ∧ place = position) := by
  rw [Std.HashMap.getElem?_insert]
  split
  · next same =>
    rw [← eq_of_beq same]
    have missing : labels[name]? = none := by
      simpa using absent
    simp [missing, eq_comm]
  · next different =>
    have apart : label ≠ name := fun same => different (by rw [same]; exact beq_self_eq_true _)
    simp [apart]

theorem literalNumber_spec (fragment : Fragment) (text : Bytes) :
    ∃ literals literalNumbers,
      (fragment.literalNumber text).2 = { fragment with literals, literalNumbers } ∧
        literalNumbers[text]? = some (fragment.literalNumber text).1 ∧
        literals.size ≤ fragment.literals.size + 1 ∧
        (∀ (other : Bytes) (number : Nat), fragment.literalNumbers[other]? = some number →
          literalNumbers[other]? = some number) ∧
        ((∀ (other : Bytes) (number : Nat), fragment.literalNumbers[other]? = some number →
            fragment.literals[number]? = some other) →
          ∀ (other : Bytes) (number : Nat), literalNumbers[other]? = some number →
            literals[number]? = some other) := by
  unfold literalNumber
  cases found : fragment.literalNumbers[text]? with
  | some number =>
    exact ⟨fragment.literals, fragment.literalNumbers, rfl, found, Nat.le_succ _,
      fun _ _ known => known, fun known => known⟩
  | none =>
    refine ⟨_, _, rfl, by simp, by simp, ?_, ?_⟩
    · intro other number known
      rw [Std.HashMap.getElem?_insert]
      split
      · next same =>
        rw [← eq_of_beq same, found] at known
        cases known
      · exact known
    · intro known other number
      rw [Std.HashMap.getElem?_insert]
      split
      · next same =>
        rintro ⟨rfl⟩
        rw [eq_of_beq same]
        simp
      · intro numbered
        have before := known other number numbered
        obtain ⟨inside, _⟩ := Array.getElem?_eq_some_iff.1 before
        rw [Array.getElem?_push, if_neg (Nat.ne_of_lt inside)]
        exact before

/-! ### One building call -/

theorem emit_plain_eq (clean : (fragment.emit (.plain op)).fault = none) :
    fragment.emit (.plain op) = { fragment with code := fragment.code.push op.code } := by
  simp only [emit] at clean ⊢
  split at clean
  · next empty =>
    rw [if_pos empty]
    rfl
  · exact absurd clean (report_fault _ _)

theorem operands_of_emit_plain (clean : (fragment.emit (.plain op)).fault = none) :
    op.operands = [] := by
  simp only [emit] at clean
  split at clean
  · next empty => exact List.isEmpty_iff.1 empty
  · exact absurd clean (report_fault _ _)

theorem fault_none_of_apply (clean : (fragment.apply command).fault = none) :
    fragment.fault = none := by
  have kept : ∀ error, (fragment.report error).fault = none → fragment.fault = none :=
    fun error clean => absurd clean (report_fault fragment error)
  have plain : ∀ op, (fragment.emit (.plain op)).fault = none → fragment.fault = none := by
    intro op clean
    rw [emit_plain_eq clean] at clean
    exact clean
  cases command with
  | bind label =>
    have equation := (bindAt_eq clean).2
    change (fragment.bindAt label fragment.code.size).fault = none at clean
    rw [equation] at clean
    exact clean
  | entry label => exact clean
  | code byte =>
    simp only [apply, emitCode] at clean
    split at clean
    · exact plain _ clean
    · exact kept _ clean
  | emit instruction =>
    cases instruction with
    | plain op => exact plain op clean
    | loadString text =>
      have equation := (fragment.pushOp .loadString).literalNumber_spec text
      obtain ⟨literals, literalNumbers, equation, _⟩ := equation
      simp only [apply, emit, pushLiteral, pushWord, equation] at clean
      exact clean
    | _ => exact clean

theorem code_ofCode? {byte : UInt8} (found : Opcode.ofCode? byte = some op) : op.code = byte := by
  unfold Opcode.ofCode? at found
  split at found <;> cases found <;> rfl

/-- A building call without label and literal only adds its bytes. -/
theorem apply_direct (clean : (fragment.apply command).fault = none)
    (noLabel : command.label? = none) (noLiteral : command.literal? = none)
    (noBind : ∀ label, command ≠ .bind label) (noEntry : ∀ label, command ≠ .entry label) :
    ∃ code, fragment.apply command = { fragment with code } ∧
      ∀ address number,
        Bytes.toList code = Bytes.toList fragment.code ++ command.bytes address number := by
  cases command with
  | bind label => exact absurd rfl (noBind label)
  | entry label => exact absurd rfl (noEntry label)
  | code byte =>
    simp only [apply, emitCode] at clean ⊢
    split at clean
    · next op found =>
      refine ⟨_, emit_plain_eq clean, fun _ _ => ?_⟩
      rw [Bytes.toList_push, code_ofCode? found]
      rfl
    · exact absurd clean (report_fault _ _)
  | emit instruction =>
    cases instruction with
    | plain op =>
      refine ⟨_, emit_plain_eq clean, fun _ _ => ?_⟩
      rw [Bytes.toList_push]
      rfl
    | loadString text => cases noLiteral
    | loadAddress label => cases noLabel
    | jump label => cases noLabel
    | jumpIf label => cases noLabel
    | call label arguments mode => cases noLabel
    | _ =>
      refine ⟨_, rfl, fun _ _ => ?_⟩
      simp [Command.bytes, Instruction.bytes, pushOp, pushByte]

/-- A building call with a label records where its offset belongs. -/
theorem apply_label (fragment : Fragment) (found : command.label? = some label) :
    ∃ code, fragment.apply command =
        { fragment with
          code, labelUses := fragment.labelUses.push (fragment.code.size + 1, label) } ∧
      ∀ number,
        Bytes.toList code = Bytes.toList fragment.code ++ command.bytes (fun _ => 0) number := by
  cases command with
  | emit instruction =>
    cases instruction <;> cases found
    all_goals
      refine ⟨_, by
        simp only [apply, emit, pushLabelUse, pushWord, pushOp, pushByte, ByteArray.size_push]
        rfl, fun number => ?_⟩
      simp [Command.bytes, Instruction.bytes]
  | _ => cases found

/-- What a building call changes. -/
structure Adds (before after : Fragment) (command : Command) : Prop where
  bytes : Bytes.toList after.code =
    Bytes.toList before.code ++ command.bytes (fun _ => 0) after.number
  labels : ∀ (label : Label) (position : Nat), after.labels[label]? = some position ↔
    before.labels[label]? = some position ∨
      (command = .bind label ∧ position = before.code.size)
  uses : after.labelUses.toList =
    before.labelUses.toList ++ command.label?.toList.map (before.code.size + 1, ·)
  kept : ∀ (text : Bytes) (number : Nat), before.literalNumbers[text]? = some number →
    after.literalNumbers[text]? = some number
  numbered : ∀ text, command.literal? = some text → text ∈ after.literalNumbers
  literals :
    (∀ (text : Bytes) (number : Nat), before.literalNumbers[text]? = some number →
      before.literals[number]? = some text) →
    ∀ (text : Bytes) (number : Nat), after.literalNumbers[text]? = some number →
      after.literals[number]? = some text
  few : after.literals.size ≤ before.literals.size + command.size
  literalUses : after.literalUses.toList = before.literalUses.toList ++
    command.literal?.toList.map fun text => (before.code.size + 1, after.number text)
  entries : after.entries.toList = before.entries.toList ++ Code.entries [command]
  complete : ∀ op, command = .emit (.plain op) → op.operands = []

theorem adds_bind (clean : (fragment.bind label).fault = none) :
    Adds fragment (fragment.bind label) (.bind label) := by
  obtain ⟨absent, equation⟩ := bindAt_eq clean
  rw [show fragment.bind label = _ from equation]
  refine { bytes := ?_, labels := ?_, uses := ?_, kept := fun _ _ known => known,
           numbered := ?_, literals := fun known => known, few := Nat.le_add_right _ _,
           literalUses := ?_, entries := ?_, complete := (fun _ same => nomatch same) }
  · simp [Command.bytes]
  · intro other position
    rw [getElem?_insert_iff absent, Command.bind.injEq, @eq_comm _ label other]
  · simp [Command.label?]
  · intro text found
    cases found
  · simp [Command.literal?]
  · simp [Code.entries]

theorem adds_entry (fragment : Fragment) (label : Label) :
    Adds fragment (fragment.addEntry label) (.entry label) where
  bytes := by simp [Command.bytes, addEntry]
  labels := by simp [addEntry]
  uses := by simp [Command.label?, addEntry]
  kept := fun _ _ known => known
  numbered := fun _ found => nomatch found
  literals := fun known => known
  few := Nat.le_add_right _ _
  literalUses := by simp [Command.literal?, addEntry]
  entries := by simp [Code.entries, addEntry]
  complete := fun _ same => nomatch same

theorem adds_literal (fragment : Fragment) (text : Bytes) :
    Adds fragment (fragment.emit (.loadString text)) (.emit (.loadString text)) := by
  obtain ⟨literals, literalNumbers, equation, numbered, few, kept, known⟩ :=
    (fragment.pushOp .loadString).literalNumber_spec text
  have number : ∀ code labelUses literalUses,
      ({ fragment with code, labelUses, literalUses, literals, literalNumbers } : Fragment).number
        text = ((fragment.pushOp .loadString).literalNumber text).1 := by
    intro _ _ _
    simp [Fragment.number, Std.HashMap.getD_eq_getD_getElem?, numbered]
  simp only [emit, pushLiteral, pushWord, equation]
  refine { bytes := ?_, labels := ?_, uses := ?_, kept := kept,
           numbered := ?_, literals := known, few := ?_, literalUses := ?_, entries := ?_,
           complete := (fun _ same => nomatch same) }
  · simp [Command.bytes, Instruction.bytes, number, pushOp, pushByte]
  · simp [pushOp, pushByte]
  · simp [Command.label?, Instruction.label?, pushOp, pushByte]
  · rintro other ⟨rfl⟩
    rw [Std.HashMap.mem_iff_isSome_getElem?, numbered]
    rfl
  · have five : Command.size (.emit (.loadString text)) = 5 := rfl
    have same : (fragment.pushOp .loadString).literals = fragment.literals := rfl
    rw [same] at few
    rw [five]
    exact Nat.le_trans few (by omega)
  · simp [Command.literal?, Instruction.literal?, number, pushOp, pushByte]
  · simp [Code.entries, pushOp, pushByte]

theorem apply_adds (clean : (fragment.apply command).fault = none) :
    Adds fragment (fragment.apply command) command := by
  cases foundLiteral : command.literal? with
  | some text =>
    rw [Command.eq_of_literal? foundLiteral]
    exact adds_literal fragment text
  | none =>
    cases foundLabel : command.label? with
    | some label =>
      obtain ⟨code, equation, bytes⟩ := fragment.apply_label foundLabel
      rw [equation]
      refine { bytes := bytes _, labels := ?_, uses := ?_,
               kept := fun _ _ known => known, numbered := ?_, literals := fun known => known,
               few := Nat.le_add_right _ _, literalUses := ?_, entries := ?_, complete := ?_ }
      · intro other position
        have noBind : command ≠ .bind other := by
          rintro rfl
          cases foundLabel
        simp [noBind]
      · simp [foundLabel]
      · rw [foundLiteral]
        exact fun _ found => nomatch found
      · simp [foundLiteral]
      · cases command <;> simp [Code.entries]
        cases foundLabel
      · rintro op rfl
        cases foundLabel
    | none =>
      by_cases isBind : ∃ label, command = .bind label
      · obtain ⟨label, rfl⟩ := isBind
        exact adds_bind clean
      by_cases isEntry : ∃ label, command = .entry label
      · obtain ⟨label, rfl⟩ := isEntry
        exact adds_entry fragment label
      obtain ⟨code, equation, bytes⟩ := apply_direct clean foundLabel foundLiteral
        (fun label same => isBind ⟨label, same⟩) (fun label same => isEntry ⟨label, same⟩)
      rw [equation]
      refine { bytes := bytes _ _, labels := ?_, uses := ?_,
               kept := fun _ _ known => known, numbered := ?_, literals := fun known => known,
               few := Nat.le_add_right _ _, literalUses := ?_, entries := ?_, complete := ?_ }
      · intro other position
        have noBind : command ≠ .bind other := fun same => isBind ⟨other, same⟩
        simp [noBind]
      · simp [foundLabel]
      · rw [foundLiteral]
        exact fun _ found => nomatch found
      · simp [foundLiteral]
      · cases command <;> simp [Code.entries]
        exact isEntry ⟨_, rfl⟩
      · rintro op rfl
        exact operands_of_emit_plain clean

theorem number_eq
    (kept : ∀ (text : Bytes) (number : Nat), before.literalNumbers[text]? = some number →
      after.literalNumbers[text]? = some number) (numbered : text ∈ before.literalNumbers) :
    before.number text = after.number text := by
  obtain ⟨number, known⟩ := Option.isSome_iff_exists.1
    (Std.HashMap.mem_iff_isSome_getElem?.1 numbered)
  simp [Fragment.number, Std.HashMap.getD_eq_getD_getElem?, known, kept text number known]

theorem mem_of_kept
    (kept : ∀ (text : Bytes) (number : Nat), before.literalNumbers[text]? = some number →
      after.literalNumbers[text]? = some number) (numbered : text ∈ before.literalNumbers) :
    text ∈ after.literalNumbers := by
  obtain ⟨number, known⟩ := Option.isSome_iff_exists.1
    (Std.HashMap.mem_iff_isSome_getElem?.1 numbered)
  rw [Std.HashMap.mem_iff_isSome_getElem?, kept text number known]
  rfl

theorem Built.adds (built : Built before code) (adds : Adds before after command) :
    Built after (code ++ [command]) := by
  have agree : ∀ other ∈ code, ∀ text, other.literal? = some text →
      before.number text = after.number text :=
    fun other member text found => number_eq adds.kept (built.numbered other member text found)
  have same : Code.bytes (fun _ => 0) before.number code =
      Code.bytes (fun _ => 0) after.number code :=
    Code.bytes_congr (fun _ _ _ _ => rfl) agree
  refine { bytes := ?_, labels := ?_, uses := ?_, numbered := ?_,
           literals := adds.literals built.literals, few := ?_, entries := ?_, complete := ?_,
           literalUses := ?_ }
  · rw [adds.bytes, built.bytes, Code.bytes_append, ← same]
    simp [Code.bytes]
  · intro label position
    rw [adds.labels, built.labels, Code.bindings_append, List.mem_append, built.size_eq]
    cases command <;> simp [Code.bindings, eq_comm]
  · rw [adds.uses, built.uses, Code.labelSites_append, built.size_eq, Nat.zero_add]
    simp [Code.labelSites]
  · intro other member text found
    rcases List.mem_append.1 member with member | member
    · exact mem_of_kept adds.kept (built.numbered other member text found)
    · rw [List.mem_singleton.1 member] at found
      exact adds.numbered text found
  · have grown : after.code.size = before.code.size + command.size := by
      rw [← Bytes.length_toList, adds.bytes, List.length_append, Command.length_bytes,
        Bytes.length_toList]
    have few := adds.few
    have before := built.few
    omega
  · rw [adds.entries, built.entries, Code.entries_append]
  · intro op member
    rcases List.mem_append.1 member with member | member
    · exact built.complete op member
    · exact adds.complete op (List.mem_singleton.1 member).symm
  · rw [adds.literalUses, built.literalUses, Code.literalSites_append, built.size_eq, Nat.zero_add,
      Code.literalSites_congr agree]
    simp [Code.literalSites]

theorem built_empty (scope : Bytes) : Built (empty scope) [] where
  bytes := rfl
  labels := by simp [empty, Code.bindings]
  uses := rfl
  numbered := fun _ member => nomatch member
  literals := by
    intro text number known
    simp [empty] at known
  few := Nat.le_refl _
  entries := rfl
  complete := fun _ member => nomatch member
  literalUses := rfl

theorem fault_none_of_foldl (clean : (code.foldl apply fragment).fault = none) :
    fragment.fault = none := by
  induction code generalizing fragment with
  | nil => exact clean
  | cons command code ih => exact fault_none_of_apply (ih clean)

/-- A fragment without errors holds the calls that built it. -/
theorem built_foldl (built : Built fragment code) (more : Code)
    (clean : (more.foldl apply fragment).fault = none) :
    Built (more.foldl apply fragment) (code ++ more) := by
  induction more generalizing fragment code with
  | nil =>
    rw [List.append_nil]
    exact built
  | cons command more ih =>
    have first : (fragment.apply command).fault = none := fault_none_of_foldl clean
    have rest := ih (built.adds (apply_adds first)) clean
    rw [List.append_assoc] at rest
    exact rest

/-! ### Joining -/

theorem foldl_bindAt {position : Label → Nat} (names : List Label)
    (clean : (names.foldl (fun result name => result.bindAt name (position name)) fragment).fault =
      none) :
    ∃ labels,
      names.foldl (fun result name => result.bindAt name (position name)) fragment =
        { fragment with labels } ∧
      ∀ (label : Label) (place : Nat), labels[label]? = some place ↔
        fragment.labels[label]? = some place ∨ (label ∈ names ∧ place = position label) := by
  induction names generalizing fragment with
  | nil => exact ⟨fragment.labels, rfl, by simp⟩
  | cons name names ih =>
    rw [List.foldl_cons] at clean ⊢
    obtain ⟨labels, equation, bound⟩ := ih clean
    rw [equation] at clean
    obtain ⟨absent, first⟩ := bindAt_eq (show (fragment.bindAt name (position name)).fault = none
      from clean)
    refine ⟨labels, by rw [equation, first], ?_⟩
    intro label place
    rw [bound, first, getElem?_insert_iff absent, List.mem_cons]
    grind

def adoptLiteral (literals : Array Bytes) (base : Nat) (fragment : Fragment) (use : Nat × Nat) :
    Fragment :=
  let (number, result) := fragment.literalNumber (literals.getD use.2 ByteArray.empty)
  { result with
    code := Bytes.setU32 result.code (use.1 + base) (UInt32.ofNat number)
    literalUses := result.literalUses.push (use.1 + base, number) }

theorem adoptLiterals_eq (fragment : Fragment) (literals : Array Bytes)
    (uses : Array (Nat × Nat)) (base : Nat) :
    fragment.adoptLiterals literals uses base =
      uses.toList.foldl (adoptLiteral literals base) fragment := by
  rw [Array.foldl_toList]
  rfl

/-- What taking over literals changes. -/
structure Adopts (before after : Fragment) (code : Code) : Prop where
  scope : { after with
    code := before.code, literals := before.literals, literalNumbers := before.literalNumbers
    literalUses := before.literalUses } = before
  kept : ∀ (text : Bytes) (number : Nat), before.literalNumbers[text]? = some number →
    after.literalNumbers[text]? = some number
  numbered : ∀ command ∈ code, ∀ text, command.literal? = some text →
    text ∈ after.literalNumbers
  literals :
    (∀ (text : Bytes) (number : Nat), before.literalNumbers[text]? = some number →
      before.literals[number]? = some text) →
    ∀ (text : Bytes) (number : Nat), after.literalNumbers[text]? = some number →
      after.literals[number]? = some text
  few : after.literals.size ≤ before.literals.size + Code.size code

theorem adoptLiteral_spec {literals : Array Bytes} {number : Nat} (fragment : Fragment)
    (base position : Nat) (known : literals[number]? = some text) :
    Adopts fragment (fragment.adoptLiteral literals base (position, number))
        [.emit (.loadString text)] ∧
      (fragment.adoptLiteral literals base (position, number)).code =
        Bytes.setU32 fragment.code (position + base)
          (UInt32.ofNat
            ((fragment.adoptLiteral literals base (position, number)).number text)) := by
  have same : literals.getD number ByteArray.empty = text := by
    simp [Array.getD_eq_getD_getElem?, known]
  obtain ⟨newLiterals, newNumbers, equation, numbered, few, kept, literalsKnown⟩ :=
    fragment.literalNumber_spec text
  unfold adoptLiteral
  simp only [same, equation]
  refine ⟨⟨rfl, kept, ?_, literalsKnown, ?_⟩, ?_⟩
  · intro command member other found
    rw [List.mem_singleton.1 member] at found
    cases found
    rw [Std.HashMap.mem_iff_isSome_getElem?, numbered]
    rfl
  · exact Nat.le_trans few (Nat.add_le_add_left (show 1 ≤ 5 by decide) _)
  · simp [Fragment.number, Std.HashMap.getD_eq_getD_getElem?, numbered]

theorem Adopts.trans {first second third : Fragment} {left right : Code}
    (before : Adopts first second left) (after : Adopts second third right) :
    Adopts first third (left ++ right) := by
  refine ⟨?_, fun text number known => after.kept text number (before.kept text number known), ?_,
    fun known => after.literals (before.literals known), ?_⟩
  · rw [← before.scope, ← after.scope]
  · intro command member text found
    rcases List.mem_append.1 member with member | member
    · exact mem_of_kept after.kept (before.numbered command member text found)
    · exact after.numbered command member text found
  · have first := before.few
    have second := after.few
    rw [Code.size_append]
    omega

theorem Adopts.of_literal?_eq_none (fragment : Fragment) (none : command.literal? = none) :
    Adopts fragment fragment [command] := by
  refine ⟨rfl, fun _ _ known => known, ?_, fun known => known, Nat.le_add_right _ _⟩
  intro other member text found
  rw [List.mem_singleton.1 member, none] at found
  cases found

/-- Taking over the literals of a piece of code rewrites their numbers in it. -/
theorem adoptLiterals_spec {literals : Array Bytes} {number : Bytes → Nat} {base : Nat}
    (code : Code) {before : List UInt8} (place : before.length = position + base)
    (bytes : Bytes.toList fragment.code = before ++ Code.bytes (fun _ => 0) number code)
    (known : ∀ command ∈ code, ∀ text, command.literal? = some text →
      literals[number text]? = some text) :
    ∃ after,
      (Code.literalSites number position code).foldl (adoptLiteral literals base) fragment =
        after ∧
      Adopts fragment after code ∧
      Bytes.toList after.code = before ++ Code.bytes (fun _ => 0) after.number code := by
  induction code generalizing fragment position before with
  | nil =>
    refine ⟨fragment, rfl, ⟨rfl, fun _ _ known => known, ?_, fun known => known, ?_⟩, bytes⟩
    · intro command member
      cases member
    · exact Nat.le_refl _
  | cons command code ih =>
    simp only [List.mem_cons, forall_eq_or_imp] at known
    cases found : command.literal? with
    | none =>
      have alone : ∀ another : Bytes → Nat,
          command.bytes (fun _ => 0) number = command.bytes (fun _ => 0) another :=
        fun another => Command.bytes_congr command (fun _ _ => rfl)
          (by rw [found]; exact fun _ none => nomatch none)
      obtain ⟨after, equation, adopts, rewritten⟩ :=
        @ih fragment (position + command.size)
          (before ++ command.bytes (fun _ => 0) number)
          (by rw [List.length_append, Command.length_bytes, place]; omega)
          (by rw [bytes, Code.bytes, List.flatMap_cons, List.append_assoc]; rfl)
          known.2
      refine ⟨after, ?_, (Adopts.of_literal?_eq_none fragment found).trans adopts, ?_⟩
      · simp [Code.literalSites, found, equation]
      · rw [rewritten, alone after.number]
        simp [Code.bytes]
    | some text =>
      obtain ⟨adopts, written⟩ :=
        adoptLiteral_spec fragment base (position + 1) (known.1 text found)
      rw [Command.eq_of_literal? found] at bytes ⊢
      generalize step : fragment.adoptLiteral literals base (position + 1, number text) = next
        at adopts written
      have site : (before ++ [Opcode.loadString.code]).length = position + 1 + base := by
        rw [List.length_append, place, List.length_singleton]
        omega
      have changed := Bytes.toList_setU32 (UInt32.ofNat (next.number text))
        (Bytes.length_le32 (UInt32.ofNat (number text)))
        (show Bytes.toList fragment.code = (before ++ [Opcode.loadString.code]) ++
          (Bytes.le32 (UInt32.ofNat (number text)) ++ Code.bytes (fun _ => 0) number code) by
          rw [bytes]
          simp [Code.bytes, Command.bytes, Instruction.bytes])
      rw [site, ← written] at changed
      obtain ⟨after, equation, rest, rewritten⟩ :=
        @ih next (position + 5)
          (before ++ Opcode.loadString.code :: Bytes.le32 (UInt32.ofNat (next.number text)))
          (by simp [place]; omega) (by rw [changed]; simp) known.2
      have agree : next.number text = after.number text :=
        number_eq rest.kept
          (adopts.numbered _ (List.mem_singleton_self _) text rfl)
      refine ⟨after, ?_, adopts.trans rest, ?_⟩
      · change List.foldl _ (fragment.adoptLiteral literals base (position + 1, number text))
          (Code.literalSites number (position + 5) code) = after
        rw [step]
        exact equation
      · rw [rewritten, agree]
        simp [Code.bytes, Command.bytes, Instruction.bytes]

theorem labelSites_shift (base position : Nat) (code : Code) :
    (Code.labelSites position code).map (fun site => (site.1 + base, site.2)) =
      Code.labelSites (position + base) code := by
  induction code generalizing position with
  | nil => rfl
  | cons command code ih =>
    rw [Code.labelSites, Code.labelSites, List.map_append, ih,
      Nat.add_right_comm]
    cases command.label? with
    | none => rfl
    | some label => simp [Nat.add_right_comm]

theorem mem_bindings_shift {base : Nat} {place : Nat} :
    (label, place) ∈ Code.bindings (position + base) code ↔
      ∃ inner, (label, inner) ∈ Code.bindings position code ∧ place = inner + base := by
  induction code generalizing position with
  | nil => simp [Code.bindings]
  | cons command code ih =>
    cases command with
    | bind other =>
      simp only [Code.bindings, List.mem_cons, Prod.mk.injEq, ih]
      grind
    | _ =>
      rw [Code.bindings, Code.bindings, Nat.add_right_comm]
      exact ih
      all_goals intro _ same; cases same

theorem foldl_push_eq {α β : Type} (change : α → β) (items : List α) (start : Array β) :
    (items.foldl (fun result item => result.push (change item)) start).toList =
      start.toList ++ items.map change := by
  induction items generalizing start with
  | nil => simp
  | cons item items ih =>
    rw [List.foldl_cons, ih]
    simp

theorem adoptLiterals_fault (fragment : Fragment) (literals : Array Bytes)
    (uses : Array (Nat × Nat)) (base : Nat) :
    (fragment.adoptLiterals literals uses base).fault = fragment.fault := by
  rw [adoptLiterals_eq]
  generalize uses.toList = sites
  induction sites generalizing fragment with
  | nil => rfl
  | cons site sites ih =>
    rw [List.foldl_cons, ih]
    obtain ⟨newLiterals, newNumbers, equation, _⟩ :=
      fragment.literalNumber_spec (literals.getD site.2 ByteArray.empty)
    unfold adoptLiteral
    simp only [equation]

/-- A fragment with the code of another after its own, before their literals are shared. -/
def placing (fragment other : Fragment) (labels : Std.HashMap Label Nat) : Fragment :=
  { fragment with
    code := fragment.code ++ other.code
    labels
    labelUses := other.labelUses.foldl
      (fun uses site => uses.push (site.1 + fragment.code.size, site.2)) fragment.labelUses }

theorem append_eq (clean : other.fault = none) :
    fragment.append other =
      let labelled :=
        ({ fragment with code := fragment.code ++ other.code } : Fragment).adoptLabels
          other.labels fragment.code.size
      let referring : Fragment := { labelled with
        labelUses := other.labelUses.foldl
          (fun uses site => uses.push (site.1 + fragment.code.size, site.2))
          labelled.labelUses }
      let complete := referring.adoptLiterals other.literals other.literalUses fragment.code.size
      { complete with entries := complete.entries ++ other.entries } := by
  unfold append
  rw [clean]

theorem append_single {place : Nat} (clean : other.fault = none)
    (bound : other.labels = (∅ : Std.HashMap Label Nat).insert label place)
    (plain : other.literalUses = #[]) (absent : label ∉ fragment.labels) :
    fragment.append other =
      { fragment with
        code := fragment.code ++ other.code
        labels := fragment.labels.insert label (place + fragment.code.size)
        labelUses := fragment.labelUses ++
          other.labelUses.map fun site => (site.1 + fragment.code.size, site.2)
        entries := fragment.entries ++ other.entries } := by
  have absentToo :
      label ∉ ({ fragment with code := fragment.code ++ other.code } : Fragment).labels :=
    absent
  have uses : other.labelUses.foldl
      (fun uses site => uses.push (site.1 + fragment.code.size, site.2)) fragment.labelUses =
        fragment.labelUses ++
          other.labelUses.map fun site => (site.1 + fragment.code.size, site.2) := by
    apply Array.toList_inj.1
    rw [← Array.foldl_toList, foldl_push_eq]
    simp
  rw [append_eq clean, bound, adoptLabels_single, bindAt_of_not_mem absentToo]
  simp [adoptLiterals, plain, uses]

/-- Two fragments that can be joined have no errors, nor do their labels clash. -/
theorem append_spec (clean : (fragment.append other).fault = none) :
    fragment.fault = none ∧ other.fault = none ∧
      ∃ labels complete,
        (placing fragment other labels).adoptLiterals other.literals other.literalUses
          fragment.code.size = complete ∧
        fragment.append other = { complete with entries := complete.entries ++ other.entries } ∧
        ∀ (label : Label) (place : Nat), labels[label]? = some place ↔
          fragment.labels[label]? = some place ∨
            ∃ inner, other.labels[label]? = some inner ∧ place = inner + fragment.code.size := by
  cases faulty : other.fault with
  | some error =>
    have started : (fragment.report error).fault = none := by
      unfold append at clean
      simp only [adoptLiterals_fault, faulty] at clean
      obtain ⟨labels, equation, _⟩ := foldl_bindAt _ clean
      unfold adoptLabels at clean
      rw [equation] at clean
      exact clean
    exact absurd started (report_fault fragment error)
  | none =>
    rw [append_eq faulty] at clean ⊢
    simp only [adoptLiterals_fault] at clean
    obtain ⟨labels, equation, bound⟩ := foldl_bindAt _ clean
    have started : fragment.fault = none := by
      unfold adoptLabels at clean
      rw [equation] at clean
      exact clean
    have labelled :
        ({ fragment with code := fragment.code ++ other.code } : Fragment).adoptLabels
          other.labels fragment.code.size =
          { fragment with code := fragment.code ++ other.code, labels } := equation
    refine ⟨started, rfl, labels, _, rfl, by simp only [labelled, placing], ?_⟩
    intro label place
    have known :
        label ∈ Bytes.sort other.labels.keys ↔ ∃ inner, other.labels[label]? = some inner := by
      unfold Bytes.sort
      rw [List.mem_mergeSort, Std.HashMap.mem_keys, Std.HashMap.mem_iff_isSome_getElem?,
        Option.isSome_iff_exists]
    rw [bound, known, Std.HashMap.getD_eq_getD_getElem?]
    refine or_congr_right ⟨?_, ?_⟩
    · rintro ⟨⟨inner, found⟩, rfl⟩
      exact ⟨inner, found, by rw [found]; rfl⟩
    · rintro ⟨inner, found, rfl⟩
      exact ⟨⟨inner, found⟩, by rw [found]; rfl⟩

theorem Holds.append {left right : Code} (holds : Holds fragment left) (built : Built other right)
    (clean : (fragment.append other).fault = none) :
    Holds (fragment.append other) (left ++ right) := by
  obtain ⟨_, _, labels, complete, completeEq, equation, bound⟩ := append_spec clean
  obtain ⟨after, literalsEq, adopts, rewritten⟩ :=
    @adoptLiterals_spec (placing fragment other labels) 0 other.literals other.number
      fragment.code.size right (Bytes.toList fragment.code)
      (by rw [Bytes.length_toList, Nat.zero_add])
      (by rw [placing, Bytes.toList_append, built.bytes])
      (by
        intro command member text found
        obtain ⟨number, known⟩ := Option.isSome_iff_exists.1
          (Std.HashMap.mem_iff_isSome_getElem?.1 (built.numbered command member text found))
        have same : other.number text = number := by
          simp [Fragment.number, Std.HashMap.getD_eq_getD_getElem?, known]
        rw [same]
        exact built.literals text number known)
  rw [← built.literalUses, ← adoptLiterals_eq, completeEq] at literalsEq
  rw [equation, literalsEq]
  have scope := adopts.scope
  have agree : ∀ command ∈ left, ∀ text, command.literal? = some text →
      fragment.number text = after.number text :=
    fun command member text found =>
      number_eq adopts.kept (holds.numbered command member text found)
  have same : Code.bytes (fun _ => 0) fragment.number left =
      Code.bytes (fun _ => 0) after.number left :=
    Code.bytes_congr (fun _ _ _ _ => rfl) agree
  refine { bytes := ?_, labels := ?_, uses := ?_, numbered := ?_,
           literals := adopts.literals holds.literals, few := ?_, entries := ?_, complete := ?_ }
  · change Bytes.toList after.code = Code.bytes (fun _ => 0) after.number (left ++ right)
    rw [rewritten, holds.bytes, same, Code.bytes_append]
  · intro label place
    have labelsEq : after.labels = labels := congrArg Fragment.labels scope
    change after.labels[label]? = some place ↔ _
    rw [labelsEq, bound, holds.labels, Code.bindings_append, List.mem_append, mem_bindings_shift,
      holds.size_eq]
    simp only [built.labels]
  · have usesEq : after.labelUses = other.labelUses.foldl
        (fun uses site => uses.push (site.1 + fragment.code.size, site.2)) fragment.labelUses :=
      congrArg Fragment.labelUses scope
    change after.labelUses.toList = _
    rw [usesEq, ← Array.foldl_toList, foldl_push_eq, holds.uses, built.uses, labelSites_shift,
      Code.labelSites_append, holds.size_eq]
  · intro command member text found
    rcases List.mem_append.1 member with member | member
    · exact mem_of_kept adopts.kept (holds.numbered command member text found)
    · exact adopts.numbered command member text found
  · have few := adopts.few
    have before := holds.few
    have size : after.code.size = Code.size left + Code.size right := by
      rw [← Bytes.length_toList, rewritten, holds.bytes, List.length_append, Code.length_bytes,
        Code.length_bytes]
    have leftSize := holds.size_eq
    change after.literals.size ≤ after.code.size
    change after.literals.size ≤ fragment.literals.size + Code.size right at few
    omega
  · have entriesEq : after.entries = (placing fragment other labels).entries := by
      rw [← scope]
    change (after.entries ++ other.entries).toList = _
    rw [entriesEq, Array.toList_append, placing, holds.entries, built.entries, Code.entries_append]
  · intro op member
    rcases List.mem_append.1 member with member | member
    · exact holds.complete op member
    · exact built.complete op member

/-- Joining fragments that were built apart joins their code. -/
theorem Holds.foldl_append (holds : Holds fragment code) (parts : List (Bytes × Code))
    (clean : ((parts.map fun part => part.2.foldl apply (empty part.1)).foldl Fragment.append
      fragment).fault = none) :
    Holds ((parts.map fun part => part.2.foldl apply (empty part.1)).foldl Fragment.append fragment)
      (code ++ parts.flatMap Prod.snd) := by
  induction parts generalizing fragment code with
  | nil => simpa using holds
  | cons part parts ih =>
    rw [List.map_cons, List.foldl_cons] at clean ⊢
    have first : (fragment.append (part.2.foldl apply (empty part.1))).fault = none := by
      clear ih holds
      generalize fragment.append (part.2.foldl apply (empty part.1)) = next at clean
      induction parts generalizing next with
      | nil => exact clean
      | cons part parts ih =>
        exact (append_spec (ih _ clean)).1
    have built := built_foldl (built_empty part.1) part.2 (append_spec first).2.1
    have rest := ih (holds.append built first) clean
    rw [List.flatMap_cons, ← List.append_assoc]
    exact rest

/-! ### Filling in labels -/

def address (fragment : Fragment) (label : Label) : Nat :=
  fragment.labels.getD label 0

theorem resolveUse_eq {code result : Bytes} {site : Nat × Label}
    (resolved : fragment.resolveUse code site = .ok result) :
    site.2 ∈ fragment.labels ∧
      result = Bytes.setU32 code site.1 (UInt32.ofNat (fragment.address site.2)) := by
  unfold resolveUse at resolved
  cases found : fragment.labels[site.2]? with
  | none =>
    rw [found] at resolved
    cases resolved
  | some target =>
    rw [found] at resolved
    refine ⟨?_, ?_⟩
    · rw [Std.HashMap.mem_iff_isSome_getElem?, found]
      rfl
    · rw [← Except.ok.inj resolved]
      simp [address, Std.HashMap.getD_eq_getD_getElem?, found]

theorem bytes_of_label? (found : command.label? = some label) (number : Bytes → Nat) :
    ∃ op after, ∀ address,
      command.bytes address number =
        op :: (Bytes.le32 (UInt32.ofNat (address label)) ++ after) := by
  cases command with
  | emit instruction =>
    cases instruction <;> cases found
    all_goals first
      | exact ⟨_, [_, _], fun _ => rfl⟩
      | exact ⟨_, [], fun _ => by rw [List.append_nil]; rfl⟩
  | _ => cases found

theorem foldlM_resolveUse {number : Bytes → Nat} (code : Code) {start result : Bytes}
    {before : List UInt8}
    (bytes : Bytes.toList start = before ++ Code.bytes (fun _ => 0) number code)
    (resolved : (Code.labelSites before.length code).foldlM fragment.resolveUse start =
      .ok result) :
    Bytes.toList result = before ++ Code.bytes fragment.address number code ∧
      ∀ command ∈ code, ∀ label, command.label? = some label → label ∈ fragment.labels := by
  induction code generalizing start before with
  | nil =>
    cases resolved
    exact ⟨bytes, fun _ member => nomatch member⟩
  | cons command code ih =>
    have place : ∀ address, (before ++ command.bytes address number).length =
        before.length + command.size := by
      intro address
      rw [List.length_append, Command.length_bytes]
    cases found : command.label? with
    | none =>
      have alone : command.bytes (fun _ => 0) number =
          command.bytes fragment.address number :=
        Command.bytes_congr command (by rw [found]; exact fun _ none => nomatch none)
          (fun _ _ => rfl)
      simp only [Code.labelSites, found, Option.toList_none, List.map_nil, List.nil_append,
        ← place fragment.address] at resolved
      obtain ⟨rewritten, defined⟩ := ih
        (by rw [bytes, Code.bytes, List.flatMap_cons, alone, ← List.append_assoc]; rfl)
        resolved
      refine ⟨?_, ?_⟩
      · rw [rewritten]
        simp [Code.bytes]
      · intro other member label known
        rcases List.mem_cons.1 member with rfl | member
        · rw [found] at known
          cases known
        · exact defined other member label known
    | some label =>
      obtain ⟨op, after, spelled⟩ := bytes_of_label? found number
      simp only [Code.labelSites, found, Option.toList_some, List.map_cons, List.map_nil,
        List.singleton_append, List.foldlM_cons] at resolved
      cases first : fragment.resolveUse start (before.length + 1, label) with
      | error error =>
        rw [first] at resolved
        cases resolved
      | ok next =>
        rw [first] at resolved
        obtain ⟨bound, nextEq⟩ := resolveUse_eq first
        have changed := Bytes.toList_setU32 (UInt32.ofNat (fragment.address label))
          (Bytes.length_le32 (UInt32.ofNat 0))
          (show Bytes.toList start = (before ++ [op]) ++
            (Bytes.le32 (UInt32.ofNat 0) ++ (after ++ Code.bytes (fun _ => 0) number code)) by
            rw [bytes, Code.bytes, List.flatMap_cons, spelled]
            simp [Code.bytes])
        rw [List.length_append, List.length_singleton, ← nextEq] at changed
        rw [← place fragment.address] at resolved
        obtain ⟨rewritten, defined⟩ := ih
          (by rw [changed, spelled]; simp) resolved
        refine ⟨?_, ?_⟩
        · rw [rewritten]
          simp [Code.bytes]
        · intro other member name known
          rcases List.mem_cons.1 member with rfl | member
          · rw [found] at known
            cases known
            exact bound
          · exact defined other member name known

theorem resolveEntry_eq {entry : UInt32} (resolved : fragment.resolveEntry label = .ok entry) :
    entry = UInt32.ofNat (fragment.address label) := by
  unfold resolveEntry at resolved
  cases found : fragment.labels[label]? with
  | none =>
    rw [found] at resolved
    cases resolved
  | some target =>
    rw [found] at resolved
    cases resolved
    simp [address, Std.HashMap.getD_eq_getD_getElem?, found]

theorem mapM_resolveEntry {labels : List Label} {entries : List UInt32}
    (resolved : labels.mapM fragment.resolveEntry = .ok entries) :
    entries = labels.map fun label => UInt32.ofNat (fragment.address label) := by
  induction labels generalizing entries with
  | nil =>
    cases resolved
    rfl
  | cons label labels ih =>
    rw [List.mapM_cons] at resolved
    cases first : fragment.resolveEntry label with
    | error error =>
      rw [first] at resolved
      cases resolved
    | ok entry =>
      cases rest : labels.mapM fragment.resolveEntry with
      | error error =>
        rw [first, rest] at resolved
        cases resolved
      | ok others =>
        rw [first, rest] at resolved
        cases resolved
        rw [List.map_cons, resolveEntry_eq first, ih rest]

/-- A finished piece of code: every operand is in place. -/
structure Finished (assembly : Assembly) (address : Label → Nat) (code : Code) : Prop where
  bytes : ∃ number : Bytes → Nat,
    Bytes.toList assembly.code = Code.bytes address number code ∧
      ∀ command ∈ code, ∀ text, command.literal? = some text →
        number text < assembly.code.size ∧ assembly.literals[number text]? = some text
  labels : ∀ command ∈ code, ∀ label, command.label? = some label →
    (label, address label) ∈ Code.bindings 0 code
  bound : ∀ (label : Label) (position : Nat), (label, position) ∈ Code.bindings 0 code →
    address label = position
  entries : assembly.entries.toList =
    (Code.entries code).map fun label => UInt32.ofNat (address label)
  complete : ∀ op, Command.emit (.plain op) ∈ code → op.operands = []

theorem close_finished {assembly : Assembly} (holds : fragment.fault = none → Holds fragment code)
    (closed : fragment.close = .ok assembly) : Finished assembly fragment.address code := by
  unfold close at closed
  cases clean : fragment.fault with
  | some error =>
    rw [clean] at closed
    cases closed
  | none =>
    have holds := holds clean
    rw [clean] at closed
    cases filled : fragment.labelUses.foldlM fragment.resolveUse fragment.code with
    | error error =>
      simp only [filled] at closed
      cases closed
    | ok result =>
      cases starts : fragment.entries.mapM fragment.resolveEntry with
      | error error =>
        simp only [filled, starts] at closed
        cases closed
      | ok entries =>
        simp only [filled, starts] at closed
        cases closed
        rw [← Array.foldlM_toList, holds.uses] at filled
        obtain ⟨bytes, defined⟩ :=
          @foldlM_resolveUse fragment fragment.number code fragment.code result []
            (by rw [holds.bytes, List.nil_append]) filled
        have size : result.size = fragment.code.size := by
          rw [← Bytes.length_toList, bytes, List.nil_append, Code.length_bytes, holds.size_eq]
        have place : ∀ (label : Label) (position : Nat),
            fragment.labels[label]? = some position → fragment.address label = position := by
          intro label position known
          simp [address, Std.HashMap.getD_eq_getD_getElem?, known]
        refine ⟨⟨fragment.number, bytes, ?_⟩, ?_, ?_, ?_, holds.complete⟩
        · intro command member text found
          obtain ⟨number, known⟩ := Option.isSome_iff_exists.1
            (Std.HashMap.mem_iff_isSome_getElem?.1
              (holds.numbered command member text found))
          have same : fragment.number text = number := by
            simp [Fragment.number, Std.HashMap.getD_eq_getD_getElem?, known]
          rw [same]
          have literal := holds.literals text number known
          obtain ⟨inside, _⟩ := Array.getElem?_eq_some_iff.1 literal
          have few := holds.few
          exact ⟨by show number < result.size; omega, literal⟩
        · intro command member label found
          obtain ⟨position, known⟩ := Option.isSome_iff_exists.1
            (Std.HashMap.mem_iff_isSome_getElem?.1 (defined command member label found))
          rw [place label position known]
          exact (holds.labels label position).1 known
        · intro label position member
          exact place label position ((holds.labels label position).2 member)
        · have listed : fragment.entries.toList.mapM fragment.resolveEntry =
              .ok entries.toList := by
            rw [← Array.toList_mapM, starts]
            rfl
          rw [holds.entries] at listed
          exact mapM_resolveEntry listed

end Fragment

end WordMachine
