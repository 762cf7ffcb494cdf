import WordMachine.Proofs.CodeLabels
import WordMachine.Proofs.Computations
import WordMachine.Proofs.ObjectCode

/-!
What the code of a program looks like in memory: every instruction of every unit can be fetched
at its place with its operands, and the labels that calls refer to are those of the functions they
are meant for.
-/

namespace WordMachine

/-! ## Code in place -/

/-- Code in memory, with the positions of the labels that are bound in it. -/
structure Image where
  assembly : Assembly
  address : Label → Nat
  Bound : Label → Prop

namespace Instruction

def op : Instruction → Opcode
  | .plain op => op
  | .loadInt _ => .loadInt
  | .loadLong _ => .loadLong
  | .loadFloat _ => .loadFloat
  | .loadString _ => .loadString
  | .loadAddress _ => .loadAddress
  | .reserveConsts _ => .reserveConsts
  | .storeConst _ => .storeConst
  | .loadConst _ => .loadConst
  | .makeStruct _ => .makeStruct
  | .loadField _ => .loadField
  | .jump _ => .jump
  | .jumpIf _ => .jumpIf
  | .call _ _ _ => .call
  | .callDynamic _ _ => .callDynamic
  | .platformCall _ => .platformCall

def OperandsAt (image : Image) (position : Nat) : Instruction → Prop
  | .plain op => op.size = 1
  | .loadInt value => image.assembly.code.u32At position = value.toUInt32
  | .loadLong value => image.assembly.code.u64At position = value.toUInt64
  | .loadFloat bits => image.assembly.code.u32At position = bits
  | .loadString text => image.assembly.literal? (image.assembly.code.u32At position) = some text
  | .loadAddress label => image.assembly.code.u32At position = UInt32.ofNat (image.address label)
  | .reserveConsts count => image.assembly.code.byteAt position = count
  | .storeConst slot => image.assembly.code.byteAt position = slot
  | .loadConst slot => image.assembly.code.byteAt position = slot
  | .makeStruct fields => image.assembly.code.byteAt position = fields
  | .loadField index => image.assembly.code.byteAt position = index
  | .jump label => image.assembly.code.u32At position = UInt32.ofNat (image.address label)
  | .jumpIf label => image.assembly.code.u32At position = UInt32.ofNat (image.address label)
  | .call label arguments mode =>
    image.assembly.code.u32At position = UInt32.ofNat (image.address label) ∧
      image.assembly.code.byteAt (position + 4) = arguments ∧
      image.assembly.code.byteAt (position + 5) = mode
  | .callDynamic arguments mode =>
    image.assembly.code.byteAt position = arguments ∧
      image.assembly.code.byteAt (position + 1) = mode
  | .platformCall code => image.assembly.code.byteAt position = code

structure At (image : Image) (position : Nat) (instruction : Instruction) : Prop where
  fetched : Exec.fetch? image.assembly.code position =
    some (instruction.op, instruction.op.size)
  operands : instruction.OperandsAt image (position + 1)
  bound : ∀ label, instruction.label? = some label → image.Bound label

namespace At

variable {image : Image} {position : Nat} {instruction : Instruction} {session : Session}

theorem inside (here : instruction.At image position) :
    position + instruction.op.size ≤ image.assembly.code.size :=
  (Exec.fetch?_eq_some here.fetched).2

theorem issue (here : instruction.At image position)
    (assembly : session.shared.assembly = image.assembly)
    (ip : session.executor.ip.toNat = position) :
    Exec.issue session = Exec.perform image.assembly instruction.op (position + 1)
      (session.fetched instruction.op
        (session.executor.ip + UInt32.ofNat instruction.op.size)) := by
  have found : session.instruction? = some (instruction.op, instruction.op.size) := by
    unfold Session.instruction?
    rw [assembly, ip]
    exact here.fetched
  rw [Exec.issue_some session found, assembly, ip]

theorem next_ip (here : instruction.At image position) (small : image.assembly.code.size < 2 ^ 32)
    (ip : session.executor.ip.toNat = position) :
    (session.executor.ip + UInt32.ofNat instruction.op.size).toNat =
      position + instruction.op.size := by
  have inside := Nat.lt_of_le_of_lt here.inside small
  rw [UInt32.toNat_add, UInt32.toNat_ofNat_of_lt' (by
    change _ < 2 ^ 32
    omega), ip]
  exact Nat.mod_eq_of_lt inside

end At

theorem length_bytes_eq {instruction : Instruction} (address : Label → Nat) (number : Bytes → Nat)
    (complete : ∀ op, instruction = .plain op → op.operands = []) :
    (instruction.bytes address number).length = instruction.op.size := by
  cases instruction with
  | plain op =>
    have empty := complete op rfl
    simp [bytes, Instruction.op, Opcode.size, empty]
  | _ => rfl

theorem bytes_head (address : Label → Nat) (number : Bytes → Nat) (instruction : Instruction) :
    ∃ rest, instruction.bytes address number = instruction.op.code :: rest := by
  cases instruction <;> exact ⟨_, rfl⟩

/-- An instruction whose bytes stand somewhere can be fetched there. -/
theorem at_of_bytes {image : Image} {number : Bytes → Nat} {instruction : Instruction}
    {before after : List UInt8}
    (small : image.assembly.code.size < 4294967296)
    (complete : ∀ op, instruction = .plain op → op.operands = [])
    (literal : ∀ text, instruction.literal? = some text →
      number text < image.assembly.code.size ∧ image.assembly.literals[number text]? = some text)
    (bound : ∀ label, instruction.label? = some label → image.Bound label)
    (spelled : Bytes.toList image.assembly.code =
      before ++ (instruction.bytes image.address number ++ after)) :
    instruction.At image before.length := by
  have size := length_bytes_eq image.address number complete
  have total : image.assembly.code.size = before.length + (instruction.op.size + after.length) := by
    rw [← Bytes.length_toList, spelled, List.length_append, List.length_append, size]
  obtain ⟨rest, head⟩ := bytes_head image.address number instruction
  have first : Bytes.byteAt image.assembly.code before.length = instruction.op.code :=
    Bytes.byteAt_split (show Bytes.toList image.assembly.code =
      before ++ instruction.op.code :: (rest ++ after) by rw [spelled, head, List.cons_append])
  have positive := instruction.op.size_pos
  refine ⟨?_, ?_, bound⟩
  · unfold Exec.fetch?
    rw [if_pos (by omega), first, Opcode.ofCode?_code]
    exact if_pos (by omega)
  · have moved : ∀ (tail : List UInt8), instruction.bytes image.address number =
        instruction.op.code :: tail →
          Bytes.toList image.assembly.code =
            (before ++ [instruction.op.code]) ++ (tail ++ after) := by
      intro tail same
      rw [spelled, same]
      simp
    have place : (before ++ [instruction.op.code]).length = before.length + 1 := by simp
    rw [← place]
    cases instruction with
    | plain op =>
      have empty := complete op rfl
      simp [OperandsAt, Opcode.size, empty]
    | loadInt value => exact Bytes.u32At_split (moved _ rfl)
    | loadLong value => exact Bytes.u64At_split (moved _ rfl)
    | loadFloat bits => exact Bytes.u32At_split (moved _ rfl)
    | loadString text =>
      obtain ⟨inside, known⟩ := literal text rfl
      have read := Bytes.u32At_split (moved _ rfl)
      change image.assembly.literals[(image.assembly.code.u32At _).toNat]? = some text
      rw [read, UInt32.toNat_ofNat_of_lt' (Nat.lt_trans inside small)]
      exact known
    | loadAddress label => exact Bytes.u32At_split (moved _ rfl)
    | reserveConsts count => exact Bytes.byteAt_split (moved _ rfl)
    | storeConst slot => exact Bytes.byteAt_split (moved _ rfl)
    | loadConst slot => exact Bytes.byteAt_split (moved _ rfl)
    | makeStruct fields => exact Bytes.byteAt_split (moved _ rfl)
    | loadField position => exact Bytes.byteAt_split (moved _ rfl)
    | jump label => exact Bytes.u32At_split (moved _ rfl)
    | jumpIf label => exact Bytes.u32At_split (moved _ rfl)
    | call label arguments mode =>
      have target := moved _ rfl
      refine ⟨Bytes.u32At_split (target.trans (by rw [List.append_assoc (Bytes.le32 _)])), ?_, ?_⟩
      · have read := @Bytes.byteAt_split image.assembly.code
          ((before ++ [Opcode.call.code]) ++ Bytes.le32 (UInt32.ofNat (image.address label)))
          (mode :: after) arguments (by simpa [Instruction.op] using target)
        rw [List.length_append, Bytes.length_le32] at read
        exact read
      · have read := @Bytes.byteAt_split image.assembly.code
          ((before ++ [Opcode.call.code]) ++ Bytes.le32 (UInt32.ofNat (image.address label)) ++
            [arguments])
          after mode (by simpa [Instruction.op] using target)
        rw [List.length_append, List.length_append, Bytes.length_le32] at read
        exact read
    | callDynamic arguments mode =>
      have target := moved _ rfl
      refine ⟨Bytes.byteAt_split target, ?_⟩
      have read := @Bytes.byteAt_split image.assembly.code
        ((before ++ [Opcode.callDynamic.code]) ++ [arguments]) after mode
        (by simpa [Instruction.op] using target)
      rw [List.length_append] at read
      exact read
    | platformCall code => exact Bytes.byteAt_split (moved _ rfl)

end Instruction

namespace Lowering.Code

/-- Whether a piece of code stands at a position, with its labels bound where they are. -/
def Laid (image : Image) : Nat → Code → Prop
  | _, [] => True
  | position, .bind label :: code =>
    image.address label = position ∧ Laid image position code
  | position, .entry _ :: code => Laid image position code
  | position, .code _ :: code => Laid image (position + 1) code
  | position, .emit instruction :: code =>
    instruction.At image position ∧
      Laid image (position + Fragment.Command.size (.emit instruction)) code

theorem laid_append {image : Image} (position : Nat) (left right : Code) :
    Laid image position (left ++ right) ↔
      Laid image position left ∧
        Laid image (position + size left) right := by
  induction left generalizing position with
  | nil => simp [Laid, size]
  | cons command left ih =>
    cases command with
    | bind label =>
      simp [Laid, ih, and_assoc, size, Fragment.Command.size,
        Fragment.Command.bytes]
    | entry label =>
      simp [Laid, ih, size, Fragment.Command.size, Fragment.Command.bytes]
    | code byte =>
      simp [Laid, ih, size, Fragment.Command.size, Fragment.Command.bytes,
        Nat.add_assoc]
    | emit instruction =>
      simp [Laid, ih, and_assoc, size, Nat.add_assoc]

theorem laid_of_bytes {image : Image} {number : Bytes → Nat} {code : Code}
    {before after : List UInt8}
    (small : image.assembly.code.size < 4294967296)
    (complete : ∀ op, Fragment.Command.emit (.plain op) ∈ code → op.operands = [])
    (literals : ∀ command ∈ code, ∀ text, command.literal? = some text →
      number text < image.assembly.code.size ∧ image.assembly.literals[number text]? = some text)
    (labels : ∀ command ∈ code, ∀ label, command.label? = some label → image.Bound label)
    (bound : ∀ (label : Label) (position : Nat),
      (label, position) ∈ bindings before.length code → image.address label = position)
    (spelled : Bytes.toList image.assembly.code =
      before ++ (bytes image.address number code ++ after)) :
    Laid image before.length code := by
  induction code generalizing before with
  | nil => exact trivial
  | cons command code ih =>
    simp only [List.mem_cons, forall_eq_or_imp] at literals labels
    have moved : Bytes.toList image.assembly.code =
        (before ++ command.bytes image.address number) ++
          (bytes image.address number code ++ after) := by
      rw [spelled]
      simp [bytes]
    have place : (before ++ command.bytes image.address number).length =
        before.length + command.size := by
      rw [List.length_append, Fragment.Command.length_bytes]
    have rest := @ih (before ++ command.bytes image.address number)
      (fun op member => complete op (List.mem_cons_of_mem _ member)) literals.2 labels.2
    rw [place] at rest
    cases command with
    | bind label =>
      simp only [bindings, List.mem_cons] at bound
      exact ⟨bound label before.length (Or.inl rfl),
        rest (fun other position member => bound other position (Or.inr member)) moved⟩
    | entry label => exact rest bound moved
    | code byte => exact rest bound moved
    | emit instruction =>
      refine ⟨?_, rest bound moved⟩
      refine Instruction.at_of_bytes small ?_ literals.1 labels.1 (moved.trans (by
        rw [List.append_assoc]; rfl))
      rintro op rfl
      exact complete op List.mem_cons_self

end Lowering.Code

namespace Lowering

variable {program : Program} {code : Code} {label : Label} {scope : Bytes} {unit : CodeUnit}
variable {all : List CodeUnit}

/-! ## Labels of units -/

/-- The code of a unit binds labels of that unit only, apart from the one it begins with. -/
theorem UnitCode.owned (unitCode : UnitCode program unit code)
    (bound : label ∈ Code.bound code) : label = unitLabel program unit ∨ unit.Owns label := by
  obtain ⟨first, last, named, inner, _, labelled, rfl⟩ := unitCode.labelled
  rw [bound_unit] at bound
  exact (List.mem_cons.1 bound).imp_right fun inside =>
    .inr ((labelled.own label inside).resolve_left nofun)

theorem unit_of_equalityLabel {type : TypeId} (unitCode : UnitCode program unit code)
    (bound : equalityLabel type ∈ Code.bound code) : unit = .equality type := by
  have own : (CodeUnit.equality type).Owns (equalityLabel type) := .inl rfl
  cases unit with
  | equality other =>
    have owns : (CodeUnit.equality other).Owns (equalityLabel type) :=
      (unitCode.owned bound).elim .inl id
    exact congrArg _ (CodeUnit.eq_of_scope_eq (own.scope_eq owns)).symm
  | function id =>
    rcases unitCode.owned bound with same | owns
    · exact absurd same (equalityLabel_ne_funcLabel type _)
    · exact (CodeUnit.eq_of_scope_eq (own.scope_eq owns)).elim
  | statement number statement =>
    have owns : (CodeUnit.statement number statement).Owns (equalityLabel type) :=
      (unitCode.owned bound).elim .inl id
    exact (CodeUnit.eq_of_scope_eq (own.scope_eq owns)).elim

/-! ## Programs -/

theorem fragments_eq_ok {result : List Fragment}
    (success : (fragments program all).2 = .ok result) :
    ∃ parts : List (CodeUnit × Code), all = parts.map Prod.fst ∧
      (∀ part ∈ parts, UnitCode program part.1 part.2) ∧
      result = (parts.map fun part => (part.1.scope, part.2)).map
        fun part => part.2.foldl Fragment.apply (Fragment.empty part.1) := by
  induction all generalizing result with
  | nil =>
    cases success
    exact ⟨[], rfl, fun _ member => (nomatch member), rfl⟩
  | cons unit rest ih =>
    unfold fragments at success
    cases made : unit.fragment program with
    | error cause =>
      simp only [made] at success
      cases success
    | ok fragment =>
      simp only [made] at success
      cases others : (fragments program rest).2 with
      | error error =>
        rw [others] at success
        cases success
      | ok fragments =>
        rw [others] at success
        cases success
        obtain ⟨parts, units, coded, built⟩ := ih others
        unfold CodeUnit.fragment at made
        cases produced : (unit.code program).run 0 with
        | error cause =>
          simp only [produced] at made
          cases made
        | ok pair =>
          simp only [produced] at made
          refine ⟨(unit, pair.1) :: parts, by rw [units, List.map_cons], ?_, ?_⟩
          · intro part member
            rcases List.mem_cons.1 member with rfl | member
            · exact code_eq_ok produced
            · exact coded part member
          · rw [built, ← Except.ok.inj made]
            rfl

def Stands (program : Program) (image : Image) (unit : CodeUnit) (position : Nat) : Prop :=
  ∃ code, UnitCode program unit code ∧ Code.Laid image position code ∧
    position + Code.size code ≤ image.assembly.code.size

structure Layout (program : Program) (image : Image) : Prop where
  small : image.assembly.code.size < 4294967296
  function : ∀ id ∈ program.userFuncs, ∃ position, Stands program image (.function id) position
  equality : ∀ type, image.Bound (equalityLabel type) →
    ∃ position, Stands program image (.equality type) position
  statement : ∀ (number : Nat) (statement : Statement),
    program.statements[number]? = some statement →
      ∃ position, Stands program image (.statement number statement) position ∧
        image.assembly.entries[number]? = some (UInt32.ofNat position)

theorem entries_unitCode (unitCode : UnitCode program unit code) :
    Code.entries code = entryLabels unit := by
  obtain ⟨first, last, named, inner, _, labelled, rfl⟩ := unitCode.labelled
  have none : ∀ {code : Code}, code.all Fragment.Command.isInner = true →
      Code.entries code = [] := by
    intro code plain
    induction code with
    | nil => rfl
    | cons command code ih =>
      rw [List.all_cons, Bool.and_eq_true] at plain
      cases command with
      | emit instruction => exact ih plain.2
      | bind label => exact ih plain.2
      | _ => cases plain.1
  rw [Code.entries_append, Code.entries_append, none labelled.inner, List.append_nil]
  cases unit <;> rfl

theorem entries_flatMap {parts : List (CodeUnit × Code)}
    (coded : ∀ part ∈ parts, UnitCode program part.1 part.2) :
    Code.entries (parts.flatMap Prod.snd) = (parts.map Prod.fst).flatMap entryLabels := by
  induction parts with
  | nil => rfl
  | cons part parts ih =>
    rw [List.flatMap_cons, Code.entries_append, List.map_cons, List.flatMap_cons,
      entries_unitCode (coded part List.mem_cons_self),
      ih fun other member => coded other (List.mem_cons_of_mem _ member)]

theorem stands_of_finished {image : Image} {parts : List (CodeUnit × Code)}
    (small : image.assembly.code.size < 4294967296)
    (finished : Fragment.Finished image.assembly image.address (parts.flatMap Prod.snd))
    (resolved : ∀ label,
      (label, image.address label) ∈ Code.bindings 0 (parts.flatMap Prod.snd) →
        image.Bound label) (coded : ∀ part ∈ parts, UnitCode program part.1 part.2)
    {part : CodeUnit × Code} (member : part ∈ parts) :
    ∃ position, Stands program image part.1 position ∧ Code.Laid image position part.2 := by
  obtain ⟨before, after, rfl⟩ := List.append_of_mem member
  obtain ⟨number, spelled, literals⟩ := finished.bytes
  have laid := @Code.laid_of_bytes image number
    ((before ++ part :: after).flatMap Prod.snd) [] [] small finished.complete literals
    (fun command inside label found => resolved label (finished.labels command inside label found))
    finished.bound (by rw [spelled, List.append_nil, List.nil_append])
  rw [List.flatMap_append, List.flatMap_cons, Code.laid_append, Code.laid_append] at laid
  have total : image.assembly.code.size =
      Code.size (before.flatMap Prod.snd) + (Code.size part.2 +
        Code.size (after.flatMap Prod.snd)) := by
    rw [← Bytes.length_toList, spelled, Code.length_bytes, List.flatMap_append, List.flatMap_cons,
      Code.size_append, Code.size_append]
  refine ⟨_, ⟨part.2, coded part member, laid.2.1, ?_⟩, laid.2.1⟩
  rw [List.length_nil, Nat.zero_add]
  omega

theorem units_eq_ok (listed : units program = .ok all) :
    ∃ types : List TypeId, all =
      types.map CodeUnit.equality ++ program.userFuncs.map CodeUnit.function ++
        program.statements.toList.zipIdx.map fun item => CodeUnit.statement item.2 item.1 := by
  unfold units at listed
  split at listed
  · cases listed
  · next types _ =>
    cases listed
    exact ⟨types, rfl⟩

theorem flatMap_entryLabels (listed : units program = .ok all) {number : Nat}
    {statement : Statement} (found : program.statements[number]? = some statement) :
    (all.flatMap entryLabels)[number]? = some (statementLabel number) := by
  obtain ⟨types, rfl⟩ := units_eq_ok listed
  have none : ∀ {α : Type} (items : List α) (unit : α → CodeUnit),
      (∀ item, entryLabels (unit item) = []) → (items.map unit).flatMap entryLabels = [] := by
    intro α items unit empty
    rw [List.flatMap_map, List.flatMap_eq_nil_iff]
    exact fun item _ => empty item
  rw [List.flatMap_append, List.flatMap_append, none _ _ fun _ => rfl, none _ _ fun _ => rfl,
    List.nil_append, List.nil_append, List.flatMap_map]
  change (program.statements.toList.zipIdx.flatMap fun item => [statementLabel item.2])[number]? =
    some (statementLabel number)
  rw [← List.map_eq_flatMap, List.getElem?_map, List.getElem?_zipIdx, Array.getElem?_toList,
    found]
  simp

/-- The code of all units of a program, one after the other. -/
def joined (program : Program) : Except Error Fragment :=
  match units program with
  | .error error => .error error
  | .ok all => (fragments program all).2.map fun parts =>
    parts.foldl Fragment.append (Fragment.empty ByteArray.empty)

theorem generate_eq_ok {assembly : Assembly} :
    generate program = .ok assembly ↔
      ∃ whole, joined program = .ok whole ∧ whole.close = .ok assembly := by
  unfold generate outcome joined
  cases listed : units program with
  | error error => simp
  | ok all =>
    simp only []
    cases produced : (fragments program all).2 with
    | error error =>
      constructor
      · intro generated
        cases generated
      · rintro ⟨_, found, _⟩
        cases found
    | ok parts =>
      change link parts = _ ↔ _
      unfold link
      simp only [Except.map, Except.ok.injEq, exists_eq_left']
      cases closed : (parts.foldl Fragment.append (Fragment.empty ByteArray.empty)).close <;>
        simp

theorem mem_bound_flatMap {parts : List (CodeUnit × Code)} :
    label ∈ Code.bound (parts.flatMap Prod.snd) ↔ ∃ part ∈ parts, label ∈ Code.bound part.2 := by
  induction parts with
  | nil => simp
  | cons part parts ih => simp [ih]

theorem layout_of_joined {whole : Fragment} {assembly : Assembly}
    (found : joined program = .ok whole) (closed : whole.close = .ok assembly)
    (small : assembly.code.size < 4294967296) :
    ∃ image : Image, image.assembly = assembly ∧ image.address = whole.address ∧
      Layout program image ∧
      ∀ {types}, equalityTypes program = .ok types → ∀ type ∈ types,
        image.Bound (equalityLabel type) := by
  unfold joined at found
  cases listed : units program with
  | error error =>
    rw [listed] at found
    cases found
  | ok all =>
    simp only [listed] at found
    cases produced : (fragments program all).2 with
    | error error =>
      rw [produced] at found
      cases found
    | ok pieces =>
      rw [produced] at found
      obtain ⟨parts, rfl, coded, rfl⟩ := fragments_eq_ok produced
      have same := (Except.ok.inj found).symm
      have codes : (parts.map fun part => (part.1.scope, part.2)).flatMap Prod.snd =
          parts.flatMap Prod.snd := by
        rw [List.flatMap_map]
      have finished : Fragment.Finished assembly whole.address
          (parts.flatMap Prod.snd) := by
        refine Fragment.close_finished ?_ closed
        intro clean
        rw [same] at clean ⊢
        have holds := (Fragment.built_empty ByteArray.empty).toHolds.foldl_append
          (parts.map fun part => (part.1.scope, part.2)) clean
        rw [List.nil_append, codes] at holds
        exact holds
      let image : Image :=
        { assembly, address := whole.address
          Bound := fun label => (label, whole.address label) ∈
            Code.bindings 0 (parts.flatMap Prod.snd) }
      have stands : ∀ {part : CodeUnit × Code}, part ∈ parts →
          ∃ position, Stands program image part.1 position ∧
            Code.Laid image position part.2 :=
        fun member => stands_of_finished small finished (fun _ bound => bound) coded member
      refine ⟨image, rfl, rfl, ⟨small, ?_, ?_, ?_⟩, ?_⟩
      · intro id member
        obtain ⟨types, all⟩ := units_eq_ok listed
        have unit : CodeUnit.function id ∈ parts.map Prod.fst := by
          rw [all]
          simp [member]
        obtain ⟨part, inside, same⟩ := List.mem_map.1 unit
        obtain ⟨position, placed, _⟩ := stands inside
        rw [same] at placed
        exact ⟨position, placed⟩
      · intro type bound
        obtain ⟨part, member, inside⟩ := mem_bound_flatMap.1 (Code.mem_bound.2 ⟨_, bound⟩)
        obtain ⟨position, placed, _⟩ := stands member
        rw [unit_of_equalityLabel (coded part member) inside] at placed
        exact ⟨position, placed⟩
      · intro number statement found
        obtain ⟨types, all⟩ := units_eq_ok listed
        have unit : CodeUnit.statement number statement ∈ parts.map Prod.fst := by
          rw [all, List.mem_append, List.mem_map]
          exact Or.inr ⟨(statement, number), List.mk_mem_zipIdx_iff_getElem?.2
            (by rw [Array.getElem?_toList, found]), rfl⟩
        obtain ⟨part, inside, same⟩ := List.mem_map.1 unit
        obtain ⟨position, placed, laid⟩ := stands inside
        rw [same] at placed
        refine ⟨position, placed, ?_⟩
        have label := flatMap_entryLabels listed found
        rw [← entries_flatMap coded] at label
        rw [← Array.getElem?_toList, finished.entries, List.getElem?_map, label]
        obtain ⟨_, _, _, inner, _, _, split⟩ := (coded part inside).labelled
        rw [split, List.append_assoc, same] at laid
        have bound : whole.address (statementLabel number) = position := laid.1
        rw [Option.map_some, bound]
      · intro types compared type member
        have unit : CodeUnit.equality type ∈ parts.map Prod.fst := by
          unfold units at listed
          rw [compared] at listed
          rw [← Except.ok.inj listed]
          simp [member]
        obtain ⟨part, inside, same⟩ := List.mem_map.1 unit
        obtain ⟨_, _, _, inner, _, _, split⟩ := (coded part inside).labelled
        have binds : equalityLabel type ∈ Code.bound (parts.flatMap Prod.snd) := by
          refine mem_bound_flatMap.2 ⟨part, inside, ?_⟩
          rw [split, bound_unit, same]
          exact List.mem_cons_self
        obtain ⟨place, bound⟩ := Code.mem_bound.1 binds
        change (equalityLabel type, whole.address (equalityLabel type)) ∈ _
        rw [finished.bound _ _ bound]
        exact bound

end Lowering

end WordMachine
