import WordMachine.Proofs.AssembledCode
import WordMachine.Proofs.CodeLayout

/-!
Decoding what was assembled. The instructions of an assembly are those that were emitted, each at
the offset where it was written; its labels stand at instructions or at the end, and its literal
table holds what is loaded and nothing else.
-/

namespace WordMachine

/-! ## Operands -/

namespace OperandKind

def bytes (kind : OperandKind) (bits : UInt64) : List UInt8 :=
  match kind with
  | .u8 => [bits.toUInt8]
  | .i32 | .u32 | .f32 => Bytes.le32 bits.toUInt32
  | .i64 => Bytes.le64 bits

def Holds (kind : OperandKind) (bits : UInt64) : Prop :=
  match kind with
  | .u8 => bits.toUInt8.toUInt64 = bits
  | .i32 | .u32 | .f32 => bits.toUInt32.toUInt64 = bits
  | .i64 => True

theorem length_bytes (kind : OperandKind) (bits : UInt64) :
    (kind.bytes bits).length = kind.size := by
  cases kind <;> rfl

theorem read_bytes {kind : OperandKind} {bits : UInt64} {code : Bytes} {before after : List UInt8}
    (holds : kind.Holds bits) (split : Bytes.toList code = before ++ (kind.bytes bits ++ after)) :
    kind.read code before.length = bits := by
  have word (value : UInt32) (same : value.toUInt64 = bits)
      (written : Bytes.toList code = before ++ (Bytes.le32 value ++ after)) :
      (Bytes.u32At code before.length).toUInt64 = bits := by
    rw [Bytes.u32At_split written, same]
  cases kind with
  | u8 =>
    have read : Bytes.byteAt code before.length = bits.toUInt8 := Bytes.byteAt_split split
    change (Bytes.byteAt code before.length).toUInt64 = bits
    rw [read]
    exact holds
  | i32 => exact word _ holds split
  | u32 => exact word _ holds split
  | f32 => exact word _ holds split
  | i64 => exact Bytes.u64At_split split

end OperandKind

theorem readOperands_eq {kinds : List OperandKind} {operands : List UInt64} {code : Bytes}
    {before after : List UInt8} (hold : List.Forall₂ OperandKind.Holds kinds operands)
    (split : Bytes.toList code =
      before ++ ((List.zipWith OperandKind.bytes kinds operands).flatten ++ after)) :
    readOperands code before.length kinds = operands := by
  induction hold generalizing before with
  | nil => rfl
  | @cons kind bits kinds operands first _ ih =>
    rw [List.zipWith_cons_cons, List.flatten_cons, List.append_assoc] at split
    have rest := @ih (before ++ kind.bytes bits) (by rw [split, List.append_assoc])
    rw [List.length_append, OperandKind.length_bytes] at rest
    rw [readOperands, OperandKind.read_bytes first split, rest]

namespace Instruction

/-- The bits of the operands of an instruction, given what labels and literals stand for. -/
def operands (address : Label → UInt32) (number : Bytes → UInt32) : Instruction → List UInt64
  | .plain _ => []
  | .loadInt value => [value.toUInt32.toUInt64]
  | .loadLong value => [value.toUInt64]
  | .loadFloat bits => [bits.toUInt64]
  | .loadString text => [(number text).toUInt64]
  | .loadAddress label => [(address label).toUInt64]
  | .reserveConsts count => [count.toUInt64]
  | .storeConst slot => [slot.toUInt64]
  | .loadConst slot => [slot.toUInt64]
  | .makeStruct fields => [fields.toUInt64]
  | .loadField position => [position.toUInt64]
  | .jump label => [(address label).toUInt64]
  | .jumpIf label => [(address label).toUInt64]
  | .call label arguments mode =>
    [(address label).toUInt64, arguments.toUInt64, mode.toUInt64]
  | .callDynamic arguments mode => [arguments.toUInt64, mode.toUInt64]
  | .platformCall code => [code.toUInt64]

def decoded (address : Label → UInt32) (number : Bytes → UInt32) (offset : UInt32)
    (instruction : Instruction) : Decoded where
  offset
  op := instruction.op
  operands := instruction.operands address number

variable {address : Label → Nat} {number : Bytes → Nat} {instruction : Instruction}

theorem operands_hold (address : Label → UInt32) (number : Bytes → UInt32)
    (whole : instruction.isWhole = true) :
    List.Forall₂ OperandKind.Holds instruction.op.operands
      (instruction.operands address number) := by
  cases instruction with
  | plain op =>
    rw [Instruction.op, List.isEmpty_iff.1 whole]
    exact .nil
  | _ => simp [Instruction.op, Opcode.operands, operands, OperandKind.Holds]

theorem bytes_eq (address : Label → Nat) (number : Bytes → Nat)
    (whole : instruction.isWhole = true) :
    instruction.bytes address number =
      instruction.op.code :: (List.zipWith OperandKind.bytes instruction.op.operands
        (instruction.operands (fun label => UInt32.ofNat (address label))
          fun text => UInt32.ofNat (number text))).flatten := by
  cases instruction with
  | plain op =>
    rw [Instruction.op, List.isEmpty_iff.1 whole]
    rfl
  | _ => simp [Instruction.op, Opcode.operands, operands, OperandKind.bytes, bytes]

theorem size_eq (address : Label → Nat) (number : Bytes → Nat)
    (whole : instruction.isWhole = true) :
    (instruction.bytes address number).length = instruction.op.size := by
  apply length_bytes_eq
  rintro op rfl
  exact List.isEmpty_iff.1 whole

end Instruction

/-! ## Emitted instructions -/

namespace Fragment

open Lowering (Code)

variable {code : Code} {command : Command} {instruction : Instruction} {assembly : Assembly}
variable {label : Label}

/-- The instruction that a building call appends. -/
def Command.instruction? : Command → Option Instruction
  | .code byte => (Opcode.ofCode? byte).map .plain
  | .emit instruction => some instruction
  | _ => none

/-- The instructions that building calls append, each with the offset before its call. -/
def emissions (fragment : Fragment) : Code → List (UInt32 × Instruction)
  | [] => []
  | command :: code =>
    command.instruction?.toList.map (fragment.offset, ·) ++
      (fragment.apply command).emissions code

theorem emissions_append (fragment : Fragment) (left right : Code) :
    fragment.emissions (left ++ right) =
      fragment.emissions left ++ (left.foldl apply fragment).emissions right := by
  induction left generalizing fragment with
  | nil => rfl
  | cons command left ih =>
    rw [List.cons_append, emissions, emissions, ih, List.append_assoc]
    rfl

theorem exists_command_of_mem {fragment : Fragment} {emitted : UInt32 × Instruction}
    (member : emitted ∈ fragment.emissions code) :
    ∃ command ∈ code, command.instruction? = some emitted.2 := by
  induction code generalizing fragment with
  | nil => cases member
  | cons command code ih =>
    rcases List.mem_append.1 member with first | rest
    · obtain ⟨instruction, found, rfl⟩ := List.mem_map.1 first
      exact ⟨command, List.mem_cons_self, Option.mem_toList.1 found⟩
    · obtain ⟨other, inside, found⟩ := ih rest
      exact ⟨other, List.mem_cons_of_mem _ inside, found⟩

theorem mem_emissions (member : command ∈ code) (found : command.instruction? = some instruction)
    (fragment : Fragment) : ∃ offset, (offset, instruction) ∈ fragment.emissions code := by
  induction code generalizing fragment with
  | nil => cases member
  | cons first code ih =>
    rcases List.mem_cons.1 member with rfl | inside
    · refine ⟨fragment.offset, List.mem_append_left _ ?_⟩
      rw [found]
      exact List.mem_singleton_self _
    · obtain ⟨offset, later⟩ := ih inside (fragment.apply first)
      exact ⟨offset, List.mem_append_right _ later⟩

theorem label?_of_instruction? (found : command.instruction? = some instruction) :
    command.label? = instruction.label? ∧ command.literal? = instruction.literal? := by
  cases command with
  | code byte =>
    obtain ⟨op, _, rfl⟩ := Option.map_eq_some_iff.1 found
    exact ⟨rfl, rfl⟩
  | emit other =>
    cases found
    exact ⟨rfl, rfl⟩
  | _ => cases found

theorem instruction?_of_literal? {text : Bytes} (found : command.literal? = some text) :
    ∃ instruction, command.instruction? = some instruction ∧ instruction.literal? = some text := by
  rw [Command.eq_of_literal? found]
  exact ⟨_, rfl, rfl⟩

/-- A building call without an instruction writes nothing. -/
theorem Command.bytes_eq_nil (whole : command.isWhole = true) (none : command.instruction? = none)
    (address : Label → Nat) (number : Bytes → Nat) : command.bytes address number = [] := by
  cases command with
  | code byte =>
    have known := Option.isSome_of_any (x := Opcode.ofCode? byte) whole
    rw [Option.map_eq_none_iff.1 none] at known
    cases known
  | emit instruction => cases none
  | _ => rfl

/-- An accepted building call writes its instruction. -/
theorem Command.bytes_eq (whole : command.isWhole = true)
    (found : command.instruction? = some instruction) (address : Label → Nat)
    (number : Bytes → Nat) :
    instruction.isWhole = true ∧
      command.bytes address number = instruction.bytes address number := by
  cases command with
  | code byte =>
    obtain ⟨op, known, rfl⟩ := Option.map_eq_some_iff.1 found
    simp only [Command.isWhole, known, Option.any_some] at whole
    refine ⟨whole, ?_⟩
    rw [← code_ofCode? known]
    rfl
  | emit other =>
    cases found
    exact ⟨whole, rfl⟩
  | _ => cases found

/-! ## Decoding -/

theorem decodeFrom_instruction {address : Label → Nat} {number : Bytes → Nat}
    {before after : List UInt8} (whole : instruction.isWhole = true)
    (split : Bytes.toList assembly.code =
      before ++ (instruction.bytes address number ++ after)) (fuel : Nat) (done : Array Decoded) :
    assembly.decodeFrom (fuel + 1) before.length done =
      assembly.decodeFrom fuel (before.length + instruction.op.size) (done.push
        (instruction.decoded (fun label => UInt32.ofNat (address label))
          (fun text => UInt32.ofNat (number text)) (UInt32.ofNat before.length))) := by
  have size := Instruction.size_eq address number whole
  have total : assembly.code.size = before.length + (instruction.op.size + after.length) := by
    rw [← Bytes.length_toList, split, List.length_append, List.length_append, size]
  have positive := instruction.op.size_pos
  rw [Instruction.bytes_eq address number whole] at split
  have first : Bytes.byteAt assembly.code before.length = instruction.op.code :=
    Bytes.byteAt_split split
  have read := @readOperands_eq _ _ assembly.code (before ++ [instruction.op.code]) after
    (Instruction.operands_hold (fun label => UInt32.ofNat (address label))
      (fun text => UInt32.ofNat (number text)) whole)
    (by rw [split]; simp)
  rw [List.length_append, List.length_singleton] at read
  rw [Assembly.decodeFrom, if_pos (by omega)]
  dsimp only
  rw [first, Opcode.ofCode?_code]
  dsimp only
  rw [if_pos (by omega), read]
  rfl

/-- Decoding goes through the instructions in the order in which they were emitted. -/
theorem decodeFrom_emissions {address : Label → Nat} {number : Bytes → Nat} (code : Code)
    {fragment : Fragment} {before : List UInt8} {fuel : Nat}
    (clean : (code.foldl apply fragment).fault = none) (place : fragment.code.size = before.length)
    (split : Bytes.toList assembly.code = before ++ Code.bytes address number code)
    (enough : assembly.code.size ≤ before.length + fuel) (done : Array Decoded) :
    assembly.decodeFrom fuel before.length done =
      (done ++ ((fragment.emissions code).map fun emitted =>
        emitted.2.decoded (fun label => UInt32.ofNat (address label))
          (fun text => UInt32.ofNat (number text)) emitted.1).toArray, none) := by
  induction code generalizing fragment before fuel done with
  | nil =>
    have total : assembly.code.size = before.length := by
      rw [← Bytes.length_toList, split]
      exact congrArg List.length (List.append_nil before)
    rw [emissions, List.map_nil, Array.append_empty]
    cases fuel with
    | zero => rfl
    | succ fuel => exact if_neg (by omega)
  | cons command code ih =>
    have next : (fragment.apply command).fault = none := fault_none_of_foldl clean
    have whole := (clean_apply.1 next).2.1
    have written : Bytes.toList assembly.code =
        (before ++ command.bytes address number) ++ Code.bytes address number code := by
      rw [split, List.append_assoc]
      rfl
    have grown : (fragment.apply command).code.size =
        (before ++ command.bytes address number).length := by
      rw [← Bytes.length_toList, (apply_adds next).bytes, List.length_append, Command.length_bytes,
        Bytes.length_toList, place, List.length_append, Command.length_bytes]
    have rest := @ih (fragment.apply command)
      (before ++ command.bytes address number)
    rw [emissions]
    cases found : command.instruction? with
    | none =>
      rw [Command.bytes_eq_nil whole found, List.append_nil] at rest written grown
      exact rest clean grown written enough done
    | some instruction =>
      obtain ⟨complete, bytes⟩ := Command.bytes_eq whole found address number
      have size := Instruction.size_eq address number complete
      have positive := instruction.op.size_pos
      rw [bytes] at rest written grown
      have total : assembly.code.size = before.length +
          (instruction.op.size + (Code.bytes address number code).length) := by
        rw [← Bytes.length_toList, written, List.append_assoc, List.length_append,
          List.length_append, size]
      obtain ⟨left, rfl⟩ : ∃ left, fuel = left + 1 := ⟨fuel - 1, by omega⟩
      rw [List.length_append, size] at rest grown
      rw [decodeFrom_instruction complete (written.trans (List.append_assoc _ _ _)),
        rest clean grown written (by omega)]
      simp [offset, place]

/-! ## Labels and literals -/

theorem mem_bound_iff : label ∈ Code.bound code ↔ .bind label ∈ code := by
  induction code with
  | nil => simp [Code.bound, Code.bindings]
  | cons command code ih =>
    rw [← List.singleton_append, Code.bound_append, List.mem_append, mem_bound_single,
      ih, List.mem_append, List.mem_singleton, eq_comm]

theorem exists_labelSite (member : command ∈ code) (found : command.label? = some label)
    (start : Nat) : ∃ position, (position, label) ∈ Code.labelSites start code := by
  induction code generalizing start with
  | nil => cases member
  | cons first code ih =>
    rw [Code.labelSites]
    rcases List.mem_cons.1 member with rfl | inside
    · exact ⟨start + 1, List.mem_append_left _ (by rw [found]; exact List.mem_singleton_self _)⟩
    · obtain ⟨position, later⟩ := ih inside (start + first.size)
      exact ⟨position, List.mem_append_right _ later⟩

/-- The offset where a piece of code begins is that of its first instruction, if it has one. -/
theorem offset_emitted (fragment : Fragment) (code : Code)
    (clean : (code.foldl apply fragment).fault = none) :
    (code.foldl apply fragment).code.size = fragment.code.size ∨
      ∃ emitted ∈ fragment.emissions code, emitted.1 = fragment.offset := by
  induction code generalizing fragment with
  | nil => exact Or.inl rfl
  | cons command code ih =>
    have next : (fragment.apply command).fault = none := fault_none_of_foldl clean
    rw [emissions]
    cases found : command.instruction? with
    | some instruction => exact Or.inr ⟨_, List.mem_cons_self, rfl⟩
    | none =>
      have same : (fragment.apply command).code.size = fragment.code.size := by
        rw [← Bytes.length_toList, (apply_adds next).bytes,
          Command.bytes_eq_nil (clean_apply.1 next).2.1 found, List.append_nil,
          Bytes.length_toList]
      have rest := ih (fragment.apply command) clean
      rw [same, offset, same] at rest
      exact rest

/-- What is read back from the assembly of building calls. -/
structure Disassembles (assembly : Assembly) (start : Fragment) (code : Code)
    (address : Label → UInt32) (number : Bytes → UInt32) : Prop where
  /-- Decoding gives the emitted instructions in order, each at the offset before its call. -/
  decoded : assembly.decode =
    (((start.emissions code).map fun emitted =>
      emitted.2.decoded address number emitted.1).toArray, none)
  bound : ∀ before label after, code = before ++ .bind label :: after →
    address label = (before.foldl apply start).offset
  /-- That offset is the one of an instruction or the end of the code. -/
  aligned : ∀ label, .bind label ∈ code →
    (address label).toNat = assembly.code.size ∨
      ∃ emitted ∈ start.emissions code, emitted.1 = address label
  labels : ∀ emitted ∈ start.emissions code, ∀ label, emitted.2.label? = some label →
    .bind label ∈ code
  literals : ∀ emitted ∈ start.emissions code, ∀ text, emitted.2.literal? = some text →
    assembly.literal? (number text) = some text
  once : assembly.literals.toList.Nodup
  used : ∀ text ∈ assembly.literals.toList,
    ∃ emitted ∈ start.emissions code, emitted.2.literal? = some text
  /-- The entry points are labels that were bound, in the order in which they were named. -/
  entries : assembly.entries.toList = (Code.entries code).map address
  entered : ∀ label ∈ Code.entries code, .bind label ∈ code

/-- A label that code binds is found where the building calls before it end. -/
theorem bound_at {before after : Code} (accepted : Code.IsAccepted code)
    (split : code = before ++ .bind label :: after) (scope : Bytes) :
    UInt32.ofNat (Code.address code label) = (before.foldl apply (empty scope)).offset := by
  have first : Code.IsAccepted before := by
    rw [split] at accepted
    exact (Code.isAccepted_append.1 accepted).1
  have clean := (renders_foldl scope before).clean.2 first
  have member : (label, Code.size before) ∈ Code.bindings 0 code := by
    rw [split, Code.bindings_append, Nat.zero_add]
    exact List.mem_append_right _ List.mem_cons_self
  rw [Code.address_eq accepted member, offset, (built_code clean).size_eq]

theorem assemble?_eq_some (made : Code.assemble? code = some assembly) :
    Code.IsAccepted code ∧ Code.IsClosed code ∧ Code.assembled code = assembly := by
  unfold Code.assemble? at made
  by_cases sound : Code.IsAccepted code ∧ Code.IsClosed code
  · rw [if_pos sound, Option.some_inj] at made
    exact ⟨sound.1, sound.2, made⟩
  · rw [if_neg sound] at made
    cases made

theorem literal?_assembled {text : Bytes} (short : Code.size code < 4294967296)
    (accepted : Code.IsAccepted code) (member : command ∈ code)
    (found : command.literal? = some text) :
    (Code.assembled code).literal? (UInt32.ofNat ((Code.pool code).idxOf text)) = some text := by
  have renders := renders_foldl ByteArray.empty code
  have clean := renders.clean.2 accepted
  have listed : text ∈ Code.pool code := Code.mem_pool.2 ⟨command, member, found⟩
  have few := (renders.holds clean).few
  have table :
      (code.foldl apply (empty ByteArray.empty)).literals.size = (Code.pool code).length := by
    rw [← (renders.tabled clean).literals, Array.length_toList]
  rw [(renders.holds clean).size_eq, table] at few
  have inside := List.idxOf_lt_length_iff.2 listed
  have number : (UInt32.ofNat ((Code.pool code).idxOf text)).toNat = (Code.pool code).idxOf text :=
    UInt32.toNat_ofNat_of_lt' (Nat.lt_of_le_of_lt (Nat.le_trans (Nat.le_of_lt inside) few) short)
  change (Code.pool code).toArray[(UInt32.ofNat _).toNat]? = some text
  rw [number, List.getElem?_toArray]
  exact Code.getElem?_idxOf_pool member found

/-- Decoding an assembly undoes building it. -/
theorem decode_close {scope : Bytes} {code : Code} {assembly : Assembly}
    (closed : (code.foldl apply (empty scope)).close = .ok assembly)
    (short : assembly.code.size < 4294967296) :
    ∃ address number, Disassembles assembly (empty scope) code address number := by
  have renders := renders_foldl scope code
  obtain ⟨accepted, ⟨uses, starts⟩, rfl⟩ :=
    assemble?_eq_some ((renders.close_eq_ok assembly).1 closed)
  have clean := renders.clean.2 accepted
  have spelled : Bytes.toList (Code.assembled code).code =
      Code.bytes (Code.address code) (Code.pool code).idxOf code := rfl
  have size : (Code.assembled code).code.size = Code.size code := by
    rw [← Bytes.length_toList, spelled, Code.length_bytes]
  refine ⟨fun label => UInt32.ofNat (Code.address code label),
    fun text => UInt32.ofNat ((Code.pool code).idxOf text), ?_⟩
  refine { decoded := ?_, bound := ?_, aligned := ?_, labels := ?_, literals := ?_, once := ?_,
           used := ?_, entries := rfl, entered := ?_ }
  · have decoded := @decodeFrom_emissions (Code.assembled code) (Code.address code)
      (Code.pool code).idxOf code (empty scope) [] (Code.assembled code).code.size clean rfl spelled
      (Nat.le_add_left _ _) #[]
    rw [Array.empty_append] at decoded
    exact decoded
  · intro before label after split
    exact bound_at accepted split scope
  · intro label member
    obtain ⟨before, after, split⟩ := List.append_of_mem member
    have place := bound_at accepted split scope
    have firstClean : (before.foldl apply (empty scope)).fault = none := by
      rw [split, List.foldl_append] at clean
      exact fault_none_of_foldl clean
    have begins := offset_emitted (before.foldl apply (empty scope)) (.bind label :: after) (by
      rw [← List.foldl_append, ← split]
      exact clean)
    rw [← List.foldl_append, ← split] at begins
    rcases begins with ends | ⟨emitted, member, same⟩
    · left
      rw [place, offset, ← ends, (renders.holds clean).size_eq, ← size]
      exact UInt32.toNat_ofNat_of_lt' short
    · right
      refine ⟨emitted, ?_, same.trans place.symm⟩
      rw [split, emissions_append]
      exact List.mem_append_right _ member
  · intro emitted member label found
    obtain ⟨command, inside, written⟩ := exists_command_of_mem member
    have named := (label?_of_instruction? written).1.trans found
    obtain ⟨position, site⟩ := exists_labelSite inside named 0
    exact mem_bound_iff.1 (uses _ site)
  · intro emitted member text found
    obtain ⟨command, inside, written⟩ := exists_command_of_mem member
    exact literal?_assembled (size ▸ short) accepted inside
      ((label?_of_instruction? written).2.trans found)
  · exact Code.nodup_pool code
  · intro text listed
    obtain ⟨command, inside, found⟩ := Code.mem_pool.1 listed
    obtain ⟨instruction, written, loads⟩ := instruction?_of_literal? found
    obtain ⟨offset, member⟩ := mem_emissions inside written (empty scope)
    exact ⟨_, member, loads⟩
  · intro label member
    exact mem_bound_iff.1 (starts label member)

theorem decode_close_loop :
    (loopCode.foldl apply (empty ByteArray.empty)).close = .ok loopAssembly ∧
      loopAssembly.code.size < 4294967296 ∧
      ∃ address number,
        Disassembles loopAssembly (empty ByteArray.empty) loopCode address number := by
  have closed := ((renders_foldl ByteArray.empty loopCode).close_eq_ok loopAssembly).2
    assemble?_loopCode
  have short : loopAssembly.code.size < 4294967296 := by decide
  exact ⟨closed, short, decode_close closed short⟩

end Fragment

end WordMachine
