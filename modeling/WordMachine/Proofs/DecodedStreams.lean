import WordMachine.Proofs.ContainedSteps
import WordMachine.Proofs.Disassembly

/-!
Reading any byte string as an instruction stream. What is read, written again, is a beginning of the
bytes; reading goes on for as long as bytes begin an instruction, and there is no other way to take
the bytes for instructions.
-/

namespace WordMachine

/-! ## Operands -/

namespace Bytes

theorem exists_le32 {bytes : List UInt8} (four : bytes.length = 4) :
    ∃ value, le32 value = bytes := by
  match bytes, four with
  | [first, second, third, fourth], _ =>
    have firstSmall := first.toNat_lt
    have secondSmall := second.toNat_lt
    have thirdSmall := third.toNat_lt
    have fourthSmall := fourth.toNat_lt
    have small : first.toNat + 256 * second.toNat + 65536 * third.toNat +
        16777216 * fourth.toNat < 2 ^ 32 := by omega
    refine ⟨UInt32.ofNatLT _ small, ?_⟩
    simp only [le32, List.cons.injEq, and_true, ← UInt8.toNat_inj, UInt32.toNat_toUInt8,
      UInt32.toNat_shiftRight, UInt32.toNat_ofNatLT, UInt32.reduceToNat, Nat.reduceMod,
      Nat.shiftRight_eq_div_pow, Nat.reducePow]
    omega

theorem exists_le64 {bytes : List UInt8} (eight : bytes.length = 8) :
    ∃ value, le64 value = bytes := by
  obtain ⟨low, lowBytes⟩ := @exists_le32 (bytes.take 4) (by rw [List.length_take]; omega)
  obtain ⟨high, highBytes⟩ := @exists_le32 (bytes.drop 4) (by rw [List.length_drop]; omega)
  have lowSmall := low.toNat_lt
  have highSmall := high.toNat_lt
  have small : low.toNat + 4294967296 * high.toNat < 2 ^ 64 := by omega
  refine ⟨UInt64.ofNatLT _ small, ?_⟩
  have lowHalf : (UInt64.ofNatLT _ small).toUInt32 = low := by
    rw [← UInt32.toNat_inj, UInt64.toNat_toUInt32, UInt64.toNat_ofNatLT]
    omega
  have highHalf : (UInt64.ofNatLT _ small >>> 32).toUInt32 = high := by
    rw [← UInt32.toNat_inj, UInt64.toNat_toUInt32, UInt64.toNat_shiftRight, UInt64.toNat_ofNatLT]
    simp only [UInt64.reduceToNat, Nat.reduceMod, Nat.shiftRight_eq_div_pow, Nat.reducePow]
    omega
  rw [le64, lowHalf, highHalf, lowBytes, highBytes, List.take_append_drop]

end Bytes

theorem OperandKind.exists_bytes (kind : OperandKind) (bytes : List UInt8)
    (size : bytes.length = kind.size) : ∃ bits, kind.Holds bits ∧ kind.bytes bits = bytes := by
  have word (four : bytes.length = 4) : ∃ value : UInt32,
      value.toUInt64.toUInt32.toUInt64 = value.toUInt64 ∧
        Bytes.le32 value.toUInt64.toUInt32 = bytes := by
    obtain ⟨value, same⟩ := Bytes.exists_le32 four
    exact ⟨value, by simp, by simpa using same⟩
  cases kind with
  | u8 =>
    obtain ⟨byte, rfl⟩ := List.length_eq_one_iff.1 size
    exact ⟨byte.toUInt64, by simp [Holds], by simp [OperandKind.bytes]⟩
  | i32 | u32 | f32 =>
    obtain ⟨value, holds, same⟩ := word size
    exact ⟨value.toUInt64, holds, same⟩
  | i64 =>
    obtain ⟨value, same⟩ := Bytes.exists_le64 size
    exact ⟨value, trivial, same⟩

def operandBytes (kinds : List OperandKind) (operands : List UInt64) : List UInt8 :=
  (List.zipWith OperandKind.bytes kinds operands).flatten

theorem length_operandBytes {kinds : List OperandKind} {operands : List UInt64}
    (hold : List.Forall₂ OperandKind.Holds kinds operands) :
    (operandBytes kinds operands).length = (kinds.map OperandKind.size).sum := by
  induction hold with
  | nil => rfl
  | @cons kind bits kinds operands _ _ ih =>
    unfold operandBytes at ih ⊢
    rw [List.zipWith_cons_cons, List.flatten_cons, List.length_append, OperandKind.length_bytes,
      List.map_cons, List.sum_cons, ih]

theorem exists_operandBytes (kinds : List OperandKind) (bytes : List UInt8)
    (size : bytes.length = (kinds.map OperandKind.size).sum) :
    ∃ operands, List.Forall₂ OperandKind.Holds kinds operands ∧
      operandBytes kinds operands = bytes := by
  induction kinds generalizing bytes with
  | nil => exact ⟨[], .nil, (List.length_eq_zero_iff.1 size).symm⟩
  | cons kind kinds ih =>
    rw [List.map_cons, List.sum_cons] at size
    obtain ⟨bits, holds, first⟩ := kind.exists_bytes (bytes.take kind.size)
      (by rw [List.length_take]; omega)
    obtain ⟨operands, hold, rest⟩ := ih (bytes.drop kind.size)
      (by rw [List.length_drop]; omega)
    refine ⟨bits :: operands, .cons holds hold, ?_⟩
    unfold operandBytes at rest ⊢
    rw [List.zipWith_cons_cons, List.flatten_cons, first, rest, List.take_append_drop]

theorem operandBytes_injective {kinds : List OperandKind} {left right : List UInt64}
    (leftHold : List.Forall₂ OperandKind.Holds kinds left)
    (rightHold : List.Forall₂ OperandKind.Holds kinds right)
    (same : operandBytes kinds left = operandBytes kinds right) : left = right := by
  have read {operands : List UInt64} (hold : List.Forall₂ OperandKind.Holds kinds operands) :
      readOperands (Bytes.ofList (operandBytes kinds operands)) 0 kinds = operands :=
    @readOperands_eq _ _ _ [] [] hold (List.append_nil _).symm
  rw [← read leftHold, ← read rightHold, same]

/-! ## Instructions -/

namespace Decoded

/-- An instruction as it is written: the byte of its operation and its operands, each with its least
significant byte first. -/
def bytes (instruction : Decoded) : List UInt8 :=
  instruction.op.code :: operandBytes instruction.op.operands instruction.operands

/-- Whether an instruction has the operands of its operation, each of which has room in its
kind. -/
def IsWhole (instruction : Decoded) : Prop :=
  List.Forall₂ OperandKind.Holds instruction.op.operands instruction.operands

variable {instruction other : Decoded}

theorem length_bytes (whole : instruction.IsWhole) :
    instruction.bytes.length = instruction.op.size := by
  rw [bytes, List.length_cons, length_operandBytes whole, Opcode.size_eq, Nat.add_comm]

/-- What instructions at one place are written as tells them apart, whatever follows. -/
theorem eq_of_bytes (whole : instruction.IsWhole) (otherWhole : other.IsWhole)
    (place : instruction.offset = other.offset) {after otherAfter : List UInt8}
    (same : instruction.bytes ++ after = other.bytes ++ otherAfter) :
    instruction = other ∧ after = otherAfter := by
  obtain ⟨offset, op, operands⟩ := instruction
  obtain ⟨otherOffset, otherOp, otherOperands⟩ := other
  injection same with code rest
  have sameOp : op = otherOp :=
    Option.some_inj.1 ((op.ofCode?_code.symm.trans (congrArg _ code)).trans otherOp.ofCode?_code)
  subst sameOp
  have lengths : (operandBytes op.operands operands).length =
      (operandBytes op.operands otherOperands).length :=
    (length_operandBytes whole).trans (length_operandBytes otherWhole).symm
  obtain ⟨written, after⟩ := List.append_inj rest lengths
  cases operandBytes_injective whole otherWhole written
  cases place
  exact ⟨rfl, after⟩

end Decoded

/-! ## Streams -/

/-- Whether instructions stand one behind the other from a place on. -/
inductive Consecutive : Nat → List Decoded → Prop
  | nil (place : Nat) : Consecutive place []
  | cons {place : Nat} {instruction : Decoded} {instructions : List Decoded} :
      instruction.IsWhole → instruction.offset.toNat = place →
      Consecutive (place + instruction.bytes.length) instructions →
      Consecutive place (instruction :: instructions)

theorem Consecutive.of_cons {place : Nat} {instruction : Decoded} {instructions : List Decoded}
    (consecutive : Consecutive place (instruction :: instructions)) :
    instruction.IsWhole ∧ instruction.offset.toNat = place ∧
      Consecutive (place + instruction.bytes.length) instructions := by
  cases consecutive with
  | cons whole offset later => exact ⟨whole, offset, later⟩

/-- Whether bytes are known operations, each followed by all bytes of its operands. -/
inductive IsStream : List UInt8 → Prop
  | nil : IsStream []
  | cons (op : Opcode) {operands rest : List UInt8} :
      operands.length = (op.operands.map OperandKind.size).sum → IsStream rest →
      IsStream (op.code :: (operands ++ rest))

/-- Why bytes do not begin with an instruction: the first of them is no operation, or the operands
of the operation run past the end. -/
inductive Refused (place : Nat) : List UInt8 → DecodeError → Prop
  | unknown {byte : UInt8} {rest : List UInt8} :
      Opcode.ofCode? byte = none →
      Refused place (byte :: rest) (.unknownOpcode (UInt32.ofNat place) byte)
  | truncated {op : Opcode} {rest : List UInt8} :
      rest.length < (op.operands.map OperandKind.size).sum →
      Refused place (op.code :: rest) (.truncated (UInt32.ofNat place) op)

theorem Refused.not_instruction {place : Nat} {instruction : Decoded} {after : List UInt8}
    {error : DecodeError} (refused : Refused place (instruction.bytes ++ after) error)
    (whole : instruction.IsWhole) : False := by
  generalize split : instruction.bytes ++ after = bytes at refused
  cases refused with
  | unknown unknown =>
    injection split with code _
    rw [← code, Opcode.ofCode?_code] at unknown
    cases unknown
  | @truncated op operands short =>
    injection split with code rest
    have sameOp : instruction.op = op :=
      Option.some_inj.1 ((Opcode.ofCode?_code _).symm.trans ((congrArg _ code).trans
        op.ofCode?_code))
    have lengths : (operandBytes instruction.op.operands instruction.operands ++ after).length =
        operands.length := congrArg List.length rest
    rw [List.length_append, length_operandBytes whole, sameOp] at lengths
    omega

/-- How bytes are read: as instructions that stand one behind the other from a place on, up to the
end or to bytes that begin no instruction. -/
structure Reads (place : Nat) (bytes : List UInt8) (instructions : List Decoded)
    (rest : List UInt8) (error : Option DecodeError) : Prop where
  consecutive : Consecutive place instructions
  split : bytes = instructions.flatMap Decoded.bytes ++ rest
  ended : error = none → rest = []
  refused : ∀ found, error = some found →
    Refused (place + (instructions.flatMap Decoded.bytes).length) rest found

namespace Reads

variable {place : Nat} {bytes rest : List UInt8} {instructions : List Decoded}
  {error : Option DecodeError}

theorem atEnd (place : Nat) : Reads place [] [] [] none where
  consecutive := .nil place
  split := rfl
  ended := fun _ => rfl
  refused := fun _ => nofun

theorem stopped {found : DecodeError} (refused : Refused place bytes found) :
    Reads place bytes [] bytes (some found) where
  consecutive := .nil place
  split := rfl
  ended := nofun
  refused := by
    rintro _ ⟨⟩
    exact refused

theorem cons {instruction : Decoded} (whole : instruction.IsWhole)
    (offset : instruction.offset.toNat = place)
    (reads : Reads (place + instruction.bytes.length) bytes instructions rest error) :
    Reads place (instruction.bytes ++ bytes) (instruction :: instructions) rest error where
  consecutive := .cons whole offset reads.consecutive
  split := by rw [List.flatMap_cons, List.append_assoc, ← reads.split]
  ended := reads.ended
  refused := by
    intro found same
    rw [List.flatMap_cons, List.length_append, ← Nat.add_assoc]
    exact reads.refused found same

/-- Nothing is left exactly if no error is found. -/
theorem error_eq_none_iff (reads : Reads place bytes instructions rest error) :
    error = none ↔ rest = [] := by
  refine ⟨reads.ended, fun empty => ?_⟩
  cases error with
  | none => rfl
  | some found =>
    have refused := reads.refused found rfl
    rw [empty] at refused
    cases refused

theorem prefix_of_consecutive {others : List Decoded} {remainder : List UInt8}
    (reads : Reads place bytes instructions rest error) (consecutive : Consecutive place others)
    (split : bytes = others.flatMap Decoded.bytes ++ remainder) : others <+: instructions := by
  induction others generalizing place bytes instructions with
  | nil => exact List.nil_prefix
  | cons other others ih =>
    obtain ⟨whole, offset, later⟩ := consecutive.of_cons
    rw [List.flatMap_cons, List.append_assoc] at split
    cases instructions with
    | nil =>
      have left : rest = other.bytes ++ (others.flatMap Decoded.bytes ++ remainder) :=
        reads.split.symm.trans split
      cases error with
      | none =>
        rw [reads.ended rfl] at left
        cases left
      | some found =>
        have refused := reads.refused found rfl
        rw [left] at refused
        exact (refused.not_instruction whole).elim
    | cons instruction instructions =>
      obtain ⟨instructionWhole, instructionOffset, rests⟩ := reads.consecutive.of_cons
      have same := reads.split.symm.trans split
      rw [List.flatMap_cons, List.append_assoc] at same
      obtain ⟨rfl, tail⟩ := Decoded.eq_of_bytes instructionWhole whole
        (UInt32.toNat_inj.1 (instructionOffset.trans offset.symm)) same
      have shorter : Reads (place + instruction.bytes.length)
          (instructions.flatMap Decoded.bytes ++ rest) instructions rest error := by
        refine ⟨rests, rfl, reads.ended, ?_⟩
        intro found isError
        have refused := reads.refused found isError
        rw [List.flatMap_cons, List.length_append, ← Nat.add_assoc] at refused
        exact refused
      exact List.cons_prefix_cons.2 ⟨rfl, ih shorter later tail⟩

end Reads

theorem Consecutive.isStream {place : Nat} {instructions : List Decoded}
    (consecutive : Consecutive place instructions) :
    IsStream (instructions.flatMap Decoded.bytes) := by
  induction consecutive with
  | nil => exact .nil
  | cons whole _ _ ih =>
    exact .cons _ (length_operandBytes whole) ih

theorem IsStream.exists_consecutive {bytes : List UInt8} (stream : IsStream bytes) (place : Nat)
    (short : place + bytes.length < 2 ^ 32) :
    ∃ instructions, Consecutive place instructions ∧
      bytes = instructions.flatMap Decoded.bytes := by
  induction stream generalizing place with
  | nil => exact ⟨[], .nil place, rfl⟩
  | @cons op operands rest size _ ih =>
    obtain ⟨words, whole, rfl⟩ := exists_operandBytes op.operands operands size
    rw [List.length_cons, List.length_append] at short
    let instruction : Decoded := ⟨UInt32.ofNat place, op, words⟩
    obtain ⟨instructions, consecutive, rfl⟩ :=
      ih (place + instruction.bytes.length) (by
        change place + ((operandBytes op.operands words).length + 1) + _ < _
        omega)
    exact ⟨instruction :: instructions,
      .cons whole (UInt32.toNat_ofNat_of_lt (show place < 2 ^ 32 by omega)) consecutive, rfl⟩

/-! ## Decoding -/

namespace Assembly

variable {assembly : Assembly}

/-- The instruction that is read where an operation and all bytes of its operands are. -/
theorem whole_of_inside {before bytes : List UInt8} {op : Opcode}
    (split : Bytes.toList assembly.code = before ++ op.code :: bytes)
    (inside : op.size ≤ bytes.length + 1) :
    let instruction : Decoded :=
      ⟨UInt32.ofNat before.length, op,
        readOperands assembly.code (before.length + 1) op.operands⟩
    instruction.IsWhole ∧ op.code :: bytes = instruction.bytes ++ bytes.drop (op.size - 1) := by
  have size := op.size_eq
  obtain ⟨operands, hold, written⟩ := exists_operandBytes op.operands (bytes.take (op.size - 1))
    (by rw [List.length_take]; omega)
  have tail : bytes = operandBytes op.operands operands ++ bytes.drop (op.size - 1) := by
    rw [written, List.take_append_drop]
  have read : readOperands assembly.code (before.length + 1) op.operands = operands := by
    have read := @readOperands_eq _ _ assembly.code (before ++ [op.code])
      (bytes.drop (op.size - 1)) hold (by
        rw [split, List.append_assoc, List.singleton_append]
        exact congrArg (fun rest => before ++ op.code :: rest) tail)
    rwa [List.length_append, List.length_singleton] at read
  rw [read]
  exact ⟨hold, congrArg (op.code :: ·) tail⟩

theorem decodeFrom_reads (short : assembly.code.size < 2 ^ 32) (before bytes : List UInt8)
    (split : Bytes.toList assembly.code = before ++ bytes) {fuel : Nat}
    (enough : bytes.length ≤ fuel) (done : Array Decoded) :
    ∃ instructions error rest,
      assembly.decodeFrom fuel before.length done = (done ++ instructions.toArray, error) ∧
        Reads before.length bytes instructions rest error := by
  have total : assembly.code.size = before.length + bytes.length := by
    rw [← Bytes.length_toList, split, List.length_append]
  induction fuel generalizing before bytes done with
  | zero =>
    cases List.length_eq_zero_iff.1 (Nat.le_zero.1 enough)
    exact ⟨[], none, [], by simp [decodeFrom], .atEnd _⟩
  | succ fuel ih =>
    cases bytes with
    | nil =>
      rw [List.length_nil, Nat.add_zero] at total
      exact ⟨[], none, [], by simp [decodeFrom, total], .atEnd _⟩
    | cons byte bytes =>
      have first : Bytes.byteAt assembly.code before.length = byte := Bytes.byteAt_split split
      rw [List.length_cons] at enough total
      unfold decodeFrom
      rw [if_pos (by omega), first]
      dsimp only
      cases known : Opcode.ofCode? byte with
      | none => exact ⟨[], _, byte :: bytes, by simp, .stopped (.unknown known)⟩
      | some op =>
        cases Fragment.code_ofCode? known
        dsimp only
        have size := op.size_eq
        split
        · next inside =>
          obtain ⟨whole, bytesEq⟩ := whole_of_inside split (by omega)
          generalize readOperands assembly.code (before.length + 1) op.operands = operands
            at whole bytesEq ⊢
          let instruction : Decoded := ⟨UInt32.ofNat before.length, op, operands⟩
          have length : instruction.bytes.length = op.size := Decoded.length_bytes whole
          obtain ⟨instructions, error, rest, decoded, reads⟩ :=
            ih (before ++ instruction.bytes) (bytes.drop (op.size - 1))
              (by rw [split, bytesEq, List.append_assoc])
              (by rw [List.length_drop]; omega) (done.push instruction)
              (by rw [List.length_append, length, List.length_drop]; omega)
          rw [List.length_append] at decoded reads
          refine ⟨instruction :: instructions, error, rest, ?_, ?_⟩
          · rw [← length]
            refine decoded.trans ?_
            simp
          · rw [bytesEq]
            have place : before.length < 2 ^ 32 := by omega
            exact .cons whole (UInt32.toNat_ofNat_of_lt place) reads
        · next outside =>
          exact ⟨[], _, op.code :: bytes, by simp, .stopped (.truncated (by omega))⟩

/-- Decoding accepts exactly the well-formed streams. The instructions it gives are written as a
beginning of the bytes, one behind the other from the start on; there is no error exactly if this is
all of the bytes, which is so exactly if they are a stream. Otherwise the next byte is no operation
or begins one whose operands run past the end. Any instructions that the bytes begin with are the
first of those. -/
theorem decode_exact (assembly : Assembly) (short : assembly.code.size < 2 ^ 32) :
    ∃ instructions error rest,
      assembly.decode = (instructions.toArray, error) ∧
        Bytes.toList assembly.code = instructions.flatMap Decoded.bytes ++ rest ∧
        Consecutive 0 instructions ∧
        (error = none ↔ rest = []) ∧
        (rest = [] ↔ IsStream (Bytes.toList assembly.code)) ∧
        (rest ≠ [] → ∃ found, error = some found ∧
          Refused (instructions.flatMap Decoded.bytes).length rest found) ∧
        ∀ others remainder, Consecutive 0 others →
          Bytes.toList assembly.code = others.flatMap Decoded.bytes ++ remainder →
          others <+: instructions := by
  obtain ⟨instructions, error, rest, decoded, reads⟩ :=
    decodeFrom_reads short [] (Bytes.toList assembly.code) rfl
      (Nat.le_of_eq (Bytes.length_toList assembly.code)) #[]
  rw [Array.empty_append] at decoded
  refine ⟨instructions, error, rest, decoded, reads.split, reads.consecutive,
    reads.error_eq_none_iff, ?_, ?_, fun others remainder => reads.prefix_of_consecutive⟩
  · constructor
    · intro empty
      have split := reads.split
      rw [empty, List.append_nil] at split
      rw [split]
      exact reads.consecutive.isStream
    · intro stream
      obtain ⟨others, consecutive, split⟩ := stream.exists_consecutive 0
        (by rw [Bytes.length_toList]; omega)
      -- What was read is at least the whole stream, so nothing can be left.
      obtain ⟨more, rfl⟩ := reads.prefix_of_consecutive consecutive
        (split.trans (List.append_nil _).symm)
      have both := split.symm.trans reads.split
      rw [List.flatMap_append, List.append_assoc] at both
      have none := List.self_eq_append_right.1 both
      exact (List.append_eq_nil_iff.1 none).2
  · intro left
    cases error with
    | none => exact absurd (reads.ended rfl) left
    | some found =>
      have refused := reads.refused found rfl
      rw [List.length_nil, Nat.zero_add] at refused
      exact ⟨found, rfl, refused⟩

/-- A loaded number, a return and a call without its last byte. -/
def brokenCall : Assembly where
  code := Bytes.ofList [0x01, 0xfb, 0xff, 0xff, 0xff, 0x95, 0x92, 0, 0, 0, 0, 1]
  literals := #[]
  entries := #[]

/-- There are no other two instructions to read. -/
theorem decode_exact_brokenCall :
    brokenCall.code.size < 2 ^ 32 ∧
      brokenCall.decode =
        (#[⟨0, .loadInt, [0xfffffffb]⟩, ⟨5, .ret, []⟩], some (.truncated 6 .call)) ∧
      ∀ others remainder, Consecutive 0 others →
        Bytes.toList brokenCall.code = others.flatMap Decoded.bytes ++ remainder →
        others <+: [⟨0, .loadInt, [0xfffffffb]⟩, ⟨5, .ret, []⟩] := by
  have short : brokenCall.code.size < 2 ^ 32 := by decide
  have decoded : brokenCall.decode =
      (#[⟨0, .loadInt, [0xfffffffb]⟩, ⟨5, .ret, []⟩], some (.truncated 6 .call)) := by
    decide
  obtain ⟨instructions, error, rest, same, _, _, _, _, _, first⟩ := decode_exact brokenCall short
  rw [decoded] at same
  have list : [⟨0, .loadInt, [0xfffffffb]⟩, ⟨5, .ret, []⟩] = instructions :=
    congrArg (fun read => read.1.toList) same
  rw [← list] at first
  exact ⟨short, decoded, first⟩

end Assembly

end WordMachine
