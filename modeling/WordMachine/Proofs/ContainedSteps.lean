import WordMachine.Proofs.BoundedExecution
import WordMachine.Proofs.LiveReferences
import WordMachine.Proofs.Operands

/-!
Containment of arbitrary code. Whatever bytes a program consists of, a step of an executor ends
regularly or with one of the five classes of faults. It reads no code but the bytes of its
instruction, follows only chains of links that end, and leaves the stacks within their limits.
-/

namespace WordMachine

/-! ## What an instruction reads of the code -/

namespace Bytes

variable {first second : Bytes} {position : Nat}

theorem u32At_congr
    (same : ∀ offset < 4, first.byteAt (position + offset) = second.byteAt (position + offset)) :
    first.u32At position = second.u32At position := by
  unfold u32At
  rw [show first.byteAt position = second.byteAt position from same 0 (by decide),
    same 1 (by decide), same 2 (by decide), same 3 (by decide)]

theorem u64At_congr
    (same : ∀ offset < 8, first.byteAt (position + offset) = second.byteAt (position + offset)) :
    first.u64At position = second.u64At position := by
  have low : first.u32At position = second.u32At position :=
    u32At_congr fun offset inside => same offset (by omega)
  have high : first.u32At (position + 4) = second.u32At (position + 4) := by
    refine u32At_congr fun offset inside => ?_
    rw [Nat.add_assoc]
    exact same (4 + offset) (by omega)
  unfold u64At
  rw [low, high]

theorem read_congr (kind : OperandKind) (same : ∀ offset < kind.size,
      first.byteAt (position + offset) = second.byteAt (position + offset)) :
    kind.read first position = kind.read second position := by
  cases kind with
  | u8 =>
    have byte : first.byteAt position = second.byteAt position := same 0 (by decide)
    simp only [OperandKind.read, byte]
  | i32 | u32 | f32 => simp only [OperandKind.read, u32At_congr same]
  | i64 => simp only [OperandKind.read, u64At_congr same]

theorem operandWords_congr (kinds : List OperandKind)
    (same : ∀ offset < (kinds.map OperandKind.size).sum,
      first.byteAt (position + offset) = second.byteAt (position + offset)) :
    Exec.operandWords first position kinds = Exec.operandWords second position kinds := by
  induction kinds generalizing position with
  | nil => rfl
  | cons kind rest ih =>
    rw [List.map_cons, List.sum_cons] at same
    have here := read_congr kind fun offset inside => same offset (by omega)
    have there : Exec.operandWords first (position + kind.size) rest =
        Exec.operandWords second (position + kind.size) rest := by
      refine ih fun offset inside => ?_
      rw [Nat.add_assoc]
      exact same (kind.size + offset) (by omega)
    unfold Exec.operandWords
    rw [here, there]

end Bytes

theorem Opcode.size_eq (op : Opcode) : op.size = 1 + (op.operands.map OperandKind.size).sum := by
  cases op <;> rfl

/-- Whether assemblies are the same as far as an instruction at a position goes: in its bytes and in
the literal that it names. -/
structure Assembly.AgreeOn (op : Opcode) (position : Nat) (first second : Assembly) : Prop where
  bytes : ∀ offset < op.size,
    first.code.byteAt (position + offset) = second.code.byteAt (position + offset)
  literal : op = .loadString →
    first.literal? (first.code.u32At (position + 1)) =
      second.literal? (first.code.u32At (position + 1))

namespace Assembly.AgreeOn

variable {op : Opcode} {position : Nat} {first second : Assembly}

theorem byteAt (agree : AgreeOn op position first second) (start : Nat) (inside : start < op.size) :
    first.code.byteAt (position + start) = second.code.byteAt (position + start) :=
  agree.bytes start inside

theorem u32At (agree : AgreeOn op position first second) (start : Nat)
    (inside : start + 4 ≤ op.size) :
    first.code.u32At (position + start) = second.code.u32At (position + start) := by
  refine Bytes.u32At_congr fun offset less => ?_
  rw [Nat.add_assoc]
  exact agree.bytes (start + offset) (by omega)

theorem u64At (agree : AgreeOn op position first second) (start : Nat)
    (inside : start + 8 ≤ op.size) :
    first.code.u64At (position + start) = second.code.u64At (position + start) := by
  refine Bytes.u64At_congr fun offset less => ?_
  rw [Nat.add_assoc]
  exact agree.bytes (start + offset) (by omega)

/-- An instruction depends on nothing else of an assembly. -/
theorem perform_eq (agree : AgreeOn op position first second) :
    Exec.perform first op (position + 1) = Exec.perform second op (position + 1) := by
  cases op with
  | loadInt | loadFloat | loadAddress | jump | jumpIf =>
    simp only [Exec.perform, agree.u32At 1 (by decide)]
  | loadLong => simp only [Exec.perform, agree.u64At 1 (by decide)]
  | loadString =>
    have literal := agree.literal rfl
    rw [agree.u32At 1 (by decide)] at literal
    simp only [Exec.perform, Exec.loadString, agree.u32At 1 (by decide), literal]
  | reserveConsts | storeConst | loadConst | makeStruct | loadField | platformCall =>
    simp only [Exec.perform, agree.byteAt 1 (by decide)]
  | call =>
    have count : first.code.byteAt (position + 1 + 4) = second.code.byteAt (position + 1 + 4) :=
      agree.byteAt 5 (by decide)
    have mode : first.code.byteAt (position + 1 + 5) = second.code.byteAt (position + 1 + 5) :=
      agree.byteAt 6 (by decide)
    simp only [Exec.perform, agree.u32At 1 (by decide), count, mode]
  | callDynamic =>
    have mode : first.code.byteAt (position + 1 + 1) = second.code.byteAt (position + 1 + 1) :=
      agree.byteAt 2 (by decide)
    simp only [Exec.perform, agree.byteAt 1 (by decide), mode]
  | _ => rfl

theorem instructionLine_eq (agree : AgreeOn op position first second) (executor : Nat) :
    Exec.instructionLine executor first.code position op =
      Exec.instructionLine executor second.code position op := by
  have words : Exec.operandWords first.code (position + 1) op.operands =
      Exec.operandWords second.code (position + 1) op.operands := by
    refine Bytes.operandWords_congr op.operands fun offset inside => ?_
    rw [Nat.add_assoc]
    refine agree.bytes (1 + offset) ?_
    rw [op.size_eq]
    omega
  unfold Exec.instructionLine
  rw [words]
  cases op with
  | platformCall => rw [agree.byteAt 1 (by decide)]
  | _ => rfl

end Assembly.AgreeOn

/-! ## Chains of links -/

namespace Heap

variable {heap : Heap}

/-- The walk from a word along links, however many they are: the text at the end with the bytes of
the links on the way, or a fault. -/
inductive Walks (heap : Heap) : Word → List UInt8 → Except Fault (Bytes × List UInt8) → Prop
  | fault {word : Word} {tail : List UInt8} {fault : Fault} :
      heap.deref word = .error fault →
      Walks heap word tail (.error fault)
  | string {word : Word} {tail : List UInt8} {text : Bytes} :
      heap.Contains word (.string text) →
      Walks heap word tail (.ok (text, tail))
  | blank {word : Word} {tail : List UInt8} {length : Nat} :
      heap.Contains word (.blank length) →
      Walks heap word tail (.ok (Bytes.replicate length 0, tail))
  | remembered {word previous : Word} {tail : List UInt8} {byte : UInt8} {text : Bytes} :
      heap.Contains word (.link previous byte (some text)) →
      Walks heap word tail (.ok (text, tail))
  | link {word previous : Word} {tail : List UInt8} {byte : UInt8}
      {result : Except Fault (Bytes × List UInt8)} :
      heap.Contains word (.link previous byte none) →
      Walks heap previous (byte :: tail) result →
      Walks heap word tail result
  | broken {word : Word} {tail : List UInt8} {payload : Payload} :
      heap.Contains word payload → payload.kind ≠ .string → payload.kind ≠ .stringLink →
      Walks heap word tail (.error (.notRef 0))

/-- A link that leads back to where it came from would be followed for ever. -/
theorem not_returns (chains : WellFounded (Precedes heap)) {word previous other : Word}
    {byte : UInt8} {flat : Option Bytes} (contains : heap.Contains word (.link previous byte flat))
    (later : Relation.TransGen (Precedes heap) word other) : position other ≠ position word := by
  intro same
  obtain ⟨between, reaches, object, otherByte, otherFlat, found, payload⟩ :=
    Relation.TransGen.tail'_iff.1 later
  have others : heap.Contains other (.link between otherByte otherFlat) :=
    ⟨object.size, by rw [found, ← payload]⟩
  have index := (position_inj others.position_lt.2 contains.position_lt.2).1 same
  obtain ⟨rfl, -, -⟩ := Payload.link.inj (others.of_index_eq contains index)
  obtain ⟨size, wordFound⟩ := contains
  have precedes : Precedes heap between word := ⟨_, byte, flat, wordFound, rfl⟩
  have cycle : Relation.TransGen (Precedes heap) word word :=
    Relation.TransGen.tail' reaches precedes
  exact chains.transGen.asymmetric _ _ cycle cycle

/-- The walk ends within the given number of links: no slot comes up twice. -/
theorem walks_chainText (chains : WellFounded (Precedes heap)) (word : Word) :
    ∀ (visited : List Nat) (fuel : Nat) (tail : List UInt8),
      visited.Nodup →
      (∀ place ∈ visited, place < heap.slots.size ∧
        ∃ other, position other = place ∧ Relation.TransGen (Precedes heap) word other) →
      heap.slots.size < fuel + visited.length →
      heap.Walks word tail (heap.chainText fuel word tail) := by
  induction word using chains.induction with
  | _ word ih =>
    intro visited fuel tail distinct earlier enough
    have few := length_le_of_nodup distinct fun place member => (earlier place member).1
    obtain ⟨fuel, rfl⟩ : ∃ less, fuel = less + 1 := ⟨fuel - 1, by omega⟩
    unfold chainText
    cases found : heap.deref word with
    | error fault => exact .fault found
    | ok object =>
      obtain ⟨size, payload⟩ := object
      have contains : heap.Contains word payload := ⟨size, found⟩
      cases payload with
      | string text => exact .string contains
      | blank length => exact .blank contains
      | link previous byte flat =>
        cases flat with
        | some text => exact .remembered contains
        | none =>
          have precedes : Precedes heap previous word := ⟨_, byte, none, found, rfl⟩
          refine .link contains (ih previous precedes
            (position word :: visited) fuel (byte :: tail) ?_ ?_ ?_)
          · refine List.nodup_cons.2 ⟨fun member => ?_, distinct⟩
            obtain ⟨_, other, same, later⟩ := earlier _ member
            exact not_returns chains contains later same
          · intro place member
            rcases List.mem_cons.1 member with rfl | member
            · exact ⟨contains.position_lt.1, word, rfl, .single precedes⟩
            · obtain ⟨inside, other, same, later⟩ := earlier place member
              exact ⟨inside, other, same, .head precedes later⟩
          · rw [List.length_cons]
            omega
      | struct | long | future | lazy | stream =>
        exact .broken contains (by simp [Payload.kind]) (by simp [Payload.kind])

end Heap

/-! ## Arithmetic and fields -/

namespace Exec

open Evaluation (exec_bind exec_look exec_pop withOperands)

variable {session : Session} {rest : Array Word}
variable {word : Word}

theorem popInt_eq (items : session.executor.eval.items = rest.push word) :
    popInt session = .ok word.toInt (withOperands session rest) :=
  exec_bind (exec_pop items)

theorem popLong_eq {value : Int64} (items : session.executor.eval.items = rest.push word)
    (viewed : session.shared.heap.long word = .ok value) :
    popLong session = .ok value (withOperands session rest) := by
  have seen : long word (withOperands session rest) = .ok value (withOperands session rest) :=
    exec_look (·.long word) viewed
  exact (exec_bind (exec_pop items)).trans seen

/-- A division ends execution if the divisor is zero. All other operands have a result, the least
number and minus one among them, and there is room for it. -/
theorem intDivision_eq {left right : Word} (operation : Int32 → Int32 → Int32)
    (items : session.executor.eval.items = (rest.push left).push right)
    (fits : session.executor.eval.items.size ≤ session.executor.eval.capacity) :
    intDivision operation session =
      if right.toInt = 0 then fail .divByZero (withOperands session rest)
      else
        .ok ()
          (withOperands session (rest.push (.ofInt (operation left.toInt right.toInt)))) := by
  have second : popInt (withOperands session (rest.push left)) =
      .ok left.toInt (withOperands session rest) := popInt_eq rfl
  have room : rest.size < session.executor.eval.capacity := by
    rw [items, Array.size_push, Array.size_push] at fits
    omega
  unfold intDivision
  rw [exec_bind (popInt_eq items), exec_bind second]
  by_cases zero : right.toInt = 0
  · rw [if_pos zero, zero]
    rfl
  · have other : (right.toInt == 0) = false := by simpa using zero
    rw [if_neg zero, other]
    simp [pushInt, push, modifyExecutor, Executor.push, withOperands, room]

theorem longDivision_eq {left right : Word} {dividend divisor : Int64}
    (operation : Int64 → Int64 → Int64)
    (items : session.executor.eval.items = (rest.push left).push right)
    (leftLong : session.shared.heap.long left = .ok dividend)
    (rightLong : session.shared.heap.long right = .ok divisor) :
    longDivision operation session =
      if divisor = 0 then fail .divByZero (withOperands session rest)
      else pushLong (operation dividend divisor) (withOperands session rest) := by
  have second : popLong (withOperands session (rest.push left)) =
      .ok dividend (withOperands session rest) := popLong_eq rfl leftLong
  unfold longDivision
  rw [exec_bind (popLong_eq items rightLong), exec_bind second]
  by_cases zero : divisor = 0
  · rw [if_pos zero, zero]
    rfl
  · have other : (divisor == 0) = false := by simpa using zero
    rw [if_neg zero, other]
    rfl

theorem loadField_eq_fail {fields : Array Word} {index : UInt8}
    (items : session.executor.eval.items = rest.push word)
    (viewed : session.shared.heap.fields word = .ok fields) (outside : fields.size ≤ index.toNat) :
    loadField index session = fail .invalidAssembly (withOperands session rest) := by
  have seen : look (·.fields word) (withOperands session rest) =
      .ok fields (withOperands session rest) := exec_look (·.fields word) viewed
  unfold loadField
  rw [exec_bind (exec_pop items), exec_bind seen, Array.getElem?_eq_none outside]

theorem loadString_eq_fail {assembly : Assembly} {number : UInt32}
    (outside : assembly.literals.size ≤ number.toNat) :
    loadString assembly number = fail .invalidAssembly := by
  unfold loadString Assembly.literal?
  rw [Array.getElem?_eq_none outside]

end Exec

example : Int32.minValue / -1 = Int32.minValue ∧ Int32.minValue % -1 = 0 := by decide

example : Int64.minValue / -1 = Int64.minValue ∧ Int64.minValue % -1 = 0 := by decide

namespace ConstStack

variable {stack : ConstStack} {slot : UInt8}

theorem load_eq_error (outside : stack.top ≤ stack.base + slot.toNat) :
    stack.load slot = .error (.slotOutOfRange slot (stack.top - stack.base)) := by
  unfold load
  dsimp only
  rw [Array.getElem?_eq_none outside]
  rfl

theorem store_eq_error (outside : stack.top ≤ stack.base + slot.toNat) (word : Word) :
    stack.store slot word = .error (.slotOutOfRange slot (stack.top - stack.base)) := by
  unfold store
  exact if_neg (Nat.not_lt.2 outside)

end ConstStack

namespace EvalStack

variable {stack : EvalStack} {depth : Nat}

/-- Whether an operation is refused for want of operands. -/
def Lacks {α : Type} (result : Except Fault α) : Prop :=
  ∃ fault : Fault, fault.code = 1003 ∧ result = .error fault

theorem lacks_operands (outside : stack.items.size ≤ depth) :
    Lacks (stack.peekBehind depth) ∧ Lacks (stack.popAt depth) ∧
      Lacks (stack.popMany (depth + 1)) := by
  refine ⟨⟨.peekBehind depth stack.items.size, rfl, ?_⟩,
    ⟨.popBehind depth stack.items.size, rfl, ?_⟩, ⟨.popMany (depth + 1) stack.items.size, rfl, ?_⟩⟩
  · unfold peekBehind
    exact dif_neg (Nat.not_lt.2 outside)
  · unfold popAt
    exact dif_neg (Nat.not_lt.2 outside)
  · unfold popMany
    exact if_neg (Nat.not_le.2 (Nat.lt_succ_of_le outside))

end EvalStack

theorem Heap.deref_eq_error {heap : Heap} {word : Word}
    (missing : word.isRef = true → heap.lookup? word.toHandle = none) :
    ∃ fault : Fault, fault.code = 1001 ∧ heap.deref word = .error fault := by
  unfold deref
  by_cases isRef : word.isRef = true
  · rw [if_pos isRef, missing isRef]
    exact ⟨_, rfl, rfl⟩
  · rw [if_neg isRef]
    exact ⟨_, rfl, rfl⟩

theorem Fault.code_mem (fault : Fault) : fault.code ∈ [1001, 1002, 1003, 1004, 1005] := by
  cases fault <;> simp [code]

/-! ## Steps -/

namespace Session

open Evaluation (withOperands)

/-- What a session can come to in one step, and what of the program and the state the step may look
at. -/
structure Contained (settings : Settings) (session : Session) : Prop where
  bounded : session.executor.Bounded settings
  /-- A step, or an attempt of a waiting executor, ends regularly or with a fault of a known class,
  and leaves the stacks within their limits. -/
  outcome : ∀ computation ∈ [Exec.step, Exec.issue, Exec.settle],
    (∃ after, computation session = .ok () after ∧ after.executor.Bounded settings) ∨
      ∃ fault after, computation session = .error fault after ∧
        fault.code ∈ [1001, 1002, 1003, 1004, 1005] ∧ after.executor.Bounded settings
  /-- Where no whole instruction lies inside the code, execution ends. -/
  outside : session.instruction? = none → Exec.issue session =
    .ok () { session with executor := { session.executor with state := .invalidAssembly } }
  /-- The bytes of the instruction lie inside the code and are all that is read of it. -/
  code : ∀ op size, session.instruction? = some (op, size) →
    session.executor.ip.toNat + size ≤ session.shared.assembly.code.size ∧
      ∀ other : Assembly,
        session.shared.assembly.AgreeOn op session.executor.ip.toNat other →
          Exec.perform session.shared.assembly op (session.executor.ip.toNat + 1) =
              Exec.perform other op (session.executor.ip.toNat + 1) ∧
            Exec.instructionLine session.executor.id session.shared.assembly.code
                session.executor.ip.toNat op =
              Exec.instructionLine session.executor.id other.code session.executor.ip.toNat op
  /-- An operand, an object, a literal, a constant or a field that is not there is refused. -/
  operands : ∀ depth : Nat, session.executor.eval.items.size ≤ depth →
    EvalStack.Lacks (session.executor.eval.peekBehind depth) ∧
      EvalStack.Lacks (session.executor.eval.popAt depth) ∧
      EvalStack.Lacks (session.executor.eval.popMany (depth + 1))
  objects : ∀ word : Word,
    (word.isRef = true → session.shared.heap.lookup? word.toHandle = none) →
      ∃ fault : Fault, fault.code = 1001 ∧ session.shared.heap.deref word = .error fault
  literals : ∀ number : UInt32, session.shared.assembly.literals.size ≤ number.toNat →
    Exec.loadString session.shared.assembly number = Exec.fail .invalidAssembly
  constants : ∀ slot : UInt8,
    session.executor.consts.top ≤ session.executor.consts.base + slot.toNat →
      ∃ fault : Fault, fault.code = 1005 ∧ session.executor.consts.load slot = .error fault ∧
        ∀ word, session.executor.consts.store slot word = .error fault
  fields : ∀ (index : UInt8) (rest fields : Array Word) (word : Word),
    session.executor.eval.items = rest.push word →
    session.shared.heap.fields word = .ok fields → fields.size ≤ index.toNat →
      Exec.loadField index session = Exec.fail .invalidAssembly (withOperands session rest)
  /-- A division has a result for all operands but a zero divisor. -/
  intDivision : ∀ (operation : Int32 → Int32 → Int32) (rest : Array Word) (left right : Word),
    session.executor.eval.items = (rest.push left).push right →
      Exec.intDivision operation session =
        if right.toInt = 0 then Exec.fail .divByZero (withOperands session rest)
        else .ok () (withOperands session (rest.push (.ofInt (operation left.toInt right.toInt))))
  longDivision : ∀ (operation : Int64 → Int64 → Int64) (rest : Array Word) (left right : Word)
      (dividend divisor : Int64),
    session.executor.eval.items = (rest.push left).push right →
    session.shared.heap.long left = .ok dividend → session.shared.heap.long right = .ok divisor →
      Exec.longDivision operation session =
        if divisor = 0 then Exec.fail .divByZero (withOperands session rest)
        else Exec.pushLong (operation dividend divisor) (withOperands session rest)

theorem Bounded.outcome {session : Session} (bounded : session.Bounded) {computation : Exec Unit}
    (keeping : Exec.Keeping computation) :
    (∃ after, computation session = .ok () after ∧
        after.executor.Bounded session.shared.settings) ∨
      ∃ fault after, computation session = .error fault after ∧
        fault.code ∈ [1001, 1002, 1003, 1004, 1005] ∧
          after.executor.Bounded session.shared.settings := by
  cases ran : computation session with
  | ok value after =>
    have keeps : session.Keeps after := keeping.of_eq ran
    have own := (keeps.bounded bounded).own
    rw [keeps.settings] at own
    exact Or.inl ⟨after, rfl, own⟩
  | error fault after =>
    have keeps : session.Keeps after := keeping.of_eq ran
    have own := (keeps.bounded bounded).own
    rw [keeps.settings] at own
    exact Or.inr ⟨fault, after, rfl, fault.code_mem, own⟩

/-- No session within the limits gets out of them in one step. -/
theorem Bounded.contained {session : Session} (bounded : session.Bounded) :
    session.Contained session.shared.settings where
  bounded := bounded.own
  outcome := by
    intro computation member
    simp only [List.mem_cons, List.not_mem_nil, or_false] at member
    rcases member with rfl | rfl | rfl
    · exact bounded.outcome Exec.keeping_step
    · exact bounded.outcome Exec.keeping_issue
    · exact bounded.outcome Exec.indifferent_settle.keeping
  outside := Exec.issue_none session
  code := by
    intro op size found
    obtain ⟨rfl, inside⟩ := Exec.fetch?_eq_some found
    exact ⟨inside, fun other agree => ⟨agree.perform_eq, agree.instructionLine_eq _⟩⟩
  operands depth := EvalStack.lacks_operands
  objects word := Heap.deref_eq_error
  literals number := Exec.loadString_eq_fail
  constants slot outside :=
    ⟨_, rfl, ConstStack.load_eq_error outside, ConstStack.store_eq_error outside⟩
  fields index rest fields word := Exec.loadField_eq_fail
  intDivision operation rest left right items :=
    Exec.intDivision_eq operation items bounded.own.operands
  longDivision operation rest left right dividend divisor := Exec.longDivision_eq operation

theorem keeps_carry {computation : Exec Unit} (keeping : Exec.Keeping computation)
    (session : Session) : session.Keeps (session.carry computation) := by
  unfold carry
  cases ran : computation session with
  | ok value after => exact keeping.of_eq ran
  | error fault after => exact Keeps.trans (keeping.of_eq ran) (after.keeps_raise fault)

end Session

/-! ## Runs -/

namespace Machine

/-- What can happen to a machine next, under any schedule and with any number of objects. -/
inductive Act : Machine → Machine → Prop
  | move {machine after : Machine} :
      Move machine after →
      Act machine after
  | issue {machine : Machine} {position : Nat} {executor : Executor} :
      machine.executors[position]? = some executor →
      executor.state = .running →
      Act machine
        (machine.update position (Session.carry Exec.issue ⟨executor, machine.shared⟩)).adopt
  | settle {machine : Machine} {position : Nat} {executor : Executor} :
      machine.executors[position]? = some executor →
      executor.state = .paused →
      Act machine
        (machine.update position (Session.carry Exec.settle ⟨executor, machine.shared⟩)).adopt

/-- A machine all of whose executors are within the limits. -/
structure Bounded (settings : Settings) (machine : Machine) : Prop where
  limits : machine.shared.settings = settings
  executors : ∀ executor ∈ machine.executors, executor.Bounded settings
  spawned : ∀ child ∈ machine.shared.spawned, child.Bounded settings

variable {settings : Settings} {machine after : Machine}

theorem Bounded.session (bounded : machine.Bounded settings) {executor : Executor}
    (member : executor ∈ machine.executors) : Session.Bounded ⟨executor, machine.shared⟩ := by
  constructor
  case own =>
    rw [bounded.limits]
    exact bounded.executors executor member
  case spawned =>
    rw [bounded.limits]
    exact bounded.spawned

theorem Bounded.advance (bounded : machine.Bounded settings) {executor : Executor}
    (member : executor ∈ machine.executors) (position : Nat) {session : Session}
    (keeps : Session.Keeps ⟨executor, machine.shared⟩ session) :
    (machine.update position session).adopt.Bounded settings := by
  have same : session.shared.settings = settings := keeps.settings.trans bounded.limits
  obtain ⟨own, spawned⟩ := keeps.bounded (bounded.session member)
  rw [same] at own spawned
  have executors : ∀ other ∈ (machine.update position session).executors,
      other.Bounded settings := by
    intro other otherMember
    rcases Array.mem_or_eq_of_mem_setIfInBounds otherMember with before | rfl
    · exact bounded.executors other before
    · exact own
  unfold Machine.adopt
  split
  · exact ⟨same, executors, spawned⟩
  · refine ⟨same, fun other otherMember => ?_, fun _ nobody => nomatch nobody⟩
    rcases Array.mem_append.1 otherMember with before | joined
    · exact executors other before
    · exact spawned other (List.mem_reverse.1 (List.mem_toArray.1 joined))

theorem collect_settings (shared : Shared) (roots : List Word) :
    (shared.collect roots).2.settings = shared.settings := by
  refine Shared.collect_keeps (fun shared line => ?_) (fun _ _ => rfl) (fun _ _ => rfl) shared roots
  unfold Shared.log
  split <;> rfl

theorem Bounded.act (bounded : machine.Bounded settings) (act : Act machine after) :
    after.Bounded settings := by
  cases act with
  | issue found =>
    exact bounded.advance (Array.mem_of_getElem? found) _ (Session.keeps_carry Exec.keeping_issue _)
  | settle found =>
    exact bounded.advance (Array.mem_of_getElem? found) _
      (Session.keeps_carry Exec.indifferent_settle.keeping _)
  | move move =>
    cases move with
    | start ip id =>
      refine ⟨bounded.limits, fun executor member => ?_, bounded.spawned⟩
      rcases Array.mem_push.1 member with before | rfl
      · exact bounded.executors executor before
      · rw [bounded.limits]
        exact (Executor.bounded_start settings ip).of_stacks rfl rfl rfl
    | issue found =>
      exact bounded.advance (Array.mem_of_getElem? found) _
        (Session.keeps_carry Exec.keeping_issue _)
    | settle found =>
      exact bounded.advance (Array.mem_of_getElem? found) _
        (Session.keeps_carry Exec.indifferent_settle.keeping _)
    | stop found =>
      refine ⟨bounded.limits, fun executor member => ?_, bounded.spawned⟩
      rcases Array.mem_or_eq_of_mem_setIfInBounds member with before | rfl
      · exact bounded.executors executor before
      · exact (bounded.executors _ (Array.mem_of_getElem? found)).of_stacks rfl rfl rfl
    | abort => exact ⟨bounded.limits, bounded.executors, bounded.spawned⟩
    | @retire position executor found ended =>
      have left : ∀ other ∈ machine.executors.eraseIdxIfInBounds position,
          other.Bounded settings :=
        fun other member => bounded.executors other (mem_of_mem_eraseIdxIfInBounds member)
      unfold Machine.retire
      split
      · exact ⟨bounded.limits, left, bounded.spawned⟩
      · exact ⟨bounded.limits, left, bounded.spawned⟩
    | request requested => exact ⟨bounded.limits, bounded.executors, bounded.spawned⟩
    | collect =>
      refine ⟨(collect_settings _ _).trans bounded.limits, bounded.executors, ?_⟩
      rw [collect_spawned]
      exact bounded.spawned
    | outside platform journal milestones entryState =>
      exact ⟨bounded.limits, bounded.executors, bounded.spawned⟩

theorem Bounded.run (bounded : machine.Bounded settings)
    (run : Relation.ReflTransGen Act machine after) : after.Bounded settings := by
  induction run with
  | refl => exact bounded
  | tail _ act ih => exact ih.act act

/-- Whatever its code, its literals and its entry points are, a program cannot lead an executor out
of its bounds. As long as there are numbers for slots, the text of a string is found by following
links that come to an end. -/
theorem steps_contained {assembly : Assembly} {settings : Settings} {platform : Platform}
    {journal : Journal} {machine : Machine}
    (run : Relation.ReflTransGen Act (Machine.new assembly settings platform journal) machine) :
    (∀ executor ∈ machine.executors, Session.Contained settings ⟨executor, machine.shared⟩) ∧
      (Relation.ReflTransGen Move (Machine.new assembly settings platform journal) machine →
        ∀ word tail, machine.shared.heap.Walks word tail
          (machine.shared.heap.chainText (machine.shared.heap.slots.size + 1) word tail)) := by
  have start : (Machine.new assembly settings platform journal).Bounded settings :=
    ⟨rfl, fun _ nobody => absurd nobody (Array.not_mem_empty _), fun _ nobody => nomatch nobody⟩
  have bounded := start.run run
  constructor
  · intro executor member
    have contained := (bounded.session member).contained
    rw [bounded.limits] at contained
    exact contained
  · intro moves word tail
    have chains := ((safe_new assembly settings platform journal).run moves).intact.chains
    exact Heap.walks_chainText chains word [] _ tail List.nodup_nil (fun _ member => nomatch member)
      (by simp)

/-- A jump into its own operand, on the smallest stacks. -/
def jumping : Machine :=
  Machine.new { code := ⟨#[0x90, 1, 0, 0, 0]⟩, literals := #[], entries := #[0] }
    { evalStack := 1, constStack := 1, callStack := 1 } default .off

theorem steps_contained_jumping :
    ∃ machine, Relation.ReflTransGen Act jumping machine ∧ machine.executors.map (·.ip) = #[1] ∧
      ∀ executor ∈ machine.executors, executor.Bounded jumping.shared.settings ∧
        ∃ after, Exec.issue ⟨executor, machine.shared⟩ = .ok () after ∧
          after.executor.state = .invalidAssembly := by
  have start := Relation.ReflTransGen.single (Act.move (Move.start jumping 0 1))
  have jumps := start.tail (.move (move_issueFirst (by decide) (by decide)))
  obtain ⟨machine, run, places, nothing⟩ : ∃ machine, Relation.ReflTransGen Act jumping machine ∧
      machine.executors.map (·.ip) = #[1] ∧ ∀ executor ∈ machine.executors,
        Session.instruction? ⟨executor, machine.shared⟩ = none :=
    ⟨_, jumps, by decide +kernel, by decide +kernel⟩
  refine ⟨machine, run, places, fun executor member => ?_⟩
  have contained := (steps_contained run).1 executor member
  exact ⟨contained.bounded, _, contained.outside (nothing executor member), rfl⟩

end Machine

end WordMachine
